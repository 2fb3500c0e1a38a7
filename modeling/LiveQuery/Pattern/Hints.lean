/-!
# Hints

Options of planning and evaluation.  A query runs under a full set of hints; a pattern body may
override single hints for itself.
-/

namespace LiveQuery

/-- A full set of options. -/
structure Hints where
  /-- Constants on variables that other constraints bind become filters instead of sources. -/
  filterConstants : Bool := true
  /-- Variables that nothing needs any more are dropped before joins. -/
  trimVariables : Bool := true
  /-- Equal steps of different queries share one node of the network. -/
  shareNodes : Bool := false
  deriving DecidableEq, Repr, Inhabited

/-- Options that replace the given ones where they are present. -/
structure HintOverrides where
  filterConstants : Option Bool := none
  trimVariables : Option Bool := none
  shareNodes : Option Bool := none
  deriving DecidableEq, Repr, Inhabited

/-- The options after the overrides have replaced those that they name. -/
def Hints.merge (hints : Hints) (overrides : HintOverrides) : Hints where
  filterConstants := overrides.filterConstants.getD hints.filterConstants
  trimVariables := overrides.trimVariables.getD hints.trimVariables
  shareNodes := overrides.shareNodes.getD hints.shareNodes

end LiveQuery
