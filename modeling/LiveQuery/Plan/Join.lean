import LiveQuery.Pattern.Dependency
import LiveQuery.Plan.Arena

/-!
# Join candidates

Two sub-plans can be joined in many ways over a body; a candidate tells how promising one pair is.
Pairs with common variables come before Cartesian products, joins that lose nothing by dependencies
before others, joins that only check before those that widen rows, and older pairs before newer.
-/

namespace LiveQuery

/-- Two sub-plans with what matters about joining them. -/
structure JoinCandidate where
  primary : SubPlanId
  secondary : SubPlanId
  /-- The variables that the rows of both show. -/
  common : OrderedSet VarId
  /-- The common variables determine all variables of one side. -/
  isHeath : Bool
  /-- The variables of one side are among those of the other. -/
  isCheckOnly : Bool
  deriving DecidableEq

namespace JoinCandidate

/-- What the constraints enforced by either sub-plan say about variables determining others. -/
def dependencies (arena : Arena) (body : Body) (primary secondary : SubPlanId) :
    List Dependency :=
  ((arena.enforced primary).union (arena.enforced secondary)).toList.flatMap body.dependenciesOf

/-- The candidate that joins two sub-plans of an arena. -/
def classify (arena : Arena) (body : Body) (primary secondary : SubPlanId) : JoinCandidate :=
  let first := arena.visible primary
  let second := arena.visible secondary
  let common := first.inter second
  let determined := Dependency.closure common (dependencies arena body primary secondary)
  { primary, secondary, common
    isHeath := first.isSubset determined || second.isSubset determined
    isCheckOnly := first.isSubset second || second.isSubset first }

/-- The candidate, or nothing when a sub-plan or one of its constraints does not exist. -/
def classify? (arena : Arena) (body : Body) (primary secondary : SubPlanId) :
    Option JoinCandidate := do
  let first ← arena.get? primary
  let second ← arena.get? secondary
  if (first.enforced.union second.enforced).toList.all (body.constraint? · |>.isSome) then
    some (classify arena body primary secondary)
  else none

/-- A sub-plan joined with itself. -/
def isTrivial (candidate : JoinCandidate) : Bool := candidate.primary = candidate.secondary

/-- A join without common variables pairs every row with every other. -/
def isCartesian (candidate : JoinCandidate) : Bool := candidate.common.isEmpty

/-- The order of preference; the smallest candidate is joined first. -/
def rank : JoinCandidate → JoinCandidate → Ordering :=
  compareLex (compareOn isCartesian) <|
  compareLex (compareOn fun candidate => !candidate.isHeath) <|
    compareLex (compareOn fun candidate => !candidate.isCheckOnly) <|
      compareLex (compareOn primary) (compareOn secondary)

/-- The earliest of the candidates that no other one precedes. -/
def best? : List JoinCandidate → Option JoinCandidate
  | [] => none
  | candidate :: rest =>
    some (rest.foldl (fun best other => if rank other best = .lt then other else best) candidate)

end JoinCandidate
end LiveQuery
