/-!
# Identifiers

Everything that is looked up by number carries the kind of thing it numbers, so that a variable
is never taken for a constraint.  Identifiers of one kind compare by number.
-/

namespace LiveQuery

/-- The kinds of things that are numbered. -/
inductive IdKind where
  | relation
  | variable
  | constraint
  | check
  | subPlan
  | partition
  | network
  | node
  | query
  | rule
  | activation
  deriving DecidableEq, Repr

/-- The number of a thing of one kind. -/
@[ext] structure Id (kind : IdKind) where
  index : Nat
  deriving DecidableEq, Repr, Inhabited

variable {kind : IdKind}

instance : Ord (Id kind) := ⟨compareOn Id.index⟩

instance : Std.TransOrd (Id kind) :=
  inferInstanceAs (Std.TransCmp (compareOn Id.index))

instance : Std.LawfulEqOrd (Id kind) where
  eq_of_compare equal := Id.ext (Std.LawfulEqOrd.eq_of_compare (α := Nat) equal)

abbrev RelationId := Id .relation
abbrev VarId := Id .variable
abbrev ConstraintId := Id .constraint
abbrev CheckId := Id .check
abbrev SubPlanId := Id .subPlan
abbrev PartitionId := Id .partition
abbrev NetworkId := Id .network
abbrev NodeId := Id .node
abbrev QueryId := Id .query
abbrev RuleId := Id .rule
abbrev ActivationId := Id .activation

end LiveQuery
