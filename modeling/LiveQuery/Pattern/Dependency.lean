import LiveQuery.Pattern.Constraint

/-!
# Closure under dependencies

The variables that a set of variables determines: the least set that contains them and, with the
left side of a dependency, also its right side.  The dependencies are gone through again and again
until a pass adds no variable.
-/

namespace LiveQuery.Dependency

/-- Whether the dependency can be applied to a set of variables. -/
def appliesTo (known : OrderedSet VarId) (dependency : Dependency) : Bool :=
  dependency.determining.isSubset known

/-- What going through some dependencies leads to. -/
structure Pass where
  known : OrderedSet VarId
  /-- The dependencies that could not be applied, in their order. -/
  pending : List Dependency
  /-- Whether a variable was added. -/
  changed : Bool
  deriving DecidableEq

/-- Goes through the dependencies once, in their order, and applies those that can be applied to the
variables known by then.  A dependency that is applied is used up, also if all that it determines is
known already. -/
def pass (known : OrderedSet VarId) : List Dependency → Pass
  | [] => ⟨known, [], false⟩
  | dependency :: rest =>
    if appliesTo known dependency then
      if dependency.determined.isSubset known then pass known rest
      else { pass (known.union dependency.determined) rest with changed := true }
    else
      let later := pass known rest
      { later with pending := dependency :: later.pending }

theorem pending_pass_sublist (known : OrderedSet VarId) (dependencies : List Dependency) :
    (pass known dependencies).pending.Sublist dependencies := by
  induction dependencies generalizing known with
  | nil => exact .slnil
  | cons dependency rest ih =>
    unfold pass
    split
    · split
      · exact (ih known).cons dependency
      · exact (ih _).cons dependency
    · exact (ih known).cons_cons dependency

/-- A pass that adds a variable uses up a dependency. -/
theorem length_pending_pass {known : OrderedSet VarId} {dependencies : List Dependency}
    (changed : (pass known dependencies).changed = true) :
    (pass known dependencies).pending.length < dependencies.length := by
  induction dependencies generalizing known with
  | nil => cases changed
  | cons dependency rest ih =>
    unfold pass at changed ⊢
    split at changed
    next applies =>
      rw [if_pos applies]
      split
      · exact Nat.lt_succ_of_le (pending_pass_sublist known rest).length_le
      · exact Nat.lt_succ_of_le (pending_pass_sublist _ rest).length_le
    next applies =>
      rw [if_neg applies]
      exact Nat.succ_lt_succ (ih changed)

/-- The variables that the given ones determine. -/
def closure (known : OrderedSet VarId) (dependencies : List Dependency) : OrderedSet VarId :=
  match _gone : pass known dependencies with
  | ⟨reached, pending, true⟩ => closure reached pending
  | ⟨reached, _, false⟩ => reached
termination_by dependencies.length
decreasing_by
  have changed : (pass known dependencies).changed = true := by rw [_gone]
  have fewer := length_pending_pass changed
  rwa [_gone] at fewer

end LiveQuery.Dependency
