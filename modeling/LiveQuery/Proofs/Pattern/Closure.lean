import Mathlib.Order.Bounds.Basic
import LiveQuery.Pattern.Dependency

/-!
# The closure is the least closed set

A dependency that a pass applies is respected from then on, because its right side is known and
stays known (`pending_or_determined`).  One that is left over could not be applied when the pass
came to it, and fewer variables were known then than at the end of the pass.  But a pass after which
the loop stops has added none (`pass_unchanged`), so it is respected as well, however the
dependencies are ordered and whatever has been used up before.

The closure therefore is the least set that contains the given variables and respects the
dependencies (`closure_isLeast`).  All else follows from this: it only depends on which dependencies
there are, grows with what it is given, and is closed itself.
-/

namespace LiveQuery.Dependency

/-- With the left side of the dependency, a set contains its right side. -/
def Respects (dependency : Dependency) (set : VarId → Prop) : Prop :=
  (∀ subject ∈ dependency.determining, set subject) →
    ∀ subject ∈ dependency.determined, set subject

variable {known : OrderedSet VarId} {dependencies : List Dependency} {subject : VarId}

theorem appliesTo_iff {dependency : Dependency} :
    appliesTo known dependency = true ↔ ∀ subject ∈ dependency.determining, subject ∈ known :=
  OrderedSet.isSubset_iff

/-! ## One pass -/

theorem subset_pass (known : OrderedSet VarId) (dependencies : List Dependency) :
    ∀ subject ∈ known, subject ∈ (pass known dependencies).known := by
  fun_induction pass known dependencies with
  | case1 known => exact fun _ member => member
  | case2 known dependency rest _ _ ih => exact ih
  | case3 known dependency rest _ _ later ih =>
    exact fun subject member => ih subject (OrderedSet.mem_union.mpr (.inl member))
  | case4 known dependency rest _ later ih => exact ih

theorem pending_or_determined (known : OrderedSet VarId) {dependency : Dependency}
    (member : dependency ∈ dependencies) :
    dependency ∈ (pass known dependencies).pending ∨
      ∀ subject ∈ dependency.determined, subject ∈ (pass known dependencies).known := by
  fun_induction pass known dependencies with
  | case1 known => cases member
  | case2 known applied rest _ covered ih =>
    rcases List.mem_cons.mp member with rfl | member
    · exact .inr fun subject determined =>
        subset_pass known rest subject (OrderedSet.isSubset_iff.mp covered subject determined)
    · exact ih member
  | case3 known applied rest _ _ later ih =>
    rcases List.mem_cons.mp member with rfl | member
    · exact .inr fun subject determined =>
        subset_pass _ rest subject (OrderedSet.mem_union.mpr (.inr determined))
    · exact ih member
  | case4 known kept rest _ later ih =>
    rcases List.mem_cons.mp member with rfl | member
    · exact .inl List.mem_cons_self
    · exact (ih member).imp_left (List.mem_cons_of_mem _)

/-- A pass does not leave a set that contains the variables it starts with and respects the
dependencies. -/
theorem pass_within {set : VarId → Prop} (contains : ∀ subject ∈ known, set subject)
    (respects : ∀ dependency ∈ dependencies, dependency.Respects set) :
    ∀ subject ∈ (pass known dependencies).known, set subject := by
  fun_induction pass known dependencies with
  | case1 known => exact contains
  | case2 known applied rest _ _ ih =>
    exact ih contains fun other member => respects other (List.mem_cons_of_mem _ member)
  | case3 known applied rest applies _ later ih =>
    refine ih ?_ fun other member => respects other (List.mem_cons_of_mem _ member)
    intro subject listed
    rcases OrderedSet.mem_union.mp listed with listed | determined
    · exact contains subject listed
    · exact respects applied List.mem_cons_self
        (fun other left => contains other (appliesTo_iff.mp applies other left)) subject determined
  | case4 known kept rest _ later ih =>
    exact ih contains fun other member => respects other (List.mem_cons_of_mem _ member)

/-- A pass that adds nothing has compared every dependency that it leaves over with the variables
that are known in the end. -/
theorem pass_unchanged (unchanged : (pass known dependencies).changed = false) :
    (pass known dependencies).known = known ∧
      ∀ dependency ∈ (pass known dependencies).pending, appliesTo known dependency = false := by
  fun_induction pass known dependencies with
  | case1 known => exact ⟨rfl, fun _ member => by cases member⟩
  | case2 known applied rest _ _ ih => exact ih unchanged
  | case3 known applied rest _ _ later ih => cases unchanged
  | case4 known kept rest applies later ih =>
    obtain ⟨same, others⟩ := ih unchanged
    exact ⟨same, List.forall_mem_cons.mpr ⟨Bool.eq_false_of_not_eq_true applies, others⟩⟩

/-! ## The loop -/

/-- Started with some variables and dependencies, the loop ends after a number of passes with a
result: each pass but the last one adds a variable, and the next one goes on with what it left. -/
inductive Settles : OrderedSet VarId → List Dependency → Nat → OrderedSet VarId → Prop where
  | last {known : OrderedSet VarId} {dependencies : List Dependency}
      (unchanged : (pass known dependencies).changed = false) :
      Settles known dependencies 1 (pass known dependencies).known
  | again {known result : OrderedSet VarId} {dependencies : List Dependency} {passes : Nat}
      (changed : (pass known dependencies).changed = true)
      (later : Settles (pass known dependencies).known (pass known dependencies).pending passes
        result) :
      Settles known dependencies (passes + 1) result

/-- Every pass but the last one uses up a dependency. -/
theorem settles_closure (known : OrderedSet VarId) (dependencies : List Dependency) :
    ∃ passes ≤ dependencies.length + 1,
      Settles known dependencies passes (closure known dependencies) := by
  fun_induction closure known dependencies with
  | case1 known dependencies reached pending gone ih =>
    have changed : (pass known dependencies).changed = true := by rw [gone]
    have fewer := length_pending_pass changed
    obtain ⟨passes, bounded, settles⟩ := ih
    simp only [gone] at fewer
    refine ⟨passes + 1, by omega, .again changed ?_⟩
    rwa [gone]
  | case2 known dependencies reached pending gone =>
    have settles : Settles known dependencies 1 (pass known dependencies).known :=
      .last (by rw [gone])
    rw [gone] at settles
    exact ⟨1, by omega, settles⟩

theorem subset_closure (known : OrderedSet VarId) (dependencies : List Dependency) :
    ∀ subject ∈ known, subject ∈ closure known dependencies := by
  fun_induction closure known dependencies with
  | case1 known dependencies reached pending gone ih =>
    have kept := subset_pass known dependencies
    rw [gone] at kept
    exact fun subject member => ih subject (kept subject member)
  | case2 known dependencies reached pending gone =>
    have kept := subset_pass known dependencies
    rwa [gone] at kept

/-- The loop does not stop before all dependencies are respected. -/
theorem respects_closure (known : OrderedSet VarId) (dependencies : List Dependency) :
    ∀ dependency ∈ dependencies, dependency.Respects (· ∈ closure known dependencies) := by
  fun_induction closure known dependencies with
  | case1 known dependencies reached pending gone ih =>
    intro dependency member
    have used := pending_or_determined known member
    rw [gone] at used
    rcases used with left | determined
    · exact ih dependency left
    · exact fun _ subject listed => subset_closure reached pending subject (determined subject listed)
  | case2 known dependencies reached pending gone =>
    intro dependency member
    have used := pending_or_determined known member
    have unchanged : (pass known dependencies).changed = false := by rw [gone]
    have compared := pass_unchanged unchanged
    rw [gone] at used compared
    obtain ⟨rfl, inapplicable⟩ := compared
    rcases used with left | determined
    · intro applies
      exact absurd (appliesTo_iff.mpr applies) (by simp [inapplicable dependency left])
    · exact fun _ => determined

theorem closure_least (known : OrderedSet VarId) (dependencies : List Dependency)
    {set : VarId → Prop} (contains : ∀ subject ∈ known, set subject)
    (respects : ∀ dependency ∈ dependencies, dependency.Respects set) :
    ∀ subject ∈ closure known dependencies, set subject := by
  fun_induction closure known dependencies with
  | case1 known dependencies reached pending gone ih =>
    have within := pass_within contains respects
    have left := pending_pass_sublist known dependencies
    rw [gone] at within left
    exact ih within fun dependency member => respects dependency (left.subset member)
  | case2 known dependencies reached pending gone =>
    have within := pass_within contains respects
    rwa [gone] at within

/-- The closure is the least set that contains the given variables and respects all dependencies. -/
theorem mem_closure : subject ∈ closure known dependencies ↔
    ∀ set : VarId → Prop, (∀ subject ∈ known, set subject) →
      (∀ dependency ∈ dependencies, dependency.Respects set) → set subject := by
  constructor
  · intro member set contains respects
    exact closure_least known dependencies contains respects subject member
  · intro least
    exact least _ (subset_closure known dependencies) (respects_closure known dependencies)

/-! ## The least closed set -/

theorem closure_mono {more : OrderedSet VarId} {others : List Dependency}
    (contains : ∀ subject ∈ known, subject ∈ more)
    (listed : ∀ dependency ∈ dependencies, dependency ∈ others) :
    ∀ subject ∈ closure known dependencies, subject ∈ closure more others :=
  closure_least known dependencies
    (fun subject member => subset_closure more others subject (contains subject member))
    fun dependency member => respects_closure more others dependency (listed dependency member)

/-- The closure of variables under dependencies is found after at most one more pass than there are
dependencies.  It is the least set that contains the variables and, with the left side of a
dependency, its right side.  It does not depend on the order of the dependencies or on how often
they are listed, grows with the variables and the dependencies, and determines nothing else. -/
theorem closure_isLeast (seed : OrderedSet VarId) (dependencies : List Dependency) :
    (∃ passes ≤ dependencies.length + 1,
      Settles seed dependencies passes (closure seed dependencies)) ∧
    IsLeast {set : Set VarId | (∀ subject ∈ seed, subject ∈ set) ∧
        ∀ dependency ∈ dependencies, dependency.Respects (· ∈ set)}
      {subject | subject ∈ closure seed dependencies} ∧
    (∀ others : List Dependency,
      (∀ dependency, dependency ∈ others ↔ dependency ∈ dependencies) →
        closure seed others = closure seed dependencies) ∧
    (∀ (more : OrderedSet VarId) (others : List Dependency),
      (∀ subject ∈ seed, subject ∈ more) → (∀ dependency ∈ dependencies, dependency ∈ others) →
        ∀ subject ∈ closure seed dependencies, subject ∈ closure more others) ∧
    closure (closure seed dependencies) dependencies = closure seed dependencies := by
  refine ⟨settles_closure seed dependencies, ⟨⟨?_, ?_⟩, ?_⟩, ?_, ?_, ?_⟩
  · exact subset_closure seed dependencies
  · exact respects_closure seed dependencies
  · rintro set ⟨contains, respects⟩
    exact closure_least seed dependencies contains respects
  · intro others same
    refine OrderedSet.ext_mem fun subject => ⟨?_, ?_⟩
    · exact closure_mono (fun _ member => member) (fun other => (same other).mp) subject
    · exact closure_mono (fun _ member => member) (fun other => (same other).mpr) subject
  · exact fun more others contains listed => closure_mono contains listed
  · refine OrderedSet.ext_mem fun subject => ⟨?_, subset_closure _ _ subject⟩
    exact closure_least _ _ (fun _ member => member) (respects_closure seed dependencies) subject

/-- Item, shelf, room and building, each determined by the one before; the last dependency is the
first that can be applied. -/
def located : List Dependency :=
  [⟨.singleton ⟨2⟩, .singleton ⟨3⟩⟩, ⟨.singleton ⟨1⟩, .singleton ⟨2⟩⟩,
    ⟨.singleton ⟨0⟩, .singleton ⟨1⟩⟩]

/-- Every pass but the last one applies one dependency of the chain.  Listed from its start as well,
the chain leads to the same. -/
theorem closure_isLeast_located :
    closure (.singleton ⟨0⟩) located = .ofList [⟨0⟩, ⟨1⟩, ⟨2⟩, ⟨3⟩] ∧
    closure (.singleton ⟨0⟩) (located.reverse ++ located) = closure (.singleton ⟨0⟩) located ∧
    (∀ subject ∈ closure (.singleton ⟨1⟩) located.tail,
      subject ∈ closure (.ofList [⟨1⟩, ⟨5⟩]) located) := by
  refine ⟨by decide +kernel, ?_, ?_⟩
  · refine (closure_isLeast (.singleton ⟨0⟩) located).2.2.1 _ fun dependency => ?_
    rw [List.mem_append, List.mem_reverse, or_self]
  · refine (closure_isLeast (.singleton ⟨1⟩) located.tail).2.2.2.1 _ _ (by decide) ?_
    exact fun dependency => List.mem_of_mem_tail

end LiveQuery.Dependency
