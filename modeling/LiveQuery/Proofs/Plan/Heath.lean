import LiveQuery.Proofs.Pattern.Closure
import LiveQuery.Proofs.Plan.Exact
import LiveQuery.Proofs.Plan.Verified

/-!
# Joins that lose nothing

The variables that a set of variables determines are the least set that contains it and respects
the dependencies (`Dependency.mem_closure`).  The variables on which two assignments agree respect
the dependencies of every constraint that both satisfy, as long as the facts respect the keys of
relations (`Constraint.respects_agreement`).  So if the common variables of two sub-plans determine
one side by dependencies (`JoinCandidate.isHeath_iff`), they determine it for all assignments,
whatever has been trimmed on the way (`JoinCandidate.exists_determined`).
-/

namespace LiveQuery

/-! ## Agreement -/

/-- Facts with the given number of values that agree on the key positions are equal. -/
def FactStore.Keyed (facts : FactStore) (name : RelationId) (arity : Nat) (keys : List Nat) :
    Prop :=
  ∀ one other : Tuple, facts.Has name one → facts.Has name other → one.length = arity →
    other.length = arity → (∀ key ∈ keys, one[key]? = other[key]?) → one = other

/-- If the constraint is a relation with key positions, the facts respect these. -/
def Constraint.Respected (facts : FactStore) : Constraint → Prop
  | .relation name arguments keys => keys ≠ [] → facts.Keyed name arguments.length keys
  | _ => True

/-- Assignments that satisfy the constraints and agree on some variables agree on others. -/
def Body.Determines (checks : Checks) (facts : FactStore) (body : Body)
    (enforced : OrderedSet ConstraintId) (determining determined : OrderedSet VarId) : Prop :=
  ∀ one other : VarId → Value, body.Satisfies checks facts enforced one →
    body.Satisfies checks facts enforced other →
    (∀ subject ∈ determining, one subject = other subject) →
    ∀ subject ∈ determined, one subject = other subject

section Agreement

variable {checks : Checks} {facts : FactStore} {one other : VarId → Value}

theorem FactStore.Keyed.agree {name : RelationId} {arguments : List VarId} {keys : List Nat}
    (keyed : facts.Keyed name arguments.length keys) (here : facts.Has name (arguments.map one))
    (there : facts.Has name (arguments.map other))
    (same : ∀ subject ∈ keys.filterMap (arguments[·]?), one subject = other subject) :
    ∀ subject ∈ arguments, one subject = other subject := by
  refine List.map_inj_left.mp (keyed _ _ here there (List.length_map _) (List.length_map _) ?_)
  intro key member
  rw [List.getElem?_map, List.getElem?_map]
  cases found : arguments[key]? with
  | none => rfl
  | some subject => exact congrArg some (same subject (List.mem_filterMap.mpr ⟨key, member, found⟩))

theorem Constraint.respects_agreement {constraint : Constraint}
    (respected : constraint.Respected facts) (here : constraint.Holds checks facts one)
    (there : constraint.Holds checks facts other) :
    ∀ dependency ∈ constraint.dependencies,
      dependency.Respects fun subject => one subject = other subject := by
  intro dependency member
  cases constraint with
  | relation name arguments keys =>
    change dependency ∈ if keys.isEmpty then [] else [_] at member
    split at member
    · cases member
    next keyed =>
      obtain rfl := List.mem_singleton.mp member
      intro same subject listed
      refine (respected (by simpa using keyed)).agree here there ?_ subject
        (OrderedSet.mem_ofList.mp listed)
      exact fun key keyMember => same key (OrderedSet.mem_ofList.mpr keyMember)
  | equal left right =>
    simp only [dependencies, List.mem_cons, List.not_mem_nil, or_false] at member
    simp only [Holds] at here there
    rcases member with rfl | rfl <;>
      simp [Dependency.Respects, here, there]
  | constant subject value =>
    obtain rfl := List.mem_singleton.mp member
    intro _ determined same
    obtain rfl := OrderedSet.mem_singleton.mp same
    exact Eq.trans here (Eq.symm there)
  | closure name source target => cases member
  | different left right => cases member
  | absent name arguments => cases member
  | check label test arguments => cases member

theorem Body.mem_dependenciesOf {body : Body} {place : ConstraintId} {dependency : Dependency} :
    dependency ∈ body.dependenciesOf place ↔
      ∃ constraint, body.constraint? place = some constraint ∧
        dependency ∈ constraint.dependencies := by
  unfold dependenciesOf
  cases body.constraint? place <;> simp

/-- Where two assignments that satisfy the same constraints agree, they do so with all that these
determine. -/
theorem Body.respects_agreement {body : Body} {enforced : OrderedSet ConstraintId}
    (respected : ∀ place ∈ enforced, ∀ constraint, body.constraint? place = some constraint →
      constraint.Respected facts)
    (here : body.Satisfies checks facts enforced one)
    (there : body.Satisfies checks facts enforced other) :
    ∀ dependency ∈ enforced.toList.flatMap body.dependenciesOf,
      dependency.Respects fun subject => one subject = other subject := by
  intro dependency member
  obtain ⟨place, listed, member⟩ := List.mem_flatMap.mp member
  obtain ⟨constraint, found, member⟩ := mem_dependenciesOf.mp member
  exact Constraint.respects_agreement (respected place listed constraint found)
    (here place listed constraint found) (there place listed constraint found) dependency member

end Agreement

/-! ## Candidates -/

namespace JoinCandidate

variable {arena : Arena} {body : Body} {primary secondary : SubPlanId}

/-- A candidate is classified as lossless just if one side lies in every set of variables that
contains the common ones and respects the dependencies of both sides. -/
theorem isHeath_iff : (classify arena body primary secondary).isHeath = true ↔
    ∃ side ∈ [primary, secondary], ∀ set : VarId → Prop,
      (∀ subject ∈ (classify arena body primary secondary).common, set subject) →
      (∀ dependency ∈ dependencies arena body primary secondary, dependency.Respects set) →
      ∀ subject ∈ arena.visible side, set subject := by
  have within (side : SubPlanId) : (arena.visible side).isSubset (Dependency.closure
      (classify arena body primary secondary).common
        (dependencies arena body primary secondary)) = true ↔
      ∀ set : VarId → Prop,
        (∀ subject ∈ (classify arena body primary secondary).common, set subject) →
        (∀ dependency ∈ dependencies arena body primary secondary, dependency.Respects set) →
        ∀ subject ∈ arena.visible side, set subject := by
    simp only [OrderedSet.isSubset_iff, Dependency.mem_closure]
    constructor
    · exact fun least set contains respects subject shown =>
        least subject shown set contains respects
    · exact fun least subject shown set contains respects =>
        least set contains respects subject shown
  refine Bool.or_eq_true_iff.trans ?_
  simp only [List.mem_cons, List.not_mem_nil, or_false, exists_eq_or_imp, exists_eq_left]
  exact or_congr (within primary) (within secondary)

/-- The common variables of a candidate that is classified as lossless determine all variables of
one side, over all facts that respect the keys of the constraints that either side enforces. -/
theorem exists_determined (heath : (classify arena body primary secondary).isHeath = true) :
    ∃ side ∈ [primary, secondary], ∀ (checks : Checks) (facts : FactStore),
      (∀ place ∈ (arena.enforced primary).union (arena.enforced secondary), ∀ constraint,
        body.constraint? place = some constraint → constraint.Respected facts) →
      body.Determines checks facts ((arena.enforced primary).union (arena.enforced secondary))
        (classify arena body primary secondary).common (arena.visible side) := by
  obtain ⟨side, listed, least⟩ := isHeath_iff.mp heath
  refine ⟨side, listed, fun checks facts respected one other here there same => ?_⟩
  exact least (fun subject => one subject = other subject) same
    (Body.respects_agreement respected here there)

end JoinCandidate

/-- The rooms and owners of items: an item stands on one shelf, and a shelf in one room. -/
def housed : Body :=
  ⟨⟨"housed", 0, ["item", "shelf", "room", "owner"],
    [.relation ⟨0⟩ [⟨0⟩, ⟨1⟩] [0], .relation ⟨1⟩ [⟨1⟩, ⟨2⟩] [0], .relation ⟨2⟩ [⟨0⟩, ⟨3⟩] []],
    [⟨2⟩, ⟨3⟩], {}⟩, by decide⟩

/-- Two items on the same shelf. -/
def shelves : FactStore :=
  ⟨[⟨⟨0⟩, [.bool false, .bool true]⟩, ⟨⟨0⟩, [.bool true, .bool true]⟩,
    ⟨⟨1⟩, [.bool true, .bool false]⟩, ⟨⟨2⟩, [.bool false, .bool true]⟩]⟩

theorem respected_housed : ∀ constraint ∈ housed.constraints, constraint.Respected shelves := by
  intro constraint member
  simp only [housed, List.mem_cons, List.not_mem_nil, or_false] at member
  rcases member with rfl | rfl | rfl
  · intro _ one other here there _ _ same
    have listed (tuple : Tuple) (has : shelves.Has ⟨0⟩ tuple) :
        tuple = [.bool false, .bool true] ∨ tuple = [.bool true, .bool true] := by
      simpa [FactStore.Has, shelves] using has
    have keys := same 0 List.mem_cons_self
    rcases listed one here with rfl | rfl <;> rcases listed other there with rfl | rfl
    · rfl
    · exact absurd keys (by decide)
    · exact absurd keys (by decide)
    · rfl
  · intro _ one other here there _ _ _
    have listed (tuple : Tuple) (has : shelves.Has ⟨1⟩ tuple) :
        tuple = [.bool true, .bool false] := by
      simpa [FactStore.Has, shelves] using has
    exact (listed one here).trans (listed other there).symm
  · exact fun keyed => absurd rfl keyed

/-- An item determines its room through the shelf, although shelves are trimmed before the join. -/
theorem determined_housed :
    ∃ plan, Plan.ofBodyAdorned {} housed .empty = .ok plan ∧
      plan.operation? ⟨4⟩ = some (.trim ⟨3⟩ (.ofList [⟨0⟩, ⟨2⟩])) ∧
      plan.operation? ⟨5⟩ = some (.join ⟨2⟩ ⟨4⟩) ∧
      (JoinCandidate.classify plan.arena housed ⟨2⟩ ⟨4⟩).isHeath = true ∧
      ∃ side ∈ [⟨2⟩, ⟨4⟩], housed.Determines (fun _ _ => .ok true) shelves
        (.ofList [⟨0⟩, ⟨1⟩, ⟨2⟩]) (.singleton ⟨0⟩) (plan.arena.visible side) := by
  have ran : (Plan.ofBodyAdorned {} housed .empty >>= fun plan =>
      .ok ([⟨4⟩, ⟨5⟩].map plan.operation?, JoinCandidate.classify plan.arena housed ⟨2⟩ ⟨4⟩,
        (plan.arena.enforced ⟨2⟩).union (plan.arena.enforced ⟨4⟩))) =
      .ok ([some (.trim ⟨3⟩ (.ofList [⟨0⟩, ⟨2⟩])), some (.join ⟨2⟩ ⟨4⟩)],
        ⟨⟨2⟩, ⟨4⟩, .singleton ⟨0⟩, true, false⟩, .ofList [⟨0⟩, ⟨1⟩, ⟨2⟩]) :=
    of_decide_eq_true (by decide +kernel)
  obtain ⟨plan, planned, read⟩ := ok_of_bind ran
  obtain ⟨operations, candidate, enforced⟩ : _ ∧ _ ∧ _ := by
    simpa only [Except.ok.injEq, Prod.mk.injEq] using read
  obtain ⟨trim, join⟩ : _ ∧ _ := by
    simpa only [List.map_cons, List.map_nil, List.cons.injEq, and_true] using operations
  have heath : (JoinCandidate.classify plan.arena housed ⟨2⟩ ⟨4⟩).isHeath = true := by
    rw [candidate]
  obtain ⟨side, listed, determined⟩ := JoinCandidate.exists_determined heath
  have determines := determined (fun _ _ => .ok true) shelves fun place _ constraint known =>
    respected_housed constraint (List.mem_of_getElem? known)
  rw [enforced, candidate] at determines
  exact ⟨plan, planned, trim, join, heath, side, listed, determines⟩

end LiveQuery
