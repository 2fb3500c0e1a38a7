import LiveQuery.Proofs.Plan.Built
import LiveQuery.Proofs.Plan.Traversal

/-!
# Steps below a step

The steps of a plan are all sub-plans below its root (`Arena.children_mem_postOrder`).  An arena
that grows keeps what it holds: the bookkeeping of the earlier steps (`Arena.enforced_push`,
`Arena.visible_push`), the steps below them (`Arena.postOrder_push`) and the constraints that those
introduce (`Arena.introduced_push`).  All of it holds because a step reads earlier steps only, so
that nothing below it is new.

Below a step that is new there is what is below its children, and the step itself
(`Arena.postOrder_push_new`).  If the trees below its children have no step in common, the tree
below it lists no step twice (`Arena.nodup_push`).  These are the steps by which the planner keeps
its sub-plans trees.
-/

namespace LiveQuery
namespace Arena

variable {arena : Arena} {body : Body} {operation : Operation} {root id : SubPlanId}
  {step : SubPlan}

/-! ## Steps -/

theorem operation_describe (arena : Arena) (body : Body) (operation : Operation) :
    (arena.describe body operation).operation = operation := by
  cases operation <;> rfl

theorem self_mem_postOrder (arena : Arena) (root : SubPlanId) : root ∈ arena.postOrder root := by
  rw [postOrder_eq_unfolded]
  exact self_mem_unfolded arena root

theorem mem_postOrder (found : arena.get? root = some step) :
    id ∈ arena.postOrder root ↔ id = root ∨ ∃ child ∈ step.operation.children,
      child.index < root.index ∧ id ∈ arena.postOrder child := by
  rw [postOrder_unfold, found]
  simp only [List.mem_append, List.mem_flatMap, List.mem_singleton]
  constructor
  · rintro (⟨child, member, below⟩ | same)
    · split at below
      next earlier => exact .inr ⟨child, member, earlier, below⟩
      · cases below
    · exact .inl same
  · rintro (same | ⟨child, member, earlier, below⟩)
    · exact .inr same
    · exact .inl ⟨child, member, by rwa [if_pos earlier]⟩

/-- With a step, its earlier children are listed too. -/
theorem children_mem_postOrder (listed : id ∈ arena.postOrder root)
    (found : arena.get? id = some step) {child : SubPlanId}
    (member : child ∈ step.operation.children) (earlier : child.index < id.index) :
    child ∈ arena.postOrder root := by
  induction place : root.index using Nat.strongRecOn generalizing root with
  | _ place ih =>
    cases there : arena.get? root with
    | none =>
      rw [postOrder_unfold, there] at listed
      obtain rfl := List.mem_singleton.mp listed
      rw [there] at found
      cases found
    | some top =>
      rw [mem_postOrder there] at listed ⊢
      rcases listed with rfl | ⟨next, nextMember, less, below⟩
      · rw [there] at found
        cases found
        exact .inr ⟨child, member, earlier, self_mem_postOrder arena child⟩
      · exact .inr ⟨next, nextMember, less, ih next.index (place ▸ less) below rfl⟩

/-- The constraints that the steps below a step introduce, as often as they do. -/
def introduced (arena : Arena) (id : SubPlanId) : List ConstraintId :=
  (arena.postOrder id).filterMap fun step =>
    ((arena.get? step).map SubPlan.operation).bind Operation.constraint?

theorem index_le_of_mem_postOrder (listed : id ∈ arena.postOrder root) :
    id.index ≤ root.index := by
  induction place : root.index using Nat.strongRecOn generalizing root with
  | _ place ih =>
    rw [postOrder_unfold] at listed
    split at listed
    · obtain rfl := List.mem_singleton.mp listed
      exact Nat.le_of_eq place
    · rcases List.mem_append.mp listed with listed | listed
      · obtain ⟨child, _, below⟩ := List.mem_flatMap.mp listed
        split at below
        next earlier =>
          have before := ih child.index (place ▸ earlier) below rfl
          omega
        · cases below
      · obtain rfl := List.mem_singleton.mp listed
        exact Nat.le_of_eq place

/-! ## Growing arenas -/

theorem get?_push_of_get? (found : arena.get? id = some step) (body : Body)
    (operation : Operation) : (arena.push body operation).1.get? id = some step := by
  unfold get? push
  rw [List.getElem?_append_left (List.getElem?_eq_some_iff.mp found).1]
  exact found

theorem get?_push_new (arena : Arena) (body : Body) (operation : Operation) :
    (arena.push body operation).1.get? (arena.push body operation).2 =
      some (arena.describe body operation) :=
  List.getElem?_concat_length

theorem lt_size (found : arena.get? id = some step) : id.index < arena.size :=
  (List.getElem?_eq_some_iff.mp found).1

theorem enforced_push (found : arena.get? id = some step) (body : Body) (operation : Operation) :
    (arena.push body operation).1.enforced id = arena.enforced id := by
  rw [enforced_of_get? found, enforced_of_get? (get?_push_of_get? found body operation)]

theorem visible_push (found : arena.get? id = some step) (body : Body) (operation : Operation) :
    (arena.push body operation).1.visible id = arena.visible id := by
  rw [visible_of_get? found, visible_of_get? (get?_push_of_get? found body operation)]

/-- The bookkeeping of a step stays as it is when more steps are built. -/
theorem describe_push {own : Body} {other : Operation}
    (known : ∀ child ∈ other.children, ∃ step, arena.get? child = some step) :
    (arena.push body operation).1.describe own other = arena.describe own other := by
  cases other with
  | apply child constraint =>
    obtain ⟨step, found⟩ := known child (by simp [Operation.children])
    simp only [describe, enforced_push found, visible_push found]
  | join primary secondary =>
    obtain ⟨_, left⟩ := known primary (by simp [Operation.children])
    obtain ⟨_, right⟩ := known secondary (by simp [Operation.children])
    simp only [describe, enforced_push left, visible_push left, enforced_push right,
      visible_push right]
  | trim child kept =>
    obtain ⟨step, found⟩ := known child (by simp [Operation.children])
    simp only [describe, enforced_push found]
  | project child parameters =>
    obtain ⟨step, found⟩ := known child (by simp [Operation.children])
    simp only [describe, enforced_push found]
  | _ => rfl

theorem found_push {own : Body} {other : Operation}
    (found : arena.get? id = some (arena.describe own other))
    (known : ∀ child ∈ other.children, ∃ step, arena.get? child = some step) :
    (arena.push body operation).1.get? id =
      some ((arena.push body operation).1.describe own other) := by
  rw [get?_push_of_get? found, describe_push known]

/-- The last step is described in the arena that it belongs to. -/
theorem get?_push_eq (known : ∀ child ∈ operation.children, ∃ step, arena.get? child = some step) :
    (arena.push body operation).1.get? (arena.push body operation).2 =
      some ((arena.push body operation).1.describe body operation) := by
  rw [get?_push_new, describe_push known]

theorem enforced_push_new (arena : Arena) (body : Body) (operation : Operation) :
    (arena.push body operation).1.enforced (arena.push body operation).2 =
      (arena.describe body operation).enforced :=
  enforced_of_get? (get?_push_new arena body operation)

theorem visible_push_new (arena : Arena) (body : Body) (operation : Operation) :
    (arena.push body operation).1.visible (arena.push body operation).2 =
      (arena.describe body operation).visible :=
  visible_of_get? (get?_push_new arena body operation)

theorem postOrder_push (found : arena.get? id = some step) (body : Body) (operation : Operation) :
    (arena.push body operation).1.postOrder id = arena.postOrder id := by
  induction place : id.index using Nat.strongRecOn generalizing id step with
  | _ place ih =>
    rw [postOrder_unfold, get?_push_of_get? found, postOrder_unfold, found]
    dsimp only
    refine congrArg (· ++ [id]) (List.flatMap_congr fun child _ => ?_)
    split
    next earlier =>
      -- a child that comes before its parent is in the arena as well
      have inside : child.index < arena.subPlans.length := Nat.lt_trans earlier (lt_size found)
      exact ih child.index (place ▸ earlier) (List.getElem?_eq_getElem inside) rfl
    · rfl

theorem introduced_push (found : arena.get? id = some step) (body : Body) (operation : Operation) :
    (arena.push body operation).1.introduced id = arena.introduced id := by
  unfold introduced
  rw [postOrder_push found]
  refine List.filterMap_congr fun below listed => ?_
  have inside : below.index < arena.subPlans.length :=
    Nat.lt_of_le_of_lt (index_le_of_mem_postOrder listed) (lt_size found)
  have there : arena.get? below = some _ := List.getElem?_eq_getElem inside
  rw [there, get?_push_of_get? there]

/-- Below the last step there is what was below its children, and the step itself. -/
theorem postOrder_push_new (body : Body)
    (known : ∀ child ∈ operation.children, ∃ step, arena.get? child = some step) :
    (arena.push body operation).1.postOrder (arena.push body operation).2 =
      operation.children.flatMap arena.postOrder ++ [(arena.push body operation).2] := by
  rw [postOrder_unfold, get?_push_new]
  dsimp only
  rw [operation_describe]
  refine congrArg (· ++ [(arena.push body operation).2]) (List.flatMap_congr fun child member => ?_)
  obtain ⟨_, there⟩ := known child member
  have earlier : child.index < (arena.push body operation).2.index := lt_size there
  rw [if_pos earlier, postOrder_push there]

theorem introduced_push_new (body : Body)
    (known : ∀ child ∈ operation.children, ∃ step, arena.get? child = some step) :
    (arena.push body operation).1.introduced (arena.push body operation).2 =
      operation.children.flatMap arena.introduced ++ operation.constraint?.toList := by
  have children : operation.children.flatMap arena.introduced =
      operation.children.flatMap (arena.push body operation).1.introduced := by
    refine List.flatMap_congr fun child member => ?_
    obtain ⟨_, there⟩ := known child member
    exact (introduced_push there body operation).symm
  have below : operation.children.flatMap arena.postOrder =
      operation.children.flatMap (arena.push body operation).1.postOrder := by
    refine List.flatMap_congr fun child member => ?_
    obtain ⟨_, there⟩ := known child member
    exact (postOrder_push there body operation).symm
  rw [children]
  unfold introduced
  rw [postOrder_push_new body known, List.filterMap_append, below, List.filterMap_flatMap]
  refine congrArg (_ ++ ·) ?_
  rw [List.filterMap_cons, get?_push_new, Option.map_some, operation_describe]
  cases operation <;> rfl

/-- A step that is built on the roots of trees without a common step makes one tree of them. -/
theorem nodup_push (body : Body) {live : List SubPlanId}
    (known : ∀ id ∈ operation.children ++ live, ∃ step, arena.get? id = some step)
    (trees : ((operation.children ++ live).flatMap arena.postOrder).Nodup) :
    (((arena.push body operation).2 :: live).flatMap
      (arena.push body operation).1.postOrder).Nodup := by
  have others : live.flatMap (arena.push body operation).1.postOrder =
      live.flatMap arena.postOrder := by
    refine List.flatMap_congr fun other listed => ?_
    obtain ⟨_, there⟩ := known other (List.mem_append_right _ listed)
    exact postOrder_push there _ _
  have moved : (((arena.push body operation).2 :: live).flatMap
      (arena.push body operation).1.postOrder).Perm
        ((arena.push body operation).2 ::
          (operation.children ++ live).flatMap arena.postOrder) := by
    rw [List.flatMap_cons, postOrder_push_new body fun child member =>
      known child (List.mem_append_left _ member), others, List.append_assoc, List.flatMap_append]
    exact List.perm_middle
  refine (moved.nodup_iff).mpr (List.nodup_cons.mpr ⟨fun listed => ?_, trees⟩)
  -- the number of the new step was not used before
  obtain ⟨root, member, below⟩ := List.mem_flatMap.mp listed
  obtain ⟨_, there⟩ := known root member
  exact absurd (index_le_of_mem_postOrder below) (Nat.not_le.mpr (lt_size there))

end Arena
end LiveQuery
