import Mathlib.Data.List.Pairwise
import LiveQuery.Proofs.Plan.Exact
import LiveQuery.Proofs.Plan.Verified

/-!
# The tree of a plan

A planned body is computed by a tree of steps: no step is listed twice, and every step but the root
has exactly one parent, which comes later (`Plan.Tree`).

Below a root there is what is below its children, and the root itself (`postOrder_eq`).  Counting
what each step reads, over all steps that are listed, therefore gives the listing without the root
(`childrenOf_perm`): if no step is listed twice, every step but the root is read once, by one step,
and the root by none (`tree_of_nodup`).  The planner never reads a step twice, since a sub-plan that
is read is not in play any more.

The steps of the tree introduce every constraint of the body, each of them once
(`Plan.tree_of_planned`): together they introduce what the root enforces, each constraint once
(`introduced_root`), and the root enforces all of them.
-/

namespace LiveQuery

/-! ## Steps and their parents -/

namespace Arena

variable {arena : Arena} {root parent child : SubPlanId}

/-- The steps that a step reads; a number without a step reads none. -/
def childrenOf (arena : Arena) (id : SubPlanId) : List SubPlanId :=
  ((arena.get? id).map (·.operation.children)).getD []

theorem mem_childrenOf : child ∈ arena.childrenOf parent ↔
    ∃ step, arena.get? parent = some step ∧ child ∈ step.operation.children := by
  unfold childrenOf
  cases arena.get? parent <;> simp

/-- Below a root whose steps read earlier steps only, there is what is below its children and the
root itself. -/
theorem postOrder_eq (earlier : ∀ child ∈ arena.childrenOf root, child.index < root.index) :
    arena.postOrder root = (arena.childrenOf root).flatMap arena.postOrder ++ [root] := by
  unfold childrenOf at earlier ⊢
  rw [postOrder_unfold]
  cases found : arena.get? root with
  | none => rfl
  | some step =>
    rw [found] at earlier
    refine congrArg (· ++ [root]) (List.flatMap_congr fun child member => ?_)
    exact if_pos (earlier child member)

/-- What is below a step is listed in one piece before the step. -/
theorem postOrder_sublist (listed : parent ∈ arena.postOrder root) :
    (arena.postOrder parent).Sublist (arena.postOrder root) := by
  induction place : root.index using Nat.strongRecOn generalizing root with
  | _ place ih =>
    cases found : arena.get? root with
    | none =>
      rw [postOrder_unfold, found] at listed
      obtain rfl := List.mem_singleton.mp listed
      exact .refl _
    | some step =>
      rcases (mem_postOrder found).mp listed with rfl | ⟨child, member, earlier, below⟩
      · exact .refl _
      · have there := ih child.index (place ▸ earlier) below rfl
        have whole : (arena.postOrder child).Sublist (arena.postOrder root) := by
          obtain ⟨before, after, parts⟩ := List.append_of_mem member
          have unfolded : arena.postOrder root = (step.operation.children.flatMap fun child =>
              if child.index < root.index then arena.postOrder child else []) ++ [root] := by
            rw [postOrder_unfold, found]
          rw [unfolded, parts, List.flatMap_append, List.flatMap_cons, if_pos earlier]
          simp
        exact there.trans whole

theorem childrenOf_perm (earlier : ∀ step ∈ arena.postOrder root,
      ∀ child ∈ arena.childrenOf step, child.index < step.index) :
    (root :: (arena.postOrder root).flatMap arena.childrenOf).Perm (arena.postOrder root) := by
  induction place : root.index using Nat.strongRecOn generalizing root with
  | _ place ih =>
    have unfolded := postOrder_eq (earlier root (self_mem_postOrder arena root))
    have below : ∀ child ∈ arena.childrenOf root,
        (child :: (arena.postOrder child).flatMap arena.childrenOf).Perm
          (arena.postOrder child) := by
      intro child member
      have before := earlier root (self_mem_postOrder arena root) child member
      refine ih child.index (place ▸ before) (fun step listed => earlier step ?_) rfl
      rw [unfolded]
      exact List.mem_append_left _ (List.mem_flatMap.mpr ⟨child, member, listed⟩)
    rw [unfolded, List.flatMap_append, List.flatMap_assoc, List.flatMap_singleton]
    calc
      List.Perm _ ((arena.childrenOf root ++ (arena.childrenOf root).flatMap fun child =>
          (arena.postOrder child).flatMap arena.childrenOf) ++ [root]) :=
        (List.perm_append_comm.cons root).trans (List.perm_append_singleton root _).symm
      List.Perm _ (((arena.childrenOf root).flatMap fun child =>
          child :: (arena.postOrder child).flatMap arena.childrenOf) ++ [root]) := by
        have joined := List.map_append_flatMap_perm (arena.childrenOf root) id fun child =>
          (arena.postOrder child).flatMap arena.childrenOf
        rw [List.map_id] at joined
        exact joined.append_right _
      List.Perm _ ((arena.childrenOf root).flatMap arena.postOrder ++ [root]) :=
        (List.Perm.flatMap_left _ below).append_right _

end Arena

/-! ## Trees -/

namespace Plan

/-- The steps make a tree: none is listed twice, no step reads the root, and every other step is
read once by exactly one step, which is listed after it. -/
structure Tree (plan : Plan) : Prop where
  distinct : plan.steps.Nodup
  root : ∀ parent ∈ plan.steps, plan.root ∉ plan.arena.childrenOf parent
  parent : ∀ step ∈ plan.steps, step ≠ plan.root → ∃ parent ∈ plan.steps,
    (plan.arena.childrenOf parent).count step = 1 ∧
    (∀ other ∈ plan.steps, step ∈ plan.arena.childrenOf other → other = parent) ∧
    plan.steps.idxOf step < plan.steps.idxOf parent

variable {plan : Plan}

theorem tree_of_nodup (distinct : plan.steps.Nodup)
    (earlier : ∀ step ∈ plan.steps, ∀ child ∈ plan.arena.childrenOf step,
      child.index < step.index) : plan.Tree := by
  have reads := Arena.childrenOf_perm earlier
  obtain ⟨rootless, once⟩ := List.nodup_cons.mp ((reads.nodup_iff).mpr distinct)
  obtain ⟨each, apart⟩ := List.nodup_flatMap.mp once
  refine ⟨distinct, fun parent listed member => ?_, fun step listed other => ?_⟩
  · exact rootless (List.mem_flatMap.mpr ⟨parent, listed, member⟩)
  · have read : step ∈ plan.steps.flatMap plan.arena.childrenOf :=
      List.mem_of_ne_of_mem other (reads.mem_iff.mpr listed)
    obtain ⟨parent, there, member⟩ := List.mem_flatMap.mp read
    refine ⟨parent, there, List.count_eq_one_of_mem (each parent there) member, ?_, ?_⟩
    · intro second also again
      by_contra different
      have : Std.Symm (Function.onFun List.Disjoint plan.arena.childrenOf) :=
        ⟨fun _ _ disjoint _ here there => disjoint there here⟩
      exact apart.forall also there different again member
    · -- the parent is listed after everything below it
      have before := earlier parent there
      have ordered : plan.steps.Pairwise fun first second =>
          plan.steps.idxOf first < plan.steps.idxOf second :=
        List.pairwise_iff_getElem.mpr fun early late inside insideLate less => by
          rwa [distinct.idxOf_getElem, distinct.idxOf_getElem]
      have pair : [step, parent].Sublist plan.steps := by
        refine .trans ?_ (Arena.postOrder_sublist there)
        rw [Arena.postOrder_eq before]
        refine .append (List.singleton_sublist.mpr ?_) (.refl [parent])
        exact List.mem_flatMap.mpr ⟨step, member, Arena.self_mem_postOrder _ step⟩
      exact List.rel_of_pairwise_cons (ordered.sublist pair) List.mem_cons_self

end Plan

/-! ## Planned bodies -/

section Planned

variable {hints : Hints} {body : Body} {adornment : OrderedSet Nat} {plan : Plan}

theorem Body.mem_constraintIds {place : ConstraintId} :
    place ∈ body.constraintIds ↔ place.index < body.constraints.length := by
  unfold Body.constraintIds
  rw [OrderedSet.mem_ofList, List.mem_map]
  constructor
  · rintro ⟨⟨_, constraint⟩, listed, rfl⟩
    exact (List.getElem?_eq_some_iff.mp (Body.mem_numbered.mp listed)).1
  · intro inside
    exact ⟨(place, body.constraints[place.index]),
      Body.mem_numbered.mpr (List.getElem?_eq_getElem inside), rfl⟩

/-- The steps of a planned body introduce what the root enforces, each constraint once. -/
theorem introduced_root (planned : Plan.ofBodyAdorned hints body adornment = .ok plan) :
    plan.steps.Nodup ∧
      (plan.arena.introduced plan.root).Perm (plan.arena.enforced plan.root).toList := by
  obtain ⟨before, last, _, sound, _, _, arena, root⟩ := exists_sound planned
  obtain ⟨_, member⟩ := sound.members last List.mem_cons_self
  have known : ∀ id ∈ [last], ∃ step, before.get? id = some step := by
    intro id listed
    obtain rfl := List.mem_singleton.mp listed
    exact member.built.exists_step
  have tree : ([plan.root].flatMap plan.arena.postOrder).Nodup := by
    rw [arena, root]
    exact Arena.nodup_push body known sound.trees
  refine ⟨by rwa [List.flatMap_cons, List.flatMap_nil, List.append_nil] at tree, ?_⟩
  rw [arena, root]
  exact (Arena.addsUp_project before body last _).introduced_push known sound.introduced

theorem enforced_root (planned : Plan.ofBodyAdorned hints body adornment = .ok plan) :
    plan.arena.enforced plan.root = body.constraintIds := by
  obtain ⟨last, _, found, _, built, _, enforced, _⟩ := exists_last planned
  have same : plan.arena.enforced plan.root = plan.arena.enforced last :=
    Arena.enforced_of_get? found
  rw [same]
  refine OrderedSet.ext_mem fun place => ⟨fun member => ?_, enforced place⟩
  rw [Body.mem_constraintIds, ← (ofBodyAdorned_ok planned).2.2.1]
  exact built.known place member

/-- A plan that is made for a body is a tree of steps that introduces every constraint of the body
once.  Its root enforces all of them and is the projection onto the parameters. -/
theorem Plan.tree_of_planned (planned : Plan.ofBodyAdorned hints body adornment = .ok plan) :
    plan.introductions = List.replicate body.constraints.length 1 ∧ plan.Tree ∧
      (∃ last, plan.operation? plan.root = some (.project last body.parameters)) ∧
      plan.arena.enforced plan.root = body.constraintIds := by
  obtain ⟨_, verified, sameBody, _⟩ := ofBodyAdorned_ok planned
  obtain ⟨grounded, _, root⟩ := Plan.verify_eq_ok_iff.mp verified
  obtain ⟨distinct, introduced⟩ := introduced_root planned
  have enforced := enforced_root planned
  rw [sameBody] at root
  refine ⟨?_, tree_of_nodup distinct ?_, root, enforced⟩
  · have counted : ∀ entry ∈ body.numbered,
        (plan.arena.introduced plan.root).count entry.1 = 1 := by
      intro entry listed
      rw [introduced.count_eq, enforced]
      exact List.count_eq_one_of_mem (OrderedSet.nodup_toList _)
        (OrderedSet.mem_ofList.mpr (List.mem_map.mpr ⟨entry, listed, rfl⟩))
    have length : body.numbered.length = body.constraints.length := by simp [Body.numbered]
    calc
      plan.introductions =
          body.numbered.map fun entry => (plan.arena.introduced plan.root).count entry.1 := by
        rw [← sameBody]
        rfl
      _ = body.numbered.map fun _ => 1 := List.map_congr_left counted
      _ = List.replicate body.constraints.length 1 := by rw [List.map_const', length]
  · intro step listed child member
    obtain ⟨subPlan, found, earlier, _⟩ := grounded step listed
    obtain ⟨_, there, read⟩ := Arena.mem_childrenOf.mp member
    obtain rfl := Option.some.inj (found.symm.trans there)
    exact earlier child read

/-- Two constraints on the supplied value and what can be reached from it. -/
theorem tree_of_others : ∃ plan, Plan.ofBodyAdorned {} others (.singleton 0) = .ok plan ∧
    plan.introductions = [1, 1] ∧ plan.Tree := by
  have ran : (Plan.ofBodyAdorned {} others (.singleton 0)).isOk = true := by decide +kernel
  cases planned : Plan.ofBodyAdorned {} others (.singleton 0) with
  | error error =>
    rw [planned] at ran
    cases ran
  | ok plan =>
    obtain ⟨introductions, tree, _⟩ := Plan.tree_of_planned planned
    exact ⟨plan, rfl, introductions, tree⟩

end Planned
end LiveQuery
