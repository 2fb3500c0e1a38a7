import LiveQuery.Proofs.Batch.Steps
import LiveQuery.Proofs.Plan.Lowering
import LiveQuery.Proofs.Plan.Tree

/-!
# Steps in order

Whoever goes through the steps of a plan keeps something for each step, the batch evaluator its rows
and an install its node, and looks up what it has kept for the children.  It needs the children to
be listed before their parent.

The listing of a plan puts every step after its earlier children (`Arena.childrenFirst_postOrder`).
In a plan that refers to known things only, all children are earlier ones, so the steps of an
accepted plan are `Ordered` (`ordered_steps`).  Along an ordered list, the children of the next step
are always known (`isSome_insert`), and what is known of them is found (`exists_inputsOf`).
-/

namespace LiveQuery.Plan

variable {plan : Plan} {known : SubPlanId → Prop}

/-- Every step is listed after its children, unless these are known before. -/
def Ordered (plan : Plan) (known : SubPlanId → Prop) : List SubPlanId → Prop
  | [] => True
  | step :: rest => (∀ child ∈ plan.childrenOf step, known child) ∧
      plan.Ordered (fun other => other = step ∨ known other) rest

/-- Steps are in order if the children of each of them are listed before it or known. -/
theorem ordered_of_parts {steps : List SubPlanId}
    (sequence : ∀ before step after, steps = before ++ step :: after →
      ∀ child ∈ plan.childrenOf step, child ∈ before ∨ known child) : plan.Ordered known steps := by
  induction steps generalizing known with
  | nil => trivial
  | cons step rest ih =>
    refine ⟨fun child member => ?_, ih fun before other after parts child member => ?_⟩
    · exact (sequence [] step rest rfl child member).resolve_left List.not_mem_nil
    · have whole : step :: rest = (step :: before) ++ other :: after := congrArg _ parts
      rcases sequence _ other after whole child member with listed | there
      · exact (List.mem_cons.mp listed).symm.imp_right .inl
      · exact .inr (.inr there)

theorem arena_childrenOf (plan : Plan) (id : SubPlanId) :
    plan.arena.childrenOf id = plan.childrenOf id := by
  simp [Arena.childrenOf, childrenOf, operation?, get?, Option.map_map, Function.comp_def]

theorem Grounded.earlier {id : SubPlanId} (grounded : plan.Grounded id) :
    ∀ child ∈ plan.childrenOf id, child.index < id.index := by
  obtain ⟨subPlan, found, earlier, _⟩ := grounded
  intro child member
  rw [← arena_childrenOf] at member
  obtain ⟨_, again, member⟩ := Arena.mem_childrenOf.mp member
  cases found.symm.trans again
  exact earlier child member

theorem mem_earlierChildren {step child : SubPlanId} :
    child ∈ plan.arena.earlierChildren step ↔
      child ∈ plan.childrenOf step ∧ child.index < step.index := by
  rw [← arena_childrenOf]
  unfold Arena.earlierChildren Arena.childrenOf
  cases plan.arena.get? step <;> simp

/-- Wherever a step is listed, its children are listed before. -/
theorem children_before (grounded : ∀ step ∈ plan.steps, plan.Grounded step)
    {before after : List SubPlanId} {step : SubPlanId}
    (parts : plan.steps = before ++ step :: after) : ∀ child ∈ plan.childrenOf step,
      child ∈ before := by
  intro child member
  have listed : step ∈ plan.steps := by
    rw [parts]
    exact List.mem_append_right _ List.mem_cons_self
  exact plan.arena.childrenFirst_postOrder plan.root before step after parts child
    (mem_earlierChildren.mpr ⟨member, (grounded step listed).earlier child member⟩)

theorem ordered_steps (sound : plan.demandSound = .ok ()) :
    plan.Ordered (fun _ => False) plan.steps :=
  ordered_of_parts fun _ _ _ parts child member =>
    .inl (children_before (grounded_of_demandSound sound) parts child member)

theorem exists_inputsOf {β : Type} {answers : Table SubPlanId β} {step : SubPlanId}
    (known : ∀ child ∈ plan.childrenOf step, (answers.get? child).isSome = true) :
    ∃ inputs, plan.inputsOf answers step = .ok inputs ∧
      inputs.length = (plan.childrenOf step).length := by
  cases found : plan.inputsOf answers step with
  | ok inputs => exact ⟨inputs, rfl, (inputsOf_ok found).length_eq.symm⟩
  | error error =>
    -- only a child of which nothing is known could be reported
    obtain ⟨child, member, absent, _⟩ := (plan.fulfils_inputsOf answers step).of_error found
    have there := known child member
    rw [absent] at there
    cases there

theorem isSome_insert {β : Type} {answers : Table SubPlanId β} {step : SubPlanId} {answer : β}
    (kept : ∀ other, known other → (answers.get? other).isSome = true) :
    ∀ other, other = step ∨ known other →
      ((answers.insert step answer).get? other).isSome = true := by
  intro other here
  rw [Table.get?_insert]
  split
  · rfl
  next apart => exact kept other (here.resolve_left apart)

end LiveQuery.Plan
