import LiveQuery.Proofs.Batch.Steps
import LiveQuery.Proofs.Plan.Built
import LiveQuery.Proofs.Plan.Traversal

/-!
# Evaluating the steps of a plan

What a step means is told by its operation (`Plan.Shows`), what the batch evaluator computes by the
operator that the step becomes (`Yields`).  For a step that is built in the right way the two agree:
its operator has the rows that the operation means if its children have the rows that they mean
(`Plan.Lowers`), and this passes from the children to the step (`mem_of_lowers`).  As children come
before their parents, induction on the number of a step shows it for all of them (`Sinks.mem_rows`).

The evaluator goes through the steps in their order and finds the rows of the children in its table.
As long as no check fails, every operator of a built step can be evaluated, so it never stops
(`Sinks.evaluates`).
-/

namespace LiveQuery

variable {checks : Checks} {facts : FactStore} {input : Tuple} {plan : Plan} {inputs : List VarId}
  {supplied : Prop} {id : SubPlanId} {means : List (Tuple → Prop)} {shows : Tuple → Prop}

theorem childrenOf_eq {operation : Operation}
    (found : plan.arena.get? id = some (plan.arena.describe plan.body operation)) :
    plan.childrenOf id = operation.children := by
  unfold Plan.childrenOf
  rw [Plan.operation?_of_get? found]
  rfl

/-- The rows that the evaluator computes for a step are those that it means, if this is so for its
children. -/
theorem mem_of_lowers (lowers : plan.Lowers checks facts input id means shows)
    (below : List.Forall₂ (fun child mean => ∀ rows, Yields checks facts input plan child rows →
      ∀ row, row ∈ rows ↔ mean row) (plan.childrenOf id) means)
    {rows : OrderedSet Tuple} (yields : Yields checks facts input plan id rows) (row : Tuple) :
    row ∈ rows ↔ shows row := by
  obtain ⟨lowered, lowersTo, -, operator⟩ := lowers
  cases yields with
  | @intro _ lowered' children _ lowersTo' length each evaluates =>
    rw [lowersTo] at lowersTo'
    cases lowersTo'
    -- place by place, the rows of a child are those that it means
    have same : (children.map fun child row => row ∈ child) = means := by
      refine List.ext_getElem (by simp [← length, below.length_eq]) ?_
      intro place inside inside'
      rw [List.length_map] at inside
      rw [List.getElem_map]
      funext row
      have known : place < (plan.childrenOf id).length := length ▸ inside
      refine propext (List.Forall₂.get below known inside' _ (each _ _ ?_) row)
      refine List.mem_iff_getElem.mpr ⟨place, by rw [List.length_zip]; omega, ?_⟩
      rw [List.getElem_zip]
      rfl
    rw [Lowered.evaluate_spec checks.agree_accepts evaluates, same, operator]

/-- The step and all steps below it can be evaluated, whatever is known before. -/
def Evaluates (checks : Checks) (facts : FactStore) (input : Tuple) (plan : Plan)
    (id : SubPlanId) : Prop :=
  ∀ results, ∃ after, (plan.arena.postOrder id).foldlM (plan.evaluateStep checks facts input)
      results = .ok after ∧ (after.get? id).isSome = true ∧
    ∀ other, (results.get? other).isSome = true → (after.get? other).isSome = true

theorem evaluateStep_ok (answer : ∀ id row, ∃ accepted, checks id row = .ok accepted)
    (lowers : plan.Lowers checks facts input id means shows)
    (length : means.length = (plan.childrenOf id).length)
    {results : Table SubPlanId (OrderedSet Tuple)}
    (known : ∀ child ∈ plan.childrenOf id, (results.get? child).isSome = true) :
    ∃ after, plan.evaluateStep checks facts input results id = .ok after ∧
      (after.get? id).isSome = true ∧
      ∀ other, (results.get? other).isSome = true → (after.get? other).isSome = true := by
  obtain ⟨lowered, lowersTo, fits, -⟩ := lowers
  obtain ⟨answers, found, same⟩ : ∃ answers, plan.inputsOf results id = .ok answers ∧
      answers.length = (plan.childrenOf id).length := by
    refine exists_mapM_ok ?_
    intro child member
    obtain ⟨answer, found⟩ := Option.isSome_iff_exists.mp (known child member)
    exact ⟨answer, by rw [found]⟩
  rw [length, ← same] at fits
  obtain ⟨rows, evaluated⟩ := Lowered.evaluate_ok answer facts fits
  refine ⟨results.insert id rows, ?_, ?_, fun other there => ?_⟩
  · unfold Plan.evaluateStep
    rw [lowersTo, found]
    show (lowered.evaluate checks facts input answers >>= _) = _
    rw [evaluated]
    rfl
  · simp
  · rw [Table.get?_insert]
    split
    · rfl
    · exact there

theorem evaluates_of_lowers (answer : ∀ id row, ∃ accepted, checks id row = .ok accepted)
    {operation : Operation}
    (found : plan.arena.get? id = some (plan.arena.describe plan.body operation))
    (lowers : plan.Lowers checks facts input id means shows)
    (length : means.length = operation.children.length)
    (earlier : ∀ child ∈ operation.children, child.index < id.index)
    (below : ∀ child ∈ operation.children, Evaluates checks facts input plan child) :
    Evaluates checks facts input plan id := by
  have order : plan.arena.postOrder id =
      operation.children.flatMap plan.arena.postOrder ++ [id] := by
    rw [Arena.postOrder_unfold, found]
    have same : (plan.arena.describe plan.body operation).operation = operation := by
      cases operation <;> rfl
    dsimp only
    rw [same]
    congr 1
    refine List.flatMap_congr ?_
    intro child member
    rw [if_pos (earlier child member)]
  -- the children are evaluated one after another, and no rows are forgotten
  have all (children : List SubPlanId)
      (below : ∀ child ∈ children, Evaluates checks facts input plan child)
      (results : Table SubPlanId (OrderedSet Tuple)) :
      ∃ after, (children.flatMap plan.arena.postOrder).foldlM
          (plan.evaluateStep checks facts input) results = .ok after ∧
        (∀ child ∈ children, (after.get? child).isSome = true) ∧
        ∀ other, (results.get? other).isSome = true → (after.get? other).isSome = true := by
    induction children generalizing results with
    | nil => exact ⟨results, rfl, by simp, fun _ there => there⟩
    | cons child rest ih =>
      obtain ⟨middle, first, here, keeps⟩ := below child List.mem_cons_self results
      obtain ⟨after, later, others, keepsOn⟩ :=
        ih (fun other member => below other (List.mem_cons_of_mem _ member)) middle
      refine ⟨after, ?_, ?_, fun other there => keepsOn other (keeps other there)⟩
      · rw [List.flatMap_cons, List.foldlM_append, first]
        exact later
      · intro other member
        rcases List.mem_cons.mp member with rfl | member
        · exact keepsOn _ here
        · exact others other member
  intro results
  obtain ⟨middle, children, known, keeps⟩ := all operation.children below results
  rw [← childrenOf_eq found] at known length
  obtain ⟨after, step, here, keepsOn⟩ := evaluateStep_ok answer lowers length known
  refine ⟨after, ?_, here, fun other there => keepsOn other (keeps other there)⟩
  rw [order, List.foldlM_append, children]
  show (plan.evaluateStep checks facts input middle id >>= _) = _
  rw [step]
  rfl

/-! ## Built steps -/

/-- A step is lowered in the right way, and so are its children, which come before it. -/
def Sinks (checks : Checks) (facts : FactStore) (input : Tuple) (plan : Plan) (inputs : List VarId)
    (supplied : Prop) (id : SubPlanId) : Prop :=
  ∃ operation means, plan.arena.get? id = some (plan.arena.describe plan.body operation) ∧
    plan.Lowers checks facts input id means (plan.Shows checks facts input inputs supplied id) ∧
    List.Forall₂ (fun child mean => child.index < id.index ∧ ∃ given,
      Built plan.body inputs plan.arena given child ∧
        mean = plan.Shows checks facts input inputs given child) operation.children means

theorem Built.sinks (nodup : inputs.Nodup) (length : input.length = inputs.length)
    (built : Built plan.body inputs plan.arena supplied id) :
    Sinks checks facts input plan inputs supplied id := by
  have columns := built.columns_eq
  cases built with
  | start found => exact ⟨_, _, found, lowers_start found, .nil⟩
  | input found => exact ⟨_, _, found, lowers_input nodup length found, .nil⟩
  | enumerate found known role => exact ⟨_, _, found, lowers_enumerate found known role, .nil⟩
  | apply found earlier below known role shown =>
    refine ⟨_, _, found, lowers_apply found below known role shown ?_,
      .cons ⟨earlier, _, below, rfl⟩ .nil⟩
    rw [columns, below.columns_eq, Arena.visible_of_get? found]
    rfl
  | join found earlier left right meet =>
    refine ⟨_, _, found, lowers_join found left right meet ?_,
      .cons ⟨earlier.1, _, left, rfl⟩ (.cons ⟨earlier.2, _, right, rfl⟩ .nil)⟩
    rw [columns, Arena.visible_of_get? found]
    rfl
  | @trim _ child kept _ found earlier below shown =>
    refine ⟨_, _, found, lowers_restrict found ?_ below shown ?_ ?_,
      .cons ⟨earlier, _, below, rfl⟩ .nil⟩
    · intro places positioned
      simp only [Plan.operator, positioned]
      rfl
    · rw [columns, Arena.visible_of_get? found]
      rfl
    · exact Arena.enforced_of_get? found

theorem Built.sinks_project {child : SubPlanId} {parameters : List VarId}
    (found : plan.arena.get? id = some (plan.arena.describe plan.body (.project child parameters)))
    (earlier : child.index < id.index) (below : Built plan.body inputs plan.arena supplied child)
    (shown : ∀ subject ∈ parameters, subject ∈ plan.arena.visible child) :
    plan.columns id = parameters ∧ Sinks checks facts input plan inputs supplied id := by
  have columns : plan.columns id = parameters := by
    unfold Plan.columns
    rw [Plan.operation?_of_get? found]
  refine ⟨columns, _, _, found, lowers_restrict found ?_ below shown columns ?_,
    .cons ⟨earlier, _, below, rfl⟩ .nil⟩
  · intro places positioned
    simp only [Plan.operator, positioned]
    rfl
  · exact Arena.enforced_of_get? found

/-- The batch evaluator computes the rows that a step means. -/
theorem Sinks.mem_rows (nodup : inputs.Nodup) (length : input.length = inputs.length)
    (sinks : Sinks checks facts input plan inputs supplied id) {rows : OrderedSet Tuple}
    (yields : Yields checks facts input plan id rows) (row : Tuple) :
    row ∈ rows ↔ plan.Shows checks facts input inputs supplied id row := by
  -- the children come before the step
  induction place : id.index using Nat.strongRecOn generalizing id supplied rows row with
  | _ place ih =>
    obtain ⟨operation, means, found, lowers, children⟩ := sinks
    refine mem_of_lowers lowers ?_ yields row
    rw [childrenOf_eq found]
    refine children.imp ?_
    intro child mean
    rintro ⟨earlier, given, built, rfl⟩ childRows childYields childRow
    exact ih child.index (place ▸ earlier) (built.sinks nodup length) childYields childRow rfl

/-- Without failing checks, a step can be evaluated. -/
theorem Sinks.evaluates (nodup : inputs.Nodup) (length : input.length = inputs.length)
    (answer : ∀ id row, ∃ accepted, checks id row = .ok accepted)
    (sinks : Sinks checks facts input plan inputs supplied id) :
    Evaluates checks facts input plan id := by
  induction place : id.index using Nat.strongRecOn generalizing id supplied with
  | _ place ih =>
    obtain ⟨operation, means, found, lowers, children⟩ := sinks
    have each : ∀ child ∈ operation.children, child.index < id.index ∧
        Evaluates checks facts input plan child := by
      intro child member
      obtain ⟨index, inside, rfl⟩ := List.mem_iff_getElem.mp member
      obtain ⟨earlier, given, built, _⟩ := children.get inside (children.length_eq ▸ inside)
      exact ⟨earlier, ih _ (place ▸ earlier) (built.sinks nodup length) rfl⟩
    exact evaluates_of_lowers answer found lowers children.length_eq.symm
      (fun child member => (each child member).1) fun child member => (each child member).2

end LiveQuery
