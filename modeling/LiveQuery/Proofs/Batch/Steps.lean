import LiveQuery.Proofs.Batch.Rows

/-!
# Steps of the batch evaluator

`Yields` describes the rows of a step by its operator and the rows of its children, without the
table in which the evaluator keeps them.  A successful evaluation finds rows for every step of the
plan, and its matches are those of the root (`yields_of_evaluate`).
-/

namespace LiveQuery

/-- The answers to the children of a step are those known of them, in order. -/
theorem inputsOf_ok {β : Type} {plan : Plan} {known : Table SubPlanId β} {step : SubPlanId}
    {answers : List β} (found : plan.inputsOf known step = .ok answers) :
    List.Forall₂ (fun child answer => known.get? child = some answer) (plan.childrenOf step)
      answers := by
  refine (mapM_ok found).imp ?_
  intro child answer same
  split at same
  next known' => rw [known', Except.ok.inj same]
  · cases same

/-- The batch evaluator computes these rows for a step. -/
inductive Yields (checks : Checks) (facts : FactStore) (input : Tuple) (plan : Plan) :
    SubPlanId → OrderedSet Tuple → Prop where
  | intro {step : SubPlanId} {lowered : Lowered} {children : List (OrderedSet Tuple)}
      {rows : OrderedSet Tuple} (lowers : plan.lower step = .ok lowered)
      (length : (plan.childrenOf step).length = children.length)
      (below : ∀ child answer, (child, answer) ∈ (plan.childrenOf step).zip children →
        Yields checks facts input plan child answer)
      (evaluates : lowered.evaluate checks facts input children = .ok rows) :
      Yields checks facts input plan step rows

section Yields

variable {checks : Checks} {facts : FactStore} {input : Tuple} {plan : Plan}

theorem yields_of_evaluateStep {results after : Table SubPlanId (OrderedSet Tuple)}
    {step : SubPlanId}
    (known : ∀ step rows, results.get? step = some rows → Yields checks facts input plan step rows)
    (found : plan.evaluateStep checks facts input results step = .ok after) :
    (∀ step rows, after.get? step = some rows → Yields checks facts input plan step rows) ∧
      ∀ other, (after.get? other).isSome = true ↔
        other = step ∨ (results.get? other).isSome = true := by
  obtain ⟨lowered, lowers, found⟩ := ok_of_bind found
  obtain ⟨children, inputs, found⟩ := ok_of_bind found
  obtain ⟨rows, evaluates, found⟩ := ok_of_bind found
  cases found
  obtain ⟨length, below⟩ := List.forall₂_iff_zip.mp (inputsOf_ok inputs)
  constructor
  · intro other answer found
    rw [Table.get?_insert] at found
    split at found
    next same =>
      cases found
      exact same ▸ .intro lowers length (fun child answer pair => known _ _ (below pair)) evaluates
    · exact known other answer found
  · intro other
    rw [Table.get?_insert]
    by_cases same : other = step <;> simp [same]

theorem yields_of_foldlM {steps : List SubPlanId}
    {results after : Table SubPlanId (OrderedSet Tuple)}
    (known : ∀ step rows, results.get? step = some rows → Yields checks facts input plan step rows)
    (found : steps.foldlM (plan.evaluateStep checks facts input) results = .ok after) :
    (∀ step rows, after.get? step = some rows → Yields checks facts input plan step rows) ∧
      ∀ other, (after.get? other).isSome = true ↔
        other ∈ steps ∨ (results.get? other).isSome = true := by
  induction steps generalizing results with
  | nil =>
    cases found
    exact ⟨known, by simp⟩
  | cons step rest ih =>
    rw [List.foldlM_cons] at found
    obtain ⟨middle, first, later⟩ := ok_of_bind found
    obtain ⟨middleKnown, middleKeys⟩ := yields_of_evaluateStep known first
    obtain ⟨afterKnown, afterKeys⟩ := ih middleKnown later
    refine ⟨afterKnown, ?_⟩
    intro other
    rw [afterKeys, middleKeys, List.mem_cons]
    by_cases same : other = step <;> simp [same]

theorem evaluate_eq_ok_iff {rows : OrderedSet Tuple} :
    plan.evaluate checks facts input = .ok rows ↔
      plan.demandSound = .ok () ∧ input.length = plan.adornment.size ∧
        ∃ results, plan.steps.foldlM (plan.evaluateStep checks facts input) .empty = .ok results ∧
          (results.get? plan.root).getD .empty = rows := by
  unfold Plan.evaluate
  cases plan.demandSound with
  | error error => simp [bind, Except.bind]
  | ok sound =>
    by_cases fits : input.length = plan.adornment.size
    · cases plan.steps.foldlM (plan.evaluateStep checks facts input) .empty with
      | error error => simp [fits, bind, Except.bind]
      | ok results => simp [fits, bind, Except.bind, pure, Except.pure]
    · simp [fits, bind, Except.bind, throw, throwThe, MonadExceptOf.throw]

/-- The matches of a plan are the rows of its root. -/
theorem yields_of_evaluate {rows : OrderedSet Tuple} (listed : plan.root ∈ plan.steps)
    (found : plan.evaluate checks facts input = .ok rows) :
    Yields checks facts input plan plan.root rows := by
  obtain ⟨-, -, results, steps, rfl⟩ := evaluate_eq_ok_iff.mp found
  obtain ⟨known, keys⟩ := yields_of_foldlM (fun _ _ absent => by cases absent) steps
  obtain ⟨rows, same⟩ := Option.isSome_iff_exists.mp ((keys plan.root).mpr (.inl listed))
  rw [same]
  exact known _ _ same

/-- The matches of several plans are those of any of them. -/
theorem mem_evaluateAll {plans : List Plan} {rows : OrderedSet Tuple}
    (found : Plan.evaluateAll checks plans facts input = .ok rows) :
    ∃ answers, List.Forall₂ (fun plan answer => plan.evaluate checks facts input = .ok answer)
        plans answers ∧ ∀ row, row ∈ rows ↔ ∃ answer ∈ answers, row ∈ answer := by
  have all (plans : List Plan) (start : OrderedSet Tuple) (folded : plans.foldlM (fun found plan =>
        return found.union (← plan.evaluate checks facts input)) start = .ok rows) :
      ∃ answers, List.Forall₂ (fun plan answer => plan.evaluate checks facts input = .ok answer)
          plans answers ∧ ∀ row, row ∈ rows ↔ row ∈ start ∨ ∃ answer ∈ answers, row ∈ answer := by
    induction plans generalizing start with
    | nil =>
      cases folded
      exact ⟨[], .nil, by simp⟩
    | cons plan rest ih =>
      rw [List.foldlM_cons] at folded
      obtain ⟨_, first, later⟩ := ok_of_bind folded
      obtain ⟨answer, evaluated, same⟩ := ok_of_bind first
      cases same
      obtain ⟨answers, evaluate, members⟩ := ih _ later
      refine ⟨answer :: answers, .cons evaluated evaluate, ?_⟩
      intro row
      rw [members, OrderedSet.mem_union]
      simp [or_assoc]
  obtain ⟨answers, evaluate, members⟩ := all plans .empty found
  exact ⟨answers, evaluate, fun row => by simp [members]⟩

end Yields
end LiveQuery
