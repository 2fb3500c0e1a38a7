import LiveQuery.Proofs.Plan.Order

/-!
# How steps read relations

Some operators draw rows from a relation, and others are blocked by it.  `Plan.Uses` says that there
is such an operator at or below a step.

While facts are on their way from one store to another, the nodes see some of them early and others
late.  `Plan.Interim` tells which rows a step may have then: its operators draw from all facts that
are there before or after, and are surely blocked only by those that are there both before and
after.  `FactStore.Encloses` names two stores between which this happens.  A step that is not
blocked by a relation in which they differ has such a row over the larger store, and a step that
does not draw from such a relation has it over the smaller one (`Plan.Between`,
`Plan.Interim.between`).

The batch evaluator runs a check on all rows of the step below it (`Plan.answered_of_evaluate`), and
if every step can be carried out without rows from outside, a check is the only thing that can fail
(`Plan.answers_evaluate`).  So over any store, a check that fails on a row makes the batch evaluator
fail, or the batch evaluator does not have the row (`Plan.faults_or_lacks`).  If it has an interim
row neither over the larger store nor over the smaller one, the step reads a relation in both ways
(`Plan.Within.uses`).
-/

namespace LiveQuery

namespace FactStore

/-- One store has no fact that is not there both before and after, and the other one has every fact
that is there before or after. -/
structure Encloses (smaller larger before after : FactStore) : Prop where
  least : ∀ relation fact, smaller.Has relation fact →
    before.Has relation fact ∧ after.Has relation fact
  most : ∀ relation fact, before.Has relation fact ∨ after.Has relation fact →
    larger.Has relation fact

theorem Encloses.symm {smaller larger before after : FactStore}
    (encloses : smaller.Encloses larger before after) : smaller.Encloses larger after before where
  least relation fact there := (encloses.least relation fact there).symm
  most relation fact there := encloses.most relation fact there.symm

end FactStore

/-! ## Reading relations -/

namespace Plan

/-- The step, or a step below it, becomes such an operator. -/
inductive Uses (plan : Plan) (used : Operator → Prop) : SubPlanId → Prop where
  | here {step : SubPlanId} {lowered : Lowered} (lowers : plan.lower step = .ok lowered)
      (found : used lowered.operator) : Uses plan used step
  | under {step child : SubPlanId} (member : child ∈ plan.childrenOf step)
      (uses : Uses plan used child) : Uses plan used step

/-- The row is among those that the batch evaluator has for the step, unless the step uses such an
operator. -/
def Within (checks : Checks) (facts : FactStore) (used : Operator → Prop) (plan : Plan)
    (step : SubPlanId) (row : Tuple) : Prop :=
  ¬plan.Uses used step → ∀ rows, Yields checks facts [] plan step rows → row ∈ rows

variable {checks : Checks} {truth : CheckId → Tuple → Bool} {facts : FactStore} {plan : Plan}
  {step : SubPlanId}

theorem Uses.mono {used more : Operator → Prop} (uses : plan.Uses used step)
    (weaker : ∀ operator, used operator → more operator) : plan.Uses more step := by
  induction uses with
  | here lowers found => exact .here lowers (weaker _ found)
  | under member _ ih => exact .under member ih

theorem Uses.exists_operator {used : Operator → Prop} (uses : plan.Uses used step) :
    ∃ operator, used operator := by
  induction uses with
  | here _ found => exact ⟨_, found⟩
  | under _ _ ih => exact ih

/-- If no operator but those that are used draws from facts that are not in the store, or is blocked
by fewer facts than the store has, a step emits nothing but its rows over the store. -/
theorem within_of_emits (agree : checks.Agree truth) {given barred : RelationId → Tuple → Prop}
    {used : Operator → Prop}
    (drawn : ∀ operator relation, ¬used operator → operator.DrawsFrom relation →
      ∀ fact, given relation fact → facts.Has relation fact)
    (blocking : ∀ operator relation, ¬used operator → operator.BlockedBy relation →
      ∀ fact, facts.Has relation fact → barred relation fact)
    {lowered : Lowered} (lowers : plan.lower step = .ok lowered) {means : List (Tuple → Prop)}
    {row : Tuple} (emits : lowered.operator.Emits truth given barred [] means row)
    (below : List.Forall₂ (fun child mean => ∀ row, mean row →
      plan.Within checks facts used child row) (plan.childrenOf step) means) :
    plan.Within checks facts used step row := by
  intro unused rows yields
  obtain @⟨_, _, answers, _, lowersAgain, length, each, evaluates⟩ := yields
  cases lowers.symm.trans lowersAgain
  have free : ¬used lowered.operator := fun found => unused (.here lowers found)
  rw [Lowered.evaluate_spec agree evaluates, Operator.rows_iff_emits]
  refine emits.mono (fun relation => drawn _ relation free)
    (fun relation => blocking _ relation free) (List.forall₂_map_right_iff.mpr ?_)
  -- what the children emit is among their rows
  refine List.forall₂_iff_get.mpr ⟨below.length_eq.symm.trans length, ?_⟩
  intro place first second row mean
  have inside : place < (plan.childrenOf step).length := length ▸ second
  refine List.Forall₂.get below inside first row mean ?_ _ (each _ _ ?_)
  · exact fun uses => unused (.under (List.getElem_mem inside) uses)
  · refine List.mem_iff_getElem.mpr ⟨place, by rw [List.length_zip]; omega, ?_⟩
    rw [List.getElem_zip]
    rfl

/-- The larger store has further facts of the relation. -/
def Gap (smaller larger : FactStore) (relation : RelationId) : Prop :=
  ∃ fact, larger.Has relation fact ∧ ¬smaller.Has relation fact

/-- Unless the step is blocked by a relation that makes a difference, it has the row over the larger
store, and unless it draws from such a relation, over the smaller one. -/
structure Between (checks : Checks) (smaller larger : FactStore) (plan : Plan) (step : SubPlanId)
    (row : Tuple) : Prop where
  overLarger : plan.Within checks larger
    (fun operator => ∃ relation, Gap smaller larger relation ∧ operator.BlockedBy relation) step row
  overSmaller : plan.Within checks smaller
    (fun operator => ∃ relation, Gap smaller larger relation ∧ operator.DrawsFrom relation) step row

/-- A step that draws from the facts of the larger store, and is blocked by those of the smaller one
at least, emits no other rows if this is so for its children. -/
theorem between_of_emits (agree : checks.Agree truth) {smaller larger : FactStore}
    {lowered : Lowered} (lowers : plan.lower step = .ok lowered) {means : List (Tuple → Prop)}
    {row : Tuple} (emits : lowered.operator.Emits truth larger.Has smaller.Has [] means row)
    (below : List.Forall₂ (fun child mean => ∀ row, mean row →
      plan.Between checks smaller larger child row) (plan.childrenOf step) means) :
    plan.Between checks smaller larger step row where
  overLarger := by
    refine within_of_emits agree (fun _ _ _ _ _ there => there) ?_ lowers emits
      (below.imp fun _ _ between row mean => (between row mean).overLarger)
    intro operator relation unused blocked fact there
    by_contra absent
    exact unused ⟨relation, ⟨fact, there, absent⟩, blocked⟩
  overSmaller := by
    refine within_of_emits agree ?_ (fun _ _ _ _ _ there => there) lowers emits
      (below.imp fun _ _ between row mean => (between row mean).overSmaller)
    intro operator relation unused drawn fact there
    by_contra absent
    exact unused ⟨relation, ⟨fact, there, absent⟩, drawn⟩

/-- A row that the step may have while facts are on their way from one store to another: operators
draw from the facts that are there before or after, and are blocked by those that are there both
before and after. -/
inductive Interim (truth : CheckId → Tuple → Bool) (before after : FactStore) (plan : Plan) :
    SubPlanId → Tuple → Prop where
  | intro {step : SubPlanId} {lowered : Lowered} {means : List (Tuple → Prop)} {row : Tuple}
      (lowers : plan.lower step = .ok lowered)
      (length : (plan.childrenOf step).length = means.length)
      (below : ∀ child mean, (child, mean) ∈ (plan.childrenOf step).zip means →
        ∀ row, mean row → Interim truth before after plan child row)
      (emits : lowered.operator.Emits truth
        (fun relation fact => before.Has relation fact ∨ after.Has relation fact)
        (fun relation fact => before.Has relation fact ∧ after.Has relation fact) [] means row) :
      Interim truth before after plan step row

theorem Interim.between (agree : checks.Agree truth) {smaller larger before after : FactStore}
    (encloses : smaller.Encloses larger before after) {row : Tuple}
    (interim : plan.Interim truth before after step row) :
    plan.Between checks smaller larger step row := by
  induction interim with
  | intro lowers length _ emits ih =>
    refine between_of_emits agree lowers (emits.mono (fun relation _ => encloses.most relation)
      (fun relation _ => encloses.least relation) (List.forall₂_same.mpr fun _ _ _ => id)) ?_
    exact List.forall₂_iff_zip.mpr ⟨length, fun pair row mean => ih _ _ pair row mean⟩

/-! ## Answers of the batch evaluator -/

theorem exists_yields {input : Tuple} {found : OrderedSet Tuple}
    (evaluated : plan.evaluate checks facts input = .ok found) (listed : step ∈ plan.steps) :
    ∃ rows, Yields checks facts input plan step rows := by
  obtain ⟨-, -, results, steps, -⟩ := evaluate_eq_ok_iff.mp evaluated
  obtain ⟨known, keys⟩ := yields_of_foldlM (fun _ _ absent => by cases absent) steps
  obtain ⟨rows, same⟩ := Option.isSome_iff_exists.mp ((keys step).mpr (.inl listed))
  exact ⟨rows, known _ _ same⟩

/-- An evaluation that succeeds has run each check on all rows of the step below it. -/
theorem answered_of_evaluate {input : Tuple} {found : OrderedSet Tuple}
    (evaluated : plan.evaluate checks facts input = .ok found) (listed : step ∈ plan.steps)
    {id : CheckId} {columns : List Nat} {label : String}
    (lowers : plan.lower step = .ok ⟨.filter (.check id columns), label⟩) {child : SubPlanId}
    (only : plan.childrenOf step = [child]) :
    ∃ rows, Yields checks facts input plan child rows ∧
      ∀ row ∈ rows, ∃ accepted, checks id (row.project columns) = .ok accepted := by
  obtain ⟨_, yields⟩ := exists_yields evaluated listed
  obtain @⟨_, _, answers, _, lowersAgain, length, each, evaluates⟩ := yields
  cases lowers.symm.trans lowersAgain
  rw [only] at length each
  obtain ⟨rows, rfl⟩ := List.length_eq_one_iff.mp length.symm
  refine ⟨rows, each child rows (by simp), fun row member => RowTest.decides_check.mp ?_⟩
  exact (Lowered.exists_evaluate_iff (fun _ => Operator.noConfusion) rfl).mp ⟨_, evaluates⟩ _ rfl
    rows List.mem_cons_self row member

/-- The step becomes an operator that does not wait for rows from outside. -/
def Operable (plan : Plan) (step : SubPlanId) : Prop :=
  ∃ lowered, plan.lower step = .ok lowered ∧ ∀ columns, lowered.operator ≠ .input columns

/-- With rows for all children, only a check can make an operator fail that does not wait for rows
from outside. -/
theorem answers_lowered {lowered : Lowered} {children : List (OrderedSet Tuple)}
    (breadth : children.length = lowered.operator.breadth)
    (inner : ∀ columns, lowered.operator ≠ .input columns) :
    Answers (lowered.evaluate checks facts [] children) fun _ => True := by
  cases evaluated : lowered.evaluate checks facts [] children with
  | ok rows => trivial
  | error error =>
    cases (lowered.fulfils_evaluate ..).of_error evaluated with
    | uncovered waits => exact absurd waits (inner _)
    | incomplete _ missing => exact absurd breadth missing
    | faults label detail => exact ⟨label, detail, rfl⟩

theorem answers_steps {steps : List SubPlanId} {known : SubPlanId → Prop}
    (ordered : plan.Ordered known steps) (grounded : ∀ step ∈ steps, plan.Grounded step)
    (operable : ∀ step ∈ steps, plan.Operable step) {results : Table SubPlanId (OrderedSet Tuple)}
    (kept : ∀ step, known step → (results.get? step).isSome = true) :
    Answers (steps.foldlM (plan.evaluateStep checks facts []) results) fun _ => True := by
  induction steps generalizing known results with
  | nil => trivial
  | cons step rest ih =>
    obtain ⟨lowered, lowers, inner⟩ := operable step List.mem_cons_self
    have breadth := (formed_lower (grounded step List.mem_cons_self)).of_ok lowers
    obtain ⟨children, inputs, length⟩ := exists_inputsOf fun child member =>
      kept child (ordered.1 child member)
    have first : Answers (plan.evaluateStep checks facts [] results step) fun after =>
        ∀ other, other = step ∨ known other → (after.get? other).isSome = true := by
      unfold evaluateStep
      rw [lowers, inputs]
      exact (answers_lowered (length.trans breadth) inner).bind fun _ _ => isSome_insert kept
    rw [List.foldlM_cons]
    exact first.bind fun _ kept => ih ordered.2
      (fun other member => grounded other (List.mem_cons_of_mem _ member))
      (fun other member => operable other (List.mem_cons_of_mem _ member)) kept

/-- An accepted plan whose steps can all be carried out can be evaluated, unless a check fails. -/
theorem answers_evaluate (unadorned : plan.isAdorned = false) (sound : plan.demandSound = .ok ())
    (operable : ∀ step ∈ plan.steps, plan.Operable step) (checks : Checks) (facts : FactStore) :
    Answers (plan.evaluate checks facts []) fun _ => True := by
  have size : plan.adornment.size = 0 := by
    simpa [isAdorned, OrderedSet.isEmpty, OrderedSet.size] using unadorned
  unfold evaluate
  rw [sound]
  simp only [size, List.length_nil, ne_eq, not_true_eq_false, if_false]
  exact (answers_steps (ordered_steps sound) (grounded_of_demandSound sound) operable
    fun _ absent => absent.elim).bind fun _ _ => trivial

/-! ## Faults -/

/-- A check fails while the batch evaluator computes the matches of the plan. -/
def Faults (checks : Checks) (facts : FactStore) (plan : Plan) : Prop :=
  ∃ label detail, plan.evaluate checks facts [] = .error (.evaluationFault label detail)

/-- The batch evaluator has rows for the step, and the row is not among them. -/
def Lacks (checks : Checks) (facts : FactStore) (plan : Plan) (step : SubPlanId) (row : Tuple) :
    Prop :=
  ∃ rows, Yields checks facts [] plan step rows ∧ row ∉ rows

/-- A check of the plan fails on a row which the batch evaluator has neither before nor after, but
which the step below the check may have in between; and this step draws from the relation and is
also blocked by it. -/
def FaultsBetween (checks : Checks) (truth : CheckId → Tuple → Bool) (before after : FactStore)
    (relation : RelationId) (detail : String) (plan : Plan) : Prop :=
  ∃ step ∈ plan.steps, ∃ id columns label child row,
    plan.lower step = .ok ⟨.filter (.check id columns), label⟩ ∧ plan.childrenOf step = [child] ∧
    plan.Uses (Operator.DrawsFrom relation) child ∧ plan.Uses (Operator.BlockedBy relation) child ∧
    plan.Interim truth before after child row ∧
    plan.Lacks checks before child row ∧ plan.Lacks checks after child row ∧
    checks id (row.project columns) = .error detail

/-- A check that fails on a row makes the batch evaluator fail, unless it does not have the row. -/
theorem faults_or_lacks (answers : Answers (plan.evaluate checks facts []) fun _ => True)
    (listed : step ∈ plan.steps) {id : CheckId} {columns : List Nat} {label detail : String}
    (lowers : plan.lower step = .ok ⟨.filter (.check id columns), label⟩) {child : SubPlanId}
    (only : plan.childrenOf step = [child]) {row : Tuple}
    (failed : checks id (row.project columns) = .error detail) :
    plan.Faults checks facts ∨ plan.Lacks checks facts child row := by
  cases evaluated : plan.evaluate checks facts [] with
  | error error =>
    rw [evaluated] at answers
    obtain ⟨label, detail, rfl⟩ := answers
    exact .inl ⟨label, detail, evaluated⟩
  | ok found =>
    obtain ⟨rows, yields, accepts⟩ := answered_of_evaluate evaluated listed lowers only
    refine .inr ⟨rows, yields, fun member => ?_⟩
    obtain ⟨_, accepted⟩ := accepts row member
    rw [failed] at accepted
    cases accepted

theorem Within.uses {used : Operator → Prop} {row : Tuple}
    (within : plan.Within checks facts used step row) (lacks : plan.Lacks checks facts step row) :
    plan.Uses used step := by
  obtain ⟨rows, yields, absent⟩ := lacks
  by_contra unused
  exact absent (within unused rows yields)

end Plan
end LiveQuery
