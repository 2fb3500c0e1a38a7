import LiveQuery.Batch
import LiveQuery.Network.Node
import LiveQuery.Proofs.Plan.Verified

/-!
# How lowering can fail

A step that refers to known things only (`Plan.Grounded`) either becomes an operator that reads as
many nodes as the step has children, or the plan is reported as malformed (`Plan.formed_lower`).  So
a cell can be made for it, except for rows that are supplied from outside
(`Node.formed_ofOperator`), and the batch evaluator has rows for it, unless the supplied row is too
short or a check fails (`Lowered.fulfils_evaluate`).
-/

namespace LiveQuery

/-! ## Contracts -/

/-- The computation gives an answer with a property, or an error with one. -/
def Fulfils {α : Type} (result : Except Error α) (good : α → Prop) (bad : Error → Prop) : Prop :=
  match result with
  | .ok answer => good answer
  | .error error => bad error

namespace Fulfils

variable {α β : Type} {result : Except Error α} {good middle : α → Prop} {bad : Error → Prop}

theorem bind {next : α → Except Error β} {final : β → Prop} (first : Fulfils result middle bad)
    (later : ∀ answer, middle answer → Fulfils (next answer) final bad) :
    Fulfils (result >>= next) final bad := by
  cases result with
  | error error => exact first
  | ok answer => exact later answer first

theorem andThen {next : α → Except Error β} {final : β → Prop}
    (first : Fulfils result (fun _ => True) bad)
    (later : ∀ answer, Fulfils (next answer) final bad) : Fulfils (result >>= next) final bad :=
  first.bind fun answer _ => later answer

theorem mono (fulfils : Fulfils result middle bad) (better : ∀ answer, middle answer → good answer) :
    Fulfils result good bad := by
  cases result with
  | error error => exact fulfils
  | ok answer => exact better answer fulfils

theorem of_error {error : Error} (fulfils : Fulfils result good bad)
    (failed : result = .error error) : bad error := by
  rwa [failed] at fulfils

theorem of_ok {answer : α} (fulfils : Fulfils result good bad) (found : result = .ok answer) :
    good answer := by
  rwa [found] at fulfils

/-- What is demanded of every value has been checked for all of them, one after another. -/
theorem forM {step : β → Except Error PUnit} {demanded : β → Prop} (values : List β)
    (each : ∀ value, Fulfils (step value) (fun _ => demanded value) bad) :
    Fulfils (values.forM step) (fun _ => ∀ value ∈ values, demanded value) bad := by
  induction values with
  | nil => exact fun _ member => by cases member
  | cons value rest ih =>
    show Fulfils (step value >>= fun _ => rest.forM step) _ bad
    refine (each value).bind fun _ first => ?_
    exact ih.mono fun _ others => List.forall_mem_cons.mpr ⟨first, others⟩

/-- What every step keeps holds after all steps, unless one of them fails. -/
theorem foldlM {step : α → β → Except Error α} {keeps : α → Prop} (values : List β)
    (each : ∀ value ∈ values, ∀ before, keeps before → Fulfils (step before value) keeps bad)
    {start : α} (begun : keeps start) : Fulfils (values.foldlM step start) keeps bad := by
  induction values generalizing start with
  | nil => exact begun
  | cons value rest ih =>
    rw [List.foldlM_cons]
    refine (each value List.mem_cons_self start begun).bind fun after kept => ?_
    exact ih (fun other member => each other (List.mem_cons_of_mem _ member)) kept

theorem mapM {step : β → Except Error α} (values : List β)
    (each : ∀ value ∈ values, Fulfils (step value) (fun _ => True) bad) :
    Fulfils (values.mapM step) (fun _ => True) bad := by
  induction values with
  | nil => trivial
  | cons value rest ih =>
    rw [List.mapM_cons]
    refine (each value List.mem_cons_self).andThen fun _ => andThen ?_ fun _ => trivial
    exact ih fun other member => each other (List.mem_cons_of_mem _ member)

end Fulfils

/-- The error says that the plan is malformed. -/
def Malformed (error : Error) : Prop := ∃ detail, error = .malformedPlan detail

/-- The computation gives an answer with a property, or reports a malformed plan. -/
abbrev Formed {α : Type} (result : Except Error α) (good : α → Prop) : Prop :=
  Fulfils result good Malformed

theorem Malformed.ne_outOfRange {error : Error} (malformed : Malformed error) :
    error ≠ .outOfRange := by
  obtain ⟨detail, rfl⟩ := malformed
  exact nofun

/-- Every defect of a step makes its plan malformed. -/
theorem formed_mapError {α : Type} {body : Body} {good : α → Prop}
    {result : Except LoweringDefect α} (answers : ∀ answer, result = .ok answer → good answer) :
    Formed (result.mapError (LoweringDefect.error body)) good := by
  cases result with
  | ok answer => exact answers answer rfl
  | error defect => cases defect <;> exact ⟨_, rfl⟩

/-! ## Operators -/

/-- How many nodes an operator reads. -/
def Operator.breadth : Operator → Nat
  | .filter _ | .antiJoin .. | .project _ => 1
  | .join .. => 2
  | .source .. | .unit _ | .input _ | .closure .. => 0

theorem Node.formed_ofOperator {operator : Operator} {children : List NodeId}
    (breadth : children.length = operator.breadth) :
    Formed (Node.ofOperator operator children) fun _ => True := by
  cases operator with
  | source | closure | unit => trivial
  | input => exact ⟨_, rfl⟩
  | filter | project | antiJoin =>
    obtain ⟨child, rfl⟩ := List.length_eq_one_iff.mp breadth
    trivial
  | join =>
    obtain ⟨left, right, rfl⟩ := List.length_eq_two.mp breadth
    trivial

namespace Lowered

/-- Why a step cannot be evaluated: the supplied row is too short, the rows of a child are missing,
or a check fails. -/
inductive Fails (input : Tuple) (children : List (OrderedSet Tuple)) (lowered : Lowered) :
    Error → Prop where
  | uncovered {columns : List Nat} (waits : lowered.operator = .input columns)
      (short : input.project? columns = none) : Fails input children lowered .outOfRange
  | incomplete (detail : String) (missing : children.length ≠ lowered.operator.breadth) :
      Fails input children lowered (.malformedPlan detail)
  | faults (label detail : String) :
      Fails input children lowered (.evaluationFault label detail)

theorem fulfils_evaluate (lowered : Lowered) (checks : Checks) (facts : FactStore) (input : Tuple)
    (children : List (OrderedSet Tuple)) :
    Fulfils (lowered.evaluate checks facts input children) (fun _ => True)
      (lowered.Fails input children) := by
  obtain ⟨operator, label⟩ := lowered
  cases operator with
  | unit | source | closure => trivial
  | input columns =>
    unfold evaluate
    dsimp only
    split
    · trivial
    next short => exact .uncovered rfl short
  | filter test =>
    rcases children with _ | ⟨rows, _ | ⟨_, _⟩⟩
    · exact .incomplete _ (by simp [Operator.breadth])
    · have selected := test.select_spec checks.agree_accepts label rows.toList
      unfold evaluate
      dsimp only
      cases found : test.select checks label rows.toList with
      | ok passed => trivial
      | error error =>
        rw [found] at selected
        obtain ⟨_, _, rfl⟩ := selected
        exact .faults _ _
    · exact .incomplete _ (by simp [Operator.breadth])
  | antiJoin | project =>
    rcases children with _ | ⟨rows, _ | ⟨_, _⟩⟩
    · exact .incomplete _ (by simp [Operator.breadth])
    · trivial
    · exact .incomplete _ (by simp [Operator.breadth])
  | join =>
    rcases children with _ | ⟨left, _ | ⟨right, _ | ⟨_, _⟩⟩⟩
    · exact .incomplete _ (by simp [Operator.breadth])
    · exact .incomplete _ (by simp [Operator.breadth])
    · trivial
    · exact .incomplete _ (by simp [Operator.breadth])

/-- With rows for all children, a step that does not wait for rows from outside can be evaluated if
its test answers on the rows. -/
theorem exists_evaluate_iff {lowered : Lowered} {checks : Checks} {facts : FactStore}
    {input : Tuple} {children : List (OrderedSet Tuple)}
    (inner : ∀ columns, lowered.operator ≠ .input columns)
    (breadth : children.length = lowered.operator.breadth) :
    (∃ rows, lowered.evaluate checks facts input children = .ok rows) ↔
      ∀ test, lowered.operator = .filter test → ∀ rows ∈ children, ∀ row ∈ rows,
        test.Decides checks row := by
  obtain ⟨operator, label⟩ := lowered
  cases operator with
  | unit | source | closure => exact iff_of_true ⟨_, rfl⟩ (by simp)
  | input columns => exact absurd rfl (inner columns)
  | antiJoin | project =>
    obtain ⟨rows, rfl⟩ := List.length_eq_one_iff.mp breadth
    exact iff_of_true ⟨_, rfl⟩ (by simp)
  | join =>
    obtain ⟨left, right, rfl⟩ := List.length_eq_two.mp breadth
    exact iff_of_true ⟨_, rfl⟩ (by simp)
  | filter test =>
    obtain ⟨rows, rfl⟩ := List.length_eq_one_iff.mp breadth
    simp only [Operator.filter.injEq, forall_eq', List.mem_singleton, forall_eq]
    have listed : (∀ row ∈ rows, test.Decides checks row) ↔
        ∀ row ∈ rows.toList, test.Decides checks row := by
      simp only [OrderedSet.mem_toList]
    rw [listed, ← @RowTest.exists_select_iff checks label test]
    unfold evaluate
    dsimp only
    cases test.select checks label rows.toList with
    | ok passed => exact iff_of_true ⟨_, rfl⟩ ⟨passed, rfl⟩
    | error error =>
      refine iff_of_false ?_ ?_
      · rintro ⟨_, same⟩
        cases same
      · rintro ⟨_, same⟩
        cases same

end Lowered

namespace Constraint

variable {place : ConstraintId} {layout : List VarId} {constraint : Constraint}
  {operator : Operator}

theorem breadth_enumerator (enumerates : constraint.enumerator place layout = .ok operator) :
    operator.breadth = 0 := by
  cases constraint with
  | relation =>
    obtain ⟨_, _, same⟩ := ok_of_bind enumerates
    cases same
    rfl
  | closure | constant =>
    cases enumerates
    rfl
  | equal | different | absent | check => cases enumerates

theorem breadth_selector (selects : constraint.selector place layout = .ok operator) :
    operator.breadth = 1 := by
  cases constraint with
  | constant | check | absent =>
    obtain ⟨_, _, same⟩ := ok_of_bind selects
    cases same
    rfl
  | equal | different =>
    obtain ⟨_, _, later⟩ := ok_of_bind selects
    obtain ⟨_, _, same⟩ := ok_of_bind later
    cases same
    rfl
  | relation | closure => cases selects

end Constraint

/-! ## Steps -/

/-- The report that a step comes before a child whose rows it reads. -/
def Error.precedesInput (step child : SubPlanId) : Error :=
  .malformedPlan s!"{step.literal} precedes its input {child.literal}"

namespace Plan

variable {plan : Plan} {step : SubPlanId}

/-- What is known of the children of a step is found, or a child of which nothing is known is
reported. -/
theorem fulfils_inputsOf {β : Type} (plan : Plan) (known : Table SubPlanId β) (step : SubPlanId) :
    Fulfils (plan.inputsOf known step) (fun _ => True) fun error =>
      ∃ child ∈ plan.childrenOf step, known.get? child = none ∧
        error = .precedesInput step child := by
  refine Fulfils.mapM _ fun child member => ?_
  cases found : known.get? child with
  | none => exact ⟨child, member, found, rfl⟩
  | some answer => trivial

theorem formed_inputsOf {β : Type} (known : Table SubPlanId β) :
    Formed (plan.inputsOf known step) fun _ => True := by
  cases inputs : plan.inputsOf known step with
  | ok answers => trivial
  | error error =>
    obtain ⟨child, _, _, rfl⟩ := (plan.fulfils_inputsOf known step).of_error inputs
    exact ⟨_, rfl⟩

theorem formed_constraint {place : ConstraintId} (inside : place.index < plan.body.constraints.length)
    {next : Constraint → Except Error Operator} {post : Operator → Prop}
    (later : ∀ constraint, Formed (next constraint) post) :
    Formed ((match plan.body.constraint? place with
      | some known => .ok known
      | none => .error .outOfRange : Except Error Constraint) >>= next) post := by
  have known : plan.body.constraint? place = some plan.body.constraints[place.index] :=
    List.getElem?_eq_getElem inside
  rw [known]
  exact later _

/-- A grounded step becomes an operator that reads as many nodes as the step has children. -/
theorem formed_lower (grounded : plan.Grounded step) :
    Formed (plan.lower step) fun lowered =>
      (plan.childrenOf step).length = lowered.operator.breadth := by
  obtain ⟨subPlan, found, _, constraints, _⟩ := grounded
  have described : plan.operation? step = some subPlan.operation := by
    rw [operation?, found]
    rfl
  have children : plan.childrenOf step = subPlan.operation.children := by
    rw [childrenOf, described]
    rfl
  have inside : ∀ place ∈ subPlan.operation.constraint?,
      place.index < plan.body.constraints.length := fun place member =>
    constraints place (List.mem_append_left _ (Option.mem_toList.mpr member))
  have operated : Formed (plan.operator step subPlan.operation) fun operator =>
      subPlan.operation.children.length = operator.breadth := by
    cases operation : subPlan.operation with
    | start => rfl
    | input subjects => exact (formed_mapError fun _ _ => trivial).bind fun _ _ => rfl
    | enumerate place =>
      refine formed_constraint (inside place (operation ▸ rfl)) fun constraint => ?_
      exact formed_mapError fun operator enumerates => (Constraint.breadth_enumerator enumerates).symm
    | apply child place =>
      refine formed_constraint (inside place (operation ▸ rfl)) fun constraint => ?_
      exact formed_mapError fun operator selects => (Constraint.breadth_selector selects).symm
    | join primary secondary =>
      refine formed_mapError fun operator joins => ?_
      obtain ⟨_, _, later⟩ := ok_of_bind joins
      obtain ⟨_, _, later⟩ := ok_of_bind later
      obtain ⟨_, _, same⟩ := ok_of_bind later
      cases same
      rfl
    | trim child kept => exact (formed_mapError fun _ _ => trivial).bind fun _ _ => rfl
    | project child parameters => exact (formed_mapError fun _ _ => trivial).bind fun _ _ => rfl
  rw [children, lower, described]
  exact operated.bind fun operator breadth => breadth

theorem verify_of_demandSound (sound : plan.demandSound = .ok ()) : plan.verify = .ok () := by
  unfold demandSound at sound
  cases verified : plan.verify with
  | ok answer => rfl
  | error error =>
    rw [verified] at sound
    cases sound

theorem grounded_of_demandSound (sound : plan.demandSound = .ok ()) :
    ∀ step ∈ plan.steps, plan.Grounded step :=
  (verify_eq_ok_iff.mp (verify_of_demandSound sound)).1

theorem malformed_of_demandSound {error : Error} (refused : plan.demandSound = .error error) :
    Malformed error := by
  unfold demandSound at refused
  cases verified : plan.verify with
  | ok answer =>
    rw [verified] at refused
    cases refused
  | error error =>
    rw [verified] at refused
    cases refused
    exact ⟨_, rfl⟩

end Plan
end LiveQuery
