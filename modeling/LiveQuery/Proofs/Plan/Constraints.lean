import LiveQuery.Proofs.Batch.Rows
import LiveQuery.Proofs.Plan.Layout

/-!
# Constraints and their operators

`Constraint.Holds` says when an assignment of values to all variables satisfies a constraint; only
the values of its arguments matter (`Constraint.holds_congr`).

* A constraint that is enumerated becomes an operator whose rows show the assignments that satisfy
  it (`Constraint.enumerator_spec`).  Where an argument is repeated, the operator compares the
  positions and lists the value once, and the rows of a closure from a variable to itself are its
  loops (`closureRow?_eq_some`).
* A constraint that is applied becomes an operator that keeps the rows whose assignments satisfy it
  (`Constraint.selector_spec`).

Both are told over the layout of a step, that is, over the variables that its columns stand for.
-/

namespace LiveQuery

/-! ## Satisfaction -/

/-- Whether an assignment satisfies a constraint over a fact store. -/
def Constraint.Holds (checks : Checks) (facts : FactStore) (values : VarId → Value) :
    Constraint → Prop
  | .relation name arguments _ => facts.Has name (arguments.map values)
  | .closure name source target => facts.Linked name (values source) (values target)
  | .equal left right => values left = values right
  | .different left right => values left ≠ values right
  | .absent name arguments => ¬facts.Has name (arguments.map values)
  | .check _ test arguments => checks test (arguments.map values) = .ok true
  | .constant subject value => values subject = value

/-- A check that fails accepts nothing. -/
def Checks.accepts (checks : Checks) (id : CheckId) (row : Tuple) : Bool :=
  match checks id row with
  | .ok answer => answer
  | .error _ => false

theorem Checks.agree_accepts (checks : Checks) : checks.Agree checks.accepts := by
  intro id row answer found
  rw [accepts, found]

theorem Checks.accepts_iff {checks : Checks} {id : CheckId} {row : Tuple} :
    checks.accepts id row = true ↔ checks id row = .ok true := by
  unfold accepts
  split
  next answer found => simp [found]
  next detail found => simp [found]

theorem Constraint.holds_congr {checks : Checks} {facts : FactStore} {values other : VarId → Value}
    {constraint : Constraint}
    (same : ∀ subject ∈ constraint.arguments, values subject = other subject) :
    constraint.Holds checks facts values ↔ constraint.Holds checks facts other := by
  cases constraint with
  | relation name arguments keys =>
    have tuples : arguments.map values = arguments.map other := List.map_congr_left same
    rw [Holds, Holds, tuples]
  | closure name source target =>
    rw [Holds, Holds, same source (by simp [arguments]), same target (by simp [arguments])]
  | equal left right =>
    rw [Holds, Holds, same left (by simp [arguments]), same right (by simp [arguments])]
  | different left right =>
    rw [Holds, Holds, same left (by simp [arguments]), same right (by simp [arguments])]
  | absent name arguments =>
    have tuples : arguments.map values = arguments.map other := List.map_congr_left same
    rw [Holds, Holds, tuples]
  | check label test arguments =>
    have tuples : arguments.map values = arguments.map other := List.map_congr_left same
    rw [Holds, Holds, tuples]
  | constant subject value => rw [Holds, Holds, same subject (by simp [arguments])]

theorem Constraint.mem_subjects {constraint : Constraint} {subject : VarId} :
    subject ∈ constraint.subjects ↔ subject ∈ constraint.arguments :=
  OrderedSet.mem_ofList

/-! ## Operators that can be evaluated -/

/-- The operator takes that many children, and the supplied row is long enough for it. -/
def Operator.Fits (input : Tuple) : Operator → Nat → Prop
  | .source .., 0 | .unit _, 0 | .closure .., 0 => True
  | .input columns, 0 => ∀ column ∈ columns, column < input.length
  | .filter _, 1 | .antiJoin .., 1 | .project _, 1 => True
  | .join .., 2 => True
  | _, _ => False

theorem RowTest.select_ok {checks : Checks}
    (answer : ∀ id row, ∃ accepted, checks id row = .ok accepted) (label : String)
    (test : RowTest) (rows : List Tuple) :
    ∃ selected, test.select checks label rows = .ok selected := by
  have passes (row : Tuple) : ∃ accepted, test.passes checks label row = .ok accepted := by
    cases test with
    | check id columns =>
      obtain ⟨accepted, found⟩ := answer id (row.project columns)
      exact ⟨accepted, by rw [passes, found]⟩
    | _ => exact ⟨_, rfl⟩
  induction rows with
  | nil => exact ⟨[], rfl⟩
  | cons row rest ih =>
    obtain ⟨accepted, passed⟩ := passes row
    obtain ⟨selected, later⟩ := ih
    exact ⟨if accepted then row :: selected else selected, by rw [select, passed, later]; rfl⟩

theorem project?_eq {tuple : Tuple} {columns : List Nat}
    (inside : ∀ column ∈ columns, column < tuple.length) :
    tuple.project? columns = some (tuple.project columns) := by
  induction columns with
  | nil => rfl
  | cons column rest ih =>
    have tail := ih fun other member => inside other (List.mem_cons_of_mem _ member)
    have here := inside column List.mem_cons_self
    unfold Tuple.project? Tuple.project at tail ⊢
    rw [List.mapM_cons, tail]
    simp [Tuple.value, here]

/-- An operator that fits can be evaluated as long as no check fails. -/
theorem Lowered.evaluate_ok {checks : Checks}
    (answer : ∀ id row, ∃ accepted, checks id row = .ok accepted) (facts : FactStore)
    {input : Tuple} {step : Lowered} {children : List (OrderedSet Tuple)}
    (fits : step.operator.Fits input children.length) :
    ∃ rows, step.evaluate checks facts input children = .ok rows := by
  obtain ⟨operator, label⟩ := step
  unfold evaluate
  cases operator with
  | input columns =>
    match children, fits with
    | [], inside =>
      dsimp only
      rw [project?_eq inside]
      exact ⟨_, rfl⟩
  | filter test =>
    match children, fits with
    | [rows], _ =>
      obtain ⟨selected, found⟩ := RowTest.select_ok answer label test rows.toList
      dsimp only
      rw [found]
      exact ⟨.ofList selected, rfl⟩
  | antiJoin relation key =>
    match children, fits with
    | [rows], _ => exact ⟨_, rfl⟩
  | project columns =>
    match children, fits with
    | [rows], _ => exact ⟨_, rfl⟩
  | join leftKey rightKey output =>
    match children, fits with
    | [left, right], _ => exact ⟨_, rfl⟩
  | source relation arity columns equal => exact ⟨_, rfl⟩
  | unit row => exact ⟨_, rfl⟩
  | closure relation single swap => exact ⟨_, rfl⟩

/-! ## Enumerated constraints -/

namespace Constraint

theorem toList_pair (source target : VarId) :
    (OrderedSet.ofList [source, target]).toList =
      if source = target then [source]
      else if compare source target = .gt then [target, source] else [source, target] := by
  show OrderedSet.insertSorted target [source] = _
  unfold OrderedSet.insertSorted
  split
  next less =>
    have greater : compare source target = .gt := Std.OrientedCmp.gt_of_lt less
    have different : source ≠ target := by
      intro same
      subst same
      simp [Std.ReflOrd.compare_self] at less
    rw [if_neg different, if_pos greater]
  next equal => rw [if_pos (Std.LawfulEqOrd.eq_of_compare equal).symm]
  next greater =>
    have less : compare source target = .lt := Std.OrientedCmp.lt_of_gt greater
    have different : source ≠ target := by
      intro same
      subst same
      simp [Std.ReflOrd.compare_self] at less
    rw [if_neg different, if_neg (by simp [less])]
    rfl

/-- The pairs that have a row are those of some assignment, and the row shows it. -/
theorem closureRow?_eq_some {source target : VarId} {first second : Value} {row : Tuple} :
    Operator.closureRow? (source = target) (compare source target = .gt) (first, second) =
        some row ↔
      ∃ values : VarId → Value, values source = first ∧ values target = second ∧
        row = (OrderedSet.ofList [source, target]).toList.map values := by
  rw [toList_pair]
  unfold Operator.closureRow?
  by_cases single : source = target
  · subst single
    simp only [decide_true, if_true]
    constructor
    · intro found
      split at found
      next same =>
        cases found
        exact ⟨fun _ => first, rfl, same, rfl⟩
      · cases found
    · intro found
      obtain ⟨values, rfl, rfl, rfl⟩ := found
      rw [if_pos rfl]
      rfl
  · -- two different variables can have any two values
    have give : ∃ values : VarId → Value, values source = first ∧ values target = second :=
      ⟨fun subject => if subject = source then first else second, if_pos rfl,
        if_neg (Ne.symm single)⟩
    by_cases swap : compare source target = .gt
    · simp only [single, swap, decide_false, decide_true, Bool.false_eq_true, if_false, if_true]
      constructor
      · intro found
        cases found
        obtain ⟨values, rfl, rfl⟩ := give
        exact ⟨values, rfl, rfl, rfl⟩
      · intro found
        obtain ⟨values, rfl, rfl, rfl⟩ := found
        rfl
    · simp only [single, swap, decide_false, Bool.false_eq_true, if_false]
      constructor
      · intro found
        cases found
        obtain ⟨values, rfl, rfl⟩ := give
        exact ⟨values, rfl, rfl, rfl⟩
      · intro found
        obtain ⟨values, rfl, rfl, rfl⟩ := found
        rfl

variable (checks : Checks) (facts : FactStore) (input : Tuple)

/-- The rows of an enumerated constraint show the assignments that satisfy it. -/
theorem enumerator_spec (id : ConstraintId) {constraint : Constraint}
    (role : constraint.role ≠ .deferred) :
    ∃ operator, constraint.enumerator id constraint.subjects.toList = .ok operator ∧
      operator.Fits input 0 ∧ ∀ row, operator.Rows checks.accepts facts input [] row ↔
        ∃ values, constraint.Holds checks facts values ∧
          row = constraint.subjects.toList.map values := by
  cases constraint with
  | relation name arguments keys =>
    have shown : ∀ subject ∈ (OrderedSet.ofList arguments).toList, subject ∈ arguments :=
      fun subject member => OrderedSet.mem_ofList.mp member
    obtain ⟨columns, found, _, project⟩ := positions_spec shown
    refine ⟨.source name arguments.length columns (repetitions arguments), ?_, trivial,
      fun row => ?_⟩
    · show (positions arguments (OrderedSet.ofList arguments).toList >>= _) = _
      rw [found]
      rfl
    · show (∃ fact, facts.Has name fact ∧ Operator.sourceRow? _ _ _ fact = some row) ↔ _
      unfold Operator.sourceRow?
      constructor
      · intro found
        obtain ⟨fact, known, same⟩ := found
        split at same
        next fits =>
          cases same
          simp only [Bool.and_eq_true, decide_eq_true_eq, List.all_eq_true] at fits
          have back := map_valuesOf fits.1 fits.2
          refine ⟨valuesOf arguments fact, ?_, ?_⟩
          · rw [Holds, back]
            exact known
          · have shows := project (valuesOf arguments fact)
            rw [back] at shows
            exact shows
        · cases same
      · intro found
        obtain ⟨values, known, rfl⟩ := found
        refine ⟨arguments.map values, known, ?_⟩
        rw [if_pos, project]
        · rfl
        · simp only [Bool.and_eq_true, decide_eq_true_eq, List.all_eq_true, List.length_map,
            true_and]
          exact fun pair member => value_of_mem_repetitions member values
  | closure name source target =>
    refine ⟨.closure name (source = target) (compare source target = .gt), rfl, trivial,
      fun row => ?_⟩
    show (∃ first second, facts.Linked name first second ∧ _ = some row) ↔ _
    simp only [closureRow?_eq_some]
    constructor
    · intro found
      obtain ⟨_, _, linked, values, rfl, rfl, rfl⟩ := found
      exact ⟨values, linked, rfl⟩
    · intro found
      obtain ⟨values, linked, rfl⟩ := found
      exact ⟨_, _, linked, values, rfl, rfl, rfl⟩
  | constant subject value =>
    refine ⟨.unit [value], rfl, trivial, ?_⟩
    intro row
    show row = [value] ↔ ∃ values : VarId → Value, values subject = value ∧ row = [values subject]
    constructor
    · intro same
      subst same
      exact ⟨fun _ => value, rfl, rfl⟩
    · intro found
      obtain ⟨values, rfl, rfl⟩ := found
      rfl
  | _ => exact absurd rfl role

/-! ## Applied constraints -/

/-- Applying a constraint keeps the rows whose assignments satisfy it. -/
theorem selector_spec (id : ConstraintId) {constraint : Constraint} (layout : List VarId)
    (role : constraint.role ≠ .enumerable)
    (shown : ∀ subject ∈ constraint.arguments, subject ∈ layout) :
    ∃ operator, constraint.selector id layout = .ok operator ∧ operator.Fits input 1 ∧
      (∀ child row, operator.Rows checks.accepts facts input [child] row → child row) ∧
      ∀ child values, operator.Rows checks.accepts facts input [child] (layout.map values) ↔
        child (layout.map values) ∧ constraint.Holds checks facts values := by
  cases constraint with
  | constant subject value =>
    obtain ⟨place, found⟩ := exists_place (shown subject (by simp [arguments]))
    have here := (value_of_idxOf? found).2
    refine ⟨.filter (.constant place value), ?_, trivial, fun _ _ kept => kept.1,
      fun child values => ?_⟩
    · simp only [selector, position_of_idxOf? found]
      rfl
    · simp [Operator.Rows, RowTest.holds, Holds, here]
  | equal left right =>
    obtain ⟨first, firstFound⟩ := exists_place (shown left (by simp [arguments]))
    obtain ⟨second, secondFound⟩ := exists_place (shown right (by simp [arguments]))
    have firstHere := (value_of_idxOf? firstFound).2
    have secondHere := (value_of_idxOf? secondFound).2
    refine ⟨.filter (.equal first second), ?_, trivial, fun _ _ kept => kept.1,
      fun child values => ?_⟩
    · simp only [selector, position_of_idxOf? firstFound, position_of_idxOf? secondFound]
      rfl
    · simp [Operator.Rows, RowTest.holds, Holds, firstHere, secondHere]
  | different left right =>
    obtain ⟨first, firstFound⟩ := exists_place (shown left (by simp [arguments]))
    obtain ⟨second, secondFound⟩ := exists_place (shown right (by simp [arguments]))
    have firstHere := (value_of_idxOf? firstFound).2
    have secondHere := (value_of_idxOf? secondFound).2
    refine ⟨.filter (.different first second), ?_, trivial, fun _ _ kept => kept.1,
      fun child values => ?_⟩
    · simp only [selector, position_of_idxOf? firstFound, position_of_idxOf? secondFound]
      rfl
    · simp [Operator.Rows, RowTest.holds, Holds, firstHere, secondHere]
  | absent name arguments =>
    obtain ⟨places, found, _, project⟩ := positions_spec shown
    refine ⟨.antiJoin name places, ?_, trivial, fun _ _ kept => kept.1, fun child values => ?_⟩
    · show (positions layout arguments >>= _) = _
      rw [show positions layout arguments = .ok places from found]
      rfl
    · rw [Operator.Rows, project]
      rfl
  | check label test arguments =>
    obtain ⟨places, found, _, project⟩ := positions_spec shown
    refine ⟨.filter (.check test places), ?_, trivial, fun _ _ kept => kept.1,
      fun child values => ?_⟩
    · show (positions layout arguments >>= _) = _
      rw [show positions layout arguments = .ok places from found]
      rfl
    · rw [Operator.Rows, RowTest.holds, project, Checks.accepts_iff]
      rfl
  | _ => exact absurd rfl role

end Constraint
end LiveQuery
