import Mathlib.Data.List.Perm.Subperm
import LiveQuery.Proofs.Plan.Columns
import LiveQuery.Proofs.Plan.Lowering

/-!
# Positions in range

The positions that an operator reads are fixed when a step is lowered, and used much later on rows
that other steps have made.  `Operator.InRange` says that rows have all positions that are read of
them.  Lowering takes every position from the columns of a child (`Plan.reads_of_operator`), and all
rows of a step have a value for each of its columns (`Plan.spans_of_emits`), so that an evaluation
reads no position that is not there (`Plan.Reaches.inRange`).

This needs two things that no check demands of a plan that was built by hand.  An input step only
lists variables for which there are values (`Plan.InputsFit`), and the source of a constraint only
shows variables of this constraint (`Plan.SourcesFit`).
-/

namespace LiveQuery

/-! ## What operators read -/

/-- The row has all of the listed positions. -/
def Tuple.Covers (row : Tuple) (places : List Nat) : Prop := ∀ place ∈ places, place < row.length

theorem Tuple.length_of_project? {tuple row : Tuple} {places : List Nat}
    (found : tuple.project? places = some row) : row.length = places.length := by
  induction places generalizing row with
  | nil =>
    cases found
    rfl
  | cons place rest ih =>
    unfold project? at found
    rw [List.mapM_cons] at found
    obtain ⟨_, _, found⟩ := Option.bind_eq_some_iff.mp found
    obtain ⟨_, later, same⟩ := Option.bind_eq_some_iff.mp found
    cases same
    rw [List.length_cons, List.length_cons, ih later]

theorem Tuple.exists_project? {tuple : Tuple} {places : List Nat} (covers : tuple.Covers places) :
    ∃ row, tuple.project? places = some row := by
  induction places with
  | nil => exact ⟨[], rfl⟩
  | cons place rest ih =>
    obtain ⟨here, later⟩ := List.forall_mem_cons.mp covers
    obtain ⟨row, found⟩ := ih later
    refine ⟨tuple[place] :: row, ?_⟩
    unfold project? at found ⊢
    rw [List.mapM_cons, found, List.getElem?_eq_getElem here]
    rfl

/-- The positions that a test reads. -/
def RowTest.reads : RowTest → List Nat
  | .constant column _ => [column]
  | .equal first second | .different first second => [first, second]
  | .check _ columns => columns

/-- The columns that joined rows take from one side. -/
def Side.columns (side : Side) (output : List (Side × Nat)) : List Nat :=
  (output.filter (·.1 = side)).map Prod.snd

namespace Operator

/-- The positions that an operator reads of the rows of each of its children. -/
def reads : Operator → List (List Nat)
  | .filter test => [test.reads]
  | .antiJoin _ key => [key]
  | .join leftKey rightKey output =>
    [leftKey ++ Side.left.columns output, rightKey ++ Side.right.columns output]
  | .project columns => [columns]
  | .source .. | .unit _ | .input _ | .closure .. => []

/-- The positions that are read of a fact are below its arity. -/
def FitsFacts : Operator → Prop
  | .source _ arity columns equal =>
    ∀ place ∈ columns ++ equal.flatMap (fun pair => [pair.1, pair.2]), place < arity
  | _ => True

/-- The facts and the rows of the children have all positions that the operator reads of them. -/
structure InRange (operator : Operator) (children : List (List Tuple)) : Prop where
  facts : operator.FitsFacts
  rows : List.Forall₂ (fun places rows => ∀ row ∈ rows, Tuple.Covers row places) operator.reads
    children

/-- How many values the rows of an operator have, if those of its children have this many. -/
def width : Operator → List Nat → Nat
  | .source _ _ columns _, _ | .input columns, _ | .project columns, _ => columns.length
  | .unit row, _ => row.length
  | .closure _ single _, _ => if single then 1 else 2
  | .join _ _ output, _ => output.length
  | .filter _, widths | .antiJoin .., widths => widths.headD 0

variable {truth : CheckId → Tuple → Bool} {given barred : RelationId → Tuple → Prop}
  {input row : Tuple} {operator : Operator} {children : List (Tuple → Prop)} {widths : List Nat}

/-- Rows do not get shorter than their children make them. -/
theorem width_le_of_emits (emits : operator.Emits truth given barred input children row)
    (below : List.Forall₂ (fun child width => ∀ row, child row → width ≤ List.length row) children
      widths) : operator.width widths ≤ row.length := by
  cases operator with
  | source relation arity columns equal =>
    obtain ⟨fact, _, found⟩ := emits
    unfold sourceRow? at found
    split at found
    · cases found
      simp [width, Tuple.project]
    · cases found
  | unit fixed =>
    cases emits
    exact Nat.le_refl _
  | input columns =>
    have found : input.project? columns = some row := emits
    exact Nat.le_of_eq (Tuple.length_of_project? found).symm
  | closure relation single swap =>
    obtain ⟨source, target, _, found⟩ := emits
    unfold closureRow? at found
    unfold width
    split at found
    · split at found
      · cases found
        simp_all
      · cases found
    · split at found <;>
        (cases found; simp_all)
  | filter test =>
    rcases below with _ | ⟨first, _ | _⟩
    · exact emits.elim
    · exact first row emits.1
    · exact emits.elim
  | antiJoin relation key =>
    rcases below with _ | ⟨first, _ | _⟩
    · exact emits.elim
    · exact first row emits.1
    · exact emits.elim
  | join leftKey rightKey output =>
    rcases below with _ | ⟨_, _ | ⟨_, _ | _⟩⟩
    · exact emits.elim
    · exact emits.elim
    · obtain ⟨_, _, _, _, _, rfl⟩ := emits
      simp [width, joinRow]
    · exact emits.elim
  | project columns =>
    rcases below with _ | ⟨_, _ | _⟩
    · exact emits.elim
    · obtain ⟨_, _, rfl⟩ := emits
      simp [width, Tuple.project]
    · exact emits.elim

end Operator

/-! ## What lowering reads -/

section Layouts

variable {layout subjects left right : List VarId} {places : List Nat}

theorem forall₂_positions (found : positions layout subjects = .ok places) :
    List.Forall₂ (fun subject place => layout.idxOf? subject = some place) subjects places :=
  (mapM_ok found).imp fun _ _ positioned => (mem_of_position positioned).1

theorem lt_of_positions (found : positions layout subjects = .ok places) :
    ∀ place ∈ places, place < layout.length := by
  intro place member
  obtain ⟨subject, _, indexed⟩ := exists_of_forall₂ (forall₂_positions found) member
  exact (value_of_idxOf? indexed).1

theorem length_positions (found : positions layout subjects = .ok places) :
    places.length = subjects.length := (forall₂_positions found).length_eq.symm

theorem lt_of_mem_repetitions {pair : Nat × Nat} (member : pair ∈ repetitions subjects) :
    pair.1 < subjects.length ∧ pair.2 < subjects.length := by
  obtain ⟨⟨argument, place⟩, listed, found⟩ := List.mem_filterMap.mp member
  have here : subjects[place]? = some argument := List.mem_zipIdx_iff_getElem?.mp listed
  dsimp only at found
  split at found
  next first known =>
    split at found
    · cases found
    · cases found
      exact ⟨(value_of_idxOf? known).1, (List.getElem?_eq_some_iff.mp here).1⟩
  · cases found

/-- The columns of joined rows are columns of the side that they are taken from. -/
theorem lt_of_joinColumn {subject : VarId} {side : Side} {place : Nat}
    (found : joinColumn left right subject = .ok (side, place)) :
    place < (match side with | .left => left | .right => right).length := by
  unfold joinColumn at found
  split at found
  next here =>
    cases found
    exact (value_of_idxOf? here).1
  · cases there : position right subject with
    | ok other =>
      rw [there] at found
      cases found
      exact (value_of_idxOf? (mem_of_position there).1).1
    | error defect =>
      rw [there] at found
      cases found

theorem lt_of_joinColumns {output : List (Side × Nat)}
    (found : layout.mapM (joinColumn left right) = .ok output) :
    (∀ place ∈ Side.left.columns output, place < left.length) ∧
      ∀ place ∈ Side.right.columns output, place < right.length := by
  have each (side : Side) (place : Nat) (member : place ∈ side.columns output) :
      ∃ subject, joinColumn left right subject = .ok (side, place) := by
    obtain ⟨⟨other, _⟩, taken, rfl⟩ := List.mem_map.mp member
    obtain ⟨listed, same⟩ := List.mem_filter.mp taken
    obtain rfl : other = side := of_decide_eq_true same
    obtain ⟨subject, _, joined⟩ := exists_of_forall₂ (mapM_ok found) listed
    exact ⟨subject, joined⟩
  refine ⟨fun place member => ?_, fun place member => ?_⟩
  · obtain ⟨_, joined⟩ := each .left place member
    exact lt_of_joinColumn joined
  · obtain ⟨_, joined⟩ := each .right place member
    exact lt_of_joinColumn joined

end Layouts

namespace Constraint

variable {id : ConstraintId} {layout : List VarId} {constraint : Constraint} {operator : Operator}

theorem reads_of_enumerator (enumerates : constraint.enumerator id layout = .ok operator) :
    operator.FitsFacts ∧ operator.reads = [] := by
  cases constraint with
  | relation name arguments keys =>
    obtain ⟨places, positioned, same⟩ := ok_of_bind enumerates
    cases same
    refine ⟨fun place member => ?_, rfl⟩
    rcases List.mem_append.mp member with listed | repeated
    · exact lt_of_positions positioned place listed
    · obtain ⟨pair, member, here⟩ := List.mem_flatMap.mp repeated
      have inside := lt_of_mem_repetitions member
      simp only [List.mem_cons, List.not_mem_nil, or_false] at here
      rcases here with rfl | rfl
      · exact inside.1
      · exact inside.2
  | closure | constant =>
    cases enumerates
    exact ⟨trivial, rfl⟩
  | equal | different | absent | check => cases enumerates

theorem reads_of_selector (selects : constraint.selector id layout = .ok operator) :
    operator.FitsFacts ∧ (∀ width, operator.width [width] = width) ∧
      ∃ places, operator.reads = [places] ∧ ∀ place ∈ places, place < layout.length := by
  have inside {subject : VarId} {place : Nat} (found : position layout subject = .ok place) :
      place < layout.length := (value_of_idxOf? (mem_of_position found).1).1
  cases constraint with
  | constant =>
    obtain ⟨_, here, same⟩ := ok_of_bind selects
    cases same
    exact ⟨trivial, fun _ => rfl, _, rfl, List.forall_mem_singleton.mpr (inside here)⟩
  | equal | different =>
    obtain ⟨_, first, later⟩ := ok_of_bind selects
    obtain ⟨_, second, same⟩ := ok_of_bind later
    cases same
    exact ⟨trivial, fun _ => rfl, _, rfl, List.forall_mem_cons.mpr
      ⟨inside first, List.forall_mem_singleton.mpr (inside second)⟩⟩
  | check | absent =>
    obtain ⟨_, here, same⟩ := ok_of_bind selects
    cases same
    exact ⟨trivial, fun _ => rfl, _, rfl, lt_of_positions here⟩
  | relation | closure => cases selects

theorem length_le_width (enumerates : constraint.enumerator id layout = .ok operator)
    (nodup : layout.Nodup) (shown : ∀ subject ∈ layout, subject ∈ constraint.arguments)
    (widths : List Nat) : layout.length ≤ operator.width widths := by
  cases constraint with
  | relation name arguments keys =>
    obtain ⟨places, positioned, same⟩ := ok_of_bind enumerates
    cases same
    exact Nat.le_of_eq (length_positions positioned).symm
  | closure name source target =>
    cases enumerates
    unfold Operator.width
    by_cases same : source = target
    · have one : ∀ subject ∈ layout, subject ∈ [source] := by
        simpa [arguments, same] using shown
      simpa [same] using (nodup.subperm one).length_le
    · have two : layout.length ≤ [source, target].length := (nodup.subperm shown).length_le
      simpa [same] using two
  | constant subject value =>
    cases enumerates
    exact (nodup.subperm shown).length_le
  | equal | different | absent | check => cases enumerates

end Constraint

namespace Plan

variable {plan : Plan} {step child : SubPlanId} {operation : Operation} {operator : Operator}

theorem constraint_of_operator {place : ConstraintId}
    {next : Constraint → Except Error Operator}
    (built : ((match plan.body.constraint? place with
      | some known => .ok known
      | none => .error .outOfRange : Except Error Constraint) >>= next) = .ok operator) :
    ∃ constraint, plan.body.constraint? place = some constraint ∧
      next constraint = .ok operator := by
  obtain ⟨constraint, known, later⟩ := ok_of_bind built
  split at known
  next other found =>
    cases known
    exact ⟨_, found, later⟩
  · cases known

theorem reads_of_operator (built : plan.operator step operation = .ok operator) :
    operator.FitsFacts ∧ List.Forall₂
      (fun places child => ∀ place ∈ places, place < (plan.columns child).length) operator.reads
      operation.children := by
  cases operation with
  | start =>
    cases built
    exact ⟨trivial, .nil⟩
  | input subjects =>
    obtain ⟨places, _, same⟩ := ok_of_bind built
    cases same
    exact ⟨trivial, .nil⟩
  | enumerate place =>
    obtain ⟨constraint, _, enumerates⟩ := constraint_of_operator built
    obtain ⟨fits, none⟩ := Constraint.reads_of_enumerator (mapError_ok enumerates)
    rw [none]
    exact ⟨fits, .nil⟩
  | apply child place =>
    obtain ⟨constraint, _, selects⟩ := constraint_of_operator built
    obtain ⟨fits, _, places, reads, inside⟩ := Constraint.reads_of_selector (mapError_ok selects)
    rw [reads]
    exact ⟨fits, .cons inside .nil⟩
  | join primary secondary =>
    obtain ⟨output, outputFound, later⟩ := ok_of_bind (mapError_ok built)
    obtain ⟨leftKey, leftFound, later⟩ := ok_of_bind later
    obtain ⟨rightKey, rightFound, same⟩ := ok_of_bind later
    cases same
    obtain ⟨left, right⟩ := lt_of_joinColumns outputFound
    refine ⟨trivial, .cons (fun place member => ?_) (.cons (fun place member => ?_) .nil)⟩
    · exact (List.mem_append.mp member).elim (lt_of_positions leftFound place) (left place)
    · exact (List.mem_append.mp member).elim (lt_of_positions rightFound place) (right place)
  | trim child kept =>
    obtain ⟨places, positioned, same⟩ := ok_of_bind built
    cases same
    exact ⟨trivial, .cons (lt_of_positions (mapError_ok positioned)) .nil⟩
  | project child parameters =>
    obtain ⟨places, positioned, same⟩ := ok_of_bind built
    cases same
    exact ⟨trivial, .cons (lt_of_positions (mapError_ok positioned)) .nil⟩

/-! ## What no check demands -/

/-- The source of a constraint shows variables of this constraint only. -/
def SourcesFit (plan : Plan) : Prop :=
  ∀ step ∈ plan.steps, ∀ place, plan.operation? step = some (.enumerate place) →
    ∀ subject ∈ plan.arena.visible step, subject ∈ plan.body.variablesOf place

/-- For every variable of an input step a value is supplied. -/
def InputsFit (plan : Plan) : Prop :=
  ∀ step ∈ plan.steps, ∀ subjects, plan.operation? step = some (.input subjects) →
    ∀ subject place, subjects.idxOf? subject = some place → place < plan.adornment.size

/-- The steps were allocated one after another, over any bodies, and refer to known things. -/
structure WellBuilt (plan : Plan) : Prop where
  pushed : plan.arena.Pushed fun _ => True
  grounded : ∀ step ∈ plan.steps, plan.Grounded step
  sources : plan.SourcesFit

theorem Grounded.described (pushed : plan.arena.Pushed fun _ => True)
    (grounded : plan.Grounded step) : ∃ body operation, plan.operation? step = some operation ∧
      plan.arena.get? step = some (plan.arena.describe body operation) ∧
      ∀ child ∈ operation.children, child.index < step.index := by
  obtain ⟨subPlan, found, earlier, _⟩ := grounded
  obtain ⟨body, _, described⟩ := pushed.describe found earlier
  exact ⟨body, subPlan.operation, by rw [operation?, found]; rfl, described, earlier⟩

/-- A plan that allocates all its steps for its own body shows no more than it may. -/
theorem sourcesFit_of_allocated (allocated : plan.arena.Allocated plan.body)
    (grounded : ∀ step ∈ plan.steps, plan.Grounded step) : plan.SourcesFit := by
  intro step listed place known subject shown
  obtain ⟨subPlan, found, earlier, _⟩ := grounded step listed
  have described := allocated.describe found earlier
  have same : subPlan.operation = .enumerate place := by
    rw [operation?, found] at known
    exact Option.some.inj known
  rwa [Arena.visible_of_get? described, same] at shown

/-- Without input steps, a verified plan shows no more than it may, whatever bodies its steps were
allocated for. -/
theorem sourcesFit_of_verify (pushed : plan.arena.Pushed fun _ => True)
    (verified : plan.verify = .ok ())
    (closed : ∀ step ∈ plan.steps, ∀ subjects, plan.operation? step ≠ some (.input subjects)) :
    plan.SourcesFit := by
  obtain ⟨grounded, consistent, _⟩ := verify_eq_ok_iff.mp verified
  intro step listed place known subject shown
  obtain ⟨body, operation, same, described, _⟩ := (grounded step listed).described pushed
  rw [known] at same
  cases same
  rcases mem_bound.mp ((consistent step listed).1 subject shown) with supplied | bound
  · obtain ⟨input, there, subjects, found, _⟩ := mem_supplied.mp supplied
    exact absurd found (closed input there subjects)
  · obtain ⟨other, enforced, here⟩ := bound
    rw [Arena.enforced_of_get? described] at enforced
    obtain rfl := OrderedSet.mem_singleton.mp enforced
    exact here

theorem childrenOf_of_operation? (known : plan.operation? step = some operation) :
    plan.childrenOf step = operation.children := by
  unfold childrenOf
  rw [known]
  rfl

theorem Grounded.mem_steps (grounded : plan.Grounded step) (listed : step ∈ plan.steps)
    (member : child ∈ plan.childrenOf step) : child ∈ plan.steps := by
  obtain ⟨subPlan, found, earlier, _⟩ := grounded
  have known : plan.operation? step = some subPlan.operation := by
    rw [operation?, found]
    rfl
  rw [childrenOf_of_operation? known] at member
  exact Arena.children_mem_postOrder listed found member (earlier child member)

theorem WellBuilt.children (built : plan.WellBuilt) (listed : step ∈ plan.steps)
    (member : child ∈ plan.childrenOf step) : child ∈ plan.steps :=
  (built.grounded step listed).mem_steps listed member

theorem WellBuilt.visible_le_columns (built : plan.WellBuilt) (listed : step ∈ plan.steps) :
    (plan.arena.visible step).toList.length ≤ (plan.columns step).length := by
  obtain ⟨body, operation, known, described, _⟩ := (built.grounded step listed).described built.pushed
  unfold columns
  rw [known]
  split
  next child parameters same =>
    cases same
    rw [Arena.visible_of_get? described]
    refine ((OrderedSet.nodup_toList _).subperm fun subject member => ?_).length_le
    exact OrderedSet.mem_ofList.mp (OrderedSet.mem_toList.mp member)
  · exact Nat.le_refl _

/-- The rows of a step have a value for each of its columns, if this is so for its children. -/
theorem WellBuilt.columns_le_width (built : plan.WellBuilt) (listed : step ∈ plan.steps)
    (known : plan.operation? step = some operation)
    (operated : plan.operator step operation = .ok operator) :
    (plan.columns step).length ≤
      operator.width (operation.children.map fun child => (plan.columns child).length) := by
  obtain ⟨body, _, same, described, _⟩ := (built.grounded step listed).described built.pushed
  rw [known] at same
  cases same
  have visible := Arena.visible_of_get? described
  have children : ∀ child ∈ plan.childrenOf step, child ∈ plan.steps :=
    fun child member => built.children listed member
  rw [childrenOf_of_operation? known] at children
  cases operation with
  | start =>
    have none : plan.columns step = [] := by
      unfold columns
      rw [known, visible]
      rfl
    rw [none]
    exact Nat.zero_le _
  | input subjects =>
    obtain ⟨places, positioned, same⟩ := ok_of_bind operated
    cases same
    exact Nat.le_of_eq (length_positions (mapError_ok positioned)).symm
  | enumerate place =>
    obtain ⟨constraint, found, enumerates⟩ := constraint_of_operator operated
    have layout : plan.columns step = (plan.arena.visible step).toList := by
      unfold columns
      rw [known]
    rw [layout] at enumerates ⊢
    refine Constraint.length_le_width (mapError_ok enumerates) (OrderedSet.nodup_toList _)
      (fun subject shown => ?_) _
    have own := built.sources step listed place known subject (OrderedSet.mem_toList.mp shown)
    rw [Body.variablesOf, found] at own
    exact Constraint.mem_subjects.mp own
  | apply child place =>
    obtain ⟨constraint, _, selects⟩ := constraint_of_operator operated
    have layout : plan.columns step = (plan.arena.visible child).toList := by
      unfold columns
      rw [known, visible]
      rfl
    obtain ⟨_, keeps, _⟩ := Constraint.reads_of_selector (mapError_ok selects)
    show _ ≤ operator.width [(plan.columns child).length]
    rw [layout, keeps]
    exact built.visible_le_columns (children child List.mem_cons_self)
  | join primary secondary =>
    obtain ⟨output, outputFound, later⟩ := ok_of_bind (mapError_ok operated)
    obtain ⟨leftKey, _, later⟩ := ok_of_bind later
    obtain ⟨rightKey, _, same⟩ := ok_of_bind later
    cases same
    exact Nat.le_of_eq (mapM_ok outputFound).length_eq
  | trim child kept =>
    obtain ⟨places, positioned, same⟩ := ok_of_bind operated
    cases same
    have layout : plan.columns step = kept.toList := by
      unfold columns
      rw [known, visible]
      rfl
    rw [layout]
    exact Nat.le_of_eq (length_positions (mapError_ok positioned)).symm
  | project child parameters =>
    obtain ⟨places, positioned, same⟩ := ok_of_bind operated
    cases same
    have layout : plan.columns step = parameters := by
      unfold columns
      rw [known]
    rw [layout]
    exact Nat.le_of_eq (length_positions (mapError_ok positioned)).symm

theorem input_of_operator {columns : List Nat}
    (operated : plan.operator step operation = .ok (.input columns)) :
    ∃ subjects, operation = .input subjects ∧
      positions subjects (plan.columns step) = .ok columns := by
  have reads := (reads_of_operator operated).2
  cases operation with
  | start => cases operated
  | input subjects =>
    obtain ⟨places, positioned, same⟩ := ok_of_bind operated
    cases same
    exact ⟨subjects, rfl, mapError_ok positioned⟩
  | enumerate place =>
    obtain ⟨constraint, _, enumerates⟩ := constraint_of_operator operated
    have enumerates := mapError_ok enumerates
    cases constraint with
    | relation =>
      obtain ⟨_, _, same⟩ := ok_of_bind enumerates
      cases same
    | closure | constant | equal | different | absent | check => cases enumerates
  | apply | join | trim | project => cases reads

/-! ## Rows of steps -/

/-- The row has a value for every column of a step of a well-built plan. -/
def Spans (plan : Plan) (step : SubPlanId) (row : Tuple) : Prop :=
  plan.WellBuilt → step ∈ plan.steps → (plan.columns step).length ≤ row.length

section Rows

variable {truth : CheckId → Tuple → Bool} {given barred : RelationId → Tuple → Prop}
  {input row : Tuple} {lowered : Lowered} {means : List (Tuple → Prop)}

theorem WellBuilt.lower_ok (built : plan.WellBuilt) (listed : step ∈ plan.steps)
    (lowers : plan.lower step = .ok lowered) : ∃ operation,
      plan.operation? step = some operation ∧ plan.childrenOf step = operation.children ∧
        plan.operator step operation = .ok lowered.operator := by
  obtain ⟨_, operation, known, _⟩ := (built.grounded step listed).described built.pushed
  obtain ⟨operator, operated, rfl⟩ := LiveQuery.lower_ok known lowers
  exact ⟨operation, known, childrenOf_of_operation? known, operated⟩

theorem WellBuilt.wide_children (built : plan.WellBuilt) (listed : step ∈ plan.steps)
    (below : List.Forall₂ (fun child mean => ∀ row, mean row → plan.Spans child row)
      (plan.childrenOf step) means) :
    List.Forall₂ (fun child mean => ∀ row, mean row → (plan.columns child).length ≤ List.length row)
      (plan.childrenOf step) means := by
  obtain ⟨length, each⟩ := List.forall₂_iff_zip.mp below
  refine List.forall₂_iff_zip.mpr ⟨length, fun pair row holds => ?_⟩
  exact each pair row holds built (built.children listed (List.of_mem_zip pair).1)

/-- The rows of a step have a value for each of its columns, if this is so for its children. -/
theorem spans_of_emits (lowers : plan.lower step = .ok lowered)
    (emits : lowered.operator.Emits truth given barred input means row)
    (below : List.Forall₂ (fun child mean => ∀ row, mean row → plan.Spans child row)
      (plan.childrenOf step) means) : plan.Spans step row := by
  intro built listed
  obtain ⟨operation, known, children, operated⟩ := built.lower_ok listed lowers
  have wide := built.wide_children listed below
  rw [children] at wide
  have bounds : List.Forall₂ (fun mean width => ∀ row, mean row → width ≤ List.length row) means
      (operation.children.map fun child => (plan.columns child).length) :=
    List.forall₂_map_right_iff.mpr wide.flip
  exact Nat.le_trans (built.columns_le_width listed known operated)
    (Operator.width_le_of_emits emits bounds)

theorem WellBuilt.inRange (built : plan.WellBuilt) (listed : step ∈ plan.steps)
    (lowers : plan.lower step = .ok lowered) {children : List (List Tuple)}
    (below : List.Forall₂ (fun child rows => ∀ row ∈ rows, plan.Spans child row)
      (plan.childrenOf step) children) : lowered.operator.InRange children := by
  obtain ⟨operation, known, same, operated⟩ := built.lower_ok listed lowers
  obtain ⟨fits, reads⟩ := reads_of_operator operated
  have wide : List.Forall₂ (fun child (rows : List Tuple) =>
      ∀ row ∈ rows, (plan.columns child).length ≤ row.length) operation.children children := by
    have spans : List.Forall₂ (fun child mean => ∀ row, mean row → plan.Spans child row)
        (plan.childrenOf step) (children.map fun rows row => row ∈ rows) :=
      List.forall₂_map_right_iff.mpr below
    have wide := built.wide_children listed spans
    rwa [same, List.forall₂_map_right_iff] at wide
  refine ⟨fits, forall₂_trans reads wide fun places child rows inside long row member place read => ?_⟩
  exact Nat.lt_of_lt_of_le (inside place read) (long row member)

end Rows

/-! ## Evaluations -/

section Evaluations

variable {checks : Checks} {facts : FactStore} {input : Tuple} {lowered : Lowered}

theorem spans_of_yields {rows : OrderedSet Tuple}
    (yields : Yields checks facts input plan step rows) : ∀ row ∈ rows, plan.Spans step row := by
  induction yields with
  | @intro step lowered children rows lowers length below evaluates ih =>
    intro row member
    have emits := Operator.rows_iff_emits.mp
      ((Lowered.evaluate_spec checks.agree_accepts evaluates row).mp member)
    refine spans_of_emits lowers emits (List.forall₂_map_right_iff.mpr ?_)
    exact List.forall₂_iff_zip.mpr ⟨length, fun pair => ih _ _ pair⟩

/-- An evaluation that is accepted comes to a step, after those before it: this is the operator of
the step, and these are the rows that have been found for its children. -/
inductive Reaches (checks : Checks) (facts : FactStore) (input : Tuple) (plan : Plan) :
    Lowered → List (OrderedSet Tuple) → Prop where
  | intro {before : List SubPlanId} {step : SubPlanId} {results : Table SubPlanId (OrderedSet Tuple)}
      {lowered : Lowered} {children : List (OrderedSet Tuple)} (sound : plan.demandSound = .ok ())
      (length : input.length = plan.adornment.size) (next : before ++ [step] <+: plan.steps)
      (evaluated : before.foldlM (plan.evaluateStep checks facts input) .empty = .ok results)
      (lowers : plan.lower step = .ok lowered)
      (inputs : plan.inputsOf results step = .ok children) :
      Reaches checks facts input plan lowered children

/-- If a value is supplied for every variable of an input step, the supplied row has all positions
that the step reads. -/
theorem InputsFit.covers (fits : plan.InputsFit) (listed : step ∈ plan.steps)
    (length : input.length = plan.adornment.size) {columns : List Nat} {label : String}
    (lowers : plan.lower step = .ok ⟨.input columns, label⟩) : input.Covers columns := by
  unfold lower at lowers
  cases known : plan.operation? step with
  | none =>
    rw [known] at lowers
    cases lowers
  | some operation =>
    rw [known] at lowers
    obtain ⟨operator, operated, same⟩ := ok_of_bind lowers
    cases same
    obtain ⟨subjects, rfl, positioned⟩ := input_of_operator operated
    intro place member
    obtain ⟨subject, _, indexed⟩ := exists_of_forall₂ (forall₂_positions positioned) member
    rw [length]
    exact fits step listed subjects known subject place indexed

/-- Whenever an evaluation comes to a step, the rows that it has found, and the supplied row, have
all positions that the operator of the step reads. -/
theorem Reaches.inRange (pushed : plan.arena.Pushed fun _ => True) (sources : plan.SourcesFit)
    (fits : plan.InputsFit) {children : List (OrderedSet Tuple)}
    (reaches : plan.Reaches checks facts input lowered children) :
    lowered.operator.InRange (children.map OrderedSet.toList) ∧
      ∀ columns, lowered.operator = .input columns → input.Covers columns := by
  obtain @⟨before, step, results, _, _, sound, length, next, evaluated, lowers, inputs⟩ := reaches
  have built : plan.WellBuilt := ⟨pushed, grounded_of_demandSound sound, sources⟩
  have listed : step ∈ plan.steps := next.subset (by simp)
  refine ⟨?_, fun columns same => ?_⟩
  · obtain ⟨known, _⟩ := yields_of_foldlM (fun _ _ absent => by cases absent) evaluated
    refine built.inRange listed lowers (List.forall₂_map_right_iff.mpr ?_)
    exact (inputsOf_ok inputs).imp fun child rows found row member =>
      spans_of_yields (known child rows found) row (OrderedSet.mem_toList.mp member)
  · have lowersInput : plan.lower step = .ok ⟨.input columns, lowered.label⟩ := by rw [lowers, ← same]
    exact fits.covers listed length lowersInput

theorem fulfils_evaluateStep (grounded : plan.Grounded step)
    (covers : ∀ columns label, plan.lower step = .ok ⟨.input columns, label⟩ →
      input.Covers columns) (results : Table SubPlanId (OrderedSet Tuple)) :
    Fulfils (plan.evaluateStep checks facts input results step) (fun _ => True)
      (· ≠ .outOfRange) := by
  unfold evaluateStep
  cases lowers : plan.lower step with
  | error error => exact ((formed_lower grounded).of_error lowers).ne_outOfRange
  | ok lowered =>
    cases inputs : plan.inputsOf results step with
    | error error => exact ((formed_inputsOf results).of_error inputs).ne_outOfRange
    | ok children =>
      show Fulfils (lowered.evaluate checks facts input children >>= _) _ _
      cases evaluated : lowered.evaluate checks facts input children with
      | ok rows => trivial
      | error error =>
        cases (lowered.fulfils_evaluate ..).of_error evaluated with
        | @uncovered columns waits short =>
          have known : plan.lower step = .ok ⟨.input columns, lowered.label⟩ := by
            rw [lowers, ← waits]
          obtain ⟨row, found⟩ := Tuple.exists_project? (covers columns _ known)
          rw [short] at found
          cases found
        | incomplete | faults => exact nofun

/-- If a value is supplied for every variable of an input step, an evaluation ends with the rows of
the plan or with an error, and asks for nothing that is not there. -/
theorem evaluate_ne_outOfRange (fits : plan.InputsFit) (checks : Checks) (facts : FactStore)
    (input : Tuple) : plan.evaluate checks facts input ≠ .error .outOfRange := by
  unfold evaluate
  cases sound : plan.demandSound with
  | error error =>
    obtain ⟨detail, rfl⟩ := malformed_of_demandSound sound
    exact nofun
  | ok =>
    by_cases length : input.length = plan.adornment.size
    · have grounded := grounded_of_demandSound sound
      have steps : Fulfils (plan.steps.foldlM (plan.evaluateStep checks facts input) .empty)
          (fun _ => True) (· ≠ .outOfRange) :=
        Fulfils.foldlM _ (fun step listed results _ => fulfils_evaluateStep (grounded step listed)
          (fun _ _ => fits.covers listed length) results) trivial
      intro found
      rw [if_neg (not_not.mpr length)] at found
      cases folded : plan.steps.foldlM (plan.evaluateStep checks facts input) .empty with
      | ok results =>
        rw [folded] at found
        cases found
      | error error =>
        rw [folded] at found steps
        cases found
        exact steps rfl
    · rw [if_pos length]
      exact nofun

end Evaluations

end Plan
end LiveQuery
