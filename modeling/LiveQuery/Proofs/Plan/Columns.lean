import LiveQuery.Proofs.Plan.Evaluation
import LiveQuery.Proofs.Plan.Members
import LiveQuery.Proofs.Plan.Verified

/-!
# Rows and columns of verified plans

The rows that the evaluator finds for a step are read as assignments through the columns of the
step.  `Operation.Means` says which assignments an operation means, given those of its children, and
`Plan.evaluate_columns` that every step of a verified plan lists just these, hand-built plans
included.  One kind of step has to be left out: a filter passes the rows of its child on as they
are, but its columns are the variables that it shows in ascending order, so that it reads the rows
of a projection onto parameters in another order wrongly (`filteredLast_swaps`).
-/

namespace LiveQuery

/-! ## Allocated arenas -/

/-- Every step of the arena was added by `push`, over what was there before, and for some body that
is allowed. -/
inductive Arena.Pushed (allowed : Body → Prop) : Arena → Prop where
  | empty : Arena.Pushed allowed .empty
  | push {arena : Arena} {body : Body} (before : Arena.Pushed allowed arena) (permitted : allowed body)
      (operation : Operation) : Arena.Pushed allowed (arena.push body operation).1

/-- Every step of the arena was added by `push`, over what was there before. -/
inductive Arena.Allocated (body : Body) : Arena → Prop where
  | empty : Arena.Allocated body .empty
  | push {arena : Arena} (before : Arena.Allocated body arena) (operation : Operation) :
      Arena.Allocated body (arena.push body operation).1

theorem Arena.Allocated.pushed {body : Body} {arena : Arena} (allocated : arena.Allocated body) :
    arena.Pushed (· = body) := by
  induction allocated with
  | empty => exact .empty
  | push _ operation ih => exact ih.push rfl operation

theorem Arena.Pushed.mono {allowed permitted : Body → Prop} {arena : Arena}
    (pushed : arena.Pushed allowed) (weaker : ∀ body, allowed body → permitted body) :
    arena.Pushed permitted := by
  induction pushed with
  | empty => exact .empty
  | push _ allows operation ih => exact ih.push (weaker _ allows) operation

/-- A step over earlier steps still has the bookkeeping of its operation. -/
theorem Arena.Pushed.describe {allowed : Body → Prop} {arena : Arena} {id : SubPlanId}
    {step : SubPlan} (pushed : arena.Pushed allowed) (found : arena.get? id = some step)
    (earlier : ∀ child ∈ step.operation.children, child.index < id.index) :
    ∃ body, allowed body ∧ arena.get? id = some (arena.describe body step.operation) := by
  induction pushed with
  | empty => cases found
  | @push arena body _ permitted operation ih =>
    have known (bound : id.index ≤ arena.size) (child : SubPlanId)
        (member : child ∈ step.operation.children) : ∃ below, arena.get? child = some below := by
      have inside : child.index < arena.subPlans.length :=
        Nat.lt_of_lt_of_le (earlier child member) bound
      exact ⟨_, List.getElem?_eq_getElem inside⟩
    have inside : id.index < (arena.subPlans ++ [arena.describe body operation]).length :=
      (List.getElem?_eq_some_iff.mp found).1
    rw [List.length_append, List.length_singleton, Nat.lt_succ_iff_lt_or_eq] at inside
    rcases inside with old | new
    · have before : arena.get? id = some step := by
        rw [← found]
        exact (List.getElem?_append_left old).symm
      obtain ⟨own, permitted, described⟩ := ih before
      exact ⟨own, permitted, found_push described (known (Nat.le_of_lt old))⟩
    · -- the last step is the one that was added
      have last : id = (arena.push body operation).2 := by
        cases id
        exact congrArg Id.mk new
      have same : step = arena.describe body operation := by
        rw [last, get?_push_new] at found
        exact (Option.some.inj found).symm
      have operations : step.operation = operation := by rw [same, operation_describe]
      rw [operations] at known ⊢
      rw [last]
      exact ⟨body, permitted, get?_push_eq (known (Nat.le_of_eq new))⟩

theorem Arena.Allocated.describe {body : Body} {arena : Arena} {id : SubPlanId} {step : SubPlan}
    (allocated : arena.Allocated body) (found : arena.get? id = some step)
    (earlier : ∀ child ∈ step.operation.children, child.index < id.index) :
    arena.get? id = some (arena.describe body step.operation) := by
  obtain ⟨_, rfl, described⟩ := allocated.pushed.describe found earlier
  exact described

/-! ## Layouts that were looked up -/

section Lookups

variable {layout subjects left right : List VarId} {places : List Nat}

theorem answered_of_mapM {ε α β : Type} {step : α → Except ε β} {values : List α}
    {results : List β} (found : values.mapM step = .ok results) :
    ∀ value ∈ values, ∃ result, step value = .ok result := by
  have each := mapM_ok found
  intro value member
  obtain ⟨place, inside, same⟩ := List.mem_iff_getElem.mp member
  rw [← same]
  exact ⟨_, each.get inside (each.length_eq ▸ inside)⟩

theorem mem_of_position {subject : VarId} {place : Nat}
    (found : position layout subject = .ok place) :
    layout.idxOf? subject = some place ∧ subject ∈ layout := by
  unfold position at found
  split at found
  next here =>
    cases found
    refine ⟨here, ?_⟩
    have known : (layout.idxOf? subject).isSome = true := by rw [here]; rfl
    simpa using known
  · cases found

theorem mem_of_positions (found : positions layout subjects = .ok places) :
    ∀ subject ∈ subjects, subject ∈ layout := by
  intro subject member
  obtain ⟨_, positioned⟩ := answered_of_mapM found subject member
  exact (mem_of_position positioned).2

theorem mem_of_joinColumns {output : List (Side × Nat)}
    (found : layout.mapM (joinColumn left right) = .ok output) :
    ∀ subject ∈ layout, subject ∈ left ∨ subject ∈ right := by
  intro subject member
  obtain ⟨_, joined⟩ := answered_of_mapM found subject member
  by_cases here : subject ∈ left
  · exact .inl here
  · unfold joinColumn at joined
    rw [List.idxOf?_eq_none_iff.mpr here] at joined
    cases there : position right subject with
    | ok place => exact .inr (mem_of_position there).2
    | error defect =>
      rw [there] at joined
      cases joined

theorem project?_positions {input row : Tuple} (found : positions subjects layout = .ok places)
    (projected : input.project? places = some row) :
    row = layout.map (valuesOf subjects input) ∧
      ∀ subject ∈ layout, ∀ place, subjects.idxOf? subject = some place →
        input[place]? = some (valuesOf subjects input subject) := by
  induction layout generalizing places row with
  | nil =>
    cases found
    cases projected
    exact ⟨rfl, fun _ member => absurd member List.not_mem_nil⟩
  | cons subject rest ih =>
    unfold positions at found
    rw [List.mapM_cons] at found
    obtain ⟨place, positioned, found⟩ := ok_of_bind found
    obtain ⟨others, later, same⟩ := ok_of_bind found
    cases same
    unfold Tuple.project? at projected
    rw [List.mapM_cons] at projected
    obtain ⟨value, here, projected⟩ := Option.bind_eq_some_iff.mp projected
    obtain ⟨values, there, same⟩ := Option.bind_eq_some_iff.mp projected
    cases same
    obtain ⟨tail, known⟩ := ih later there
    have indexed := (mem_of_position positioned).1
    have read : valuesOf subjects input subject = value := by
      simp [valuesOf, indexed, Tuple.value, here]
    refine ⟨by rw [List.map_cons, read, tail], ?_⟩
    intro other member index there
    rcases List.mem_cons.mp member with rfl | member
    · rw [indexed] at there
      cases there
      rw [here, read]
    · exact known other member index there

end Lookups

/-- Only enumerable and constant constraints are enumerated. -/
theorem Constraint.role_of_enumerator {id : ConstraintId} {layout : List VarId}
    {constraint : Constraint} {operator : Operator}
    (found : constraint.enumerator id layout = .ok operator) : constraint.role ≠ .deferred := by
  cases constraint <;> simp_all [enumerator, role]

theorem Constraint.selector_ok {id : ConstraintId} {layout : List VarId} {constraint : Constraint}
    {operator : Operator} (found : constraint.selector id layout = .ok operator) :
    constraint.role ≠ .enumerable ∧ ∀ subject ∈ constraint.arguments, subject ∈ layout := by
  cases constraint with
  | relation name arguments keys => cases found
  | closure name source target => cases found
  | constant subject value =>
    obtain ⟨_, here, _⟩ := ok_of_bind found
    simpa [role, arguments] using (mem_of_position here).2
  | equal left right =>
    obtain ⟨_, first, found⟩ := ok_of_bind found
    obtain ⟨_, second, _⟩ := ok_of_bind found
    simpa [role, arguments] using ⟨(mem_of_position first).2, (mem_of_position second).2⟩
  | different left right =>
    obtain ⟨_, first, found⟩ := ok_of_bind found
    obtain ⟨_, second, _⟩ := ok_of_bind found
    simpa [role, arguments] using ⟨(mem_of_position first).2, (mem_of_position second).2⟩
  | absent name arguments =>
    obtain ⟨_, here, _⟩ := ok_of_bind found
    exact ⟨by simp [role], mem_of_positions here⟩
  | check label test arguments =>
    obtain ⟨_, here, _⟩ := ok_of_bind found
    exact ⟨by simp [role], mem_of_positions here⟩

/-! ## Rows read through columns -/

/-- Read through its columns, a table of rows is a set of assignments: every row gives a value to
each column, and the rows are those of the assignments meant. -/
structure Reads (columns : List VarId) (rows : OrderedSet Tuple)
    (means : (VarId → Value) → Prop) : Prop where
  shaped : ∀ row ∈ rows, ∃ values : VarId → Value, row = columns.map values
  lists : ∀ values, columns.map values ∈ rows ↔ means values

section Reads

variable {checks : Checks} {facts : FactStore} {input : Tuple} {operator : Operator}
  {rows below left right : OrderedSet Tuple} {layout columns kept : List VarId} {places : List Nat}
  {place : ConstraintId} {constraint : Constraint}

theorem reads_start
    (computed : ∀ row, row ∈ rows ↔ (Operator.unit []).Rows checks.accepts facts input [] row) :
    Reads [] rows fun _ => True where
  shaped row member := ⟨fun _ => .nil, (computed row).mp member⟩
  lists _ := iff_true_intro ((computed []).mpr rfl)

theorem reads_input {subjects : List VarId} (positioned : positions subjects layout = .ok places)
    (covers : ∀ subject ∈ subjects, subject ∈ layout) {found : Tuple}
    (projected : input.project? places = some found)
    (computed : ∀ row, row ∈ rows ↔
      (Operator.input places).Rows checks.accepts facts input [] row) :
    Reads layout rows fun values => ∀ subject index, subjects.idxOf? subject = some index →
      input[index]? = some (values subject) := by
  obtain ⟨rfl, known⟩ := project?_positions positioned projected
  have only (row : Tuple) : row ∈ rows ↔ row = layout.map (valuesOf subjects input) := by
    rw [computed]
    show input.project? places = some row ↔ _
    rw [projected, Option.some.injEq, eq_comm]
  refine ⟨fun row member => ⟨_, (only row).mp member⟩, fun values => ?_⟩
  rw [only, List.map_inj_left]
  constructor
  · intro same subject index indexed
    have listed := covers subject (mem_of_position (position_of_idxOf? indexed)).2
    rw [known subject listed index indexed, same subject listed]
  · intro given subject listed
    obtain ⟨index, indexed⟩ := exists_place (mem_of_positions positioned subject listed)
    have there := given subject index indexed
    rw [known subject listed index indexed] at there
    exact (Option.some.inj there).symm

theorem reads_enumerate
    (enumerates : constraint.enumerator place constraint.subjects.toList = .ok operator)
    (computed : ∀ row, row ∈ rows ↔ operator.Rows checks.accepts facts input [] row) :
    Reads constraint.subjects.toList rows (constraint.Holds checks facts) := by
  obtain ⟨_, same, _, enumerated⟩ := Constraint.enumerator_spec checks facts input place
    (Constraint.role_of_enumerator enumerates)
  rw [enumerates] at same
  cases same
  refine ⟨fun row member => ?_, fun values => ?_⟩
  · obtain ⟨values, _, same⟩ := (enumerated row).mp ((computed row).mp member)
    exact ⟨values, same⟩
  · rw [computed, enumerated]
    constructor
    · -- assignments with the same row satisfy the same constraint
      intro found
      obtain ⟨other, holds, same⟩ := found
      refine (Constraint.holds_congr fun subject argument => ?_).mpr holds
      exact List.map_inj_left.mp same subject (Constraint.mem_subjects.mpr argument)
    · exact fun holds => ⟨values, holds, rfl⟩

theorem reads_apply (selects : constraint.selector place layout = .ok operator)
    (shaped : ∀ row ∈ below, ∃ values : VarId → Value, row = layout.map values)
    (computed : ∀ row, row ∈ rows ↔
      operator.Rows checks.accepts facts input [fun row => row ∈ below] row) :
    Reads layout rows fun values =>
      layout.map values ∈ below ∧ constraint.Holds checks facts values := by
  obtain ⟨role, shown⟩ := Constraint.selector_ok selects
  obtain ⟨_, same, _, keeps, kept⟩ :=
    Constraint.selector_spec checks facts input place layout role shown
  rw [selects] at same
  cases same
  refine ⟨fun row member => shaped row (keeps _ row ((computed row).mp member)), fun values => ?_⟩
  rw [computed, kept]

/-- The rows of a restriction are those of the assignments that agree with one of the child. -/
theorem reads_restrict (positioned : positions layout kept = .ok places)
    (shaped : ∀ row ∈ below, ∃ values : VarId → Value, row = layout.map values)
    (computed : ∀ row, row ∈ rows ↔
      (Operator.project places).Rows checks.accepts facts input [fun row => row ∈ below] row) :
    Reads kept rows fun values => ∃ whole : VarId → Value, layout.map whole ∈ below ∧
      ∀ subject ∈ kept, values subject = whole subject := by
  obtain ⟨_, same, _, project⟩ := positions_spec (mem_of_positions positioned)
  rw [positioned] at same
  cases same
  have found (row : Tuple) : row ∈ rows ↔ ∃ whole : VarId → Value, layout.map whole ∈ below ∧
      row = kept.map whole := by
    rw [computed]
    show (∃ whole, whole ∈ below ∧ Tuple.project whole places = row) ↔ _
    constructor
    · intro found
      obtain ⟨_, member, rfl⟩ := found
      obtain ⟨whole, rfl⟩ := shaped _ member
      exact ⟨whole, member, project whole⟩
    · intro found
      obtain ⟨whole, member, rfl⟩ := found
      exact ⟨_, member, project whole⟩
  refine ⟨fun row member => ?_, fun values => ?_⟩
  · obtain ⟨whole, _, same⟩ := (found row).mp member
    exact ⟨whole, same⟩
  · rw [found]
    simp only [List.map_inj_left]

/-- The natural join: the assignments that both sides list. -/
theorem reads_join {first second : List VarId} {leftKey rightKey : List Nat}
    {output : List (Side × Nat)}
    (leftFound : positions first (first.filter second.contains) = .ok leftKey)
    (rightFound : positions second (first.filter second.contains) = .ok rightKey)
    (outputFound : layout.mapM (joinColumn first second) = .ok output)
    (covers : ∀ subject, subject ∈ first ∨ subject ∈ second → subject ∈ layout)
    (leftShaped : ∀ row ∈ left, ∃ values : VarId → Value, row = first.map values)
    (rightShaped : ∀ row ∈ right, ∃ values : VarId → Value, row = second.map values)
    (computed : ∀ row, row ∈ rows ↔ (Operator.join leftKey rightKey output).Rows checks.accepts
      facts input [fun row => row ∈ left, fun row => row ∈ right] row) :
    Reads layout rows fun values => first.map values ∈ left ∧ second.map values ∈ right := by
  obtain ⟨_, same, _, leftProject⟩ := positions_spec (mem_of_positions leftFound)
  rw [leftFound] at same
  cases same
  obtain ⟨_, same, _, rightProject⟩ := positions_spec (mem_of_positions rightFound)
  rw [rightFound] at same
  cases same
  obtain ⟨_, same, joinRow⟩ := joinColumns_spec (mem_of_joinColumns outputFound)
  rw [outputFound] at same
  cases same
  have found (row : Tuple) : row ∈ rows ↔ ∃ one other : VarId → Value, first.map one ∈ left ∧
      second.map other ∈ right ∧
      (∀ subject ∈ first, subject ∈ second → one subject = other subject) ∧
      row = layout.map fun subject => if subject ∈ first then one subject else other subject := by
    rw [computed]
    show (∃ whole other, whole ∈ left ∧ other ∈ right ∧ Tuple.project other rightKey =
      Tuple.project whole leftKey ∧ Operator.joinRow output whole other = row) ↔ _
    constructor
    · intro found
      obtain ⟨_, _, leftMember, rightMember, keys, rfl⟩ := found
      obtain ⟨one, rfl⟩ := leftShaped _ leftMember
      obtain ⟨other, rfl⟩ := rightShaped _ rightMember
      rw [leftProject, rightProject] at keys
      refine ⟨one, other, leftMember, rightMember, fun subject here there => ?_, joinRow one other⟩
      exact (List.map_inj_left.mp keys subject
        (List.mem_filter.mpr ⟨here, List.contains_iff_mem.mpr there⟩)).symm
    · intro found
      obtain ⟨one, other, leftMember, rightMember, agree, rfl⟩ := found
      refine ⟨_, _, leftMember, rightMember, ?_, joinRow one other⟩
      rw [leftProject, rightProject]
      refine List.map_congr_left fun subject shared => ?_
      obtain ⟨here, there⟩ := List.mem_filter.mp shared
      exact (agree subject here (List.contains_iff_mem.mp there)).symm
  refine ⟨fun row member => ?_, fun values => ?_⟩
  · obtain ⟨_, _, _, _, _, same⟩ := (found row).mp member
    exact ⟨_, same⟩
  · rw [found]
    constructor
    · intro joined
      obtain ⟨one, other, leftMember, rightMember, agree, same⟩ := joined
      have value := List.map_inj_left.mp same
      constructor
      · have onLeft : first.map values = first.map one :=
          List.map_congr_left fun subject here =>
            (value subject (covers subject (.inl here))).trans (if_pos here)
        rwa [onLeft]
      · -- a variable of both sides has the value of the left one, which the right one agrees with
        have onRight : second.map values = second.map other := by
          refine List.map_congr_left fun subject there => ?_
          rw [value subject (covers subject (.inr there))]
          split
          next here => exact agree subject here there
          · rfl
        rwa [onRight]
    · intro both
      exact ⟨values, values, both.1, both.2, fun _ _ _ => rfl, by simp⟩

end Reads

/-! ## Steps of an evaluation -/

section Steps

variable {checks : Checks} {facts : FactStore} {input : Tuple} {plan : Plan} {step : SubPlanId}

/-- The rows of a step are determined. -/
theorem Yields.unique {rows others : OrderedSet Tuple}
    (yields : Yields checks facts input plan step rows)
    (again : Yields checks facts input plan step others) : rows = others := by
  induction yields generalizing others with
  | @intro step lowered children rows lowers length below evaluates ih =>
    cases again with
    | @intro _ lowered' children' _ lowers' length' below' evaluates' =>
      rw [lowers] at lowers'
      cases lowers'
      -- place by place, the children have the same rows
      have same : children = children' := by
        refine List.ext_getElem (length.symm.trans length') ?_
        intro place inside inside'
        have known : place < (plan.childrenOf step).length := length ▸ inside
        refine ih (plan.childrenOf step)[place] _ ?_ (below' _ _ ?_)
        · exact List.mem_iff_getElem.mpr ⟨place, by rw [List.length_zip]; omega, List.getElem_zip⟩
        · exact List.mem_iff_getElem.mpr ⟨place, by rw [List.length_zip]; omega, List.getElem_zip⟩
      rw [same, evaluates'] at evaluates
      cases evaluates
      rfl

/-- The rows that are found for a step come from those that are found for its children. -/
structure Computed (checks : Checks) (facts : FactStore) (input : Tuple) (plan : Plan)
    (results : Table SubPlanId (OrderedSet Tuple)) (step : SubPlanId) (operation : Operation)
    (rows : OrderedSet Tuple) (children : List (OrderedSet Tuple)) (operator : Operator) :
    Prop where
  described : plan.arena.get? step = some (plan.arena.describe plan.body operation)
  earlier : ∀ child ∈ operation.children, child.index < step.index
  found : results.get? step = some rows
  below : List.Forall₂ (fun child answer => results.get? child = some answer) operation.children
    children
  lowered : plan.operator step operation = .ok operator
  evaluated : Lowered.evaluate checks facts input ⟨operator, plan.stepLabel operation⟩ children =
    .ok rows

theorem lower_ok {operation : Operation} {lowered : Lowered}
    (known : plan.operation? step = some operation) (lowers : plan.lower step = .ok lowered) :
    ∃ operator, plan.operator step operation = .ok operator ∧
      lowered = ⟨operator, plan.stepLabel operation⟩ := by
  unfold Plan.lower at lowers
  rw [known] at lowers
  obtain ⟨operator, built, same⟩ := ok_of_bind lowers
  exact ⟨operator, built, (Except.ok.inj same).symm⟩

/-- Evaluating a verified plan leaves rows for every step, each computed from those of its
children. -/
theorem exists_computed (allocated : plan.arena.Allocated plan.body) {rows : OrderedSet Tuple}
    (evaluated : plan.evaluate checks facts input = .ok rows) :
    ∃ results, plan.steps.foldlM (plan.evaluateStep checks facts input) .empty = .ok results ∧
      results.get? plan.root = some rows ∧ ∀ step ∈ plan.steps, ∃ operation rows children operator,
        Computed checks facts input plan results step operation rows children operator := by
  obtain ⟨sound, _, results, folded, rooted⟩ := evaluate_eq_ok_iff.mp evaluated
  have verified : plan.verify = .ok () := by
    unfold Plan.demandSound at sound
    cases verified : plan.verify with
    | ok => rfl
    | error error =>
      rw [verified] at sound
      cases sound
  obtain ⟨grounded, _, _⟩ := Plan.verify_eq_ok_iff.mp verified
  obtain ⟨known, keys⟩ := yields_of_foldlM (fun _ _ absent => by cases absent) folded
  have there (step : SubPlanId) (listed : step ∈ plan.steps) :
      ∃ rows, results.get? step = some rows :=
    Option.isSome_iff_exists.mp ((keys step).mpr (.inl listed))
  refine ⟨results, folded, ?_, fun step listed => ?_⟩
  · obtain ⟨found, same⟩ := there plan.root (Arena.self_mem_postOrder plan.arena plan.root)
    rw [same] at rooted ⊢
    exact congrArg some rooted
  · obtain ⟨subPlan, found, earlier, _⟩ := grounded step listed
    obtain ⟨answer, same⟩ := there step listed
    have described := allocated.describe found earlier
    cases known step answer same with
    | @intro _ lowered children _ lowers length below evaluates =>
      rw [childrenOf_eq described] at length below
      obtain ⟨operator, built, rfl⟩ := lower_ok (Plan.operation?_of_get? described) lowers
      refine ⟨_, answer, children, operator, described, earlier, same, ?_, built, evaluates⟩
      refine List.forall₂_iff_zip.mpr ⟨length, fun {child other} pair => ?_⟩
      -- the rows that are found for a child are the ones that the step was computed from
      have member : child ∈ subPlan.operation.children := (List.of_mem_zip pair).1
      obtain ⟨rows, here⟩ := there child
        (Arena.children_mem_postOrder listed found member (earlier child member))
      rw [here, (known child rows here).unique (below child other pair)]

end Steps

/-! ## Columns of steps -/

namespace Plan

variable {checks : Checks} {facts : FactStore} {input : Tuple} {plan : Plan}
  {results : Table SubPlanId (OrderedSet Tuple)} {step : SubPlanId} {operation : Operation}

/-- A filter is applied to a projection only if that keeps the variables in ascending order. -/
def FiltersInOrder (plan : Plan) : Prop :=
  ∀ step ∈ plan.steps, ∀ child constraint, plan.operation? step = some (.apply child constraint) →
    ∀ below parameters, plan.operation? child = some (.project below parameters) →
      parameters.Pairwise fun first second => compare first second = .lt

/-- The rows found for a step list an assignment, read through the columns of the step. -/
def Lists (plan : Plan) (results : Table SubPlanId (OrderedSet Tuple)) (step : SubPlanId)
    (values : VarId → Value) : Prop :=
  ∃ rows, results.get? step = some rows ∧ (plan.columns step).map values ∈ rows

theorem mem_columns
    (described : plan.arena.get? step = some (plan.arena.describe plan.body operation))
    {subject : VarId} : subject ∈ plan.columns step ↔ subject ∈ plan.arena.visible step := by
  unfold columns
  rw [operation?_of_get? described, Arena.visible_of_get? described]
  cases operation <;> simp [Arena.describe, OrderedSet.mem_toList]

/-- Columns are those of the visible variables, except for projections onto other orders. -/
theorem columns_eq_visible
    (described : plan.arena.get? step = some (plan.arena.describe plan.body operation))
    (ascending : ∀ child parameters, operation = .project child parameters →
      parameters.Pairwise fun first second => compare first second = .lt) :
    plan.columns step = (plan.arena.visible step).toList := by
  unfold columns
  rw [operation?_of_get? described, Arena.visible_of_get? described]
  cases operation with
  | project child parameters =>
    refine OrderedSet.eq_of_ascending (ascending child parameters rfl)
      (OrderedSet.ofList parameters).ascending fun subject => ?_
    exact OrderedSet.mem_ofList.symm
  | _ => rfl

end Plan

/-- The assignments that an operation means, given those of its children. -/
def Operation.Means (checks : Checks) (facts : FactStore) (input : Tuple) (body : Body)
    (below : SubPlanId → (VarId → Value) → Prop) : Operation → (VarId → Value) → Prop
  | .start, _ => True
  | .input subjects, values => ∀ subject index, subjects.idxOf? subject = some index →
    input[index]? = some (values subject)
  | .enumerate place, values => ∃ constraint, body.constraint? place = some constraint ∧
    constraint.Holds checks facts values
  | .apply child place, values => below child values ∧ ∃ constraint,
    body.constraint? place = some constraint ∧ constraint.Holds checks facts values
  | .join primary secondary, values => below primary values ∧ below secondary values
  | .trim child kept, values => ∃ whole, below child whole ∧
    ∀ subject ∈ kept, values subject = whole subject
  | .project child parameters, values => ∃ whole, below child whole ∧
    ∀ subject ∈ parameters, values subject = whole subject

section Meaning

variable {checks : Checks} {facts : FactStore} {input : Tuple} {plan : Plan}
  {results : Table SubPlanId (OrderedSet Tuple)} {step : SubPlanId} {operation : Operation}
  {rows : OrderedSet Tuple} {children : List (OrderedSet Tuple)} {operator : Operator}

theorem lists_iff {child : SubPlanId} (found : results.get? child = some rows)
    {values : VarId → Value} :
    plan.Lists results child values ↔ (plan.columns child).map values ∈ rows := by
  unfold Plan.Lists
  simp [found]

theorem constraint_ok {place : ConstraintId} {next : Constraint → Except Error Operator}
    (found : ((match plan.body.constraint? place with
      | some known => .ok known
      | none => .error .outOfRange : Except Error Constraint) >>= next) = .ok operator) :
    ∃ constraint, plan.body.constraint? place = some constraint ∧
      next constraint = .ok operator := by
  cases known : plan.body.constraint? place with
  | some constraint =>
    rw [known] at found
    exact ⟨constraint, rfl, found⟩
  | none =>
    rw [known] at found
    cases found

theorem mapError_ok {ε δ α : Type} {wording : ε → δ} {result : Except ε α} {answer : α}
    (found : result.mapError wording = .ok answer) : result = .ok answer := by
  cases result with
  | error error => cases found
  | ok other => exact congrArg Except.ok (Except.ok.inj found)

/-- A step means what its operation means, if its children are read through their columns. -/
theorem Computed.reads
    (computed : Computed checks facts input plan results step operation rows children operator)
    (below : ∀ child ∈ operation.children, (∀ subject,
      subject ∈ plan.columns child ↔ subject ∈ plan.arena.visible child) ∧
      ∀ rows, results.get? child = some rows →
        ∀ row ∈ rows, ∃ values : VarId → Value, row = (plan.columns child).map values)
    (filters : ∀ child place, operation = .apply child place →
      plan.columns child = (plan.arena.visible child).toList) :
    Reads (plan.columns step) rows
      (operation.Means checks facts input plan.body (plan.Lists results)) := by
  obtain ⟨described, _, _, inputs, lowered, evaluated⟩ := computed
  have exactly := Lowered.evaluate_spec checks.agree_accepts evaluated
  cases operation with
  | start =>
    cases inputs
    cases lowered
    have columns : plan.columns step = [] := by
      rw [Plan.columns_eq_visible described nofun, Arena.visible_of_get? described]
      rfl
    rw [columns]
    exact reads_start exactly
  | input subjects =>
    cases inputs
    obtain ⟨places, positioned, same⟩ := ok_of_bind lowered
    cases same
    have columns : plan.columns step = (OrderedSet.ofList subjects).toList := by
      rw [Plan.columns_eq_visible described nofun, Arena.visible_of_get? described]
      rfl
    cases projected : input.project? places with
    | none =>
      simp only [Lowered.evaluate, projected] at evaluated
      cases evaluated
    | some found =>
      refine reads_input (mapError_ok positioned) (fun subject listed => ?_) projected exactly
      rw [columns]
      exact OrderedSet.mem_ofList.mpr listed
  | enumerate place =>
    cases inputs
    obtain ⟨constraint, known, enumerates⟩ := constraint_ok lowered
    have columns : plan.columns step = constraint.subjects.toList := by
      rw [Plan.columns_eq_visible described nofun, Arena.visible_of_get? described]
      show (plan.body.variablesOf place).toList = _
      unfold Body.variablesOf
      rw [known]
      rfl
    have enumerates := mapError_ok enumerates
    rw [columns] at enumerates ⊢
    have reads := reads_enumerate enumerates exactly
    refine ⟨reads.shaped, fun values => (reads.lists values).trans ?_⟩
    simp [Operation.Means, known]
  | apply child place =>
    obtain ⟨_, shaped⟩ := below child List.mem_cons_self
    have columns : plan.columns step = plan.columns child := by
      rw [Plan.columns_eq_visible described nofun, Arena.visible_of_get? described,
        filters child place rfl]
      rfl
    match children, inputs with
    | [answer], .cons found .nil =>
      obtain ⟨constraint, known, selects⟩ := constraint_ok lowered
      have reads := reads_apply (mapError_ok selects) (shaped answer found) exactly
      rw [columns]
      refine ⟨reads.shaped, fun values => (reads.lists values).trans ?_⟩
      simp [Operation.Means, known, lists_iff found]
  | join primary secondary =>
    obtain ⟨leftShows, leftShaped⟩ := below primary List.mem_cons_self
    obtain ⟨rightShows, rightShaped⟩ := below secondary (List.mem_cons_of_mem _ List.mem_cons_self)
    have columns : plan.columns step =
        ((plan.arena.visible primary).union (plan.arena.visible secondary)).toList := by
      rw [Plan.columns_eq_visible described nofun, Arena.visible_of_get? described]
      rfl
    match children, inputs with
    | [left, right], .cons leftFound (.cons rightFound .nil) =>
      obtain ⟨output, outputFound, lowered⟩ := ok_of_bind (mapError_ok lowered)
      obtain ⟨leftKey, leftKeyFound, lowered⟩ := ok_of_bind lowered
      obtain ⟨rightKey, rightKeyFound, same⟩ := ok_of_bind lowered
      cases same
      have reads := reads_join leftKeyFound rightKeyFound outputFound (fun subject either => ?_)
        (leftShaped left leftFound) (rightShaped right rightFound) exactly
      · refine ⟨reads.shaped, fun values => (reads.lists values).trans ?_⟩
        simp [Operation.Means, lists_iff leftFound, lists_iff rightFound]
      · rw [columns, OrderedSet.mem_toList, OrderedSet.mem_union]
        rwa [leftShows, rightShows] at either
  | trim child kept =>
    obtain ⟨_, shaped⟩ := below child List.mem_cons_self
    have columns : plan.columns step = kept.toList := by
      rw [Plan.columns_eq_visible described nofun, Arena.visible_of_get? described]
      rfl
    match children, inputs with
    | [answer], .cons found .nil =>
      obtain ⟨places, positioned, same⟩ := ok_of_bind lowered
      cases same
      have reads := reads_restrict (mapError_ok positioned) (shaped answer found) exactly
      rw [columns]
      refine ⟨reads.shaped, fun values => (reads.lists values).trans ?_⟩
      simp only [Operation.Means, lists_iff found, OrderedSet.mem_toList]
  | project child parameters =>
    obtain ⟨_, shaped⟩ := below child List.mem_cons_self
    have columns : plan.columns step = parameters := by
      unfold Plan.columns
      rw [Plan.operation?_of_get? described]
    match children, inputs with
    | [answer], .cons found .nil =>
      obtain ⟨places, positioned, same⟩ := ok_of_bind lowered
      cases same
      have reads := reads_restrict (mapError_ok positioned) (shaped answer found) exactly
      rw [columns]
      refine ⟨reads.shaped, fun values => (reads.lists values).trans ?_⟩
      simp only [Operation.Means, lists_iff found]

/-- Every step of a verified plan means what its operation means, position by position of its
columns, as long as filters keep to the order that they assume. -/
theorem Plan.evaluate_columns (allocated : plan.arena.Allocated plan.body)
    (ordered : plan.FiltersInOrder) {found : OrderedSet Tuple}
    (evaluated : plan.evaluate checks facts input = .ok found) :
    ∃ results, plan.steps.foldlM (plan.evaluateStep checks facts input) .empty = .ok results ∧
      results.get? plan.root = some found ∧
      ∀ step ∈ plan.steps, ∃ operation rows, plan.operation? step = some operation ∧
        results.get? step = some rows ∧ Reads (plan.columns step) rows
          (operation.Means checks facts input plan.body (plan.Lists results)) := by
  obtain ⟨results, folded, rooted, each⟩ := exists_computed allocated evaluated
  refine ⟨results, folded, rooted, fun step listed => ?_⟩
  -- the children come before the step
  induction place : step.index using Nat.strongRecOn generalizing step with
  | _ place ih =>
    obtain ⟨operation, rows, children, operator, computed⟩ := each step listed
    have described := computed.described
    have known (child : SubPlanId) (member : child ∈ operation.children) : child ∈ plan.steps := by
      refine Arena.children_mem_postOrder listed described ?_ (computed.earlier child member)
      rwa [Arena.operation_describe]
    refine ⟨operation, rows, Plan.operation?_of_get? described, computed.found,
      computed.reads (fun child member => ?_) fun child constraint same => ?_⟩
    · obtain ⟨_, _, _, _, below⟩ := each child (known child member)
      refine ⟨fun subject => Plan.mem_columns below.described, fun childRows there => ?_⟩
      obtain ⟨_, answer, _, here, reads⟩ :=
        ih child.index (place ▸ computed.earlier child member) child (known child member) rfl
      rw [here] at there
      cases there
      exact reads.shaped
    · subst same
      obtain ⟨_, _, _, _, below⟩ := each child (known child List.mem_cons_self)
      refine Plan.columns_eq_visible below.described fun grandchild parameters same => ?_
      subst same
      exact ordered step listed child constraint (Plan.operation?_of_get? described) grandchild
        parameters (Plan.operation?_of_get? below.described)

end Meaning

/-! ## Plans built by hand -/

/-- The plan that allocates its steps one after another, with the last one as its root. -/
def Plan.allocate (body : Body) (operations : List Operation) : Plan where
  body
  arena := operations.foldl (fun arena operation => (arena.push body operation).1) .empty
  root := ⟨operations.length - 1⟩
  adornment := .empty
  hints := {}

theorem Plan.allocated_allocate (body : Body) (operations : List Operation) :
    (Plan.allocate body operations).arena.Allocated body := by
  have all (operations : List Operation) (arena : Arena) (allocated : arena.Allocated body) :
      (operations.foldl (fun arena operation => (arena.push body operation).1) arena).Allocated
        body := by
    induction operations generalizing arena with
    | nil => exact allocated
    | cons operation rest ih => exact ih _ (allocated.push operation)
  exact all operations .empty .empty

/-- The edges between different vertices, turned around. -/
def turned : Body :=
  ⟨⟨"turned", 0, ["x", "y"], [.relation ⟨0⟩ [⟨0⟩, ⟨1⟩] [], .different ⟨0⟩ ⟨1⟩], [⟨1⟩, ⟨0⟩], {}⟩,
    by decide⟩

/-- One edge. -/
def oneEdge : FactStore := ⟨[⟨⟨0⟩, [.bool false, .bool true]⟩]⟩

/-- Filtering before the projection. -/
def filteredFirst : Plan :=
  .allocate turned [.enumerate ⟨0⟩, .apply ⟨0⟩ ⟨1⟩, .project ⟨1⟩ [⟨1⟩, ⟨0⟩]]

/-- Filtering a projection whose parameters are not in ascending order. -/
def filteredLast : Plan :=
  .allocate turned [.enumerate ⟨0⟩, .project ⟨0⟩ [⟨1⟩, ⟨0⟩], .apply ⟨1⟩ ⟨1⟩,
    .project ⟨2⟩ [⟨1⟩, ⟨0⟩]]

theorem columns_of_filteredFirst : ∃ results,
    filteredFirst.steps.foldlM (filteredFirst.evaluateStep (fun _ _ => .ok true) oneEdge [])
      .empty = .ok results ∧
    results.get? filteredFirst.root = some (.singleton [.bool true, .bool false]) ∧
    ∀ step ∈ filteredFirst.steps, ∃ operation rows, filteredFirst.operation? step = some operation ∧
      results.get? step = some rows ∧ Reads (filteredFirst.columns step) rows
        (operation.Means (fun _ _ => .ok true) oneEdge [] turned
          (filteredFirst.Lists results)) := by
  refine Plan.evaluate_columns (Plan.allocated_allocate turned _) ?_
    (of_decide_eq_true (by decide +kernel))
  have steps : filteredFirst.steps = [⟨0⟩, ⟨1⟩, ⟨2⟩] := of_decide_eq_true (by decide +kernel)
  intro step listed child constraint applies below parameters projects
  rw [steps] at listed
  -- the only filter is applied to the listed relation
  simp only [List.mem_cons, List.not_mem_nil, or_false] at listed
  rcases listed with rfl | rfl | rfl
  · cases applies
  · cases applies
    cases projects
  · cases applies

/-- The plan is verified, and all of its steps can be lowered and evaluated.  But the filter is
taken for one over ascending columns, and lists the assignment with the values swapped. -/
theorem filteredLast_swaps : filteredLast.arena.Allocated turned ∧ filteredLast.verify = .ok () ∧
    (∀ step ∈ filteredLast.steps, ∃ lowered, filteredLast.lower step = .ok lowered) ∧
    (∃ found, filteredLast.evaluate (fun _ _ => .ok true) oneEdge [] = .ok found) ∧
    ∃ results rows,
      filteredLast.steps.foldlM (filteredLast.evaluateStep (fun _ _ => .ok true) oneEdge [])
        .empty = .ok results ∧
      results.get? ⟨2⟩ = some rows ∧
      filteredLast.operation? ⟨2⟩ = some (.apply ⟨1⟩ ⟨1⟩) ∧
      ¬Reads (filteredLast.columns ⟨2⟩) rows ((Operation.apply ⟨1⟩ ⟨1⟩).Means
        (fun _ _ => .ok true) oneEdge [] turned (filteredLast.Lists results)) := by
  have allocated : filteredLast.arena.Allocated filteredLast.body :=
    Plan.allocated_allocate turned _
  have evaluated : filteredLast.evaluate (fun _ _ => .ok true) oneEdge [] =
      .ok (.singleton [.bool false, .bool true]) := of_decide_eq_true (by decide +kernel)
  have folded : filteredLast.steps.foldlM
      (filteredLast.evaluateStep (fun _ _ => .ok true) oneEdge []) .empty =
        .ok ⟨[(⟨0⟩, .singleton [.bool false, .bool true]),
          (⟨1⟩, .singleton [.bool true, .bool false]), (⟨2⟩, .singleton [.bool true, .bool false]),
          (⟨3⟩, .singleton [.bool false, .bool true])]⟩ := of_decide_eq_true (by decide +kernel)
  refine ⟨allocated, of_decide_eq_true (by decide +kernel), fun step listed => ?_, ⟨_, evaluated⟩,
    _, _, folded, rfl, of_decide_eq_true (by decide +kernel), fun reads => ?_⟩
  · obtain ⟨_, _, _, each⟩ := exists_computed allocated evaluated
    obtain ⟨_, _, _, _, computed⟩ := each step listed
    exact ⟨_, Plan.lower_eq (Plan.operation?_of_get? computed.described) computed.lowered⟩
  · -- the filter lists true for x and false for y, but its child false for x and true for y
    let values : VarId → Value := fun subject => .bool (subject.index = 0)
    have shown : (filteredLast.columns ⟨2⟩).map values ∈
        (OrderedSet.singleton [.bool true, .bool false] : OrderedSet Tuple) :=
      of_decide_eq_true (by decide +kernel)
    obtain ⟨⟨rows, found, member⟩, _⟩ := (reads.lists values).mp shown
    cases found
    revert member
    exact of_decide_eq_true (by decide +kernel)

end LiveQuery
