import LiveQuery.Proofs.Plan.Constraints

/-!
# What the steps of a plan mean

A step means the rows that show the assignments satisfying the constraints that it enforces
(`Plan.Shows`), whatever variables have been trimmed on the way.  `Built` says of a step that it is
put together in a way that makes this true: constraints are applied where their variables are shown,
and joined steps have nothing in common but what both show.  Such steps are lowered to operators
that make the rows that they mean out of those that their children mean (`lowers_start`,
`lowers_input`, `lowers_enumerate`, `lowers_apply`, `lowers_restrict`, `lowers_join`).
-/

namespace LiveQuery

/-! ## Meanings -/

/-- Whether an assignment satisfies the constraints with the given numbers. -/
def Body.Satisfies (checks : Checks) (facts : FactStore) (body : Body)
    (enforced : OrderedSet ConstraintId) (values : VarId → Value) : Prop :=
  ∀ id ∈ enforced, ∀ constraint, body.constraint? id = some constraint →
    constraint.Holds checks facts values

/-- The step has a row for every assignment that satisfies the constraints that it enforces and, if
the step makes use of it, gives the supplied values to the inputs. -/
def Plan.Shows (checks : Checks) (facts : FactStore) (input : Tuple) (plan : Plan)
    (inputs : List VarId) (supplied : Prop) (id : SubPlanId) (row : Tuple) : Prop :=
  ∃ values : VarId → Value, plan.body.Satisfies checks facts (plan.arena.enforced id) values ∧
    (supplied → inputs.map values = input) ∧ row = (plan.columns id).map values

/-- The variables that a step depends on: those of the constraints that it enforces, and the inputs
if it makes use of them. -/
def Touches (body : Body) (inputs : List VarId) (arena : Arena) (supplied : Prop) (id : SubPlanId)
    (subject : VarId) : Prop :=
  (∃ constraint ∈ arena.enforced id, subject ∈ body.variablesOf constraint) ∨
    (supplied ∧ subject ∈ inputs)

/-- A step that is put together in the right way from such steps; it may make use of the supplied
row. -/
inductive Built (body : Body) (inputs : List VarId) (arena : Arena) : Prop → SubPlanId → Prop where
  | start {id : SubPlanId} (found : arena.get? id = some (arena.describe body .start)) :
      Built body inputs arena False id
  | input {id : SubPlanId} (found : arena.get? id = some (arena.describe body (.input inputs))) :
      Built body inputs arena True id
  | enumerate {id : SubPlanId} {place : ConstraintId} {constraint : Constraint}
      (found : arena.get? id = some (arena.describe body (.enumerate place)))
      (known : body.constraint? place = some constraint) (role : constraint.role ≠ .deferred) :
      Built body inputs arena False id
  | apply {id child : SubPlanId} {place : ConstraintId} {constraint : Constraint} {supplied : Prop}
      (found : arena.get? id = some (arena.describe body (.apply child place)))
      (earlier : child.index < id.index) (below : Built body inputs arena supplied child)
      (known : body.constraint? place = some constraint) (role : constraint.role ≠ .enumerable)
      (shown : ∀ subject ∈ constraint.arguments, subject ∈ arena.visible child) :
      Built body inputs arena supplied id
  | join {id primary secondary : SubPlanId} {first second : Prop}
      (found : arena.get? id = some (arena.describe body (.join primary secondary)))
      (earlier : primary.index < id.index ∧ secondary.index < id.index)
      (left : Built body inputs arena first primary)
      (right : Built body inputs arena second secondary)
      (meet : ∀ subject, Touches body inputs arena first primary subject →
        Touches body inputs arena second secondary subject →
        subject ∈ arena.visible primary ∧ subject ∈ arena.visible secondary) :
      Built body inputs arena (first ∨ second) id
  | trim {id child : SubPlanId} {kept : OrderedSet VarId} {supplied : Prop}
      (found : arena.get? id = some (arena.describe body (.trim child kept)))
      (earlier : child.index < id.index) (below : Built body inputs arena supplied child)
      (shown : ∀ subject ∈ kept, subject ∈ arena.visible child) :
      Built body inputs arena supplied id

section Bookkeeping

variable {body : Body} {inputs : List VarId} {arena : Arena} {supplied : Prop} {id : SubPlanId}
  {subject : VarId}

theorem Arena.enforced_of_get? {step : SubPlan} (found : arena.get? id = some step) :
    arena.enforced id = step.enforced := by
  unfold Arena.enforced
  rw [found]
  rfl

theorem Arena.visible_of_get? {step : SubPlan} (found : arena.get? id = some step) :
    arena.visible id = step.visible := by
  unfold Arena.visible
  rw [found]
  rfl

theorem Body.mem_variablesOf {place : ConstraintId} {constraint : Constraint}
    (known : body.constraint? place = some constraint) :
    subject ∈ body.variablesOf place ↔ subject ∈ constraint.arguments := by
  unfold Body.variablesOf
  rw [known]
  exact Constraint.mem_subjects

/-- A step shows only variables that it depends on. -/
theorem Built.touches (built : Built body inputs arena supplied id)
    (shown : subject ∈ arena.visible id) : Touches body inputs arena supplied id subject := by
  induction built with
  | start found =>
    rw [Arena.visible_of_get? found] at shown
    exact absurd shown OrderedSet.notMem_empty
  | input found =>
    rw [Arena.visible_of_get? found] at shown
    exact .inr ⟨trivial, OrderedSet.mem_ofList.mp shown⟩
  | enumerate found known role =>
    rw [Arena.visible_of_get? found] at shown
    refine .inl ⟨_, ?_, shown⟩
    rw [Arena.enforced_of_get? found]
    exact OrderedSet.mem_singleton.mpr rfl
  | apply found _ _ _ _ _ ih =>
    rw [Arena.visible_of_get? found] at shown
    unfold Touches
    rw [Arena.enforced_of_get? found]
    rcases ih shown with ⟨place, member, touched⟩ | given
    · exact .inl ⟨place, OrderedSet.mem_insert.mpr (.inr member), touched⟩
    · exact .inr given
  | join found _ _ _ _ leftTouches rightTouches =>
    rw [Arena.visible_of_get? found] at shown
    unfold Touches
    rw [Arena.enforced_of_get? found]
    rcases OrderedSet.mem_union.mp shown with shown | shown
    · rcases leftTouches shown with ⟨place, member, touched⟩ | ⟨given, listed⟩
      · exact .inl ⟨place, OrderedSet.mem_union.mpr (.inl member), touched⟩
      · exact .inr ⟨.inl given, listed⟩
    · rcases rightTouches shown with ⟨place, member, touched⟩ | ⟨given, listed⟩
      · exact .inl ⟨place, OrderedSet.mem_union.mpr (.inr member), touched⟩
      · exact .inr ⟨.inr given, listed⟩
  | trim found _ _ kept ih =>
    rw [Arena.visible_of_get? found] at shown
    unfold Touches
    rw [Arena.enforced_of_get? found]
    exact ih (kept _ shown)

/-- Assignments that agree on the variables that a step depends on satisfy the same constraints. -/
theorem satisfies_congr {checks : Checks} {facts : FactStore} {values other : VarId → Value}
    (same : ∀ subject, Touches body inputs arena supplied id subject →
      values subject = other subject)
    (satisfies : body.Satisfies checks facts (arena.enforced id) values) :
    body.Satisfies checks facts (arena.enforced id) other := by
  intro place member constraint known
  refine (Constraint.holds_congr fun subject argument => ?_).mp
    (satisfies place member constraint known)
  exact same subject (.inl ⟨place, member, (Body.mem_variablesOf known).mpr argument⟩)

/-- Assignments of two steps that agree on what both show can be put together, if the steps have
nothing else in common. -/
theorem exists_both {first second : Prop} {primary secondary : SubPlanId}
    {one other : VarId → Value}
    (meet : ∀ subject, Touches body inputs arena first primary subject →
      Touches body inputs arena second secondary subject →
      subject ∈ arena.visible primary ∧ subject ∈ arena.visible secondary)
    (agree : ∀ subject, subject ∈ arena.visible primary → subject ∈ arena.visible secondary →
      one subject = other subject) :
    ∃ both : VarId → Value,
      (∀ subject, Touches body inputs arena first primary subject →
        one subject = both subject) ∧
      (∀ subject, Touches body inputs arena second secondary subject →
        other subject = both subject) := by
  classical
  -- the left assignment on what the left side depends on, the right one elsewhere
  refine ⟨fun subject => if Touches body inputs arena first primary subject then one subject
    else other subject, ?_, ?_⟩
  · intro subject touched
    exact (if_pos touched).symm
  · intro subject touched
    by_cases here : Touches body inputs arena first primary subject
    · obtain ⟨inPrimary, inSecondary⟩ := meet subject here touched
      calc
        other subject = one subject := (agree subject inPrimary inSecondary).symm
        _ = _ := (if_pos here).symm
    · exact (if_neg here).symm

end Bookkeeping

/-! ## Lowering -/

/-- The step is lowered to an operator that makes the given rows out of those of its children. -/
def Plan.Lowers (checks : Checks) (facts : FactStore) (input : Tuple) (plan : Plan) (id : SubPlanId)
    (children : List (Tuple → Prop)) (rows : Tuple → Prop) : Prop :=
  ∃ lowered, plan.lower id = .ok lowered ∧ lowered.operator.Fits input children.length ∧
    ∀ row, lowered.operator.Rows checks.accepts facts input children row ↔ rows row

section Lowering

variable {checks : Checks} {facts : FactStore} {input : Tuple} {plan : Plan} {inputs : List VarId}
  {supplied : Prop} {id child : SubPlanId}

theorem Plan.operation?_of_get? {operation : Operation}
    (found : plan.arena.get? id = some (plan.arena.describe plan.body operation)) :
    plan.operation? id = some operation := by
  unfold Plan.operation? Plan.get?
  rw [found]
  cases operation <;> rfl

theorem Plan.lower_eq {operation : Operation} {operator : Operator}
    (found : plan.operation? id = some operation)
    (lowered : plan.operator id operation = .ok operator) :
    plan.lower id = .ok ⟨operator, plan.stepLabel operation⟩ := by
  unfold Plan.lower
  rw [found]
  dsimp only
  rw [lowered]
  rfl

/-- The columns of the steps below the root follow the variables that they show. -/
theorem Built.columns_eq (built : Built plan.body inputs plan.arena supplied id) :
    plan.columns id = (plan.arena.visible id).toList := by
  unfold Plan.columns
  cases built <;> rw [Plan.operation?_of_get? ‹_›]

theorem Built.mem_columns (built : Built plan.body inputs plan.arena supplied id)
    {subject : VarId} : subject ∈ plan.columns id ↔ subject ∈ plan.arena.visible id := by
  rw [built.columns_eq, OrderedSet.mem_toList]

theorem lowers_start (found : plan.arena.get? id = some (plan.arena.describe plan.body .start)) :
    plan.Lowers checks facts input id [] (plan.Shows checks facts input inputs False id) := by
  have columns : plan.columns id = [] := by
    rw [(Built.start found : Built _ inputs _ _ _).columns_eq, Arena.visible_of_get? found]
    rfl
  refine ⟨_, Plan.lower_eq (Plan.operation?_of_get? found) rfl, trivial, fun row => ?_⟩
  show row = [] ↔ _
  unfold Plan.Shows Body.Satisfies
  rw [columns, Arena.enforced_of_get? found]
  constructor
  · intro same
    subst same
    exact ⟨fun _ => .nil, fun _ member => absurd member OrderedSet.notMem_empty, False.elim, rfl⟩
  · intro found
    obtain ⟨_, _, _, rfl⟩ := found
    rfl

theorem lowers_input (nodup : inputs.Nodup) (length : input.length = inputs.length)
    (found : plan.arena.get? id = some (plan.arena.describe plan.body (.input inputs))) :
    plan.Lowers checks facts input id [] (plan.Shows checks facts input inputs True id) := by
  have columns : plan.columns id = (OrderedSet.ofList inputs).toList := by
    rw [(Built.input found : Built _ inputs _ _ _).columns_eq, Arena.visible_of_get? found]
    rfl
  obtain ⟨places, positioned, inside, project⟩ := positions_spec
    (show ∀ subject ∈ (OrderedSet.ofList inputs).toList, subject ∈ inputs from
      fun _ member => OrderedSet.mem_ofList.mp member)
  have operator : plan.operator id (.input inputs) = .ok (.input places) := by
    simp only [Plan.operator, columns, positioned]
    rfl
  refine ⟨_, Plan.lower_eq (Plan.operation?_of_get? found) operator, ?_, fun row => ?_⟩
  · exact fun place member => length ▸ inside place member
  · -- the supplied row is that of the assignment that it gives to the inputs
    show input.project? places = some row ↔ _
    rw [project?_eq fun place member => length ▸ inside place member, Option.some.injEq]
    unfold Plan.Shows Body.Satisfies
    rw [columns, Arena.enforced_of_get? found]
    have given : inputs.map (valuesOf inputs input) = input :=
      map_valuesOf length (by simp [repetitions_of_nodup nodup])
    constructor
    · intro same
      subst same
      refine ⟨valuesOf inputs input, fun _ member => absurd member OrderedSet.notMem_empty,
        fun _ => given, ?_⟩
      rw [← project, given]
    · intro found
      obtain ⟨values, _, same, rfl⟩ := found
      rw [← project, same trivial]

theorem lowers_enumerate {place : ConstraintId} {constraint : Constraint}
    (found : plan.arena.get? id = some (plan.arena.describe plan.body (.enumerate place)))
    (known : plan.body.constraint? place = some constraint) (role : constraint.role ≠ .deferred) :
    plan.Lowers checks facts input id [] (plan.Shows checks facts input inputs False id) := by
  have columns : plan.columns id = constraint.subjects.toList := by
    rw [(Built.enumerate found known role : Built _ inputs _ _ _).columns_eq,
      Arena.visible_of_get? found]
    show (plan.body.variablesOf place).toList = _
    unfold Body.variablesOf
    rw [known]
    rfl
  obtain ⟨operator, enumerates, fits, rows⟩ :=
    Constraint.enumerator_spec checks facts input place role
  have lowered : plan.operator id (.enumerate place) = .ok operator := by
    simp only [Plan.operator, columns, known, bind, Except.bind, enumerates]
    rfl
  refine ⟨_, Plan.lower_eq (Plan.operation?_of_get? found) lowered, fits, fun row => ?_⟩
  rw [rows]
  unfold Plan.Shows Body.Satisfies
  rw [columns, Arena.enforced_of_get? found]
  refine exists_congr ?_
  intro values
  constructor
  · intro found
    obtain ⟨holds, rfl⟩ := found
    refine ⟨fun other member constraint' known' => ?_, False.elim, rfl⟩
    obtain rfl := OrderedSet.mem_singleton.mp member
    rw [known] at known'
    cases known'
    exact holds
  · intro found
    obtain ⟨satisfies, _, rfl⟩ := found
    exact ⟨satisfies place (OrderedSet.mem_singleton.mpr rfl) constraint known, rfl⟩

theorem lowers_apply {place : ConstraintId} {constraint : Constraint}
    (found : plan.arena.get? id = some (plan.arena.describe plan.body (.apply child place)))
    (below : Built plan.body inputs plan.arena supplied child)
    (known : plan.body.constraint? place = some constraint) (role : constraint.role ≠ .enumerable)
    (shown : ∀ subject ∈ constraint.arguments, subject ∈ plan.arena.visible child)
    (columns : plan.columns id = plan.columns child) :
    plan.Lowers checks facts input id [plan.Shows checks facts input inputs supplied child]
      (plan.Shows checks facts input inputs supplied id) := by
  obtain ⟨operator, selects, fits, keeps, rows⟩ :=
    Constraint.selector_spec checks facts input place (plan.columns child) role (by
      rw [below.columns_eq]
      exact shown)
  have lowered : plan.operator id (.apply child place) = .ok operator := by
    simp only [Plan.operator, known, bind, Except.bind, selects]
    rfl
  refine ⟨_, Plan.lower_eq (Plan.operation?_of_get? found) lowered, fits, fun row => ?_⟩
  -- the step enforces what its child enforces and the constraint itself
  have enforced (values : VarId → Value) :
      plan.body.Satisfies checks facts (plan.arena.enforced id) values ↔
        plan.body.Satisfies checks facts (plan.arena.enforced child) values ∧
          constraint.Holds checks facts values := by
    rw [Arena.enforced_of_get? found]
    constructor
    · intro satisfies
      refine ⟨fun other member => satisfies other (OrderedSet.mem_insert.mpr (.inr member)), ?_⟩
      exact satisfies place (OrderedSet.mem_insert.mpr (.inl rfl)) constraint known
    · rintro ⟨satisfies, holds⟩ other member constraint' known'
      rcases OrderedSet.mem_insert.mp member with rfl | member
      · rw [known] at known'
        cases known'
        exact holds
      · exact satisfies other member constraint' known'
  constructor
  · intro kept
    obtain ⟨values, satisfies, given, rfl⟩ := keeps _ _ kept
    obtain ⟨_, holds⟩ := (rows _ values).mp kept
    exact ⟨values, (enforced values).mpr ⟨satisfies, holds⟩, given, by rw [columns]⟩
  · intro found
    obtain ⟨values, satisfies, given, rfl⟩ := found
    obtain ⟨satisfies, holds⟩ := (enforced values).mp satisfies
    rw [columns]
    exact (rows _ values).mpr ⟨⟨values, satisfies, given, rfl⟩, holds⟩

/-- A step that restricts the rows of its child to some of the variables shown. -/
theorem lowers_restrict {operation : Operation} {kept : List VarId}
    (found : plan.arena.get? id = some (plan.arena.describe plan.body operation))
    (operator : ∀ places, positions (plan.columns child) kept = .ok places →
      plan.operator id operation = .ok (.project places))
    (below : Built plan.body inputs plan.arena supplied child)
    (shown : ∀ subject ∈ kept, subject ∈ plan.arena.visible child)
    (columns : plan.columns id = kept)
    (enforced : plan.arena.enforced id = plan.arena.enforced child) :
    plan.Lowers checks facts input id [plan.Shows checks facts input inputs supplied child]
      (plan.Shows checks facts input inputs supplied id) := by
  obtain ⟨places, positioned, _, project⟩ := positions_spec
    (show ∀ subject ∈ kept, subject ∈ plan.columns child by
      rw [below.columns_eq]
      exact shown)
  refine ⟨_, Plan.lower_eq (Plan.operation?_of_get? found) (operator places positioned), trivial,
    fun row => ?_⟩
  show (∃ whole, plan.Shows checks facts input inputs supplied child whole ∧
    whole.project places = row) ↔ _
  unfold Plan.Shows
  rw [columns, enforced]
  constructor
  · intro found
    obtain ⟨_, ⟨values, satisfies, given, rfl⟩, rfl⟩ := found
    exact ⟨values, satisfies, given, project values⟩
  · intro found
    obtain ⟨values, satisfies, given, rfl⟩ := found
    exact ⟨_, ⟨values, satisfies, given, rfl⟩, project values⟩

/-- A join means the rows of assignments to both sides that agree on what both show.  They come from
one assignment, because the sides have nothing else in common. -/
theorem shows_join {primary secondary : SubPlanId} {first second : Prop}
    (enforced : plan.arena.enforced id =
      (plan.arena.enforced primary).union (plan.arena.enforced secondary))
    (left : Built plan.body inputs plan.arena first primary)
    (right : Built plan.body inputs plan.arena second secondary)
    (meet : ∀ subject, Touches plan.body inputs plan.arena first primary subject →
      Touches plan.body inputs plan.arena second secondary subject →
      subject ∈ plan.arena.visible primary ∧ subject ∈ plan.arena.visible secondary)
    (columns : plan.columns id =
      ((plan.arena.visible primary).union (plan.arena.visible secondary)).toList) (row : Tuple) :
    plan.Shows checks facts input inputs (first ∨ second) id row ↔
      ∃ one other : VarId → Value,
        (plan.body.Satisfies checks facts (plan.arena.enforced primary) one ∧
          (first → inputs.map one = input)) ∧
        (plan.body.Satisfies checks facts (plan.arena.enforced secondary) other ∧
          (second → inputs.map other = input)) ∧
        (∀ subject, subject ∈ plan.arena.visible primary →
          subject ∈ plan.arena.visible secondary → one subject = other subject) ∧
        row = (plan.columns id).map fun subject =>
          if subject ∈ plan.columns primary then one subject else other subject := by
  constructor
  · intro found
    obtain ⟨values, satisfies, given, rfl⟩ := found
    rw [enforced] at satisfies
    refine ⟨values, values, ⟨?_, fun here => given (.inl here)⟩,
      ⟨?_, fun here => given (.inr here)⟩, fun _ _ _ => rfl, ?_⟩
    · exact fun place member => satisfies place (OrderedSet.mem_union.mpr (.inl member))
    · exact fun place member => satisfies place (OrderedSet.mem_union.mpr (.inr member))
    · exact List.map_congr_left fun subject _ => (ite_self _).symm
  · intro found
    obtain ⟨one, other, ⟨oneSatisfies, oneGiven⟩, ⟨otherSatisfies, otherGiven⟩, agree, rfl⟩ := found
    -- one assignment that is like the left one on the left and like the right one on the right
    obtain ⟨both, likeOne, likeOther⟩ := exists_both meet agree
    refine ⟨both, ?_, ?_, ?_⟩
    · intro place member
      rw [enforced, OrderedSet.mem_union] at member
      rcases member with member | member
      · exact satisfies_congr likeOne oneSatisfies place member
      · exact satisfies_congr likeOther otherSatisfies place member
    · rintro (given | given)
      · rw [← oneGiven given]
        exact (List.map_congr_left fun subject listed =>
          likeOne subject (.inr ⟨given, listed⟩)).symm
      · rw [← otherGiven given]
        exact (List.map_congr_left fun subject listed =>
          likeOther subject (.inr ⟨given, listed⟩)).symm
    · refine List.map_congr_left ?_
      intro subject member
      rw [columns, OrderedSet.mem_toList, OrderedSet.mem_union] at member
      by_cases here : subject ∈ plan.columns primary
      · rw [if_pos here]
        exact likeOne subject (left.touches (left.mem_columns.mp here))
      · rw [if_neg here]
        rw [left.mem_columns] at here
        exact likeOther subject (right.touches (member.resolve_left here))

theorem lowers_join {primary secondary : SubPlanId} {first second : Prop}
    (found : plan.arena.get? id = some (plan.arena.describe plan.body (.join primary secondary)))
    (left : Built plan.body inputs plan.arena first primary)
    (right : Built plan.body inputs plan.arena second secondary)
    (meet : ∀ subject, Touches plan.body inputs plan.arena first primary subject →
      Touches plan.body inputs plan.arena second secondary subject →
      subject ∈ plan.arena.visible primary ∧ subject ∈ plan.arena.visible secondary)
    (columns : plan.columns id =
      ((plan.arena.visible primary).union (plan.arena.visible secondary)).toList) :
    plan.Lowers checks facts input id
      [plan.Shows checks facts input inputs first primary,
        plan.Shows checks facts input inputs second secondary]
      (plan.Shows checks facts input inputs (first ∨ second) id) := by
  -- the key columns are those of the variables that both sides show
  have shared (subject : VarId) :
      subject ∈ (plan.columns primary).filter (plan.columns secondary).contains ↔
        subject ∈ plan.arena.visible primary ∧ subject ∈ plan.arena.visible secondary := by
    rw [List.mem_filter, List.contains_iff_mem, left.mem_columns, right.mem_columns]
  obtain ⟨leftKey, leftFound, _, leftProject⟩ := positions_spec
    fun subject member => left.mem_columns.mpr ((shared subject).mp member).1
  obtain ⟨rightKey, rightFound, _, rightProject⟩ := positions_spec
    fun subject member => right.mem_columns.mpr ((shared subject).mp member).2
  obtain ⟨output, outputFound, joinRow⟩ := joinColumns_spec
    (show ∀ subject ∈ plan.columns id,
        subject ∈ plan.columns primary ∨ subject ∈ plan.columns secondary by
      intro subject member
      rw [columns, OrderedSet.mem_toList, OrderedSet.mem_union] at member
      rwa [left.mem_columns, right.mem_columns])
  have lowered : plan.operator id (.join primary secondary) =
      .ok (.join leftKey rightKey output) := by
    simp only [Plan.operator, outputFound, leftFound, rightFound]
    rfl
  refine ⟨_, Plan.lower_eq (Plan.operation?_of_get? found) lowered, trivial, fun row => ?_⟩
  rw [shows_join (Arena.enforced_of_get? found) left right meet columns]
  show (∃ whole other, _ ∧ _ ∧ _ ∧ _) ↔ _
  constructor
  · intro joined
    obtain ⟨_, _, ⟨one, satisfies, given, rfl⟩, ⟨other, otherSatisfies, otherGiven, rfl⟩, keys,
      rfl⟩ := joined
    rw [leftProject, rightProject] at keys
    refine ⟨one, other, ⟨satisfies, given⟩, ⟨otherSatisfies, otherGiven⟩, ?_, joinRow one other⟩
    intro subject here there
    exact (List.map_inj_left.mp keys subject ((shared subject).mpr ⟨here, there⟩)).symm
  · intro joined
    obtain ⟨one, other, ⟨satisfies, given⟩, ⟨otherSatisfies, otherGiven⟩, agree, rfl⟩ := joined
    refine ⟨(plan.columns primary).map one, (plan.columns secondary).map other,
      ⟨one, satisfies, given, rfl⟩, ⟨other, otherSatisfies, otherGiven, rfl⟩, ?_,
      joinRow one other⟩
    rw [leftProject, rightProject]
    refine List.map_congr_left ?_
    intro subject member
    obtain ⟨here, there⟩ := (shared subject).mp member
    exact (agree subject here there).symm

end Lowering

end LiveQuery
