import LiveQuery.Proofs.Plan.Columns
import LiveQuery.Proofs.Plan.Outcome

/-!
# Names do not matter to plans

Bodies that differ in the names of the query, of its variables and of its checks only (`Renamed`)
are planned in the same way: the planner takes the same steps (`Renamed.collapse_eq`), so both plans
have the same arena and the same root (`Renamed.exists_plan`), and every step is lowered to the same
operator (`Renamed.lower`).
-/

namespace LiveQuery

/-- The constraint without the name of its check. -/
def Constraint.unnamed : Constraint → Constraint
  | .check _ id arguments => .check "" id arguments
  | constraint => constraint

namespace Constraint

@[simp] theorem role_unnamed (constraint : Constraint) :
    constraint.unnamed.role = constraint.role := by
  cases constraint <;> rfl

@[simp] theorem arguments_unnamed (constraint : Constraint) :
    constraint.unnamed.arguments = constraint.arguments := by
  cases constraint <;> rfl

@[simp] theorem subjects_unnamed (constraint : Constraint) :
    constraint.unnamed.subjects = constraint.subjects := by
  cases constraint <;> rfl

@[simp] theorem dependencies_unnamed (constraint : Constraint) :
    constraint.unnamed.dependencies = constraint.dependencies := by
  cases constraint <;> rfl

@[simp] theorem enumerator_unnamed (id : ConstraintId) (layout : List VarId)
    (constraint : Constraint) :
    constraint.unnamed.enumerator id layout = constraint.enumerator id layout := by
  cases constraint <;> rfl

@[simp] theorem selector_unnamed (id : ConstraintId) (layout : List VarId)
    (constraint : Constraint) :
    constraint.unnamed.selector id layout = constraint.selector id layout := by
  cases constraint <;> rfl

end Constraint

/-- The same constraints over as many variables, with the same parameters and hints. -/
structure Body.Renamed (body other : Body) : Prop where
  constraints : body.constraints.map Constraint.unnamed = other.constraints.map Constraint.unnamed
  names : body.names.length = other.names.length
  parameters : body.parameters = other.parameters
  hints : body.hints = other.hints

namespace Body.Renamed

variable {body other : Body} (renamed : body.Renamed other)

include renamed

theorem constraint? (id : ConstraintId) :
    (body.constraint? id).map Constraint.unnamed =
      (other.constraint? id).map Constraint.unnamed := by
  have same := congrArg (·[id.index]?) renamed.constraints
  simpa [Body.constraint?] using same

/-- What does not depend on names is the same for the constraints of both bodies. -/
theorem map_constraint? {α : Type} (view : Constraint → α)
    (nameless : ∀ constraint, view constraint.unnamed = view constraint) (id : ConstraintId) :
    (body.constraint? id).map view = (other.constraint? id).map view := by
  have split (found : Option Constraint) :
      found.map view = (found.map Constraint.unnamed).map view := by
    cases found <;> simp [nameless]
  rw [split, split (other.constraint? id), renamed.constraint?]

theorem variablesOf_eq (id : ConstraintId) : body.variablesOf id = other.variablesOf id := by
  rw [Body.variablesOf, renamed.map_constraint? _ Constraint.subjects_unnamed, Body.variablesOf]

theorem dependenciesOf_eq (id : ConstraintId) :
    body.dependenciesOf id = other.dependenciesOf id := by
  rw [Body.dependenciesOf, renamed.map_constraint? _ Constraint.dependencies_unnamed,
    Body.dependenciesOf]

theorem inputs_eq (adornment : OrderedSet Nat) :
    body.inputs adornment = other.inputs adornment := by
  rw [Body.inputs, renamed.parameters, Body.inputs]

/-- The numbered constraints are the same apart from names. -/
theorem numbered : body.numbered.map (Prod.map id Constraint.unnamed) =
    other.numbered.map (Prod.map id Constraint.unnamed) := by
  have zipped (body : Body) : body.numbered.map (Prod.map id Constraint.unnamed) =
      (body.constraints.map Constraint.unnamed).zipIdx.map fun entry => (⟨entry.2⟩, entry.1) := by
    simp [Body.numbered, List.zipIdx_map, Function.comp_def]
  rw [zipped, zipped, renamed.constraints]

/-! ## The task of the planner -/

variable (hints : Hints) (inputs : List VarId)

theorem covered_eq : PlanningTask.covered ⟨body, hints, inputs⟩ =
    PlanningTask.covered ⟨other, hints, inputs⟩ := by
  have folded (constraints : List Constraint) (start : OrderedSet VarId) :
      constraints.foldl (fun known constraint =>
        if constraint.role = .enumerable then known.union constraint.subjects else known) start =
      (constraints.map Constraint.unnamed).foldl (fun known constraint =>
        if constraint.role = .enumerable then known.union constraint.subjects
        else known) start := by
    simp [List.foldl_map]
  unfold PlanningTask.covered
  rw [folded, renamed.constraints, ← folded]

theorem isFilter_eq (constraint : Constraint) :
    PlanningTask.isFilter ⟨body, hints, inputs⟩ constraint =
      PlanningTask.isFilter ⟨other, hints, inputs⟩ constraint := by
  unfold PlanningTask.isFilter
  rw [renamed.covered_eq]

theorem select_eq {test : Constraint → Bool}
    (nameless : ∀ constraint, test constraint.unnamed = test constraint) :
    PlanningTask.select ⟨body, hints, inputs⟩ test =
      PlanningTask.select ⟨other, hints, inputs⟩ test := by
  have selected (body : Body) : PlanningTask.select ⟨body, hints, inputs⟩ test =
      ((body.numbered.map (Prod.map id Constraint.unnamed)).filter fun entry =>
        test entry.2).map Prod.fst := by
    simp [PlanningTask.select, List.filter_map, Function.comp_def, nameless]
  rw [selected, selected, renamed.numbered]

theorem isSource_eq (constraint : Constraint) :
    PlanningTask.isSource ⟨body, hints, inputs⟩ constraint =
      PlanningTask.isSource ⟨other, hints, inputs⟩ constraint := by
  unfold PlanningTask.isSource
  rw [renamed.isFilter_eq]

omit renamed in
theorem isFilter_unnamed (task : PlanningTask) (constraint : Constraint) :
    task.isFilter constraint.unnamed = task.isFilter constraint := by
  cases constraint <;> rfl

omit renamed in
theorem isSource_unnamed (task : PlanningTask) (constraint : Constraint) :
    task.isSource constraint.unnamed = task.isSource constraint := by
  rw [PlanningTask.isSource, PlanningTask.isSource, isFilter_unnamed, Constraint.role_unnamed]

theorem sources_eq : PlanningTask.sources ⟨body, hints, inputs⟩ =
    PlanningTask.sources ⟨other, hints, inputs⟩ := by
  have same : PlanningTask.isSource ⟨body, hints, inputs⟩ =
      PlanningTask.isSource ⟨other, hints, inputs⟩ := funext (renamed.isSource_eq hints inputs)
  rw [PlanningTask.sources, same, renamed.select_eq hints inputs (isSource_unnamed _),
    PlanningTask.sources]

theorem filters_eq : PlanningTask.filters ⟨body, hints, inputs⟩ =
    PlanningTask.filters ⟨other, hints, inputs⟩ := by
  have same : PlanningTask.isFilter ⟨body, hints, inputs⟩ =
      PlanningTask.isFilter ⟨other, hints, inputs⟩ := funext (renamed.isFilter_eq hints inputs)
  rw [PlanningTask.filters, same, renamed.select_eq hints inputs (isFilter_unnamed _),
    PlanningTask.filters]

theorem deferred_eq : PlanningTask.deferred ⟨body, hints, inputs⟩ =
    PlanningTask.deferred ⟨other, hints, inputs⟩ := by
  exact renamed.select_eq hints inputs fun constraint => by rw [Constraint.role_unnamed]

/-! ## The steps of the planner -/

omit hints inputs in
theorem arena_push_eq (arena : Arena) (operation : Operation) :
    arena.push body operation = arena.push other operation := by
  have described : arena.describe body operation = arena.describe other operation := by
    cases operation <;> simp [Arena.describe, renamed.variablesOf_eq]
  rw [Arena.push, described, Arena.push]

theorem push_eq : Forefront.push ⟨body, hints, inputs⟩ = Forefront.push ⟨other, hints, inputs⟩ := by
  funext operation forefront
  simp only [Forefront.push, renamed.arena_push_eq]

theorem isReady_eq :
    Forefront.isReady ⟨body, hints, inputs⟩ = Forefront.isReady ⟨other, hints, inputs⟩ := by
  funext forefront plan constraint
  rw [Forefront.isReady, renamed.variablesOf_eq, Forefront.isReady]

theorem applyFilters_eq : Forefront.applyFilters ⟨body, hints, inputs⟩ =
    Forefront.applyFilters ⟨other, hints, inputs⟩ := by
  funext forefront plan
  rw [Forefront.applyFilters, renamed.isReady_eq, renamed.push_eq, Forefront.applyFilters]

theorem needed_eq :
    Forefront.needed ⟨body, hints, inputs⟩ = Forefront.needed ⟨other, hints, inputs⟩ := by
  funext forefront plan
  have folded (body : Body) : Forefront.needed ⟨body, hints, inputs⟩ forefront plan =
      (body.numbered.map (Prod.map id Constraint.unnamed)).foldl (fun known entry =>
        if (forefront.arena.enforced plan).contains entry.1 then known
        else known.union entry.2.subjects) (.ofList body.parameters) := by
    simp [Forefront.needed, List.foldl_map]
  rw [folded, folded, renamed.numbered, renamed.parameters]

theorem trim_eq :
    Forefront.trim ⟨body, hints, inputs⟩ = Forefront.trim ⟨other, hints, inputs⟩ := by
  funext forefront plan
  simp only [Forefront.trim, renamed.needed_eq, renamed.sources_eq, renamed.push_eq]

omit renamed in
/-- What accepting a sub-plan does next. -/
theorem accept_next (task : PlanningTask) (forefront : Forefront) (plan : SubPlanId) :
    Forefront.accept task forefront plan =
      let filtered := Forefront.applyFilters task forefront plan
      let trimmed := Forefront.trim task filtered.1 filtered.2
      match trimmed.1.deferred.find? (Forefront.isReady task trimmed.1 trimmed.2) with
      | none => { trimmed.1 with members := trimmed.1.members.insert trimmed.2 }
      | some constraint =>
        let applied := Forefront.push task (.apply trimmed.2 constraint)
          { trimmed.1 with deferred := trimmed.1.deferred.erase constraint }
        Forefront.accept task applied.1 applied.2 := by
  rw [Forefront.accept]
  dsimp only
  split
  next found => rw [found]
  next found => rw [found]

theorem accept_eq :
    Forefront.accept ⟨body, hints, inputs⟩ = Forefront.accept ⟨other, hints, inputs⟩ := by
  funext forefront plan
  fun_induction Forefront.accept ⟨body, hints, inputs⟩ forefront plan with
  | case1 forefront plan filtered trimmed found =>
    rw [accept_next, ← renamed.applyFilters_eq, ← renamed.trim_eq, ← renamed.isReady_eq]
    dsimp only
    rw [found]
  | case2 forefront plan filtered trimmed constraint found applied ih =>
    rw [ih, accept_next _ forefront plan, ← renamed.applyFilters_eq, ← renamed.trim_eq,
      ← renamed.isReady_eq, ← renamed.push_eq]
    dsimp only
    rw [found]

theorem seed_eq : Forefront.seed ⟨body, hints, inputs⟩ = Forefront.seed ⟨other, hints, inputs⟩ := by
  simp only [Forefront.seed, Forefront.seedOperations, Forefront.initial, renamed.sources_eq,
    renamed.filters_eq, renamed.deferred_eq, renamed.push_eq, renamed.accept_eq]

theorem candidates_eq : Forefront.candidates ⟨body, hints, inputs⟩ =
    Forefront.candidates ⟨other, hints, inputs⟩ := by
  funext forefront
  have classified : JoinCandidate.classify forefront.arena body =
      JoinCandidate.classify forefront.arena other := by
    funext primary secondary
    simp only [JoinCandidate.classify, JoinCandidate.dependencies,
      funext renamed.dependenciesOf_eq]
  have listed (plans : List SubPlanId) :
      Forefront.candidates.go ⟨body, hints, inputs⟩ forefront plans =
        Forefront.candidates.go ⟨other, hints, inputs⟩ forefront plans := by
    induction plans with
    | nil => rfl
    | cons first rest ih =>
      rw [Forefront.candidates.go, Forefront.candidates.go, ih, classified]
  exact listed _

theorem collapse_eq : Forefront.collapse ⟨body, hints, inputs⟩ =
    Forefront.collapse ⟨other, hints, inputs⟩ := by
  funext joins forefront
  induction joins generalizing forefront with
  | zero => rfl
  | succ joins ih =>
    rw [Forefront.collapse, Forefront.collapse, renamed.candidates_eq]
    simp only [renamed.push_eq, renamed.accept_eq, ih]

/-! ## Plans -/

omit hints inputs

theorem bindable_eq (adornment : OrderedSet Nat) :
    body.bindable adornment = other.bindable adornment := by
  have listed (constraints : List Constraint) :
      (constraints.filter (·.role ≠ .deferred)).flatMap Constraint.arguments =
        ((constraints.map Constraint.unnamed).filter (·.role ≠ .deferred)).flatMap
          Constraint.arguments := by
    simp [List.filter_map, List.flatMap_map, Function.comp_def]
  rw [Body.bindable, listed, renamed.constraints, ← listed, renamed.inputs_eq, Body.bindable]

theorem find?_numbered_eq_none (test : Constraint → Bool)
    (nameless : ∀ constraint, test constraint.unnamed = test constraint) :
    body.numbered.find? (fun entry => test entry.2) = none ↔
      other.numbered.find? (fun entry => test entry.2) = none := by
  have found (numbered : List (ConstraintId × Constraint)) :
      numbered.find? (fun entry => test entry.2) = none ↔
        (numbered.map (Prod.map id Constraint.unnamed)).find? (fun entry => test entry.2) =
          none := by
    simp [List.find?_map, nameless]
  rw [found, renamed.numbered, ← found]

theorem obstacle?_eq_none (adornment : OrderedSet Nat) :
    body.obstacle? adornment = none ↔ other.obstacle? adornment = none := by
  unfold Body.obstacle?
  simp only [Option.or_eq_none_iff, Option.map_eq_none_iff, renamed.parameters,
    renamed.bindable_eq]
  refine and_congr_right fun _ => and_congr_left fun _ => ?_
  refine renamed.find?_numbered_eq_none (fun constraint => decide (constraint.role = .deferred) &&
    !constraint.subjects.isSubset (other.bindable adornment)) ?_
  intro constraint
  rw [Constraint.role_unnamed, Constraint.subjects_unnamed]

omit renamed in
theorem hints_of_planned {hints : Hints} {adornment : OrderedSet Nat} {plan : Plan}
    (planned : Plan.ofBodyAdorned hints body adornment = .ok plan) :
    plan.hints = hints.merge body.hints := by
  unfold Plan.ofBodyAdorned at planned
  dsimp only at planned
  split at planned
  · cases planned
  · obtain ⟨_, _, planned⟩ := ok_of_bind planned
    obtain ⟨_, _, planned⟩ := ok_of_bind planned
    cases planned
    rfl

/-- If a body can be planned, then it can be planned under other names, with the same result. -/
theorem exists_plan {hints : Hints} {adornment : OrderedSet Nat} {plan : Plan}
    (planned : Plan.ofBodyAdorned hints body adornment = .ok plan) :
    ∃ twin, Plan.ofBodyAdorned hints other adornment = .ok twin ∧ twin.body = other ∧
      twin.arena = plan.arena ∧ twin.root = plan.root ∧ twin.hints = plan.hints := by
  have open_ := (Plan.ofBodyAdorned_outcome hints body adornment).2.1.mp ⟨plan, planned⟩
  have twinOpen := (renamed.obstacle?_eq_none adornment).mp open_
  obtain ⟨twin, twinPlanned⟩ := exists_ofBodyAdorned hints other adornment twinOpen
  obtain ⟨_, _, _, _, forefront, rfl, finished⟩ := ofBodyAdorned_ok planned
  obtain ⟨_, _, twinBody, _, twinForefront, same, twinFinished⟩ := ofBodyAdorned_ok twinPlanned
  rw [← renamed.hints, ← renamed.inputs_eq, ← renamed.seed_eq, ← renamed.collapse_eq] at same
  subst same
  obtain ⟨last, only, _, _, made⟩ := finish_ok finished
  obtain ⟨twinLast, twinOnly, _, _, twinMade⟩ := finish_ok twinFinished
  cases only.symm.trans twinOnly
  rw [← renamed.parameters, ← renamed.arena_push_eq, ← made] at twinMade
  obtain ⟨arena, root⟩ := Prod.ext_iff.mp twinMade
  refine ⟨twin, twinPlanned, twinBody, arena, root, ?_⟩
  rw [hints_of_planned planned, hints_of_planned twinPlanned, renamed.hints]

/-- A constraint has a counterpart that looks the same where names are not looked at. -/
theorem exists_constraint {α : Type} (view : Constraint → α)
    (nameless : ∀ constraint, view constraint.unnamed = view constraint) {id : ConstraintId}
    {constraint : Constraint} (found : body.constraint? id = some constraint) :
    ∃ twin, other.constraint? id = some twin ∧ view twin = view constraint := by
  have same := renamed.map_constraint? view nameless id
  rw [found] at same
  exact Option.map_eq_some_iff.mp same.symm

omit renamed in
/-- The operator of a step does not depend on names either. -/
theorem operator {plan twin : Plan} (renamed : plan.body.Renamed twin.body)
    (columns : twin.columns = plan.columns) {step : SubPlanId} {operation : Operation}
    {operator : Operator} (operated : plan.operator step operation = .ok operator) :
    twin.operator step operation = .ok operator := by
  have reworded {α : Type} {result : Except LoweringDefect α} {answer : α}
      (found : result.mapError (LoweringDefect.error plan.body) = .ok answer) :
      result.mapError (LoweringDefect.error twin.body) = .ok answer := by
    rw [mapError_ok found]
    rfl
  unfold Plan.operator at operated ⊢
  simp only [columns]
  cases operation with
  | start => exact operated
  | input subjects | trim child kept | project child parameters =>
    dsimp only at operated ⊢
    obtain ⟨places, positioned, same⟩ := ok_of_bind operated
    rw [reworded positioned]
    exact same
  | enumerate c =>
    dsimp only at operated ⊢
    obtain ⟨constraint, found, operated⟩ := ok_of_bind operated
    split at found
    next known =>
      cases found
      obtain ⟨copy, copied, same⟩ := renamed.exists_constraint (·.enumerator c (plan.columns step))
        (Constraint.enumerator_unnamed c _) known
      rw [copied]
      exact reworded (same ▸ operated)
    next => cases found
  | apply child c =>
    dsimp only at operated ⊢
    obtain ⟨constraint, found, operated⟩ := ok_of_bind operated
    split at found
    next known =>
      cases found
      obtain ⟨copy, copied, same⟩ := renamed.exists_constraint (·.selector c (plan.columns child))
        (Constraint.selector_unnamed c _) known
      rw [copied]
      exact reworded (same ▸ operated)
    next => cases found
  | join primary secondary => exact reworded operated

omit renamed in
/-- Steps of plans that differ in names are lowered to the same operators. -/
theorem lower {plan twin : Plan} (renamed : plan.body.Renamed twin.body)
    (arena : twin.arena = plan.arena) {step : SubPlanId} {lowered : Lowered}
    (lowers : plan.lower step = .ok lowered) :
    ∃ copy, twin.lower step = .ok copy ∧ copy.operator = lowered.operator := by
  have operations : twin.operation? = plan.operation? := by
    funext id
    rw [Plan.operation?, Plan.get?, arena, Plan.operation?, Plan.get?]
  have columns : twin.columns = plan.columns := by
    funext id
    rw [Plan.columns, operations, arena, Plan.columns]
  unfold Plan.lower at lowers ⊢
  rw [operations]
  split at lowers
  next operation known =>
    obtain ⟨operator, operated, same⟩ := ok_of_bind lowers
    cases same
    rw [renamed.operator columns operated]
    exact ⟨_, rfl, rfl⟩
  next => cases lowers

end Body.Renamed

end LiveQuery
