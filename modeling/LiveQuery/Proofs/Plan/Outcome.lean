import Mathlib.Data.List.Find
import LiveQuery.Proofs.Plan.Accounting
import LiveQuery.Proofs.Plan.Exact
import LiveQuery.Proofs.Plan.Verified

/-!
# Which bodies can be planned

The inputs and the constraints that are not deferred bind variables (`Body.bindable`).  Planning
leaves one sub-plan, which depends on exactly these (`Settled.touches_iff`) and hides none of them
that a waiting constraint or a parameter needs.  So the deferred constraints that still wait are
those with a variable that nothing binds (`Settled.mem_deferred_iff`), the parameters that are not
shown are those that nothing binds, and the finished plan is verified.  `Plan.ofBodyAdorned_outcome`
puts this together: planning fails exactly with the obstacles that `Body.obstacle?` names.
-/

namespace LiveQuery

/-! ## Bound variables -/

/-- The variables of the adorned parameters and of the enumerable and constant constraints. -/
def Body.bindable (body : Body) (adornment : OrderedSet Nat) : OrderedSet VarId :=
  .ofList (body.inputs adornment ++
    (body.constraints.filter (·.role ≠ .deferred)).flatMap Constraint.arguments)

/-- The error with which a body cannot be planned: an adorned position without a parameter, else the
first deferred constraint with a variable that is not bound, else the first parameter that is not
bound. -/
def Body.obstacle? (body : Body) (adornment : OrderedSet Nat) : Option Error :=
  ((adornment.toList.find? (body.parameters.length ≤ ·)).map fun position =>
    .invalidBody s!"adornment position {position} of {body.query} is not a parameter").or <|
  ((body.numbered.find? fun (_, constraint) => constraint.role = .deferred &&
      !constraint.subjects.isSubset (body.bindable adornment)).map fun (place, _) =>
    .unsatisfiableDeferred body.query (body.describe place)).or <|
  (body.parameters.find? (!(body.bindable adornment).contains ·)).map fun parameter =>
    .unboundParameter body.query (body.variableName parameter)

theorem Body.mem_bindable {body : Body} {adornment : OrderedSet Nat} {subject : VarId} :
    subject ∈ body.bindable adornment ↔ subject ∈ body.inputs adornment ∨
      ∃ constraint ∈ body.constraints, constraint.role ≠ .deferred ∧
        subject ∈ constraint.arguments := by
  simp [bindable, and_assoc]

/-- Whatever a built step depends on is bound. -/
theorem Built.bindable {body : Body} {adornment : OrderedSet Nat} {arena : Arena} {supplied : Prop}
    {id : SubPlanId} (built : Built body (body.inputs adornment) arena supplied id)
    {subject : VarId} (touched : Touches body (body.inputs adornment) arena supplied id subject) :
    subject ∈ body.bindable adornment := by
  have given (listed : subject ∈ body.inputs adornment) : subject ∈ body.bindable adornment :=
    Body.mem_bindable.mpr (.inl listed)
  rcases touched with ⟨place, enforced, touched⟩ | ⟨_, listed⟩
  swap
  · exact given listed
  induction built generalizing place with
  | start found =>
    rw [Arena.enforced_of_get? found] at enforced
    exact absurd enforced OrderedSet.notMem_empty
  | input found =>
    rw [Arena.enforced_of_get? found] at enforced
    exact absurd enforced OrderedSet.notMem_empty
  | enumerate found known role =>
    rw [Arena.enforced_of_get? found] at enforced
    obtain rfl := OrderedSet.mem_singleton.mp enforced
    exact Body.mem_bindable.mpr (.inr ⟨_, List.mem_of_getElem? known, role,
      (Body.mem_variablesOf known).mp touched⟩)
  | apply found _ below known _ shown ih =>
    rw [Arena.enforced_of_get? found] at enforced
    rcases OrderedSet.mem_insert.mp enforced with rfl | enforced
    · -- the variables of an applied constraint are shown by the child
      rcases below.touches (shown subject ((Body.mem_variablesOf known).mp touched)) with
        ⟨other, before, there⟩ | ⟨_, listed⟩
      · exact ih _ before there
      · exact given listed
    · exact ih _ enforced touched
  | join found _ _ _ _ leftIh rightIh =>
    rw [Arena.enforced_of_get? found] at enforced
    rcases OrderedSet.mem_union.mp enforced with enforced | enforced
    · exact leftIh _ enforced touched
    · exact rightIh _ enforced touched
  | trim found _ _ _ ih =>
    rw [Arena.enforced_of_get? found] at enforced
    exact ih _ enforced touched

/-! ## What planning leaves -/

namespace Forefront

variable {task : PlanningTask} {forefront : Forefront} {last : SubPlanId} {supplied : Prop}
  {place : ConstraintId} {constraint : Constraint} {subject : VarId}

/-- One sub-plan is left.  It makes use of the supplied row if there is one, hides only what nothing
needs, and enforces every constraint that does not wait. -/
structure Settled (task : PlanningTask) (forefront : Forefront) (last : SubPlanId)
    (supplied : Prop) : Prop where
  only : forefront.members.toList = [last]
  member : Member task forefront.arena supplied last
  given : task.inputs ≠ [] → supplied
  waiting : ∀ place ∈ forefront.pool, (∃ constraint, task.body.constraint? place = some constraint ∧
    constraint.role ≠ .enumerable) ∧ place ∉ forefront.arena.enforced last
  balanced : Balanced task forefront []

theorem exists_settled (task : PlanningTask)
    (exported : ∀ subject ∈ task.inputs, subject ∈ task.body.parameters) :
    ∃ last supplied,
      Settled task (collapse task ((seed task).members.size - 1) (seed task)) last supplied := by
  obtain ⟨seeded, positive⟩ := seed_sound task
  obtain ⟨sound, single⟩ :=
    collapse_sound exported ((seed task).members.size - 1) (seed task) seeded (by omega)
  have balanced := balanced_collapse ((seed task).members.size - 1) _ (balanced_seed task)
  obtain ⟨last, only⟩ := List.length_eq_one_iff.mp single
  rw [only] at sound
  obtain ⟨supplied, member, strongest⟩ :=
    exists_strongest (sound.members last List.mem_cons_self)
  refine ⟨last, supplied, only, member, fun use => ?_, fun place waits => ?_, balanced⟩
  · obtain ⟨id, listed, uses⟩ := sound.supplied use
    obtain rfl := List.mem_singleton.mp listed
    exact strongest uses
  · obtain ⟨known, absent⟩ := sound.waiting place waits
    exact ⟨known, absent last List.mem_cons_self⟩

namespace Settled

theorem waiting_or_enforced (settled : Settled task forefront last supplied)
    (known : task.body.constraint? place = some constraint) :
    place ∈ forefront.pool ∨ place ∈ forefront.arena.enforced last := by
  refine (settled.balanced.accounted place constraint known).imp_right ?_
  rintro ⟨id, listed, enforced⟩
  rw [List.nil_append, settled.only] at listed
  obtain rfl := List.mem_singleton.mp listed
  exact enforced

theorem visible_of_touches (settled : Settled task forefront last supplied)
    (touched : Touches task.body task.inputs forefront.arena supplied last subject)
    (needed : subject ∈ task.body.parameters ∨
      ∃ place ∈ forefront.pool, subject ∈ task.body.variablesOf place) :
    subject ∈ forefront.arena.visible last := by
  by_contra invisible
  obtain ⟨unexported, unneeded⟩ := settled.member.hidden subject touched invisible
  rcases needed with parameter | ⟨place, waits, needed⟩
  · exact unexported parameter
  · exact unneeded place (settled.waiting place waits).2 needed

/-- A constraint that still waits has a variable that the last sub-plan does not depend on. -/
theorem untouched (settled : Settled task forefront last supplied)
    (waits : place ∈ forefront.pool) : ∃ subject ∈ task.body.variablesOf place,
      ¬Touches task.body task.inputs forefront.arena supplied last subject := by
  by_contra none_
  have member : last ∈ forefront.members := by
    show last ∈ forefront.members.toList
    rw [settled.only]
    exact List.mem_cons_self
  refine settled.balanced.exhausted last member place waits ?_
  refine isReady_iff.mpr fun subject needed => ?_
  have touched : Touches task.body task.inputs forefront.arena supplied last subject :=
    by_contra fun free => none_ ⟨subject, needed, free⟩
  exact settled.visible_of_touches touched (.inr ⟨place, waits, needed⟩)

theorem touches_of_enforced (task : PlanningTask)
    (known : task.body.constraint? place = some constraint)
    (enforced : place ∈ forefront.arena.enforced last) (argument : subject ∈ constraint.arguments) :
    Touches task.body task.inputs forefront.arena supplied last subject :=
  .inl ⟨place, enforced, (Body.mem_variablesOf known).mpr argument⟩

theorem touches_of_input (settled : Settled task forefront last supplied)
    (listed : subject ∈ task.inputs) :
    Touches task.body task.inputs forefront.arena supplied last subject :=
  .inr ⟨settled.given (List.ne_nil_of_mem listed), listed⟩

end Settled

theorem mem_covered : subject ∈ task.covered ↔ subject ∈ task.inputs ∨
    ∃ constraint ∈ task.body.constraints, constraint.role = .enumerable ∧
      subject ∈ constraint.arguments := by
  have all (constraints : List Constraint) (known : OrderedSet VarId) :
      subject ∈ constraints.foldl (fun known constraint =>
        if constraint.role = .enumerable then known.union constraint.subjects else known) known ↔
      subject ∈ known ∨ ∃ constraint ∈ constraints, constraint.role = .enumerable ∧
        subject ∈ constraint.arguments := by
    induction constraints generalizing known with
    | nil => simp
    | cons constraint rest ih =>
      rw [List.foldl_cons, ih]
      by_cases role : constraint.role = .enumerable
      · rw [if_pos role, OrderedSet.mem_union, Constraint.mem_subjects]
        simp [role, or_assoc]
      · simp [role]
  refine (all task.body.constraints (.ofList task.inputs)).trans ?_
  rw [OrderedSet.mem_ofList]

namespace Settled

/-- The last sub-plan depends on everything that inputs and enumerable constraints bind, since
enumerable constraints never wait. -/
theorem touches_of_covered (settled : Settled task forefront last supplied)
    (covered : subject ∈ task.covered) :
    Touches task.body task.inputs forefront.arena supplied last subject := by
  rcases mem_covered.mp covered with listed | ⟨constraint, member, role, argument⟩
  · exact settled.touches_of_input listed
  · obtain ⟨index, inside, here⟩ := List.mem_iff_getElem.mp member
    have known : task.body.constraint? ⟨index⟩ = some constraint := by
      rw [← here]
      exact List.getElem?_eq_getElem inside
    rcases settled.waiting_or_enforced known with waits | enforced
    · obtain ⟨⟨other, same, other_⟩, _⟩ := settled.waiting _ waits
      rw [known] at same
      cases same
      exact absurd role other_
    · exact touches_of_enforced task known enforced argument

theorem filters_eq (settled : Settled task forefront last supplied) : forefront.filters = [] := by
  refine List.eq_nil_iff_forall_not_mem.mpr fun place listed => ?_
  obtain ⟨constraint, known, filters⟩ := mem_select.mp (settled.balanced.filters.subset listed)
  obtain ⟨subject, needed, free⟩ := settled.untouched (List.mem_append_left _ listed)
  rw [Body.mem_variablesOf known] at needed
  unfold PlanningTask.isFilter at filters
  split at filters
  next target value =>
    obtain rfl := List.mem_singleton.mp needed
    simp only [Bool.and_eq_true, OrderedSet.contains, decide_eq_true_eq] at filters
    exact free (settled.touches_of_covered filters.2)
  · cases filters

theorem enforced_of_role (settled : Settled task forefront last supplied)
    (known : task.body.constraint? place = some constraint) (role : constraint.role ≠ .deferred) :
    place ∈ forefront.arena.enforced last := by
  refine (settled.waiting_or_enforced known).resolve_left fun waits => ?_
  unfold pool at waits
  rw [settled.filters_eq, List.nil_append] at waits
  obtain ⟨other, same, deferred⟩ := mem_select.mp (settled.balanced.deferred.subset waits)
  rw [known] at same
  cases same
  exact role (of_decide_eq_true deferred)

end Settled

theorem ascending_select (test : Constraint → Bool) :
    (task.select test).Pairwise fun first second => compare first second = .lt := by
  have numbers : (task.body.numbered.map Prod.fst).Pairwise fun first second =>
      compare first second = .lt := by
    unfold Body.numbered
    refine List.pairwise_iff_getElem.mpr fun early late _ _ before => ?_
    simp only [List.getElem_map, List.getElem_zipIdx, Nat.zero_add]
    exact Nat.compare_eq_lt.mpr before
  exact numbers.sublist ((List.filter_sublist).map _)

variable {hints : Hints} {body : Body} {adornment : OrderedSet Nat}

namespace Settled

variable (settled : Settled ⟨body, hints, body.inputs adornment⟩ forefront last supplied)
include settled

theorem touches_iff : Touches body (body.inputs adornment) forefront.arena supplied last subject ↔
    subject ∈ body.bindable adornment := by
  refine ⟨settled.member.built.bindable, fun bound => ?_⟩
  rcases Body.mem_bindable.mp bound with listed | ⟨constraint, member, role, argument⟩
  · exact settled.touches_of_input listed
  · obtain ⟨index, inside, here⟩ := List.mem_iff_getElem.mp member
    have known : body.constraint? ⟨index⟩ = some constraint := by
      rw [← here]
      exact List.getElem?_eq_getElem inside
    exact touches_of_enforced ⟨body, hints, body.inputs adornment⟩ known
      (settled.enforced_of_role known role) argument

theorem mem_deferred_iff : place ∈ forefront.deferred ↔
    place ∈ (⟨body, hints, body.inputs adornment⟩ : PlanningTask).deferred ∧
      (body.variablesOf place).isSubset (body.bindable adornment) = false := by
  rw [← Bool.not_eq_true, OrderedSet.isSubset_iff]
  constructor
  · intro waits
    refine ⟨settled.balanced.deferred.subset waits, fun bound => ?_⟩
    obtain ⟨subject, needed, free⟩ := settled.untouched (List.mem_append_right _ waits)
    exact free (settled.touches_iff.mpr (bound subject needed))
  · rintro ⟨listed, free⟩
    obtain ⟨constraint, known, _⟩ := mem_select.mp listed
    rcases settled.waiting_or_enforced known with waits | enforced
    · unfold pool at waits
      rwa [settled.filters_eq, List.nil_append] at waits
    · refine absurd (fun subject needed => settled.touches_iff.mp ?_) free
      exact touches_of_enforced ⟨body, hints, body.inputs adornment⟩ known enforced
        ((Body.mem_variablesOf known).mp needed)

/-- The first deferred constraint that waits is the first one with a variable that is not bound. -/
theorem head?_deferred : forefront.deferred.head? =
    (body.numbered.find? fun (_, constraint) => constraint.role = .deferred &&
      !constraint.subjects.isSubset (body.bindable adornment)).map Prod.fst := by
  have same : forefront.deferred =
      (⟨body, hints, body.inputs adornment⟩ : PlanningTask).deferred.filter fun place =>
        !(body.variablesOf place).isSubset (body.bindable adornment) := by
    refine OrderedSet.eq_of_ascending ((ascending_select _).sublist settled.balanced.deferred)
      ((ascending_select _).sublist List.filter_sublist) fun place => ?_
    rw [settled.mem_deferred_iff, List.mem_filter, Bool.not_eq_true']
  rw [same, List.head?_filter]
  unfold PlanningTask.deferred PlanningTask.select
  rw [List.find?_map, List.find?_filter]
  congr 1
  refine List.find?_congr fun (place, constraint) member => ?_
  have shown : body.variablesOf place = constraint.subjects := by
    unfold Body.variablesOf
    rw [Body.mem_numbered.mp member]
    rfl
  simp [shown]

theorem visible_iff (parameter : subject ∈ body.parameters) :
    subject ∈ forefront.arena.visible last ↔ subject ∈ body.bindable adornment := by
  rw [← settled.touches_iff]
  exact ⟨settled.member.built.touches, fun touched =>
    settled.visible_of_touches touched (.inl parameter)⟩

/-- Finishing fails with the obstacles of the body, and projects the last sub-plan otherwise. -/
theorem finish_eq : forefront.finish ⟨body, hints, body.inputs adornment⟩ =
    match ((body.numbered.find? fun (_, constraint) => constraint.role = .deferred &&
        !constraint.subjects.isSubset (body.bindable adornment)).map fun (place, _) =>
          Error.unsatisfiableDeferred body.query (body.describe place)).or
      ((body.parameters.find? (!(body.bindable adornment).contains ·)).map fun parameter =>
        .unboundParameter body.query (body.variableName parameter)) with
    | some error => .error error
    | none => .ok (forefront.arena.push body (.project last body.parameters)) := by
  have parameters : body.parameters.find? (!(forefront.arena.visible last).contains ·) =
      body.parameters.find? (!(body.bindable adornment).contains ·) := by
    refine List.find?_congr fun parameter member => ?_
    simp [OrderedSet.contains, settled.visible_iff member]
  have head := settled.head?_deferred
  unfold finish
  rw [settled.only]
  simp only [List.head?_cons, parameters]
  cases unsatisfied : body.numbered.find? fun (_, constraint) => constraint.role = .deferred &&
      !constraint.subjects.isSubset (body.bindable adornment) with
  | some entry =>
    rw [unsatisfied] at head
    rw [head]
    rfl
  | none =>
    rw [unsatisfied] at head
    rw [head]
    cases unbound : body.parameters.find? (!(body.bindable adornment).contains ·) with
    | some parameter => rfl
    | none =>
      -- nothing waits any more, so everything is enforced
      have nothing : forefront.pool = [] := by
        unfold pool
        rw [settled.filters_eq, List.head?_eq_none_iff.mp head, List.nil_append]
      have enforced : body.constraintIds.toList.find?
          (!(forefront.arena.enforced last).contains ·) = none := by
        refine List.find?_eq_none.mpr fun place member => ?_
        obtain ⟨⟨_, constraint⟩, listed, rfl⟩ :=
          List.mem_map.mp (OrderedSet.mem_ofList.mp member)
        have either := settled.waiting_or_enforced (Body.mem_numbered.mp listed)
        rw [nothing] at either
        simpa [OrderedSet.contains] using either
      simp only [enforced]
      rfl

end Settled
end Forefront

/-! ## The outcome -/

section Outcome

variable (hints : Hints) (body : Body) (adornment : OrderedSet Nat)

/-- With adorned positions in range, the plan is that of the finished arena, once it is verified. -/
theorem ofBodyAdorned_eq
    (inRange : adornment.toList.find? (body.parameters.length ≤ ·) = none) :
    Plan.ofBodyAdorned hints body adornment =
      ((Forefront.collapse ⟨body, hints.merge body.hints, body.inputs adornment⟩
        ((Forefront.seed ⟨body, hints.merge body.hints, body.inputs adornment⟩).members.size - 1)
        (Forefront.seed ⟨body, hints.merge body.hints, body.inputs adornment⟩)).finish
          ⟨body, hints.merge body.hints, body.inputs adornment⟩ >>= fun (arena, root) =>
        Plan.verify ⟨body, arena, root, adornment, hints.merge body.hints⟩ >>= fun _ =>
          .ok ⟨body, arena, root, adornment, hints.merge body.hints⟩) := by
  unfold Plan.ofBodyAdorned
  dsimp only
  rw [inRange]
  rfl

theorem ofBodyAdorned_obstacle {error : Error} (obstacle : body.obstacle? adornment = some error) :
    Plan.ofBodyAdorned hints body adornment = .error error := by
  unfold Body.obstacle? at obstacle
  cases position : adornment.toList.find? (body.parameters.length ≤ ·) with
  | some place =>
    rw [position] at obstacle
    unfold Plan.ofBodyAdorned
    dsimp only
    rw [position]
    exact congrArg Except.error (Option.some.inj obstacle)
  | none =>
    rw [position, Option.map_none, Option.none_or] at obstacle
    obtain ⟨last, supplied, settled⟩ := Forefront.exists_settled
      ⟨body, hints.merge body.hints, body.inputs adornment⟩ inputs_exported
    have finished := settled.finish_eq
    rw [obstacle] at finished
    rw [ofBodyAdorned_eq hints body adornment position, finished]
    rfl

/-- Without obstacles planning succeeds, since the projection of the last sub-plan is verified. -/
theorem exists_ofBodyAdorned (obstacle : body.obstacle? adornment = none) :
    ∃ plan, Plan.ofBodyAdorned hints body adornment = .ok plan := by
  unfold Body.obstacle? at obstacle
  obtain ⟨inRange, obstacle⟩ := Option.or_eq_none_iff.mp obstacle
  rw [Option.map_eq_none_iff] at inRange
  obtain ⟨last, supplied, settled⟩ := Forefront.exists_settled
    ⟨body, hints.merge body.hints, body.inputs adornment⟩ inputs_exported
  have finished := settled.finish_eq
  rw [obstacle] at finished
  rw [ofBodyAdorned_eq hints body adornment inRange, finished]
  generalize Forefront.collapse _ _ _ = forefront at settled
  obtain ⟨_, there⟩ := settled.member.built.exists_step
  have shown : ∀ parameter ∈ body.parameters, parameter ∈ forefront.arena.visible last := by
    intro parameter member
    have unbound := Option.map_eq_none_iff.mp (Option.or_eq_none_iff.mp obstacle).2
    rw [settled.visible_iff member]
    simpa [OrderedSet.contains] using List.find?_eq_none.mp unbound parameter member
  let plan : Plan :=
    ⟨body, (forefront.arena.push body (.project last body.parameters)).1,
      (forefront.arena.push body (.project last body.parameters)).2, adornment,
      hints.merge body.hints⟩
  have verified : plan.verify = .ok () := by
    refine Plan.verify_of_built
      (Arena.get?_push_eq (by simp [Operation.children, there])) (Arena.lt_size there)
      inputs_exported (settled.member.built.push _) ?_
    show ∀ parameter ∈ body.parameters, parameter ∈
      (forefront.arena.push body (.project last body.parameters)).1.visible last
    rwa [Arena.visible_push there]
  refine ⟨plan, ?_⟩
  show (plan.verify >>= fun _ => Except.ok plan) = .ok plan
  rw [verified]
  rfl

/-- Planning fails exactly with the obstacles of the body, and so never because of a plan that it
made itself. -/
theorem Plan.ofBodyAdorned_outcome :
    (∀ error, Plan.ofBodyAdorned hints body adornment = .error error ↔
      body.obstacle? adornment = some error) ∧
    ((∃ plan, Plan.ofBodyAdorned hints body adornment = .ok plan) ↔
      body.obstacle? adornment = none) ∧
    ∀ error, Plan.ofBodyAdorned hints body adornment = .error error →
      (∃ detail, error = .invalidBody detail) ∨
      (∃ place, error = .unsatisfiableDeferred body.query (body.describe place)) ∨
      ∃ parameter ∈ body.parameters,
        error = .unboundParameter body.query (body.variableName parameter) := by
  have fails (error : Error) : Plan.ofBodyAdorned hints body adornment = .error error ↔
      body.obstacle? adornment = some error := by
    refine ⟨fun failed => ?_, ofBodyAdorned_obstacle hints body adornment⟩
    cases obstacle : body.obstacle? adornment with
    | none =>
      obtain ⟨plan, planned⟩ := exists_ofBodyAdorned hints body adornment obstacle
      rw [failed] at planned
      cases planned
    | some other =>
      rw [ofBodyAdorned_obstacle hints body adornment obstacle] at failed
      exact congrArg some (Except.error.inj failed)
  refine ⟨fails, ⟨fun planned => ?_, exists_ofBodyAdorned hints body adornment⟩,
    fun error failed => ?_⟩
  · obtain ⟨plan, planned⟩ := planned
    refine Option.eq_none_iff_forall_ne_some.mpr fun error obstacle => ?_
    rw [(fails error).mpr obstacle] at planned
    cases planned
  · have obstacle := (fails error).mp failed
    unfold Body.obstacle? at obstacle
    rcases Option.or_eq_some_iff.mp obstacle with found | ⟨_, obstacle⟩
    · obtain ⟨position, _, rfl⟩ := Option.map_eq_some_iff.mp found
      exact .inl ⟨_, rfl⟩
    · rcases Option.or_eq_some_iff.mp obstacle with found | ⟨_, found⟩
      · obtain ⟨⟨place, _⟩, _, rfl⟩ := Option.map_eq_some_iff.mp found
        exact .inr (.inl ⟨place, rfl⟩)
      · obtain ⟨parameter, unbound, rfl⟩ := Option.map_eq_some_iff.mp found
        exact .inr (.inr ⟨parameter, List.mem_of_find?_eq_some unbound, rfl⟩)

end Outcome

end LiveQuery
