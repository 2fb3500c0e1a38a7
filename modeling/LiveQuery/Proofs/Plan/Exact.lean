import LiveQuery.Proofs.Plan.Evaluation
import LiveQuery.Proofs.Plan.Forefronts

/-!
# Plans find exactly the matches

`Body.Matches` says which tuples match a body, without any plan: those that the parameters have
under an assignment that satisfies all constraints and gives the supplied values to the adorned
parameters.  A plan finds exactly the matches, whatever the hints are (`Plan.evaluate_planned`).

* The sub-plan that planning leaves enforces all constraints: none is lost on the way, and none
  waits if planning succeeds (`exists_collapsed`).  It makes use of the supplied row if there is one
  (`exists_last`).
* Its rows are those of the assignments that satisfy what it enforces and give the supplied values
  to the inputs.  So the root, which projects them onto the parameters, means the matches of the
  body (`shows_iff_matches`).
* The batch evaluator computes what the root means (`root_sinks`).

Two plans for the same body therefore have the same rows, in the same order, as the answers are
listed in ascending order.
-/

namespace LiveQuery

/-! ## Matches -/

/-- The assignment gives the supplied values to the parameters at the adorned positions. -/
def Body.Supplies (body : Body) (adornment : OrderedSet Nat) (input : Tuple)
    (values : VarId → Value) : Prop :=
  List.Forall₂ (fun position value => ∃ parameter, body.parameters[position]? = some parameter ∧
    values parameter = value) adornment.toList input

/-- The parameters have the values of the tuple under an assignment that satisfies the body. -/
def Body.Matches (checks : Checks) (facts : FactStore) (body : Body) (adornment : OrderedSet Nat)
    (input tuple : Tuple) : Prop :=
  ∃ values : VarId → Value,
    (∀ constraint ∈ body.constraints, constraint.Holds checks facts values) ∧
    body.Supplies adornment input values ∧ tuple = body.parameters.map values

/-! ## The task of the planner -/

theorem Body.nodup_parameters (body : Body) : body.parameters.Nodup := by
  have sound := body.sound
  unfold Draft.defect? at sound
  have none_ := (Option.or_eq_none_iff.mp sound).2
  rw [List.findSome?_eq_none_iff] at none_
  refine List.pairwise_iff_getElem.mpr ?_
  intro early late _ inside before same
  have defect := none_ (body.parameters[late], late)
    (List.mem_zipIdx_iff_getElem?.mpr (List.getElem?_eq_getElem inside))
  have repeated : body.parameters[late] ∈ body.parameters.take late := by
    rw [← same]
    exact List.mem_take_iff_getElem.mpr ⟨early, by omega, rfl⟩
  unfold Draft.parameterDefect? at defect
  dsimp only at defect
  split at defect
  · cases defect
  · rw [if_pos (List.contains_iff_mem.mpr repeated)] at defect
    cases defect

section Inputs

variable {body : Body} {adornment : OrderedSet Nat}

/-- The parameters whose values are supplied. -/
def Body.inputs (body : Body) (adornment : OrderedSet Nat) : List VarId :=
  adornment.toList.filterMap (body.parameters[·]?)

theorem inputs_exported : ∀ subject ∈ body.inputs adornment, subject ∈ body.parameters := by
  intro subject member
  obtain ⟨position, _, found⟩ := List.mem_filterMap.mp member
  exact List.mem_of_getElem? found

theorem nodup_inputs : (body.inputs adornment).Nodup := by
  refine (OrderedSet.nodup_toList adornment).filterMap ?_
  intro first second subject here there
  have inside := (List.getElem?_eq_some_iff.mp here).1
  exact (List.getElem?_inj inside body.nodup_parameters).mp (here.trans there.symm)

theorem supplies_iff (inRange : ∀ position ∈ adornment.toList, position < body.parameters.length)
    {input : Tuple} {values : VarId → Value} :
    body.Supplies adornment input values ↔ (body.inputs adornment).map values = input := by
  unfold Body.Supplies Body.inputs
  generalize adornment.toList = positions at inRange
  induction positions generalizing input with
  | nil => simp [eq_comm]
  | cons position rest ih =>
    have inside := inRange position List.mem_cons_self
    have later := fun other member => inRange other (List.mem_cons_of_mem position member)
    rw [List.filterMap_cons_some (List.getElem?_eq_getElem inside), List.map_cons]
    cases input with
    | nil => simp
    | cons value values' =>
      rw [List.forall₂_cons, ih later, List.getElem?_eq_getElem inside]
      simp

theorem length_inputs (inRange : ∀ position ∈ adornment.toList, position < body.parameters.length) :
    (body.inputs adornment).length = adornment.size := by
  unfold Body.inputs OrderedSet.size
  generalize adornment.toList = positions at inRange
  induction positions with
  | nil => rfl
  | cons position rest ih =>
    have inside := inRange position List.mem_cons_self
    rw [List.filterMap_cons_some (List.getElem?_eq_getElem inside), List.length_cons,
      List.length_cons, ih fun other member => inRange other (List.mem_cons_of_mem _ member)]

end Inputs

/-! ## The finished plan -/

/-- What the planner has made when it succeeds. -/
theorem finish_ok {task : PlanningTask} {forefront : Forefront} {arena : Arena} {root : SubPlanId}
    (finished : forefront.finish task = .ok (arena, root)) :
    ∃ last, forefront.members.toList.head? = some last ∧
      (∀ parameter ∈ task.body.parameters, parameter ∈ forefront.arena.visible last) ∧
      (∀ place ∈ task.body.constraintIds, place ∈ forefront.arena.enforced last) ∧
      (arena, root) = forefront.arena.push task.body (.project last task.body.parameters) := by
  unfold Forefront.finish at finished
  cases head : forefront.members.toList.head? with
  | none => rw [head] at finished; cases finished
  | some last =>
    rw [head] at finished
    dsimp only at finished
    split at finished
    · cases finished
    split at finished
    · cases finished
    next shown =>
      split at finished
      · cases finished
      next enforced =>
        refine ⟨last, rfl, ?_, ?_, (Except.ok.inj finished).symm⟩
        · intro parameter member
          have none_ := Option.eq_none_iff_forall_ne_some.mpr shown
          simpa [OrderedSet.contains] using List.find?_eq_none.mp none_ parameter member
        · intro place member
          have none_ := Option.eq_none_iff_forall_ne_some.mpr enforced
          simpa [OrderedSet.contains] using List.find?_eq_none.mp none_ place member

theorem ofBodyAdorned_ok {hints : Hints} {body : Body} {adornment : OrderedSet Nat} {plan : Plan}
    (planned : Plan.ofBodyAdorned hints body adornment = .ok plan) :
    (∀ position ∈ adornment.toList, position < body.parameters.length) ∧
    plan.verify = .ok () ∧ plan.body = body ∧ plan.adornment = adornment ∧
    ∃ forefront : Forefront,
      forefront = Forefront.collapse ⟨body, hints.merge body.hints, body.inputs adornment⟩
        ((Forefront.seed ⟨body, hints.merge body.hints, body.inputs adornment⟩).members.size - 1)
        (Forefront.seed ⟨body, hints.merge body.hints, body.inputs adornment⟩) ∧
      forefront.finish ⟨body, hints.merge body.hints, body.inputs adornment⟩ =
        .ok (plan.arena, plan.root) := by
  unfold Plan.ofBodyAdorned at planned
  dsimp only at planned
  split at planned
  · cases planned
  next inRange =>
    obtain ⟨⟨arena, root⟩, finished, planned⟩ := ok_of_bind planned
    obtain ⟨_, verified, planned⟩ := ok_of_bind planned
    cases planned
    refine ⟨?_, verified, rfl, rfl, _, rfl, finished⟩
    intro position member
    have none_ := Option.eq_none_iff_forall_ne_some.mpr inRange
    simpa using List.find?_eq_none.mp none_ position member

/-- Planning leaves one sub-plan in play.  It shows every parameter and enforces every constraint,
and the root projects it onto the parameters. -/
theorem exists_collapsed {hints : Hints} {body : Body} {adornment : OrderedSet Nat} {plan : Plan}
    (planned : Plan.ofBodyAdorned hints body adornment = .ok plan) :
    let task : PlanningTask := ⟨body, hints.merge body.hints, body.inputs adornment⟩
    let collapsed := Forefront.collapse task ((Forefront.seed task).members.size - 1)
      (Forefront.seed task)
    ∃ last, collapsed.members.toList = [last] ∧
      Sound task (body.inputs adornment ≠ []) collapsed.arena [last] collapsed.pool ∧
      (∀ parameter ∈ body.parameters, parameter ∈ collapsed.arena.visible last) ∧
      (∀ place ∈ body.constraintIds, place ∈ collapsed.arena.enforced last) ∧
      plan.arena = (collapsed.arena.push body (.project last body.parameters)).1 ∧
      plan.root = (collapsed.arena.push body (.project last body.parameters)).2 := by
  intro task collapsed
  obtain ⟨_, _, _, _, forefront, rfl, finished⟩ := ofBodyAdorned_ok planned
  obtain ⟨seeded, positive⟩ := Forefront.seed_sound task
  obtain ⟨sound, single⟩ := Forefront.collapse_sound inputs_exported
    ((Forefront.seed task).members.size - 1) (Forefront.seed task) seeded (by omega)
  obtain ⟨last, head, shown, enforced, pushed⟩ := finish_ok finished
  obtain ⟨only, listed⟩ := List.length_eq_one_iff.mp single
  rw [listed] at head sound
  cases head
  exact ⟨last, listed, sound, shown, enforced, congrArg Prod.fst pushed, congrArg Prod.snd pushed⟩

theorem exists_sound {hints : Hints} {body : Body} {adornment : OrderedSet Nat} {plan : Plan}
    (planned : Plan.ofBodyAdorned hints body adornment = .ok plan) :
    ∃ (arena : Arena) (last : SubPlanId) (pool : List ConstraintId),
      Sound ⟨body, hints.merge body.hints, body.inputs adornment⟩ (body.inputs adornment ≠ []) arena
        [last] pool ∧
      (∀ parameter ∈ body.parameters, parameter ∈ arena.visible last) ∧
      (∀ place ∈ body.constraintIds, place ∈ arena.enforced last) ∧
      plan.arena = (arena.push body (.project last body.parameters)).1 ∧
      plan.root = (arena.push body (.project last body.parameters)).2 := by
  obtain ⟨last, _, sound, rest⟩ := exists_collapsed planned
  exact ⟨_, last, _, sound, rest⟩

/-- The sub-plan that planning leaves makes use of the supplied row if there is one. -/
theorem exists_last {hints : Hints} {body : Body} {adornment : OrderedSet Nat} {plan : Plan}
    (planned : Plan.ofBodyAdorned hints body adornment = .ok plan) :
    ∃ last supplied,
      plan.arena.get? plan.root =
        some (plan.arena.describe plan.body (.project last body.parameters)) ∧
      last.index < plan.root.index ∧
      Built plan.body (body.inputs adornment) plan.arena supplied last ∧
      (∀ parameter ∈ body.parameters, parameter ∈ plan.arena.visible last) ∧
      (∀ place ∈ body.constraintIds, place ∈ plan.arena.enforced last) ∧
      (body.inputs adornment ≠ [] → supplied) := by
  obtain ⟨before, last, _, sound, shown, enforced, arena, root⟩ := exists_sound planned
  obtain ⟨supplied, member, strongest⟩ :=
    exists_strongest (sound.members last List.mem_cons_self)
  obtain ⟨_, there⟩ := member.built.exists_step
  rw [(ofBodyAdorned_ok planned).2.2.1, arena, root]
  refine ⟨last, supplied, ?_, ?_, ?_, ?_, ?_, ?_⟩
  · exact Arena.get?_push_eq (by simp [Operation.children, there])
  · exact Arena.lt_size there
  · exact member.built.push _
  · rwa [Arena.visible_push there]
  · rwa [Arena.enforced_push there]
  · intro use
    obtain ⟨id, only, uses⟩ := sound.supplied use
    obtain rfl := List.mem_singleton.mp only
    exact strongest uses

theorem root_mem_steps (plan : Plan) : plan.root ∈ plan.steps := by
  unfold Plan.steps
  rw [Arena.postOrder_unfold]
  split <;> simp

/-- The rows that the root means are the matches of the body. -/
theorem shows_iff_matches {checks : Checks} {facts : FactStore} {input : Tuple} {plan : Plan}
    {adornment : OrderedSet Nat} {supplied : Prop}
    (inRange : ∀ position ∈ adornment.toList, position < plan.body.parameters.length)
    (fits : input.length = adornment.size) (columns : plan.columns plan.root = plan.body.parameters)
    (enforced : ∀ place ∈ plan.body.constraintIds, place ∈ plan.arena.enforced plan.root)
    (use : plan.body.inputs adornment ≠ [] → supplied) (row : Tuple) :
    plan.Shows checks facts input (plan.body.inputs adornment) supplied plan.root row ↔
      plan.body.Matches checks facts adornment input row := by
  refine exists_congr ?_
  intro values
  rw [columns, supplies_iff inRange]
  have satisfies : plan.body.Satisfies checks facts (plan.arena.enforced plan.root) values ↔
      ∀ constraint ∈ plan.body.constraints, constraint.Holds checks facts values := by
    constructor
    · intro satisfies constraint member
      obtain ⟨place, inside, rfl⟩ := List.mem_iff_getElem.mp member
      have known : plan.body.constraint? ⟨place⟩ = some plan.body.constraints[place] :=
        List.getElem?_eq_getElem inside
      refine satisfies ⟨place⟩ (enforced _ ?_) _ known
      exact OrderedSet.mem_ofList.mpr (List.mem_map.mpr ⟨_, Body.mem_numbered.mpr known, rfl⟩)
    · intro satisfies place _ constraint known
      exact satisfies constraint (List.mem_of_getElem? known)
  -- without inputs nothing is supplied, and the condition is empty
  have given : (supplied → (plan.body.inputs adornment).map values = input) ↔
      (plan.body.inputs adornment).map values = input := by
    refine ⟨fun given => ?_, fun given _ => given⟩
    by_cases none_ : plan.body.inputs adornment = []
    · have length := length_inputs inRange
      rw [none_, ← fits, List.length_nil] at length
      rw [none_, List.length_eq_zero_iff.mp length.symm]
      rfl
    · exact given (use none_)
  rw [satisfies, given]

section Planned

variable {hints : Hints} {body : Body} {adornment : OrderedSet Nat} {plan : Plan} {checks : Checks}
  {facts : FactStore} {input : Tuple}

/-- The root is lowered in the right way and means the matches of the body. -/
theorem root_sinks (planned : Plan.ofBodyAdorned hints body adornment = .ok plan)
    (fits : input.length = adornment.size) :
    ∃ supplied, Sinks checks facts input plan (body.inputs adornment) supplied plan.root ∧
      ∀ row, plan.Shows checks facts input (body.inputs adornment) supplied plan.root row ↔
        body.Matches checks facts adornment input row := by
  obtain ⟨inRange, _, sameBody, _⟩ := ofBodyAdorned_ok planned
  obtain ⟨last, supplied, found, earlier, built, shown, enforced, use⟩ := exists_last planned
  subst sameBody
  obtain ⟨columns, sinks⟩ := built.sinks_project found earlier shown
  refine ⟨supplied, sinks, fun row => shows_iff_matches inRange fits columns ?_ use row⟩
  rw [Arena.enforced_of_get? found]
  exact enforced

theorem mem_of_evaluate (planned : Plan.ofBodyAdorned hints body adornment = .ok plan)
    (fits : input.length = adornment.size) {found : OrderedSet Tuple}
    (evaluated : plan.evaluate checks facts input = .ok found) (tuple : Tuple) :
    tuple ∈ found ↔ body.Matches checks facts adornment input tuple := by
  obtain ⟨inRange, _⟩ := ofBodyAdorned_ok planned
  have length : input.length = (body.inputs adornment).length := by
    rw [fits, length_inputs inRange]
  obtain ⟨supplied, sinks, meaning⟩ := root_sinks planned fits
  rw [← meaning]
  have yields := yields_of_evaluate (root_mem_steps plan) evaluated
  exact sinks.mem_rows nodup_inputs length yields tuple

theorem exists_evaluate (planned : Plan.ofBodyAdorned hints body adornment = .ok plan)
    (fits : input.length = adornment.size)
    (answer : ∀ id arguments, ∃ accepted, checks id arguments = .ok accepted) :
    ∃ found, plan.evaluate checks facts input = .ok found := by
  obtain ⟨inRange, verified, _, sameAdornment, _⟩ := ofBodyAdorned_ok planned
  have length : input.length = (body.inputs adornment).length := by
    rw [fits, length_inputs inRange]
  obtain ⟨supplied, sinks, _⟩ := root_sinks planned fits
  obtain ⟨results, steps, _⟩ := sinks.evaluates nodup_inputs length answer .empty
  refine ⟨_, evaluate_eq_ok_iff.mpr ⟨?_, ?_, results, steps, rfl⟩⟩
  · unfold Plan.demandSound
    rw [verified]
    rfl
  · rw [fits, sameAdornment]

end Planned

/-- Evaluating a plan finds the matches of the body, each once and in ascending order, whatever
hints the plan was made under.  It only fails when a check fails. -/
theorem Plan.evaluate_planned {hints : Hints} {body : Body} {adornment : OrderedSet Nat}
    {plan : Plan} (planned : Plan.ofBodyAdorned hints body adornment = .ok plan) (checks : Checks)
    (facts : FactStore) {input : Tuple} (fits : input.length = adornment.size) :
    (∀ found, plan.evaluate checks facts input = .ok found →
      found.toList.Pairwise (fun first second => compare first second = .lt) ∧
      ∀ tuple, tuple ∈ found.toList ↔ body.Matches checks facts adornment input tuple) ∧
    ((∀ id arguments, ∃ accepted, checks id arguments = .ok accepted) →
      ∃ found, plan.evaluate checks facts input = .ok found) ∧
    ∀ (otherHints : Hints) (other : Plan),
      Plan.ofBodyAdorned otherHints body adornment = .ok other → ∀ found otherFound,
        plan.evaluate checks facts input = .ok found →
        other.evaluate checks facts input = .ok otherFound → found = otherFound := by
  refine ⟨fun found evaluated => ⟨found.ascending, ?_⟩, exists_evaluate planned fits, ?_⟩
  · exact mem_of_evaluate planned fits evaluated
  · intro otherHints other otherPlanned found otherFound evaluated otherEvaluated
    refine OrderedSet.ext_mem ?_
    intro tuple
    calc
      tuple ∈ found ↔ body.Matches checks facts adornment input tuple :=
        mem_of_evaluate planned fits evaluated tuple
      _ ↔ tuple ∈ otherFound := (mem_of_evaluate otherPlanned fits otherEvaluated tuple).symm

/-- What can be reached from the supplied value, other than the value itself. -/
def others : Body :=
  ⟨⟨"others", 0, ["x", "y"], [.closure ⟨0⟩ ⟨0⟩ ⟨1⟩, .different ⟨0⟩ ⟨1⟩], [⟨0⟩, ⟨1⟩], {}⟩, by decide⟩

/-- Two edges, from the first value to the second and back. -/
def roundTrip : FactStore :=
  ⟨[⟨⟨0⟩, [.bool false, .bool true]⟩, ⟨⟨0⟩, [.bool true, .bool false]⟩]⟩

theorem matches_others :
    others.Matches (fun _ _ => .ok true) roundTrip (.singleton 0) [.bool false]
      [.bool false, .bool true] := by
  have ran : (Plan.ofBodyAdorned {} others (.singleton 0) >>= fun plan =>
      plan.evaluate (fun _ _ => .ok true) roundTrip [.bool false]) =
        .ok (.singleton [.bool false, .bool true]) :=
    of_decide_eq_true (by decide +kernel)
  obtain ⟨plan, planned, evaluated⟩ := ok_of_bind ran
  have exact_ := (Plan.evaluate_planned planned (fun _ _ => .ok true) roundTrip rfl).1 _ evaluated
  exact (exact_.2 _).mp (List.mem_singleton.mpr rfl)

end LiveQuery
