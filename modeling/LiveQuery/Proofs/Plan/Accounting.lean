import LiveQuery.Proofs.Plan.Forefronts

/-!
# No constraint is lost

While the planner works, every constraint is enforced by a sub-plan in play or still waits to be
applied, and no constraint that waits is ready on a sub-plan that was accepted (`Balanced`).

What happens to one sub-plan on its way to acceptance `Advances` it: filters that are ready are
applied (`applyFilters_advances`), variables are hidden (`trim_advances`), deferred constraints that
are ready are applied.  Each of these moves constraints from those that wait to those that the
sub-plan enforces, and loses none.  Once a sub-plan is accepted, nothing that waits is ready on it
(`accept_advances`), and since fewer and fewer constraints wait, nothing becomes ready on it later.

Accepting a sub-plan keeps the balance (`Balanced.accept`), and so do the first sub-plans
(`balanced_seed`) and the joins (`balanced_collapse`).
-/

namespace LiveQuery.Forefront

variable {task : PlanningTask} {forefront : Forefront} {plan : SubPlanId}

/-! ## Steps on one sub-plan -/

/-- What a step makes of a forefront and one of its sub-plans: older sub-plans stay, and a
constraint that was enforced or waiting is enforced now or still waits. -/
structure Advances (before after : Forefront × SubPlanId) : Prop where
  grows : ∀ id step, before.1.arena.get? id = some step → after.1.arena.get? id = some step
  there : ∃ step, after.1.arena.get? after.2 = some step
  members : after.1.members = before.1.members
  filters : after.1.filters.Sublist before.1.filters
  deferred : after.1.deferred.Sublist before.1.deferred
  accounted : ∀ place, place ∈ before.1.arena.enforced before.2 ∨ place ∈ before.1.pool →
    place ∈ after.1.arena.enforced after.2 ∨ place ∈ after.1.pool

theorem Advances.refl (there : ∃ step, forefront.arena.get? plan = some step) :
    Advances (forefront, plan) (forefront, plan) :=
  ⟨fun _ _ found => found, there, rfl, .refl _, .refl _, fun _ either => either⟩

theorem Advances.trans {first second third : Forefront × SubPlanId} (early : Advances first second)
    (late : Advances second third) : Advances first third where
  grows id step found := late.grows id step (early.grows id step found)
  there := late.there
  members := late.members.trans early.members
  filters := late.filters.trans early.filters
  deferred := late.deferred.trans early.deferred
  accounted place either := late.accounted place (early.accounted place either)

/-- Applying constraints one after another adds them to what is enforced and hides nothing. -/
theorem applyAll_spec (task : PlanningTask) (ready : List ConstraintId) (forefront : Forefront)
    (plan : SubPlanId) (there : ∃ step, forefront.arena.get? plan = some step) :
    ∃ arena last, ready.foldl (fun (forefront, plan) constraint =>
        push task (.apply plan constraint) forefront) (forefront, plan) =
          ({ forefront with arena }, last) ∧
      (∀ id step, forefront.arena.get? id = some step → arena.get? id = some step) ∧
      (∃ step, arena.get? last = some step) ∧
      (∀ place, place ∈ arena.enforced last ↔
        place ∈ ready ∨ place ∈ forefront.arena.enforced plan) ∧
      arena.visible last = forefront.arena.visible plan := by
  induction ready generalizing forefront plan with
  | nil => exact ⟨_, _, rfl, fun _ _ found => found, there, by simp, rfl⟩
  | cons constraint rest ih =>
    have enforced : _ = (forefront.arena.enforced plan).insert constraint :=
      Arena.enforced_push_new forefront.arena task.body (.apply plan constraint)
    have visible : _ = forefront.arena.visible plan :=
      Arena.visible_push_new forefront.arena task.body (.apply plan constraint)
    obtain ⟨arena, last, folded, grows, found, all, shown⟩ :=
      ih (push task (.apply plan constraint) forefront).1
        (push task (.apply plan constraint) forefront).2
        ⟨_, Arena.get?_push_new forefront.arena task.body (.apply plan constraint)⟩
    refine ⟨arena, last, folded, fun id step before => ?_, found, fun place => ?_,
      shown.trans visible⟩
    · exact grows id step (Arena.get?_push_of_get? before task.body (.apply plan constraint))
    · rw [all place]
      show _ ∨ place ∈ (forefront.arena.push task.body (.apply plan constraint)).1.enforced
        (forefront.arena.push task.body (.apply plan constraint)).2 ↔ _
      rw [enforced, OrderedSet.mem_insert, List.mem_cons]
      grind

/-- All filters that are ready are applied. -/
theorem applyFilters_advances (task : PlanningTask)
    (there : ∃ step, forefront.arena.get? plan = some step) :
    Advances (forefront, plan) (applyFilters task forefront plan) ∧
      ∀ place ∈ (applyFilters task forefront plan).1.filters,
        ¬isReady task (applyFilters task forefront plan).1 (applyFilters task forefront plan).2
          place = true := by
  unfold applyFilters
  rw [List.partition_eq_filter_filter]
  dsimp only
  set ready := forefront.filters.filter (isReady task forefront plan)
  set others := forefront.filters.filter (not ∘ isReady task forefront plan)
  obtain ⟨arena, last, folded, grows, found, enforced, visible⟩ :=
    applyAll_spec task ready { forefront with filters := others } plan there
  rw [folded]
  refine ⟨⟨grows, found, rfl, List.filter_sublist, .refl _, fun place either => ?_⟩, ?_⟩
  · show place ∈ arena.enforced last ∨ place ∈ others ++ forefront.deferred
    rw [enforced, List.mem_append]
    rcases either with before | waiting
    · exact .inl (.inr before)
    · rcases List.mem_append.mp waiting with filter | deferred
      · by_cases now : isReady task forefront plan place = true
        · exact .inl (.inl (List.mem_filter.mpr ⟨filter, now⟩))
        · exact .inr (.inl (List.mem_filter.mpr ⟨filter, by simpa using now⟩))
      · exact .inr (.inr deferred)
  · intro place waiting now
    have unready : isReady task forefront plan place = false := by
      simpa using (List.mem_filter.mp waiting).2
    have same : isReady task forefront plan place = true := by
      rw [isReady_iff] at now ⊢
      intro subject touched
      have shown := now subject touched
      rwa [visible] at shown
    rw [unready] at same
    cases same

theorem trim_advances (task : PlanningTask)
    (there : ∃ step, forefront.arena.get? plan = some step) :
    Advances (forefront, plan) (trim task forefront plan) ∧
      ∀ subject ∈ (trim task forefront plan).1.arena.visible (trim task forefront plan).2,
        subject ∈ forefront.arena.visible plan := by
  unfold trim
  dsimp only
  split
  · set kept := (forefront.arena.visible plan).inter (needed task forefront plan)
    refine ⟨⟨fun id step found => Arena.get?_push_of_get? found _ _,
      ⟨_, Arena.get?_push_new _ _ _⟩, rfl, .refl _, .refl _, fun place either => ?_⟩, ?_⟩
    · have enforced : _ = forefront.arena.enforced plan :=
        Arena.enforced_push_new forefront.arena task.body (.trim plan kept)
      show place ∈ (forefront.arena.push task.body (.trim plan kept)).1.enforced
        (forefront.arena.push task.body (.trim plan kept)).2 ∨ _
      rwa [enforced]
    · intro subject shown
      have visible : _ = kept :=
        Arena.visible_push_new forefront.arena task.body (.trim plan kept)
      change subject ∈ (forefront.arena.push task.body (.trim plan kept)).1.visible
        (forefront.arena.push task.body (.trim plan kept)).2 at shown
      rw [visible] at shown
      exact (OrderedSet.mem_inter.mp shown).1
  · exact ⟨.refl there, fun _ shown => shown⟩

/-- Accepting a sub-plan leaves one on which nothing that waits is ready. -/
theorem accept_advances (task : PlanningTask) (forefront : Forefront) (plan : SubPlanId)
    (there : ∃ step, forefront.arena.get? plan = some step) :
    ∃ after last, accept task forefront plan =
        { after with members := forefront.members.insert last } ∧
      Advances (forefront, plan) (after, last) ∧
      ∀ place ∈ after.pool, ¬isReady task after last place = true := by
  fun_induction accept task forefront plan with
  | case1 forefront plan filtered trimmed none_ =>
    obtain ⟨filter, unready⟩ := applyFilters_advances task there
    obtain ⟨trim, shown⟩ := trim_advances task filter.there
    have advances := filter.trans trim
    refine ⟨trimmed.1, trimmed.2, by rw [← advances.members], advances, fun place waiting now => ?_⟩
    rcases List.mem_append.mp waiting with waiting | waiting
    · -- a filter that is ready now was ready before trimming
      refine unready place (trim.filters.subset waiting) (isReady_iff.mpr fun subject touched => ?_)
      exact shown subject (isReady_iff.mp now subject touched)
    · exact absurd now (List.find?_eq_none.mp none_ place waiting)
  | case2 forefront plan filtered trimmed constraint found applied ih =>
    obtain ⟨filter, _⟩ := applyFilters_advances task there
    obtain ⟨trim, _⟩ := trim_advances task filter.there
    have enforced : _ = (trimmed.1.arena.enforced trimmed.2).insert constraint :=
      Arena.enforced_push_new trimmed.1.arena task.body (.apply trimmed.2 constraint)
    have step : Advances trimmed applied := by
      refine ⟨fun id step there => Arena.get?_push_of_get? there _ _,
        ⟨_, Arena.get?_push_new _ _ _⟩, rfl, .refl _, List.erase_sublist, fun place either => ?_⟩
      show place ∈ (trimmed.1.arena.push task.body (.apply trimmed.2 constraint)).1.enforced
        (trimmed.1.arena.push task.body (.apply trimmed.2 constraint)).2 ∨
          place ∈ trimmed.1.filters ++ trimmed.1.deferred.erase constraint
      rw [enforced, OrderedSet.mem_insert, List.mem_append]
      by_cases same : place = constraint
      · exact .inl (.inl same)
      · rcases either with before | waiting
        · exact .inl (.inr before)
        · rcases List.mem_append.mp waiting with filter | deferred
          · exact .inr (.inl filter)
          · exact .inr (.inr ((List.mem_erase_of_ne same).mpr deferred))
    have advances := (filter.trans trim).trans step
    obtain ⟨after, last, accepted, later, unready⟩ := ih step.there
    refine ⟨after, last, ?_, advances.trans later, unready⟩
    rw [accepted, advances.members]

/-! ## The whole forefront -/

/-- Every constraint is enforced by a sub-plan in play or still waits, those that wait do so in
their order, and none of them is ready on a member.  Some sub-plans are not accepted yet. -/
structure Balanced (task : PlanningTask) (forefront : Forefront) (pending : List SubPlanId) :
    Prop where
  there : ∀ id ∈ pending ++ forefront.members.toList,
    ∃ step, forefront.arena.get? id = some step
  filters : forefront.filters.Sublist task.filters
  deferred : forefront.deferred.Sublist task.deferred
  accounted : ∀ place constraint, task.body.constraint? place = some constraint →
    place ∈ forefront.pool ∨
      ∃ id ∈ pending ++ forefront.members.toList, place ∈ forefront.arena.enforced id
  exhausted : ∀ id ∈ forefront.members, ∀ place ∈ forefront.pool,
    ¬isReady task forefront id place = true

variable {pending : List SubPlanId}

theorem Balanced.accept (balanced : Balanced task forefront (plan :: pending)) :
    Balanced task (accept task forefront plan) pending := by
  obtain ⟨after, last, accepted, advances, unready⟩ :=
    accept_advances task forefront plan (balanced.there plan List.mem_cons_self)
  have pool (place : ConstraintId) (waiting : place ∈ after.pool) : place ∈ forefront.pool := by
    rcases List.mem_append.mp waiting with waiting | waiting
    · exact List.mem_append_left _ (advances.filters.subset waiting)
    · exact List.mem_append_right _ (advances.deferred.subset waiting)
  have old (id : SubPlanId) (listed : id ∈ pending ++ forefront.members.toList) :
      ∃ step, forefront.arena.get? id = some step ∧ after.arena.get? id = some step := by
    obtain ⟨step, found⟩ := balanced.there id (List.mem_cons_of_mem _ listed)
    exact ⟨step, found, advances.grows id step found⟩
  rw [accepted]
  refine ⟨fun id listed => ?_, advances.filters.trans balanced.filters,
    advances.deferred.trans balanced.deferred, fun place constraint known => ?_,
    fun id member place waiting => ?_⟩
  · rcases List.mem_append.mp listed with listed | listed
    · obtain ⟨step, _, found⟩ := old id (List.mem_append_left _ listed)
      exact ⟨step, found⟩
    · rcases OrderedSet.mem_insert.mp listed with rfl | listed
      · exact advances.there
      · obtain ⟨step, _, found⟩ := old id (List.mem_append_right _ listed)
        exact ⟨step, found⟩
  · have here : last ∈ pending ++ (forefront.members.insert last).toList :=
      List.mem_append_right _ (OrderedSet.mem_insert.mpr (.inl rfl))
    rcases balanced.accounted place constraint known with waiting | ⟨id, listed, enforced⟩
    · exact (advances.accounted place (.inr waiting)).elim
        (fun enforced => .inr ⟨last, here, enforced⟩) .inl
    · rcases List.mem_cons.mp listed with rfl | listed
      · exact (advances.accounted place (.inl enforced)).elim
          (fun enforced => .inr ⟨last, here, enforced⟩) .inl
      · -- the other sub-plans are as they were
        obtain ⟨step, found, later⟩ := old id listed
        refine .inr ⟨id, ?_, ?_⟩
        · refine List.mem_append.mpr ((List.mem_append.mp listed).imp_right fun member => ?_)
          exact OrderedSet.mem_insert.mpr (.inr member)
        · rw [Arena.enforced_of_get? found] at enforced
          rw [Arena.enforced_of_get? later]
          exact enforced
  · rcases OrderedSet.mem_insert.mp member with rfl | member
    · exact unready place waiting
    · obtain ⟨step, found, later⟩ := old id (List.mem_append_right _ member)
      have visible : after.arena.visible id = forefront.arena.visible id := by
        rw [Arena.visible_of_get? found, Arena.visible_of_get? later]
      intro now
      refine balanced.exhausted id member place (pool place waiting) (isReady_iff.mpr ?_)
      rw [← visible]
      exact isReady_iff.mp now

theorem Balanced.acceptAll (forefront : Forefront) (plans : List SubPlanId)
    (balanced : Balanced task forefront plans) :
    Balanced task (plans.foldl (Forefront.accept task) forefront) [] := by
  induction plans generalizing forefront with
  | nil => exact balanced
  | cons plan rest ih => exact ih _ balanced.accept

/-! ## The first sub-plans -/

/-- Building the first sub-plans keeps what waits, and enforces what is enumerated. -/
theorem seedAll_spec (task : PlanningTask) (operations : List Operation)
    (state : Forefront × List SubPlanId)
    (there : ∀ id ∈ state.2, ∃ step, state.1.arena.get? id = some step) :
    (operations.foldl (seedStep task) state).1.members = state.1.members ∧
    (operations.foldl (seedStep task) state).1.filters = state.1.filters ∧
    (operations.foldl (seedStep task) state).1.deferred = state.1.deferred ∧
    (∀ id ∈ (operations.foldl (seedStep task) state).2,
      ∃ step, (operations.foldl (seedStep task) state).1.arena.get? id = some step) ∧
    ∀ place, (.enumerate place ∈ operations ∨
        ∃ id ∈ state.2, place ∈ state.1.arena.enforced id) →
      ∃ id ∈ (operations.foldl (seedStep task) state).2,
        place ∈ (operations.foldl (seedStep task) state).1.arena.enforced id := by
  induction operations generalizing state with
  | nil => exact ⟨rfl, rfl, rfl, there, fun place found => found.resolve_left List.not_mem_nil⟩
  | cons operation rest ih =>
    have new : ∀ id ∈ (seedStep task state operation).2,
        ∃ step, (seedStep task state operation).1.arena.get? id = some step := by
      intro id listed
      rcases List.mem_append.mp listed with listed | listed
      · obtain ⟨step, found⟩ := there id listed
        exact ⟨step, Arena.get?_push_of_get? found task.body operation⟩
      · obtain rfl := List.mem_singleton.mp listed
        exact ⟨_, Arena.get?_push_new state.1.arena task.body operation⟩
    obtain ⟨members, filters, deferred, found, enforced⟩ := ih (seedStep task state operation) new
    refine ⟨members, filters, deferred, found, fun place either => enforced place ?_⟩
    rcases either with listed | ⟨id, listed, before⟩
    · rcases List.mem_cons.mp listed with rfl | listed
      · refine .inr ⟨_, List.mem_append_right _ (List.mem_singleton.mpr rfl), ?_⟩
        show place ∈ (state.1.arena.push task.body (.enumerate place)).1.enforced
          (state.1.arena.push task.body (.enumerate place)).2
        rw [Arena.enforced_push_new]
        exact OrderedSet.mem_singleton.mpr rfl
      · exact .inl listed
    · obtain ⟨step, known⟩ := there id listed
      refine .inr ⟨id, List.mem_append_left _ listed, ?_⟩
      show place ∈ (state.1.arena.push task.body operation).1.enforced id
      rwa [Arena.enforced_push known]

theorem mem_seedOperations {place : ConstraintId} (source : place ∈ task.sources) :
    .enumerate place ∈ seedOperations task := by
  have listed : .enumerate place ∈ (if task.inputs.isEmpty then [] else [.input task.inputs]) ++
      task.sources.toList.map Operation.enumerate :=
    List.mem_append_right _ (List.mem_map_of_mem source)
  unfold seedOperations
  dsimp only
  split
  next none_ =>
    rw [none_] at listed
    cases listed
  · exact listed

theorem balanced_seed (task : PlanningTask) : Balanced task (seed task) [] := by
  obtain ⟨members, filters, deferred, there, enforced⟩ := seedAll_spec task
    (seedOperations task) (initial task, []) fun _ nothing => absurd nothing List.not_mem_nil
  set state := (seedOperations task).foldl (seedStep task) (initial task, [])
  have empty : state.1.members.toList = [] := by rw [members]; rfl
  refine Balanced.acceptAll state.1 state.2 ⟨?_, ?_, ?_, ?_, ?_⟩
  · rwa [empty, List.append_nil]
  · rw [filters]
    exact .refl _
  · rw [deferred]
    exact .refl _
  · intro place constraint known
    rw [empty, List.append_nil]
    unfold pool
    rw [filters, deferred]
    -- a constraint is a source, a filter or deferred
    by_cases later : constraint.role = .deferred
    · have waits : place ∈ task.deferred := mem_select.mpr ⟨constraint, known, by simpa using later⟩
      exact .inl (List.mem_append_right _ waits)
    by_cases filter : task.isFilter constraint = true
    · exact .inl (List.mem_append_left _ (mem_select.mpr ⟨constraint, known, filter⟩))
    · refine .inr (enforced place (.inl (mem_seedOperations ?_)))
      refine OrderedSet.mem_ofList.mpr (mem_select.mpr ⟨constraint, known, ?_⟩)
      simp [PlanningTask.isSource, later, filter]
  · intro id member
    have nothing : id ∈ state.1.members.toList := member
    rw [empty] at nothing
    exact absurd nothing List.not_mem_nil

/-! ## Joins -/

theorem Balanced.join (balanced : Balanced task forefront []) (primary secondary : SubPlanId) :
    Balanced task (push task (.join primary secondary)
        { forefront with members := (forefront.members.erase primary).erase secondary }).1
      [(push task (.join primary secondary)
        { forefront with members := (forefront.members.erase primary).erase secondary }).2] := by
  have enforced : _ = (forefront.arena.enforced primary).union
      (forefront.arena.enforced secondary) :=
    Arena.enforced_push_new forefront.arena task.body (.join primary secondary)
  have old (id : SubPlanId) (member : id ∈ (forefront.members.erase primary).erase secondary) :
      id ∈ forefront.members := (OrderedSet.mem_erase.mp (OrderedSet.mem_erase.mp member).1).1
  refine ⟨fun id listed => ?_, balanced.filters, balanced.deferred,
    fun place constraint known => ?_, fun id member place waiting now => ?_⟩
  · rcases List.mem_cons.mp listed with rfl | listed
    · exact ⟨_, Arena.get?_push_new forefront.arena task.body (.join primary secondary)⟩
    · obtain ⟨step, found⟩ := balanced.there id (old id listed)
      exact ⟨step, Arena.get?_push_of_get? found _ _⟩
  · refine (balanced.accounted place constraint known).imp_right ?_
    rintro ⟨id, member, before⟩
    -- what one of the joined sub-plans enforced, the join enforces
    by_cases joined : id = primary ∨ id = secondary
    · refine ⟨_, List.mem_cons_self, ?_⟩
      show place ∈ (forefront.arena.push task.body (.join primary secondary)).1.enforced
        (forefront.arena.push task.body (.join primary secondary)).2
      rw [enforced, OrderedSet.mem_union]
      rcases joined with rfl | rfl
      · exact .inl before
      · exact .inr before
    · rw [not_or] at joined
      obtain ⟨step, found⟩ := balanced.there id member
      refine ⟨id, List.mem_cons_of_mem _ ?_, ?_⟩
      · exact OrderedSet.mem_erase.mpr ⟨OrderedSet.mem_erase.mpr ⟨member, joined.1⟩, joined.2⟩
      · show place ∈ (forefront.arena.push task.body (.join primary secondary)).1.enforced id
        rwa [Arena.enforced_push found]
  · obtain ⟨step, found⟩ := balanced.there id (old id member)
    refine balanced.exhausted id (old id member) place waiting (isReady_iff.mpr ?_)
    have shown := isReady_iff.mp now
    change ∀ subject ∈ task.body.variablesOf place,
      subject ∈ (forefront.arena.push task.body (.join primary secondary)).1.visible id at shown
    rwa [Arena.visible_push found] at shown

theorem balanced_collapse (joins : Nat) (forefront : Forefront)
    (balanced : Balanced task forefront []) : Balanced task (collapse task joins forefront) [] := by
  induction joins generalizing forefront with
  | zero => exact balanced
  | succ joins ih =>
    unfold collapse
    split
    · exact balanced
    next primary secondary _ _ _ _ => exact ih _ (balanced.join primary secondary).accept

end LiveQuery.Forefront
