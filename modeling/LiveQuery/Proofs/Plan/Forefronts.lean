import LiveQuery.Proofs.Plan.Members

/-!
# What the planner does with a forefront

Every operation of the planner keeps the sub-plans in play `Sound`: filters (`applyFilters_sound`),
trimming (`trim_sound`), accepting a sub-plan (`accept_sound`), the first sub-plans (`seed_sound`)
and the joins (`collapse_sound`).

Each of them makes one new step out of sub-plans that leave the forefront.  `Sound.push` says what
has to be shown of such a step: that it is built in the right way, that it hides no variable which a
parameter or another constraint needs, and that what it enforces was enforced by the sub-plans it is
made of or waited until then.

* The first sub-plans enforce what they enumerate, which is never waited for
  (`source_notMem_pool`).
* A filter or a deferred constraint is applied when all its variables are shown (`applyAll_sound`).
* A trim hides what is not needed (`mem_needed`).
* A join takes the best pair of candidates, and as long as there are two sub-plans there is one
  (`exists_best`).  So the joins leave exactly one sub-plan, and it makes use of the supplied row if
  there is one.
-/

namespace LiveQuery

theorem Body.mem_numbered {body : Body} {place : ConstraintId} {constraint : Constraint} :
    (place, constraint) ∈ body.numbered ↔ body.constraint? place = some constraint := by
  unfold Body.numbered Body.constraint?
  rw [List.mem_map]
  constructor
  · intro found
    obtain ⟨⟨_, index⟩, listed, same⟩ := found
    cases same
    exact List.mem_zipIdx_iff_getElem?.mp listed
  · intro found
    exact ⟨(constraint, place.index), List.mem_zipIdx_iff_getElem?.mpr found, rfl⟩

namespace Forefront

variable {task : PlanningTask} {given : Prop} {live : List SubPlanId} {waiting : List ConstraintId}

/-- The constraints that no sub-plan applies yet. -/
def pool (forefront : Forefront) : List ConstraintId := forefront.filters ++ forefront.deferred

/-! ## Filters -/

theorem isReady_iff {forefront : Forefront} {plan : SubPlanId} {constraint : ConstraintId} :
    isReady task forefront plan constraint = true ↔
      ∀ subject ∈ task.body.variablesOf constraint, subject ∈ forefront.arena.visible plan := by
  simp [isReady, OrderedSet.isSubset, OrderedSet.contains, OrderedSet.mem_toList]

/-- Applying constraints one after another where all their variables are shown. -/
theorem applyAll_sound (ready : List ConstraintId) (forefront : Forefront) (plan : SubPlanId)
    (sound : Sound task given forefront.arena (plan :: live) (ready ++ waiting))
    (shown : ∀ constraint ∈ ready, isReady task forefront plan constraint = true) :
    ∃ arena last, ready.foldl (fun (forefront, plan) constraint =>
        push task (.apply plan constraint) forefront) (forefront, plan) =
          ({ forefront with arena }, last) ∧ Sound task given arena (last :: live) waiting := by
  induction ready generalizing forefront plan with
  | nil => exact ⟨_, _, rfl, sound⟩
  | cons constraint rest ih =>
    have applied := sound.apply (isReady_iff.mp (shown constraint List.mem_cons_self))
    have visible : _ = forefront.arena.visible plan :=
      Arena.visible_push_new forefront.arena task.body (.apply plan constraint)
    -- the new sub-plan shows what the old one showed
    refine ih (push task (.apply plan constraint) forefront).1 _ applied ?_
    intro other member
    rw [isReady_iff]
    intro subject touched
    show subject ∈ (forefront.arena.push task.body (.apply plan constraint)).1.visible
      (forefront.arena.push task.body (.apply plan constraint)).2
    rw [visible]
    exact isReady_iff.mp (shown other (List.mem_cons_of_mem _ member)) subject touched

/-- What is known of a forefront and a sub-plan after a step that keeps the members. -/
structure Keeps (task : PlanningTask) (given : Prop) (live : List SubPlanId) (before : Forefront)
    (result : Forefront × SubPlanId) : Prop where
  sound : Sound task given result.1.arena (result.2 :: live) result.1.pool
  members : result.1.members = before.members
  deferred : result.1.deferred = before.deferred

theorem applyFilters_sound {forefront : Forefront} {plan : SubPlanId}
    (sound : Sound task given forefront.arena (plan :: live) forefront.pool) :
    Keeps task given live forefront (applyFilters task forefront plan) := by
  unfold applyFilters
  rw [List.partition_eq_filter_filter]
  dsimp only
  -- the filters that are ready are applied, the others stay in the pool
  set ready := forefront.filters.filter (isReady task forefront plan)
  set others := forefront.filters.filter (not ∘ isReady task forefront plan)
  have parts : (ready ++ others).Perm forefront.filters := List.filter_append_perm _ _
  have whole : Sound task given forefront.arena (plan :: live)
      (ready ++ (others ++ forefront.deferred)) := by
    refine sound.perm (.refl _) ?_
    rw [← List.append_assoc]
    exact (parts.append_right _).symm
  obtain ⟨arena, last, folded, applied⟩ := applyAll_sound ready
    { forefront with filters := others } plan whole fun constraint member =>
      (List.mem_filter.mp member).2
  rw [folded]
  exact ⟨applied, rfl, rfl⟩

/-! ## Trimming -/

theorem mem_needed {forefront : Forefront} {plan : SubPlanId} {subject : VarId} :
    subject ∈ needed task forefront plan ↔ subject ∈ task.body.parameters ∨
      ∃ place constraint, task.body.constraint? place = some constraint ∧
        place ∉ forefront.arena.enforced plan ∧ subject ∈ constraint.arguments := by
  have all (entries : List (ConstraintId × Constraint)) (known : OrderedSet VarId) :
      subject ∈ entries.foldl (fun known entry =>
        if (forefront.arena.enforced plan).contains entry.1 then known
        else known.union entry.2.subjects) known ↔
      subject ∈ known ∨ ∃ place constraint, (place, constraint) ∈ entries ∧
        place ∉ forefront.arena.enforced plan ∧ subject ∈ constraint.arguments := by
    induction entries generalizing known with
    | nil => simp
    | cons entry rest ih =>
      obtain ⟨place, constraint⟩ := entry
      rw [List.foldl_cons, ih]
      dsimp only
      by_cases enforced : place ∈ forefront.arena.enforced plan
      · rw [if_pos (by simpa [OrderedSet.contains] using enforced)]
        simp only [List.mem_cons, Prod.mk.injEq]
        grind
      · rw [if_neg (by simpa [OrderedSet.contains] using enforced), OrderedSet.mem_union,
          Constraint.mem_subjects]
        simp only [List.mem_cons, Prod.mk.injEq]
        grind
  refine (all task.body.numbered (.ofList task.body.parameters)).trans ?_
  rw [OrderedSet.mem_ofList]
  simp only [Body.mem_numbered]

theorem trim_sound {forefront : Forefront} {plan : SubPlanId}
    (sound : Sound task given forefront.arena (plan :: live) forefront.pool) :
    Keeps task given live forefront (trim task forefront plan) := by
  unfold trim
  dsimp only
  split
  · refine ⟨sound.trim ?_ ?_, rfl, rfl⟩
    · intro subject kept
      exact (OrderedSet.mem_inter.mp kept).1
    · intro subject shown hidden
      have unneeded : subject ∉ needed task forefront plan :=
        fun need => hidden (OrderedSet.mem_inter.mpr ⟨shown, need⟩)
      rw [mem_needed, not_or] at unneeded
      refine ⟨unneeded.1, ?_⟩
      intro place absent touched
      unfold Body.variablesOf at touched
      cases known : task.body.constraint? place with
      | none =>
        rw [known] at touched
        exact OrderedSet.notMem_empty touched
      | some constraint =>
        rw [known] at touched
        exact unneeded.2 ⟨place, constraint, known, absent, Constraint.mem_subjects.mp touched⟩
  · exact ⟨sound, rfl, rfl⟩

/-! ## Accepting -/

/-- Accepting a sub-plan makes it, or one made from it, a member. -/
theorem accept_sound (forefront : Forefront) (plan : SubPlanId)
    (sound : Sound task given forefront.arena (plan :: (live ++ forefront.members.toList))
      forefront.pool) :
    Sound task given (accept task forefront plan).arena
        (live ++ (accept task forefront plan).members.toList) (accept task forefront plan).pool ∧
      (accept task forefront plan).members.size = forefront.members.size + 1 := by
  fun_induction accept task forefront plan with
  | case1 forefront plan filtered trimmed _ =>
    have filter := applyFilters_sound sound
    have trim := trim_sound filter.sound
    have members : trimmed.1.members = forefront.members := trim.members.trans filter.members
    have fresh : trimmed.2 ∉ forefront.members := fun member =>
      (List.nodup_cons.mp trim.sound.distinct).1 (List.mem_append_right _ member)
    have inserted := OrderedSet.perm_toList_insert fresh
    dsimp only
    rw [members]
    refine ⟨trim.sound.perm ?_ (.refl _), ?_⟩
    · calc
        (trimmed.2 :: (live ++ forefront.members.toList)).Perm
            (live ++ trimmed.2 :: forefront.members.toList) := List.perm_middle.symm
        List.Perm _ (live ++ (forefront.members.insert trimmed.2).toList) :=
          inserted.symm.append_left _
    · exact inserted.length_eq
  | case2 forefront plan filtered trimmed constraint found applied ih =>
    have filter := applyFilters_sound sound
    have trim := trim_sound filter.sound
    have members : applied.1.members = forefront.members := trim.members.trans filter.members
    have present : constraint ∈ trimmed.1.deferred := List.mem_of_find?_eq_some found
    have parts : trimmed.1.pool.Perm
        (constraint :: (trimmed.1.filters ++ trimmed.1.deferred.erase constraint)) := by
      calc
        (trimmed.1.filters ++ trimmed.1.deferred).Perm
            (trimmed.1.filters ++ constraint :: trimmed.1.deferred.erase constraint) :=
          (List.perm_cons_erase present).append_left _
        List.Perm _ (constraint :: (trimmed.1.filters ++ trimmed.1.deferred.erase constraint)) :=
          List.perm_middle
    -- the constraint that is applied leaves the pool
    have step := (trim.sound.perm (.refl _) parts).apply
      (isReady_iff.mp (by simpa using List.find?_some found))
    rw [← members] at step
    obtain ⟨accepted, size⟩ := ih step
    exact ⟨accepted, size.trans (by rw [members])⟩

/-! ## The first sub-plans -/

theorem mem_select {test : Constraint → Bool} {place : ConstraintId} :
    place ∈ task.select test ↔
      ∃ constraint, task.body.constraint? place = some constraint ∧ test constraint = true := by
  simp only [PlanningTask.select, List.mem_map, List.mem_filter, Prod.exists, Body.mem_numbered]
  constructor
  · intro found
    obtain ⟨_, constraint, ⟨known, passes⟩, rfl⟩ := found
    exact ⟨constraint, known, passes⟩
  · intro found
    obtain ⟨constraint, known, passes⟩ := found
    exact ⟨place, constraint, ⟨known, passes⟩, rfl⟩

theorem nodup_select (test : Constraint → Bool) : (task.select test).Nodup := by
  have numbers : (task.body.numbered.map Prod.fst).Nodup := by
    unfold Body.numbered
    rw [List.map_map]
    refine List.Nodup.of_map Id.index ?_
    rw [List.map_map]
    show (task.body.constraints.zipIdx.map Prod.snd).Nodup
    rw [List.zipIdx_map_snd]
    exact List.nodup_range'
  exact numbers.sublist ((List.filter_sublist).map _)

theorem isFilter_role {constraint : Constraint} (filters : task.isFilter constraint = true) :
    constraint.role = .constant := by
  unfold PlanningTask.isFilter at filters
  split at filters
  · rfl
  · cases filters

theorem source_notMem_pool {place : ConstraintId} {constraint : Constraint}
    (known : task.body.constraint? place = some constraint)
    (source : task.isSource constraint = true) : place ∉ task.filters ++ task.deferred := by
  simp only [PlanningTask.isSource, Bool.and_eq_true, decide_eq_true_eq,
    Bool.not_eq_true'] at source
  intro member
  rcases List.mem_append.mp member with member | member
  · obtain ⟨other, same, filters⟩ := mem_select.mp member
    rw [known] at same
    cases same
    rw [source.2] at filters
    cases filters
  · obtain ⟨other, same, role⟩ := mem_select.mp member
    rw [known] at same
    cases same
    exact source.1 (of_decide_eq_true role)

theorem initial_sound (task : PlanningTask) :
    Sound task False Arena.empty [] (task.filters ++ task.deferred) where
  members _ member := absurd member List.not_mem_nil
  supplied use := use.elim
  distinct := .nil
  trees := .nil
  introduced _ member := absurd member List.not_mem_nil
  apart := .nil
  once := by
    refine List.nodup_append.mpr ⟨nodup_select _, nodup_select _, ?_⟩
    rintro place filter _ deferred rfl
    obtain ⟨constraint, known, filters⟩ := mem_select.mp filter
    obtain ⟨other, same, role⟩ := mem_select.mp deferred
    rw [known] at same
    cases same
    rw [decide_eq_true_eq, isFilter_role filters] at role
    cases role
  waiting place member := by
    refine ⟨?_, fun _ nothing => absurd nothing List.not_mem_nil⟩
    rcases List.mem_append.mp member with member | member
    · obtain ⟨constraint, known, filters⟩ := mem_select.mp member
      exact ⟨constraint, known, by rw [isFilter_role filters]; simp⟩
    · obtain ⟨constraint, known, role⟩ := mem_select.mp member
      exact ⟨constraint, known, by rw [of_decide_eq_true role]; simp⟩

/-- Builds one more first sub-plan. -/
def seedStep (task : PlanningTask) (state : Forefront × List SubPlanId) (operation : Operation) :
    Forefront × List SubPlanId :=
  ((push task operation state.1).1, state.2 ++ [(push task operation state.1).2])

/-- What is known while the first sub-plans are built. -/
structure Seeded (task : PlanningTask) (given : Prop) (state : Forefront × List SubPlanId) :
    Prop where
  sound : Sound task given state.1.arena state.2 (task.filters ++ task.deferred)
  members : state.1.members = .empty
  pool : state.1.pool = task.filters ++ task.deferred

theorem seeded_initial (task : PlanningTask) : Seeded task False (initial task, []) :=
  ⟨initial_sound task, rfl, rfl⟩

theorem Seeded.step {state : Forefront × List SubPlanId} {operation : Operation}
    {given given' : Prop}
    (seeded : Seeded task given state)
    (sound : Sound task given' (state.1.arena.push task.body operation).1
      ((state.1.arena.push task.body operation).2 :: state.2) (task.filters ++ task.deferred)) :
    Seeded task given' (seedStep task state operation) where
  sound := sound.perm (List.perm_append_singleton _ _).symm (.refl _)
  members := seeded.members
  pool := seeded.pool

theorem Seeded.enumerateAll (places : List ConstraintId) {state : Forefront × List SubPlanId}
    (seeded : Seeded task given state) (distinct : places.Nodup)
    (sources : ∀ place ∈ places, ∃ constraint, task.body.constraint? place = some constraint ∧
      task.isSource constraint = true)
    (absent : ∀ place ∈ places, ∀ id ∈ state.2, place ∉ state.1.arena.enforced id) :
    Seeded task given ((places.map Operation.enumerate).foldl (seedStep task) state) ∧
      ((places.map Operation.enumerate).foldl (seedStep task) state).2.length =
        state.2.length + places.length := by
  induction places generalizing state with
  | nil => exact ⟨seeded, rfl⟩
  | cons place rest ih =>
    obtain ⟨fresh, distinct⟩ := List.nodup_cons.mp distinct
    obtain ⟨constraint, known, source⟩ := sources place List.mem_cons_self
    have role : constraint.role ≠ .deferred := by
      simp only [PlanningTask.isSource, Bool.and_eq_true, decide_eq_true_eq] at source
      exact source.1
    have step := seeded.step (seeded.sound.enumerate known role (source_notMem_pool known source)
      (absent place List.mem_cons_self))
    -- the other constraints are enforced neither before nor by the new step
    have later : ∀ other ∈ rest, ∀ id ∈ (seedStep task state (.enumerate place)).2,
        other ∉ (seedStep task state (.enumerate place)).1.arena.enforced id := by
      intro other member id listed
      rcases List.mem_append.mp listed with listed | listed
      · obtain ⟨supplied, isMember⟩ := seeded.sound.members id listed
        obtain ⟨_, there⟩ := isMember.built.exists_step
        show other ∉ (state.1.arena.push task.body (.enumerate place)).1.enforced id
        rw [Arena.enforced_push there]
        exact absent other (List.mem_cons_of_mem _ member) id listed
      · obtain rfl := List.mem_singleton.mp listed
        have enforced : _ = OrderedSet.singleton place :=
          Arena.enforced_push_new state.1.arena task.body (.enumerate place)
        show other ∉ (state.1.arena.push task.body (.enumerate place)).1.enforced
          (state.1.arena.push task.body (.enumerate place)).2
        rw [enforced, OrderedSet.mem_singleton]
        intro same
        subst same
        exact fresh member
    obtain ⟨all, length⟩ := ih step distinct
      (fun other member => sources other (List.mem_cons_of_mem _ member)) later
    refine ⟨all, length.trans ?_⟩
    simp only [seedStep, List.length_append, List.length_cons, List.length_nil]
    omega

/-- The sub-plans of all first operations; the first one is the supplied row if there is one. -/
theorem seedOperations_sound (task : PlanningTask) :
    Seeded task (task.inputs ≠ [])
      ((seedOperations task).foldl (seedStep task) (initial task, [])) ∧
      0 < ((seedOperations task).foldl (seedStep task) (initial task, [])).2.length := by
  have distinct := OrderedSet.nodup_toList task.sources
  have sources : ∀ place ∈ task.sources.toList, ∃ constraint,
      task.body.constraint? place = some constraint ∧ task.isSource constraint = true :=
    fun place member => mem_select.mp (OrderedSet.mem_ofList.mp member)
  unfold seedOperations
  cases inputs : task.inputs with
  | nil =>
    simp only [List.isEmpty_nil, if_true, List.nil_append]
    have unused : ([] : List VarId) ≠ [] → False := fun different => different rfl
    cases listed : task.sources.toList with
    | nil =>
      have started := (seeded_initial task).step (initial_sound task).start
      exact ⟨⟨started.sound.weaken unused, started.members, started.pool⟩, Nat.one_pos⟩
    | cons first rest =>
      rw [listed] at distinct sources
      obtain ⟨all, length⟩ := (seeded_initial task).enumerateAll (first :: rest) distinct sources
        fun _ _ _ nothing => absurd nothing List.not_mem_nil
      refine ⟨⟨all.sound.weaken unused, all.members, all.pool⟩, ?_⟩
      refine Nat.lt_of_lt_of_eq ?_ length.symm
      simp
  | cons first rest =>
    have step := (seeded_initial task).step (initial_sound task).input
    have absent : ∀ place ∈ task.sources.toList,
        ∀ id ∈ (seedStep task (initial task, []) (.input task.inputs)).2,
        place ∉ (seedStep task (initial task, []) (.input task.inputs)).1.arena.enforced id := by
      intro place _ id member
      obtain rfl := List.mem_singleton.mp member
      have enforced : _ = OrderedSet.empty :=
        Arena.enforced_push_new Arena.empty task.body (.input task.inputs)
      show place ∉ (Arena.empty.push task.body (.input task.inputs)).1.enforced
        (Arena.empty.push task.body (.input task.inputs)).2
      rw [enforced]
      exact OrderedSet.notMem_empty
    obtain ⟨all, length⟩ := step.enumerateAll task.sources.toList distinct sources absent
    rw [inputs] at all length
    refine ⟨⟨all.sound.weaken fun _ => trivial, all.members, all.pool⟩, ?_⟩
    exact Nat.lt_of_lt_of_eq (Nat.lt_add_right _ Nat.one_pos) length.symm

theorem acceptAll_sound (plans : List SubPlanId) (forefront : Forefront)
    (sound : Sound task given forefront.arena (plans ++ forefront.members.toList) forefront.pool) :
    Sound task given (plans.foldl (accept task) forefront).arena
        (plans.foldl (accept task) forefront).members.toList
        (plans.foldl (accept task) forefront).pool ∧
      (plans.foldl (accept task) forefront).members.size =
        forefront.members.size + plans.length := by
  induction plans generalizing forefront with
  | nil => exact ⟨sound, rfl⟩
  | cons plan rest ih =>
    obtain ⟨accepted, size⟩ := accept_sound forefront plan sound
    obtain ⟨all, sizes⟩ := ih _ accepted
    refine ⟨all, ?_⟩
    rw [List.foldl_cons, sizes, size, List.length_cons]
    omega

theorem seed_sound (task : PlanningTask) :
    Sound task (task.inputs ≠ []) (seed task).arena (seed task).members.toList (seed task).pool ∧
      0 < (seed task).members.size := by
  obtain ⟨seeded, positive⟩ := seedOperations_sound task
  have whole : seed task = ((seedOperations task).foldl (seedStep task) (initial task, [])).2.foldl
      (accept task) ((seedOperations task).foldl (seedStep task) (initial task, [])).1 := rfl
  generalize (seedOperations task).foldl (seedStep task) (initial task, []) = state at *
  obtain ⟨forefront, plans⟩ := state
  obtain ⟨sound, members, pool⟩ := seeded
  dsimp only at sound members pool positive whole
  obtain ⟨accepted, size⟩ := acceptAll_sound plans forefront (by
    rw [members, pool]
    simpa [OrderedSet.empty] using sound)
  rw [whole]
  refine ⟨accepted, ?_⟩
  omega

/-! ## Joins -/

theorem mem_candidates_go {forefront : Forefront} {plans : List SubPlanId} (distinct : plans.Nodup)
    {candidate : JoinCandidate} (member : candidate ∈ candidates.go task forefront plans) :
    candidate.primary ∈ plans ∧ candidate.secondary ∈ plans ∧
      candidate.primary ≠ candidate.secondary := by
  induction plans with
  | nil => cases member
  | cons first rest ih =>
    obtain ⟨fresh, distinct⟩ := List.nodup_cons.mp distinct
    rcases List.mem_append.mp member with member | member
    · obtain ⟨second, listed, rfl⟩ := List.mem_map.mp member
      refine ⟨List.mem_cons_self, List.mem_cons_of_mem _ listed, ?_⟩
      rintro (same : first = second)
      exact fresh (same ▸ listed)
    · obtain ⟨left, right, different⟩ := ih distinct member
      exact ⟨List.mem_cons_of_mem _ left, List.mem_cons_of_mem _ right, different⟩

theorem mem_of_best? {candidates : List JoinCandidate} {best : JoinCandidate}
    (found : JoinCandidate.best? candidates = some best) : best ∈ candidates := by
  cases candidates with
  | nil => cases found
  | cons candidate rest =>
    have all (others : List JoinCandidate) (start : JoinCandidate) :
        others.foldl (fun best other =>
          if JoinCandidate.rank other best = .lt then other else best) start ∈ start :: others := by
      induction others generalizing start with
      | nil => exact List.mem_cons_self
      | cons other others ih =>
        rw [List.foldl_cons]
        rcases List.mem_cons.mp (ih (if JoinCandidate.rank other start = .lt then other else start))
          with same | member
        · rw [same]
          split
          · exact List.mem_cons_of_mem _ List.mem_cons_self
          · exact List.mem_cons_self
        · exact List.mem_cons_of_mem _ (List.mem_cons_of_mem _ member)
    cases found
    exact all rest candidate

theorem perm_erase_erase {members : OrderedSet SubPlanId} {primary secondary : SubPlanId}
    (left : primary ∈ members) (right : secondary ∈ members) (different : primary ≠ secondary) :
    members.toList.Perm
      (primary :: secondary :: ((members.erase primary).erase secondary).toList) := by
  have second : secondary ∈ members.erase primary :=
    OrderedSet.mem_erase.mpr ⟨right, different.symm⟩
  calc
    members.toList.Perm (primary :: (members.erase primary).toList) :=
      OrderedSet.perm_toList_erase left
    List.Perm _ (primary :: secondary :: ((members.erase primary).erase secondary).toList) :=
      (OrderedSet.perm_toList_erase second).cons _

/-- The best of the candidates joins two members. -/
theorem best_members {forefront : Forefront} {candidate : JoinCandidate}
    (best : JoinCandidate.best? (candidates task forefront) = some candidate) :
    candidate.primary ∈ forefront.members ∧ candidate.secondary ∈ forefront.members ∧
      candidate.primary ≠ candidate.secondary :=
  mem_candidates_go (OrderedSet.nodup_toList forefront.members) (mem_of_best? best)

/-- As long as there are two sub-plans, there is a pair to join. -/
theorem exists_best {forefront : Forefront} {joins : Nat}
    (size : forefront.members.size = joins + 2) :
    ∃ candidate, JoinCandidate.best? (candidates task forefront) = some candidate := by
  unfold OrderedSet.size at size
  unfold candidates
  match listed : forefront.members.toList with
  | [] => simp [listed] at size
  | [_] => simp [listed] at size
  | first :: second :: others => exact ⟨_, rfl⟩

/-- Two members make way for their join, which is accepted. -/
theorem join_sound (exported : ∀ subject ∈ task.inputs, subject ∈ task.body.parameters)
    {forefront : Forefront} {joins : Nat}
    (sound : Sound task given forefront.arena forefront.members.toList forefront.pool)
    (size : forefront.members.size = joins + 2) {primary secondary : SubPlanId}
    (left : primary ∈ forefront.members) (right : secondary ∈ forefront.members)
    (different : primary ≠ secondary) :
    let rest := (forefront.members.erase primary).erase secondary
    let result := push task (.join primary secondary) { forefront with members := rest }
    Sound task given result.1.arena (result.2 :: ([] ++ result.1.members.toList)) result.1.pool ∧
      Sound task given (accept task result.1 result.2).arena
        (accept task result.1 result.2).members.toList (accept task result.1 result.2).pool ∧
      (accept task result.1 result.2).members.size = joins + 1 := by
  intro rest result
  have parts := perm_erase_erase left right different
  have joined : Sound task given result.1.arena (result.2 :: ([] ++ result.1.members.toList))
      result.1.pool := (sound.perm parts (.refl _)).join exported
  have fewer : rest.size = joins := by
    have lengths : forefront.members.size = rest.size + 2 := parts.length_eq
    omega
  obtain ⟨accepted, sizes⟩ := accept_sound result.1 result.2 joined
  exact ⟨joined, accepted, sizes.trans (congrArg (· + 1) fewer)⟩

/-- Joins go on as long as there are two sub-plans, and leave one. -/
theorem collapse_sound (exported : ∀ subject ∈ task.inputs, subject ∈ task.body.parameters)
    (joins : Nat) (forefront : Forefront)
    (sound : Sound task given forefront.arena forefront.members.toList forefront.pool)
    (size : forefront.members.size = joins + 1) :
    Sound task given (collapse task joins forefront).arena
        (collapse task joins forefront).members.toList (collapse task joins forefront).pool ∧
      (collapse task joins forefront).members.size = 1 := by
  induction joins generalizing forefront with
  | zero => exact ⟨sound, size⟩
  | succ joins ih =>
    obtain ⟨candidate, best⟩ := @exists_best task forefront joins size
    obtain ⟨left, right, different⟩ := best_members best
    obtain ⟨_, accepted, fewer⟩ := join_sound exported sound size left right different
    unfold collapse
    rw [best]
    exact ih _ accepted fewer

end Forefront
end LiveQuery
