import LiveQuery.Proofs.Plan.Accounting
import LiveQuery.Proofs.Plan.Seeds

/-!
# How plans join

Accepting a sub-plan leaves one above it with the same first steps and products (`Raises`), so only
joins change the tallies of the sub-plans in play.  Two members show no common variable just if
their first steps supply none (`Sound.disjoint_iff_apart`): trimming hides no variable through which
they are connected.  The best candidate is a Cartesian product only if all candidates are
(`all_cartesian_of_best`), so that a join keeps `Tallied` in either case, and the plan that is left
has as many joins and products as its first steps and their components ask for
(`Plan.joins_planned`).
-/

namespace LiveQuery

/-- The first steps of a sub-plan, and how many products are below it. -/
def Arena.tally (arena : Arena) (id : SubPlanId) : Tally := ⟨arena.leaves id, arena.products id⟩

theorem Arena.tally_push {arena : Arena} {id : SubPlanId} (closed : arena.Closed id) (body : Body)
    (operation : Operation) : (arena.push body operation).1.tally id = arena.tally id := by
  unfold tally leaves products
  rw [outline_push closed]

namespace Forefront

variable {task : PlanningTask} {given : Prop} {forefront : Forefront} {plan : SubPlanId}
  {live : List SubPlanId} {pool : List ConstraintId}

/-- The tallies of the sub-plans that wait to be joined. -/
def tallies (forefront : Forefront) : List Tally :=
  forefront.members.toList.map forefront.arena.tally

/-! ## Accepting -/

/-- What a step on one sub-plan makes of a forefront: the sub-plan above it counts for the same, and
all others stay as they are. -/
structure Raises (before after : Forefront × SubPlanId) : Prop where
  keeps : ∀ id, before.1.arena.Closed id →
    after.1.arena.Closed id ∧ after.1.arena.tally id = before.1.arena.tally id
  closed : after.1.arena.Closed after.2
  tally : after.1.arena.tally after.2 = before.1.arena.tally before.2
  members : after.1.members = before.1.members

theorem Raises.refl (closed : forefront.arena.Closed plan) :
    Raises (forefront, plan) (forefront, plan) :=
  ⟨fun _ closed => ⟨closed, rfl⟩, closed, rfl, rfl⟩

theorem Raises.trans {first second third : Forefront × SubPlanId} (early : Raises first second)
    (late : Raises second third) : Raises first third where
  keeps id closed := by
    obtain ⟨between, same⟩ := early.keeps id closed
    obtain ⟨after, still⟩ := late.keeps id between
    exact ⟨after, still.trans same⟩
  closed := late.closed
  tally := late.tally.trans early.tally
  members := late.members.trans early.members

theorem Raises.push (task : PlanningTask) (closed : forefront.arena.Closed plan)
    {operation : Operation} (reads : operation.children = [plan]) :
    Raises (forefront, plan) (push task operation forefront) := by
  have children : ∀ child ∈ operation.children, forefront.arena.Closed child := by
    simpa [reads] using closed
  obtain ⟨leaves, _, products⟩ := Arena.counts_push task.body closed reads
  exact ⟨fun id closed => ⟨closed.push _ _, Arena.tally_push closed _ _⟩, .push_new _ children,
    (Tally.mk.injEq ..).mpr ⟨leaves, products⟩, rfl⟩

theorem applyAll_raises (task : PlanningTask) (ready : List ConstraintId) (forefront : Forefront)
    (plan : SubPlanId) (closed : forefront.arena.Closed plan) :
    Raises (forefront, plan) (ready.foldl (fun (forefront, plan) constraint =>
      push task (.apply plan constraint) forefront) (forefront, plan)) := by
  induction ready generalizing forefront plan with
  | nil => exact .refl closed
  | cons constraint rest ih =>
    have step : Raises (forefront, plan) (push task (.apply plan constraint) forefront) :=
      .push task closed rfl
    exact step.trans (ih _ _ step.closed)

theorem applyFilters_raises (task : PlanningTask) (closed : forefront.arena.Closed plan) :
    Raises (forefront, plan) (applyFilters task forefront plan) := by
  unfold applyFilters
  generalize forefront.filters.partition _ = parts
  obtain ⟨ready, waiting⟩ := parts
  have raises := applyAll_raises task ready { forefront with filters := waiting } plan closed
  exact ⟨raises.keeps, raises.closed, raises.tally, raises.members⟩

theorem trim_raises (task : PlanningTask) (closed : forefront.arena.Closed plan) :
    Raises (forefront, plan) (trim task forefront plan) := by
  unfold trim
  dsimp only
  split
  · exact .push task closed rfl
  · exact .refl closed

theorem accept_raises (task : PlanningTask) (forefront : Forefront) (plan : SubPlanId)
    (closed : forefront.arena.Closed plan) :
    ∃ after last, accept task forefront plan =
        { after with members := forefront.members.insert last } ∧
      Raises (forefront, plan) (after, last) := by
  fun_induction accept task forefront plan with
  | case1 forefront plan filtered trimmed _ =>
    have filter : Raises (forefront, plan) filtered := applyFilters_raises task closed
    have trim : Raises filtered trimmed := trim_raises task filter.closed
    have raises := filter.trans trim
    exact ⟨trimmed.1, trimmed.2, by rw [← raises.members], raises⟩
  | case2 forefront plan filtered trimmed constraint _ applied ih =>
    have filter : Raises (forefront, plan) filtered := applyFilters_raises task closed
    have trim : Raises filtered trimmed := trim_raises task filter.closed
    have pushed : Raises trimmed (push task (.apply trimmed.2 constraint) trimmed.1) :=
      .push task trim.closed rfl
    have step : Raises trimmed applied :=
      ⟨pushed.keeps, pushed.closed, pushed.tally, pushed.members⟩
    have raises := (filter.trans trim).trans step
    obtain ⟨after, last, accepted, later⟩ := ih raises.closed
    exact ⟨after, last, by rw [accepted, raises.members], raises.trans later⟩

theorem closed_of_mem {arena : Arena} (sound : Sound task given arena live pool) {id : SubPlanId}
    (member : id ∈ live) : arena.Closed id := by
  obtain ⟨_, isMember⟩ := sound.members id member
  exact isMember.built.closed

theorem accept_tallies (forefront : Forefront) (plan : SubPlanId)
    (sound : Sound task given forefront.arena (plan :: (live ++ forefront.members.toList))
      forefront.pool) :
    (accept task forefront plan).tallies.Perm (forefront.arena.tally plan :: forefront.tallies) ∧
      ∀ id ∈ live, (accept task forefront plan).arena.tally id = forefront.arena.tally id := by
  obtain ⟨after, last, accepted, raises⟩ :=
    accept_raises task forefront plan (closed_of_mem sound List.mem_cons_self)
  have same (id : SubPlanId) (member : id ∈ live ++ forefront.members.toList) :
      after.arena.tally id = forefront.arena.tally id :=
    (raises.keeps id (closed_of_mem sound (List.mem_cons_of_mem _ member))).2
  -- the sub-plan that is accepted is not among the members, which become more
  have fresh : last ∉ forefront.members := by
    intro member
    have size := (accept_sound forefront plan sound).2
    rw [accepted] at size
    change (forefront.members.insert last).size = forefront.members.size + 1 at size
    have unchanged : forefront.members.insert last = forefront.members :=
      OrderedSet.ext_mem fun id => by
        rw [OrderedSet.mem_insert]
        exact or_iff_right_of_imp fun same => same ▸ member
    rw [unchanged] at size
    omega
  rw [accepted]
  refine ⟨?_, fun id member => same id (List.mem_append_left _ member)⟩
  calc
    ((forefront.members.insert last).toList.map after.arena.tally).Perm
        (after.arena.tally last :: forefront.members.toList.map after.arena.tally) :=
      (OrderedSet.perm_toList_insert fresh).map _
    _ = forefront.arena.tally plan :: forefront.tallies := by
      rw [show after.arena.tally last = forefront.arena.tally plan from raises.tally]
      exact congrArg _ (List.map_congr_left fun id member =>
        same id (List.mem_append_right _ member))

theorem acceptAll_tallies (plans : List SubPlanId) (forefront : Forefront)
    (sound : Sound task given forefront.arena (plans ++ forefront.members.toList) forefront.pool) :
    (plans.foldl (accept task) forefront).tallies.Perm
      (plans.map forefront.arena.tally ++ forefront.tallies) := by
  induction plans generalizing forefront with
  | nil => exact .refl _
  | cons plan rest ih =>
    obtain ⟨tallies, same⟩ := accept_tallies forefront plan sound
    calc
      (rest.foldl (accept task) (accept task forefront plan)).tallies.Perm
          (rest.map (accept task forefront plan).arena.tally ++
            (accept task forefront plan).tallies) := ih _ (accept_sound forefront plan sound).1
      _ = rest.map forefront.arena.tally ++ (accept task forefront plan).tallies :=
        congrArg (· ++ _) (List.map_congr_left same)
      List.Perm _ (rest.map forefront.arena.tally ++
          forefront.arena.tally plan :: forefront.tallies) := tallies.append_left _
      List.Perm _ (forefront.arena.tally plan ::
          (rest.map forefront.arena.tally ++ forefront.tallies)) := List.perm_middle

/-! ## The first sub-plans -/

theorem seedAll_tallies (task : PlanningTask) (operations : List Operation)
    (alone : ∀ operation ∈ operations, operation.children = [])
    (state : Forefront × List SubPlanId) (closed : ∀ id ∈ state.2, state.1.arena.Closed id) :
    (operations.foldl (seedStep task) state).2.map
        (operations.foldl (seedStep task) state).1.arena.tally =
      state.2.map state.1.arena.tally ++ operations.map fun operation => ⟨[operation], 0⟩ := by
  induction operations generalizing state with
  | nil => simp
  | cons operation rest ih =>
    have childless := alone operation List.mem_cons_self
    have children : ∀ child ∈ operation.children, state.1.arena.Closed child := by
      simp [childless]
    obtain ⟨leaves, _, products⟩ :=
      Arena.counts_leaf (Arena.outline_push_new task.body children) childless
    have new : (seedStep task state operation).1.arena.tally
        (state.1.arena.push task.body operation).2 = ⟨[operation], 0⟩ :=
      (Tally.mk.injEq ..).mpr ⟨leaves, products⟩
    have old : state.2.map (seedStep task state operation).1.arena.tally =
        state.2.map state.1.arena.tally :=
      List.map_congr_left fun id member => Arena.tally_push (closed id member) _ _
    rw [List.foldl_cons, ih fun other member => alone other (List.mem_cons_of_mem _ member)]
    · show (state.2 ++ [(state.1.arena.push task.body operation).2]).map _ ++ _ = _
      rw [List.map_append, old, List.map_singleton, new, List.append_assoc]
      rfl
    · intro id member
      rcases List.mem_append.mp member with member | member
      · exact (closed id member).push _ _
      · obtain rfl := List.mem_singleton.mp member
        exact .push_new _ children

theorem seedOperations_alone (task : PlanningTask) :
    ∀ operation ∈ seedOperations task, operation.children = [] := by
  unfold seedOperations
  intro operation member
  dsimp only at member
  split at member
  · obtain rfl := List.mem_singleton.mp member
    rfl
  · rcases List.mem_append.mp member with member | member
    · split at member
      · cases member
      · obtain rfl := List.mem_singleton.mp member
        rfl
    · obtain ⟨_, _, rfl⟩ := List.mem_map.mp member
      rfl

theorem seed_tallied (task : PlanningTask) :
    Tallied task.body (seedOperations task) (seed task).tallies := by
  obtain ⟨⟨sound, members, pool⟩, _⟩ := seedOperations_sound task
  have started := seedAll_tallies task (seedOperations task) (seedOperations_alone task)
    (initial task, []) fun _ nothing => absurd nothing List.not_mem_nil
  have whole : seed task = ((seedOperations task).foldl (seedStep task) (initial task, [])).2.foldl
      (accept task) ((seedOperations task).foldl (seedStep task) (initial task, [])).1 := rfl
  generalize (seedOperations task).foldl (seedStep task) (initial task, []) = state at *
  have accepted := acceptAll_tallies state.2 state.1 (by
    rw [members, pool]
    simpa [OrderedSet.empty] using sound)
  have none_ : state.1.tallies = [] := by
    unfold tallies
    rw [members]
    rfl
  rw [none_, started, List.append_nil] at accepted
  rw [whole]
  exact (tallied_start _ _).perm accepted.symm

/-! ## Choosing a pair -/

/-- A pair with common variables comes before a Cartesian product. -/
theorem rank_of_isCartesian {one other : JoinCandidate} (common : one.isCartesian = false)
    (cartesian : other.isCartesian = true) :
    JoinCandidate.rank one other = .lt ∧ JoinCandidate.rank other one = .gt := by
  have less : compare false true = .lt := rfl
  have greater : compare true false = .gt := rfl
  simp [JoinCandidate.rank, compareLex, compareOn, common, cartesian, less, greater]

/-- The best candidate is a Cartesian product only if all candidates are. -/
theorem all_cartesian_of_best {candidates : List JoinCandidate} {best : JoinCandidate}
    (found : JoinCandidate.best? candidates = some best) (cartesian : best.isCartesian = true) :
    ∀ candidate ∈ candidates, candidate.isCartesian = true := by
  cases candidates with
  | nil => cases found
  | cons first rest =>
    cases found
    induction rest generalizing first with
    | nil => simpa using cartesian
    | cons second rest ih =>
      rw [List.foldl_cons] at cartesian
      have later := ih _ cartesian
      -- the better one of the first two is one only if both are
      have both : first.isCartesian = true ∧ second.isCartesian = true := by
        have better := later _ List.mem_cons_self
        by_cases before : JoinCandidate.rank second first = .lt
        · rw [if_pos before] at better
          refine ⟨Bool.eq_true_of_not_eq_false fun common => ?_, better⟩
          rw [(rank_of_isCartesian common better).2] at before
          cases before
        · rw [if_neg before] at better
          refine ⟨better, Bool.eq_true_of_not_eq_false fun common => ?_⟩
          exact before (rank_of_isCartesian common better).1
      intro candidate member
      rcases List.mem_cons.mp member with rfl | member
      · exact both.1
      rcases List.mem_cons.mp member with rfl | member
      · exact both.2
      · exact later candidate (List.mem_cons_of_mem _ member)

theorem pairwise_of_candidates {plans : List SubPlanId}
    (cartesian : ∀ candidate ∈ candidates.go task forefront plans, candidate.isCartesian = true) :
    plans.Pairwise fun one other =>
      ((forefront.arena.visible one).inter (forefront.arena.visible other)).isEmpty = true := by
  induction plans with
  | nil => exact .nil
  | cons first rest ih =>
    refine List.pairwise_cons.mpr ⟨fun second member => ?_, ih fun candidate member => ?_⟩
    · exact cartesian _ (List.mem_append_left _ (List.mem_map_of_mem member))
    · exact cartesian candidate (List.mem_append_right _ member)

theorem isCartesian_of_mem {plans : List SubPlanId} {candidate : JoinCandidate}
    (member : candidate ∈ candidates.go task forefront plans) :
    candidate.isCartesian = ((forefront.arena.visible candidate.primary).inter
      (forefront.arena.visible candidate.secondary)).isEmpty := by
  induction plans with
  | nil => cases member
  | cons first rest ih =>
    rcases List.mem_append.mp member with member | member
    · obtain ⟨second, _, rfl⟩ := List.mem_map.mp member
      rfl
    · exact ih member

/-! ## Joins -/

/-- Two sub-plans show no common variable just if their first steps supply none: what is trimmed is
needed by neither the parameters nor the constraints of the other. -/
theorem disjoint_iff_apart (exported : ∀ subject ∈ task.inputs, subject ∈ task.body.parameters)
    {arena : Arena} (sound : Sound task given arena live pool) {one other : SubPlanId}
    (here : one ∈ live) (there : other ∈ live) (different : one ≠ other) :
    ((arena.visible one).inter (arena.visible other)).isEmpty = true ↔
      Apart task.body (arena.leaves one) (arena.leaves other) := by
  obtain ⟨first, left⟩ := sound.members one here
  obtain ⟨second, right⟩ := sound.members other there
  have symmetric : Std.Symm fun one other : SubPlanId =>
      ∀ place ∈ arena.enforced one, place ∉ arena.enforced other :=
    ⟨fun _ _ disjoint place there here => disjoint place here there⟩
  have disjoint := sound.apart.forall here there different
  constructor
  · intro none_ leaf leafMember otherLeaf otherMember subject supplied otherSupplied
    have inLeft := (left.built.touches_iff subject).mpr ⟨leaf, leafMember, supplied⟩
    have inRight := (right.built.touches_iff subject).mpr ⟨otherLeaf, otherMember, otherSupplied⟩
    have shownLeft := left.visible_of_touches exported
      (fun place enforced present => disjoint place present enforced) inLeft inRight
    have shownRight := right.visible_of_touches exported disjoint inRight inLeft
    have shown : subject ∈ (arena.visible one).inter (arena.visible other) :=
      OrderedSet.mem_inter.mpr ⟨shownLeft, shownRight⟩
    exact List.eq_nil_iff_forall_not_mem.mp (List.isEmpty_iff.mp none_) subject shown
  · intro apart
    refine List.isEmpty_iff.mpr (List.eq_nil_iff_forall_not_mem.mpr fun subject shown => ?_)
    obtain ⟨shownLeft, shownRight⟩ := OrderedSet.mem_inter.mp shown
    obtain ⟨leaf, leafMember, supplied⟩ :=
      (left.built.touches_iff subject).mp (left.built.touches shownLeft)
    obtain ⟨otherLeaf, otherMember, otherSupplied⟩ :=
      (right.built.touches_iff subject).mp (right.built.touches shownRight)
    exact apart leaf leafMember otherLeaf otherMember subject supplied otherSupplied

/-- If there are only Cartesian products left, all members are apart. -/
theorem apart_of_cartesian (exported : ∀ subject ∈ task.inputs, subject ∈ task.body.parameters)
    (sound : Sound task given forefront.arena forefront.members.toList forefront.pool)
    (cartesian : ∀ candidate ∈ candidates task forefront, candidate.isCartesian = true) :
    forefront.tallies.Pairwise fun tally other => Apart task.body tally.leaves other.leaves := by
  have disjoint := (pairwise_of_candidates cartesian).and
    (OrderedSet.nodup_toList forefront.members)
  refine List.pairwise_map.mpr (disjoint.imp_of_mem fun here there both => ?_)
  exact (disjoint_iff_apart exported sound here there both.2).mp both.1

theorem tally_join {arena : Arena} {primary secondary : SubPlanId} (body : Body)
    (left : arena.Closed primary) (right : arena.Closed secondary) :
    (arena.push body (.join primary secondary)).1.tally
        (arena.push body (.join primary secondary)).2 =
      ⟨arena.leaves primary ++ arena.leaves secondary,
        arena.products primary + arena.products secondary +
          if ((arena.visible primary).inter (arena.visible secondary)).isEmpty then 1 else 0⟩ := by
  have children : ∀ child ∈ (Operation.join primary secondary).children, arena.Closed child := by
    simp [Operation.children, left, right]
  obtain ⟨leaves, _, products⟩ := Arena.counts_join (Arena.outline_push_new body children)
  have first := Arena.tally_push left body (.join primary secondary)
  have second := Arena.tally_push right body (.join primary secondary)
  obtain ⟨_, leftThere⟩ := left.exists_step
  obtain ⟨_, rightThere⟩ := right.exists_step
  simp only [Arena.tally, Tally.mk.injEq] at first second ⊢
  rw [leaves, products, first.1, first.2, second.1, second.2, Arena.visible_push leftThere,
    Arena.visible_push rightThere]
  exact ⟨rfl, rfl⟩

/-- Joining the best pair keeps the accounting: either the pair lies within one component, or all
components are whole. -/
theorem join_tallied {operations : List Operation} (distinct : operations.Nodup)
    (exported : ∀ subject ∈ task.inputs, subject ∈ task.body.parameters) {joins : Nat}
    (sound : Sound task given forefront.arena forefront.members.toList forefront.pool)
    (size : forefront.members.size = joins + 2)
    (tallied : Tallied task.body operations forefront.tallies) {candidate : JoinCandidate}
    (best : JoinCandidate.best? (candidates task forefront) = some candidate) :
    let rest := (forefront.members.erase candidate.primary).erase candidate.secondary
    let result := push task (.join candidate.primary candidate.secondary)
      { forefront with members := rest }
    Tallied task.body operations (accept task result.1 result.2).tallies := by
  intro rest result
  obtain ⟨left, right, different⟩ := best_members best
  have parts := perm_erase_erase left right different
  obtain ⟨joined, _⟩ := join_sound exported sound size left right different
  have closed (id : SubPlanId) (member : id ∈ forefront.members) : forefront.arena.Closed id :=
    closed_of_mem sound member
  have others : result.1.tallies = rest.toList.map forefront.arena.tally :=
    List.map_congr_left fun id member =>
      Arena.tally_push (closed id (parts.mem_iff.mpr
        (List.mem_cons_of_mem _ (List.mem_cons_of_mem _ member)))) _ _
  have accepted := (accept_tallies result.1 result.2 joined).1
  rw [others, show result.1.arena.tally result.2 = _ from
    tally_join task.body (closed _ left) (closed _ right)] at accepted
  refine Tallied.perm ?_ accepted.symm
  have before := tallied.perm (parts.map forefront.arena.tally)
  rw [← isCartesian_of_mem (mem_of_best? best)]
  by_cases cartesian : candidate.isCartesian = true
  · have apart := apart_of_cartesian exported sound (all_cartesian_of_best best cartesian)
    rw [if_pos cartesian]
    exact before.join_apart distinct
      (((parts.map forefront.arena.tally).pairwise_iff Apart.symm).mp apart)
  · rw [if_neg cartesian]
    refine before.join_sharing distinct fun apart => cartesian ?_
    rw [isCartesian_of_mem (mem_of_best? best)]
    exact (disjoint_iff_apart exported sound left right different).mpr apart

/-- What joins make of the tallies, down to the last sub-plan. -/
theorem collapse_tallied {operations : List Operation} (distinct : operations.Nodup)
    (exported : ∀ subject ∈ task.inputs, subject ∈ task.body.parameters) (joins : Nat)
    (forefront : Forefront)
    (sound : Sound task given forefront.arena forefront.members.toList forefront.pool)
    (size : forefront.members.size = joins + 1)
    (tallied : Tallied task.body operations forefront.tallies) :
    Tallied task.body operations (collapse task joins forefront).tallies := by
  induction joins generalizing forefront with
  | zero => exact tallied
  | succ joins ih =>
    obtain ⟨candidate, best⟩ := @exists_best task forefront joins size
    obtain ⟨left, right, different⟩ := best_members best
    obtain ⟨_, accepted, fewer⟩ := join_sound exported sound size left right different
    unfold collapse
    rw [best]
    exact ih _ accepted fewer (join_tallied distinct exported sound size tallied best)

end Forefront

/-! ## The finished plan -/

section Seeds

variable {hints : Hints} {body : Body} {adornment : OrderedSet Nat}

theorem isSource_iff {task : PlanningTask} {constraint : Constraint} :
    task.isSource constraint = true ↔ constraint.role = .enumerable ∨
      constraint.role = .constant ∧ task.isFilter constraint = false := by
  simp only [PlanningTask.isSource, Bool.and_eq_true, decide_eq_true_eq, Bool.not_eq_true']
  constructor
  · rintro ⟨supplies, unfiltered⟩
    cases role : constraint.role with
    | enumerable => exact .inl rfl
    | constant => exact .inr ⟨rfl, unfiltered⟩
    | deferred => exact absurd role supplies
  · rintro (role | ⟨role, unfiltered⟩)
    · refine ⟨by simp [role], Bool.eq_false_iff.mpr fun filters => ?_⟩
      rw [Forefront.isFilter_role filters] at role
      cases role
    · exact ⟨by simp [role], unfiltered⟩

/-- The supplied row, if there is one, and the sources. -/
def PlanningTask.firstOperations (task : PlanningTask) : List Operation :=
  (if task.inputs.isEmpty then [] else [.input task.inputs]) ++
    task.sources.toList.map .enumerate

theorem PlanningTask.nodup_firstOperations (task : PlanningTask) : task.firstOperations.Nodup := by
  refine List.nodup_append.mpr ⟨?_, ?_, ?_⟩
  · split
    · exact .nil
    · exact List.nodup_singleton _
  · exact (OrderedSet.nodup_toList _).map fun _ _ same => Operation.enumerate.inj same
  · intro first supplied second source same
    obtain ⟨_, _, rfl⟩ := List.mem_map.mp source
    split at supplied
    · cases supplied
    · rw [List.mem_singleton.mp supplied] at same
      cases same

theorem PlanningTask.seedOperations_of_mem {task : PlanningTask} {operation : Operation}
    (listed : operation ∈ task.firstOperations) :
    Forefront.seedOperations task = task.firstOperations := by
  unfold Forefront.seedOperations
  unfold firstOperations at listed ⊢
  dsimp only
  split
  next none_ =>
    rw [none_] at listed
    cases listed
  · rfl

theorem seed_iff (inRange : ∀ position ∈ adornment.toList, position < body.parameters.length)
    (operation : Operation) :
    Seed hints body adornment operation ↔
      operation ∈ PlanningTask.firstOperations
        ⟨body, hints.merge body.hints, body.inputs adornment⟩ := by
  have supplied : body.inputs adornment = [] ↔ adornment = .empty := by
    rw [← List.length_eq_zero_iff, length_inputs inRange, OrderedSet.size,
      List.length_eq_zero_iff, OrderedSet.ext_iff]
    rfl
  have source (place : ConstraintId) : place ∈ (PlanningTask.sources
      ⟨body, hints.merge body.hints, body.inputs adornment⟩).toList ↔
      ∃ constraint, body.constraint? place = some constraint ∧ PlanningTask.isSource
        ⟨body, hints.merge body.hints, body.inputs adornment⟩ constraint = true :=
    OrderedSet.mem_ofList.trans Forefront.mem_select
  constructor
  · rintro (adorned | ⟨known, role⟩ | ⟨known, role, unfiltered⟩)
    · refine List.mem_append_left _ ?_
      rw [if_neg (by simpa using mt supplied.mp adorned)]
      exact List.mem_singleton.mpr rfl
    · exact List.mem_append_right _ (List.mem_map_of_mem
        ((source _).mpr ⟨_, known, isSource_iff.mpr (.inl role)⟩))
    · exact List.mem_append_right _ (List.mem_map_of_mem
        ((source _).mpr ⟨_, known, isSource_iff.mpr (.inr ⟨role, unfiltered⟩)⟩))
  · intro listed
    rcases List.mem_append.mp listed with listed | listed
    · split at listed
      · cases listed
      next some_ =>
        obtain rfl := List.mem_singleton.mp listed
        exact .input (mt supplied.mpr (by simpa using some_))
    · obtain ⟨place, member, rfl⟩ := List.mem_map.mp listed
      obtain ⟨constraint, known, isSource⟩ := (source place).mp member
      rcases isSource_iff.mp isSource with role | ⟨role, unfiltered⟩
      · exact .enumerable known role
      · exact .constant known role unfiltered

/-- If there are first steps, these are what the planner builds first, each once. -/
theorem seed_eq (inRange : ∀ position ∈ adornment.toList, position < body.parameters.length)
    (some_ : ∃ operation, Seed hints body adornment operation) :
    let first := Forefront.seedOperations ⟨body, hints.merge body.hints, body.inputs adornment⟩
    Seed hints body adornment = (· ∈ first) ∧ first.Nodup := by
  obtain ⟨operation, seed⟩ := some_
  intro first
  have same : first = _ := PlanningTask.seedOperations_of_mem ((seed_iff inRange operation).mp seed)
  rw [same]
  exact ⟨funext fun operation => propext (seed_iff inRange operation),
    PlanningTask.nodup_firstOperations _⟩

end Seeds

/-- A plan joins once less than there are first steps, and once less than these have components
without a common variable.  If the first steps are connected, no join is a Cartesian product. -/
theorem Plan.joins_planned {hints : Hints} {body : Body} {adornment : OrderedSet Nat} {plan : Plan}
    (planned : Plan.ofBodyAdorned hints body adornment = .ok plan)
    (some_ : ∃ operation, Seed hints body adornment operation) :
    plan.arena.joins plan.root + 1 = Nat.card {operation // Seed hints body adornment operation} ∧
    plan.arena.products plan.root + 1 =
      Nat.card (body.sharing (Seed hints body adornment)).ConnectedComponent ∧
    ((body.sharing (Seed hints body adornment)).Connected →
      plan.arena.products plan.root = 0) := by
  obtain ⟨seeds, distinct⟩ := seed_eq (ofBodyAdorned_ok planned).1 some_
  obtain ⟨last, single, sound, _, _, arena, root⟩ := exists_collapsed planned
  obtain ⟨_, member⟩ := sound.members last List.mem_cons_self
  obtain ⟨seeded, positive⟩ := Forefront.seed_sound
    ⟨body, hints.merge body.hints, body.inputs adornment⟩
  -- one group of first steps is left
  have tallied := Forefront.collapse_tallied distinct inputs_exported
    ((Forefront.seed ⟨body, hints.merge body.hints, body.inputs adornment⟩).members.size - 1)
    _ seeded (by omega) (Forefront.seed_tallied _)
  unfold Forefront.tallies at tallied
  rw [single, List.map_singleton] at tallied
  have components := tallied.products_add_one distinct
  -- it is the group of all first steps, each once
  have whole := tallied.whole
  rw [List.flatMap_singleton] at whole
  have steps := member.built.joins_add_one.trans whole.length_eq
  obtain ⟨_, joins, products⟩ :=
    @Arena.counts_push _ (.project last body.parameters) _ body member.built.closed rfl
  rw [← arena, ← root] at joins products
  rw [joins, products, seeds]
  refine ⟨?_, components, fun connected => ?_⟩
  · rw [steps, ← List.toFinset_card_of_nodup distinct]
    exact (Nat.subtype_card _ fun _ => List.mem_toFinset).symm
  · have atMost := connected.preconnected.subsingleton_connectedComponent
    have some_ := connected.nonempty.map
      (body.sharing (· ∈ Forefront.seedOperations _)).connectedComponentMk
    rw [Nat.card_unique] at components
    exact Nat.succ.inj components

/-- Paths of two edges that end in a third node, and any other pair that is connected. -/
def unrelated : Body :=
  ⟨⟨"unrelated", 0, ["x", "y", "z", "v", "w"],
    [.relation ⟨0⟩ [⟨0⟩, ⟨1⟩] [], .relation ⟨0⟩ [⟨1⟩, ⟨2⟩] [], .closure ⟨0⟩ ⟨3⟩ ⟨4⟩],
    [⟨0⟩, ⟨2⟩, ⟨3⟩, ⟨4⟩], {}⟩, by decide⟩

/-- The supplied row and two edges make one component, the closure is another. -/
theorem joins_unrelated :
    Nat.card {operation // Seed {} unrelated (.singleton 0) operation} = 4 ∧
      Nat.card (unrelated.sharing (Seed {} unrelated (.singleton 0))).ConnectedComponent = 2 := by
  have ran : (Plan.ofBodyAdorned {} unrelated (.singleton 0) >>= fun plan =>
      .ok (plan.arena.joins plan.root, plan.arena.products plan.root)) = .ok (3, 1) :=
    of_decide_eq_true (by decide +kernel)
  obtain ⟨plan, planned, counted⟩ := ok_of_bind ran
  obtain ⟨joins, products⟩ := Prod.mk.inj (Except.ok.inj counted)
  obtain ⟨steps, components, _⟩ :=
    Plan.joins_planned planned ⟨_, .input (by decide)⟩
  rw [← steps, ← components, joins, products]
  exact ⟨rfl, rfl⟩

end LiveQuery
