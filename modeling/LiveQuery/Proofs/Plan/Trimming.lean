import LiveQuery.Proofs.Plan.Joins

/-!
# What trimming drops

A sub-plan still needs the parameters and the variables of the constraints that it does not enforce
(`Arena.Needs`).  A trim is exact if it drops something, and nothing that is needed (`Trims`), and a
sub-plan is slim if it shows nothing else any more, unless it enforces all sources already (`Slim`).
Accepting a sub-plan ends with a round that trims and finds no deferred constraint ready, so what
becomes a member is slim (`Tidy.accept`).  A step reads what is known of its children when it is
built, and arenas only grow, so that this holds of all steps of the finished plan
(`Plan.trims_planned`).
-/

namespace LiveQuery

/-- Some value of the first set is missing from the common part just if that part is smaller. -/
theorem OrderedSet.size_inter_lt {α : Type} [Ord α] [DecidableEq α] {first second : OrderedSet α} :
    (first.inter second).size < first.size ↔ ∃ value ∈ first, ¬value ∈ second := by
  refine List.length_filter_lt_length_iff_exists.trans ?_
  simp [OrderedSet.contains, OrderedSet.mem_toList]

/-- A parameter, or a variable of a constraint that the sub-plan does not enforce. -/
def Arena.Needs (arena : Arena) (body : Body) (id : SubPlanId) (subject : VarId) : Prop :=
  subject ∈ body.parameters ∨ ∃ place constraint, body.constraint? place = some constraint ∧
    place ∉ arena.enforced id ∧ subject ∈ constraint.arguments

/-- Restricting the rows of the child drops some variable, and none that the child needs. -/
structure Trims (body : Body) (arena : Arena) (child : SubPlanId) (kept : OrderedSet VarId) :
    Prop where
  shown : ∀ subject ∈ kept, subject ∈ arena.visible child
  dropped : ∃ subject ∈ arena.visible child, subject ∉ kept
  unneeded : ∀ subject ∈ arena.visible child, subject ∉ kept → ¬arena.Needs body child subject

/-- The sub-plan shows only what it needs, unless it enforces all sources. -/
def Slim (task : PlanningTask) (arena : Arena) (id : SubPlanId) : Prop :=
  (∃ place ∈ task.sources, place ∉ arena.enforced id) →
    ∀ subject ∈ arena.visible id, arena.Needs task.body id subject

/-- What makes a step tidy: it reads sub-plans that are there, is exact if it is a trim, and joins
slim sub-plans if it is a join. -/
structure TidyStep (task : PlanningTask) (arena : Arena) (operation : Operation) : Prop where
  known : ∀ child ∈ operation.children, ∃ step, arena.get? child = some step
  trims : ∀ child kept, operation = .trim child kept → Trims task.body arena child kept
  joins : ∀ primary secondary, operation = .join primary secondary →
    ∀ child ∈ [primary, secondary], Slim task arena child

/-! ## Growing arenas -/

section Push

variable {task : PlanningTask} {arena : Arena} {id : SubPlanId} {step : SubPlan}

theorem Arena.needs_push (found : arena.get? id = some step) (own : Body) (operation : Operation)
    {body : Body} {subject : VarId} :
    (arena.push own operation).1.Needs body id subject ↔ arena.Needs body id subject := by
  unfold Needs
  rw [enforced_push found]

theorem Trims.push {body : Body} {kept : OrderedSet VarId} (trims : Trims body arena id kept)
    (found : arena.get? id = some step) (own : Body) (operation : Operation) :
    Trims body (arena.push own operation).1 id kept := by
  have visible := Arena.visible_push found own operation
  refine ⟨visible ▸ trims.shown, visible ▸ trims.dropped, ?_⟩
  intro subject shown dropped needed
  rw [Arena.needs_push found] at needed
  exact trims.unneeded subject (visible ▸ shown) dropped needed

theorem Slim.push (slim : Slim task arena id) (found : arena.get? id = some step) (own : Body)
    (operation : Operation) : Slim task (arena.push own operation).1 id := by
  unfold Slim
  rw [Arena.enforced_push found, Arena.visible_push found]
  simp only [Arena.needs_push found]
  exact slim

theorem TidyStep.push {other : Operation} (tidy : TidyStep task arena other) (own : Body)
    (operation : Operation) : TidyStep task (arena.push own operation).1 other where
  known child member := by
    obtain ⟨_, found⟩ := tidy.known child member
    exact ⟨_, Arena.get?_push_of_get? found own operation⟩
  trims child kept same := by
    obtain ⟨_, found⟩ := tidy.known child (by simp [same, Operation.children])
    exact (tidy.trims child kept same).push found own operation
  joins primary secondary same child member := by
    obtain ⟨_, found⟩ := tidy.known child (by simpa [same, Operation.children] using member)
    exact (tidy.joins primary secondary same child member).push found own operation

end Push

/-! ## Planning -/

/-- All steps built so far are tidy, and all members are slim.  The live sub-plans are those that
still have to be accepted. -/
structure Tidy (task : PlanningTask) (live : List SubPlanId) (forefront : Forefront) : Prop where
  steps : ∀ id step, forefront.arena.get? id = some step →
    step = forefront.arena.describe task.body step.operation ∧
      TidyStep task forefront.arena step.operation
  known : ∀ id ∈ live, ∃ step, forefront.arena.get? id = some step
  members : ∀ id ∈ forefront.members,
    (∃ step, forefront.arena.get? id = some step) ∧ Slim task forefront.arena id

namespace Tidy

open Forefront

variable {task : PlanningTask} {live : List SubPlanId} {forefront : Forefront} {plan : SubPlanId}

theorem subset {fewer : List SubPlanId} (tidy : Tidy task live forefront)
    (less : ∀ id ∈ fewer, id ∈ live) : Tidy task fewer forefront :=
  ⟨tidy.steps, fun id member => tidy.known id (less id member), tidy.members⟩

theorem push (tidy : Tidy task live forefront) {operation : Operation}
    (step : TidyStep task forefront.arena operation) :
    Tidy task ((push task operation forefront).2 :: live) (push task operation forefront).1 where
  steps id found there := by
    rcases Nat.lt_or_ge id.index forefront.arena.size with earlier | later
    · -- an earlier step is the one that was there before
      have before : forefront.arena.get? id = some _ := List.getElem?_eq_getElem earlier
      have same := (Arena.get?_push_of_get? before task.body operation).symm.trans there
      cases same
      obtain ⟨described, tidyStep⟩ := tidy.steps id _ before
      refine ⟨described.trans ?_, tidyStep.push task.body operation⟩
      exact (Arena.describe_push tidyStep.known).symm
    · have inside : id.index < (forefront.arena.push task.body operation).1.size :=
        Arena.lt_size there
      have last : id = (forefront.arena.push task.body operation).2 := by
        refine congrArg Id.mk (Nat.le_antisymm (Nat.le_of_lt_succ ?_) later)
        simpa [Arena.push, Arena.size] using inside
      subst last
      have same := (Arena.get?_push_new forefront.arena task.body operation).symm.trans there
      cases same
      rw [Arena.operation_describe]
      exact ⟨(Arena.describe_push step.known).symm, step.push task.body operation⟩
  known id member := by
    rcases List.mem_cons.mp member with rfl | member
    · exact ⟨_, Arena.get?_push_new forefront.arena task.body operation⟩
    · obtain ⟨_, found⟩ := tidy.known id member
      exact ⟨_, Arena.get?_push_of_get? found task.body operation⟩
  members id member := by
    obtain ⟨⟨_, found⟩, slim⟩ := tidy.members id member
    exact ⟨⟨_, Arena.get?_push_of_get? found task.body operation⟩,
      slim.push found task.body operation⟩

theorem apply (tidy : Tidy task (plan :: live) forefront) (place : ConstraintId) :
    Tidy task ((Forefront.push task (.apply plan place) forefront).2 :: live)
      (Forefront.push task (.apply plan place) forefront).1 := by
  refine (tidy.subset fun id => List.mem_cons_of_mem plan).push ⟨?_, nofun, nofun⟩
  intro child member
  obtain rfl := List.mem_singleton.mp member
  exact tidy.known child List.mem_cons_self

theorem applyAll (ready : List ConstraintId) (forefront : Forefront) (plan : SubPlanId)
    (tidy : Tidy task (plan :: live) forefront) :
    let applied := ready.foldl (fun (forefront, plan) place =>
      Forefront.push task (.apply plan place) forefront) (forefront, plan)
    Tidy task (applied.2 :: live) applied.1 := by
  induction ready generalizing forefront plan with
  | nil => exact tidy
  | cons place rest ih => exact ih _ _ (tidy.apply place)

theorem applyFilters (tidy : Tidy task (plan :: live) forefront) :
    Tidy task ((applyFilters task forefront plan).2 :: live)
      (applyFilters task forefront plan).1 := by
  unfold Forefront.applyFilters
  generalize forefront.filters.partition _ = parts
  exact applyAll parts.1 { forefront with filters := parts.2 } plan
    ⟨tidy.steps, tidy.known, tidy.members⟩

/-- Keeping what is needed is exact as soon as something else is shown. -/
theorem trims_needed (shows : ∃ subject ∈ forefront.arena.visible plan,
      ¬subject ∈ needed task forefront plan) :
    Trims task.body forefront.arena plan
      ((forefront.arena.visible plan).inter (needed task forefront plan)) where
  shown subject member := (OrderedSet.mem_inter.mp member).1
  dropped := by
    obtain ⟨subject, shown, unneeded⟩ := shows
    exact ⟨subject, shown, fun member => unneeded (OrderedSet.mem_inter.mp member).2⟩
  unneeded subject shown dropped need :=
    dropped (OrderedSet.mem_inter.mpr ⟨shown, mem_needed.mpr need⟩)

/-- A trim enforces what its child does, so it needs the same. -/
theorem slim_trimmed (task : PlanningTask) (forefront : Forefront) (plan : SubPlanId) :
    let trimmed := Forefront.push task
      (.trim plan ((forefront.arena.visible plan).inter (needed task forefront plan))) forefront
    Slim task trimmed.1.arena trimmed.2 := by
  intro trimmed _ subject shown
  have visible : _ = (forefront.arena.visible plan).inter (needed task forefront plan) :=
    Arena.visible_push_new forefront.arena task.body (.trim plan _)
  have enforced : trimmed.1.arena.enforced trimmed.2 = forefront.arena.enforced plan :=
    Arena.enforced_push_new forefront.arena task.body (.trim plan _)
  have kept : subject ∈ (forefront.arena.visible plan).inter (needed task forefront plan) :=
    visible ▸ shown
  unfold Arena.Needs
  rw [enforced]
  exact mem_needed.mp (OrderedSet.mem_inter.mp kept).2

theorem trim (on : task.hints.trimVariables = true) (tidy : Tidy task (plan :: live) forefront) :
    Tidy task ((trim task forefront plan).2 :: live) (trim task forefront plan).1 ∧
      Slim task (trim task forefront plan).1.arena (trim task forefront plan).2 := by
  unfold Forefront.trim
  dsimp only
  rw [on, Bool.true_and]
  split
  next drops =>
    rw [Bool.and_eq_true, decide_eq_true_eq, OrderedSet.size_inter_lt] at drops
    refine ⟨(tidy.subset fun id => List.mem_cons_of_mem plan).push ⟨?_, ?_, ?_⟩,
      slim_trimmed task forefront plan⟩
    · intro child member
      obtain rfl := List.mem_singleton.mp member
      exact tidy.known child List.mem_cons_self
    · rintro _ _ ⟨⟩
      exact trims_needed drops.2
    · rintro _ _ ⟨⟩
  next keeps =>
    refine ⟨tidy, ?_⟩
    rintro ⟨place, source, open_⟩ subject shown
    have incomplete : task.sources.isSubset (forefront.arena.enforced plan) = false := by
      refine Bool.eq_false_iff.mpr fun complete => open_ ?_
      exact OrderedSet.isSubset_iff.mp complete place source
    rw [incomplete, Bool.not_false, Bool.true_and, decide_eq_true_eq,
      OrderedSet.size_inter_lt] at keeps
    push Not at keeps
    exact mem_needed.mp (keeps subject shown)

/-- What is accepted becomes a member only after a last round of trimming. -/
theorem accept (on : task.hints.trimVariables = true) (forefront : Forefront) (plan : SubPlanId)
    (tidy : Tidy task (plan :: live) forefront) :
    Tidy task live (accept task forefront plan) := by
  fun_induction Forefront.accept task forefront plan with
  | case1 forefront plan filtered trimmed _ =>
    obtain ⟨trim, slim⟩ := tidy.applyFilters.trim on
    refine ⟨trim.steps, fun id member => trim.known id (List.mem_cons_of_mem _ member), ?_⟩
    intro id member
    rcases OrderedSet.mem_insert.mp member with rfl | member
    · exact ⟨trim.known _ List.mem_cons_self, slim⟩
    · exact trim.members id member
  | case2 forefront plan filtered trimmed place _ applied ih =>
    obtain ⟨trim, _⟩ := tidy.applyFilters.trim on
    have waiting : Tidy task (trimmed.2 :: live)
        { trimmed.1 with deferred := trimmed.1.deferred.erase place } :=
      ⟨trim.steps, trim.known, trim.members⟩
    exact ih (waiting.apply place)

theorem seedAll (operations : List Operation)
    (alone : ∀ operation ∈ operations, operation.children = [])
    (state : Forefront × List SubPlanId) (tidy : Tidy task state.2 state.1) :
    Tidy task (operations.foldl (seedStep task) state).2
      (operations.foldl (seedStep task) state).1 := by
  induction operations generalizing state with
  | nil => exact tidy
  | cons operation rest ih =>
    have childless := alone operation List.mem_cons_self
    have step : TidyStep task state.1.arena operation := by
      refine ⟨?_, ?_, ?_⟩
      · simp [childless]
      · rintro child kept rfl
        cases childless
      · rintro primary secondary rfl
        cases childless
    refine ih (fun other member => alone other (List.mem_cons_of_mem _ member)) _ ?_
    refine (tidy.push step).subset fun id member => ?_
    exact (List.perm_append_singleton _ _).mem_iff.mp member

theorem acceptAll (on : task.hints.trimVariables = true) (plans : List SubPlanId)
    (forefront : Forefront) (tidy : Tidy task plans forefront) :
    Tidy task [] (plans.foldl (Forefront.accept task) forefront) := by
  induction plans generalizing forefront with
  | nil => exact tidy
  | cons plan rest ih => exact ih _ (accept on forefront plan tidy)

theorem seed (on : task.hints.trimVariables = true) : Tidy task [] (seed task) := by
  refine acceptAll on _ _ (seedAll (seedOperations task) (seedOperations_alone task)
    (initial task, []) ?_)
  exact ⟨nofun, nofun, nofun⟩

theorem collapse (on : task.hints.trimVariables = true) (joins : Nat) (forefront : Forefront)
    (tidy : Tidy task [] forefront) : Tidy task [] (collapse task joins forefront) := by
  induction joins generalizing forefront with
  | zero => exact tidy
  | succ joins ih =>
    unfold Forefront.collapse
    split
    · exact tidy
    next primary secondary _ _ _ best =>
      obtain ⟨left, right, _⟩ := best_members best
      have member : ∀ child ∈ [primary, secondary], child ∈ forefront.members := by
        simp [left, right]
      have rest : Tidy task [] { forefront with
          members := (forefront.members.erase primary).erase secondary } := by
        refine ⟨tidy.steps, nofun, fun id remains => ?_⟩
        exact tidy.members id (OrderedSet.mem_erase.mp (OrderedSet.mem_erase.mp remains).1).1
      refine ih _ (accept on _ _ (rest.push ⟨?_, nofun, ?_⟩))
      · intro child listed
        exact (tidy.members child (member child listed)).1
      · rintro _ _ ⟨⟩ child listed
        exact (tidy.members child (member child listed)).2

end Tidy

/-! ## The finished plan -/

theorem Seed.mem_sources {hints : Hints} {body : Body} {adornment : OrderedSet Nat}
    {place : ConstraintId} (seed : Seed hints body adornment (.enumerate place)) :
    place ∈ PlanningTask.sources ⟨body, hints.merge body.hints, body.inputs adornment⟩ := by
  refine OrderedSet.mem_ofList.mpr (Forefront.mem_select.mpr ?_)
  cases seed with
  | enumerable known role => exact ⟨_, known, isSource_iff.mpr (.inl role)⟩
  | constant known role unfiltered =>
    exact ⟨_, known, isSource_iff.mpr (.inr ⟨role, unfiltered⟩)⟩

/-- With trimming on, every trim of a plan drops some variable and none that its child needs, and
what is joined shows only what it needs as long as some source is not enforced. -/
theorem Plan.trims_planned {hints : Hints} {body : Body} {adornment : OrderedSet Nat} {plan : Plan}
    (planned : Plan.ofBodyAdorned hints body adornment = .ok plan)
    (on : (hints.merge body.hints).trimVariables = true) (id : SubPlanId) :
    (∀ child kept, plan.operation? id = some (.trim child kept) →
      plan.arena.visible id = kept ∧ Trims body plan.arena child kept) ∧
    ∀ primary secondary, plan.operation? id = some (.join primary secondary) →
      ∀ child ∈ [primary, secondary],
        (∃ place, Seed hints body adornment (.enumerate place) ∧
          place ∉ plan.arena.enforced child) →
        ∀ subject ∈ plan.arena.visible child, plan.arena.Needs body child subject := by
  obtain ⟨last, single, _, _, _, arena, _⟩ := exists_collapsed planned
  set task : PlanningTask := ⟨body, hints.merge body.hints, body.inputs adornment⟩
  set collapsed := Forefront.collapse task ((Forefront.seed task).members.size - 1)
    (Forefront.seed task)
  have tidy : Tidy task [] collapsed := Tidy.collapse on _ _ (@Tidy.seed task on)
  have member : last ∈ collapsed.members := by
    rw [← OrderedSet.mem_toList, single]
    exact List.mem_singleton_self last
  -- the root is a projection of what is left, which asks for nothing else
  have project : TidyStep task collapsed.arena (.project last body.parameters) := by
    refine ⟨fun child listed => ?_, nofun, nofun⟩
    obtain rfl := List.mem_singleton.mp listed
    exact (tidy.members child member).1
  have tidyStep {operation : Operation} (there : plan.operation? id = some operation) :
      plan.arena.visible id = (plan.arena.describe body operation).visible ∧
        TidyStep task plan.arena operation := by
    obtain ⟨step, found, rfl⟩ := Option.map_eq_some_iff.mp there
    rw [Arena.visible_of_get? found]
    change plan.arena.get? id = some step at found
    rw [arena] at found ⊢
    obtain ⟨described, tidyStep⟩ := (tidy.push project).steps id step found
    exact ⟨congrArg SubPlan.visible described, tidyStep⟩
  constructor
  · intro child kept there
    exact ⟨(tidyStep there).1, (tidyStep there).2.trims child kept rfl⟩
  · rintro primary secondary there child listed ⟨place, seed, absent⟩
    exact (tidyStep there).2.joins primary secondary rfl child listed
      ⟨place, seed.mem_sources, absent⟩

/-- What is reached over an edge between different nodes and one more edge. -/
def detour : Body :=
  ⟨⟨"detour", 0, ["x", "y", "z"],
    [.relation ⟨0⟩ [⟨0⟩, ⟨1⟩] [], .different ⟨0⟩ ⟨1⟩, .relation ⟨0⟩ [⟨1⟩, ⟨2⟩] []], [⟨2⟩], {}⟩,
    by decide⟩

/-- The start of the first edge is dropped as soon as it was compared, before the join. -/
theorem trims_detour :
    ∃ plan, Plan.ofBodyAdorned {} detour .empty = .ok plan ∧
      plan.operation? ⟨2⟩ = some (.apply ⟨0⟩ ⟨1⟩) ∧
      plan.operation? ⟨3⟩ = some (.trim ⟨2⟩ (.singleton ⟨1⟩)) ∧
      plan.operation? ⟨4⟩ = some (.join ⟨1⟩ ⟨3⟩) ∧
      (∃ subject ∈ plan.arena.visible ⟨2⟩, ¬subject ∈ OrderedSet.singleton (⟨1⟩ : VarId)) ∧
      ¬plan.arena.Needs detour ⟨2⟩ ⟨0⟩ ∧
      ∀ subject ∈ plan.arena.visible ⟨3⟩, plan.arena.Needs detour ⟨3⟩ subject := by
  have ran : (Plan.ofBodyAdorned {} detour .empty >>= fun plan =>
      .ok ([⟨2⟩, ⟨3⟩, ⟨4⟩].map plan.operation?, plan.arena.visible ⟨2⟩, plan.arena.enforced ⟨3⟩)) =
        .ok ([some (.apply ⟨0⟩ ⟨1⟩), some (.trim ⟨2⟩ (.singleton ⟨1⟩)), some (.join ⟨1⟩ ⟨3⟩)],
          .ofList [⟨0⟩, ⟨1⟩], .ofList [⟨0⟩, ⟨1⟩]) :=
    of_decide_eq_true (by decide +kernel)
  obtain ⟨plan, planned, read⟩ := ok_of_bind ran
  obtain ⟨operations, visible, enforced⟩ : _ ∧ _ ∧ _ := by
    simpa only [Except.ok.injEq, Prod.mk.injEq] using read
  obtain ⟨applied, trim, join⟩ : _ ∧ _ ∧ _ := by
    simpa only [List.map_cons, List.map_nil, List.cons.injEq, and_true] using operations
  obtain ⟨_, trims⟩ := (Plan.trims_planned planned rfl ⟨3⟩).1 _ _ trim
  refine ⟨plan, planned, applied, trim, join, trims.dropped, ?_, ?_⟩
  · exact trims.unneeded ⟨0⟩ (visible ▸ OrderedSet.mem_ofList.mpr (by decide)) (by decide)
  · refine (Plan.trims_planned planned rfl ⟨4⟩).2 _ _ join _ (by simp) ⟨⟨2⟩, ?_, ?_⟩
    · exact .enumerable rfl rfl
    · rw [enforced]
      decide

end LiveQuery
