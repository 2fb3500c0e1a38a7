import LiveQuery.Proofs.Engine.Applying

/-!
# Rules and matches

Whatever is done with an engine, and whatever fails on the way, the activations of its rules mirror
the matches of their queries (`Watched.run_mirrors`): as they are, or, as long as the network is
poisoned, as they have last been reported.  This holds as long as jobs report nothing to rules
themselves (`Rule.Plain`).

What has been reported is recorded beside the engine (`Watched`), by a session around its network.
`Watched.Valid` is the invariant: the record is what users have been told, the scheduler is in step
with it, and rules are on the queries that they name.  An operation that succeeds tells the rules
what it tells the users, and one that fails tells neither, so each of them keeps the invariant
(`Valid.step`).

How a rule mirrors a match depends on its lifecycle (`Valid.mirrors`).  In the default one, a match
that is there has an activation in one of three states, and one that is gone at most an activation
that has still to tell so.  In the simple one, only matches that are there have activations.  When
nothing is left to fire, all activations have fired, and just the matches that are there have one
(`Reflects.hasFired`).
-/

namespace LiveQuery

/-- What can be done with an engine.  To insert or delete a fact is to apply one change. -/
inductive Engine.Action (σ : Type) where
  | installQuery (bodies : List Body)
  | addRule (rule : Rule σ)
  | apply (changes : List FactChange)
  | reset
  | fireAll (turns : Nat)
  /-- What surrounds the jobs changes between two operations. -/
  | outside (change : σ → σ)

/-- An engine after an action, which may have failed. -/
def Engine.perform {σ : Type} (checks : σ → Checks) (engine : Engine σ) : Action σ → Engine σ
  | .installQuery bodies => (engine.installQuery checks bodies).1
  | .addRule rule =>
    match engine.addRule rule with
    | .ok (added, _) => added
    | .error _ => engine
  | .apply changes => (engine.apply checks changes).1
  | .reset => (engine.reset checks).1
  | .fireAll turns => (engine.fireAll turns checks).1
  | .outside change => { engine with scheduler.host := change engine.scheduler.host }

/-- An engine, and the match sets of its queries as last reported. -/
structure Watched (σ : Type) where
  engine : Engine σ
  reported : List (OrderedSet Tuple)

namespace Watched

variable {σ : Type} {watched : Watched σ}

/-- Nothing has been done yet. -/
def new [Draw.Generator] (network : NetworkId) (hints : Hints) (policy : Policy)
    (order : BucketOrder) (host : σ) : Watched σ :=
  ⟨.new network hints policy order host, []⟩

/-- The network and what has been reported of it. -/
def session (watched : Watched σ) : Session := ⟨watched.engine.network, [], watched.reported⟩

/-- What has been reported after an action.  A new query is reported with its present matches. -/
def told (checks : σ → Checks) (watched : Watched σ) : Engine.Action σ → List (OrderedSet Tuple)
  | .installQuery bodies => watched.reported ++
      (watched.engine.installQuery checks bodies).1.network.matchSets.drop watched.reported.length
  | .apply changes =>
    (watched.session.applyAll (checks watched.engine.scheduler.host) changes).reported
  | .reset => (watched.session.record
      (watched.engine.network.reset (checks watched.engine.scheduler.host))).reported
  | .fireAll turns =>
    (Scheduler.runWith turns (Engine.applyRecorded checks watched.engine.routes) watched.session
      watched.engine.scheduler).1.reported
  | .addRule _ | .outside _ => watched.reported

def step (checks : σ → Checks) (watched : Watched σ) (action : Engine.Action σ) : Watched σ :=
  ⟨watched.engine.perform checks action, watched.told checks action⟩

/-- Performs actions in order, each with its own checks. -/
def run (watched : Watched σ) (steps : List ((σ → Checks) × Engine.Action σ)) : Watched σ :=
  steps.foldl (fun watched (checks, action) => watched.step checks action) watched

/-- The tuple is a match of the query, or it was one when the network was last usable. -/
def Shows (watched : Watched σ) (query : QueryId) (tuple : Tuple) : Prop :=
  if watched.engine.network.isPoisoned then Matched watched.reported query tuple
  else ∃ found, watched.engine.network.matchesOf query = .ok found ∧ tuple ∈ found

/-! ## The invariant -/

/-- Users know the match sets, the rules are in step with them, and names lead to queries. -/
structure Valid (watched : Watched σ) : Prop where
  tracked : watched.session.Tracked
  inStep : watched.engine.scheduler.InStep watched.engine.routes watched.reported
  named : watched.engine.Named

theorem valid_new [Draw.Generator] (network : NetworkId) (hints : Hints) (policy : Policy)
    (order : BucketOrder) (host : σ) : (new network hints policy order host).Valid where
  tracked := Session.tracked_new network
  inStep := Scheduler.inStep_new policy order host
  named := Engine.named_new network hints policy order host

theorem Valid.underway (valid : watched.Valid) :
    watched.engine.Underway watched.session watched.engine.scheduler :=
  ⟨valid.tracked, valid.inStep, rfl, rfl, rfl⟩

/-- What comes of an engine by changes is valid. -/
theorem Valid.arrive (valid : watched.Valid) {session : Session} {scheduler : Scheduler σ}
    (underway : watched.engine.Underway session scheduler) :
    Valid ⟨{ watched.engine with network := session.network, scheduler }, session.reported⟩ where
  tracked := ⟨underway.tracked.wired, underway.tracked.length, underway.tracked.reported⟩
  inStep := underway.inStep
  named := valid.named.congr ⟨underway.id, underway.queries⟩ rfl rfl underway.rules

/-! ## Matches -/

theorem matchesOf_eq_ok_iff {network : Network} {query : QueryId} {found : OrderedSet Tuple} :
    network.matchesOf query = .ok found ↔
      network.reported = none ∧ network.matchSets[query.index]? = some found := by
  unfold Network.matchesOf Network.demandUsable Network.demandQuery Network.query?
    Network.isPoisoned Network.matchSets
  rw [List.getElem?_map]
  cases network.reported <;> cases network.queries[query.index]? <;>
    simp [bind, Except.bind, pure, Except.pure]

theorem Valid.matched_iff (valid : watched.Valid) {query : QueryId} {found : OrderedSet Tuple}
    (current : watched.engine.network.matchesOf query = .ok found) (tuple : Tuple) :
    Matched watched.reported query tuple ↔ tuple ∈ found := by
  obtain ⟨usable, sets⟩ := matchesOf_eq_ok_iff.mp current
  have known : watched.reported = watched.engine.network.matchSets := valid.tracked.usable usable
  simp [Matched, known, sets]

/-- What is shown has been reported, whether the network is usable or not. -/
theorem Valid.shows_iff (valid : watched.Valid) {query : QueryId} {tuple : Tuple} :
    watched.Shows query tuple ↔ Matched watched.reported query tuple := by
  unfold Shows
  split
  · rfl
  next healthy =>
    have usable : watched.engine.network.reported = none := by
      simpa [Network.isPoisoned] using healthy
    have known : watched.reported = watched.engine.network.matchSets := valid.tracked.usable usable
    simp [Matched, known, matchesOf_eq_ok_iff, usable]

/-! ## Queries -/

theorem Valid.inside (valid : watched.Valid) {query : QueryId} {number : RuleId}
    (listed : number ∈ Scheduler.routedTo watched.engine.routes query) :
    query.index < watched.reported.length := by
  obtain ⟨rule, known⟩ := valid.inStep.routing.known query number listed
  obtain ⟨named, found, here⟩ := valid.named.routed number rule known
  obtain rfl := valid.inStep.routing.single query named number listed here
  exact valid.tracked.length ▸ valid.named.inside _ query found

theorem Valid.installQuery (valid : watched.Valid) (checks : σ → Checks) (bodies : List Body) :
    (watched.step checks (.installQuery bodies)).Valid := by
  rcases Engine.installQuery_cases checks valid.tracked.wired bodies with
    same | ⟨plans, network, query, cached, added, outcome, installed, place, unknown, id, queries⟩
  · have complete : watched.engine.network.matchSets.drop watched.reported.length = [] := by
      refine List.drop_eq_nil_of_le (Nat.le_of_eq ?_)
      exact (List.length_map _).trans valid.tracked.length.symm
    unfold step told Engine.perform
    dsimp only
    rw [same, complete, List.append_nil]
    exact valid
  · have tracked := (valid.tracked.install (checks watched.engine.scheduler.host) plans).1
    unfold Session.step at tracked
    unfold step told Engine.perform
    dsimp only [session] at tracked ⊢
    rw [installed] at tracked
    rw [outcome]
    exact ⟨⟨tracked.wired, tracked.length, tracked.reported⟩,
      valid.inStep.grow (fun _ _ => valid.inside) _,
      valid.named.install place unknown id queries⟩

/-! ## Rules -/

theorem Valid.addRule (valid : watched.Valid) (checks : σ → Checks) {rule : Rule σ}
    (plain : rule.Plain) : (watched.step checks (.addRule rule)).Valid := by
  unfold step told Engine.perform
  dsimp only
  split
  next after number added =>
    obtain ⟨query, present, told, found, current, reached, rfl⟩ := Engine.addRule_ok added
    have matched (tuple : Tuple) : tuple ∈ present ↔ Matched watched.reported query tuple := by
      exact (valid.matched_iff current tuple).symm
    obtain ⟨_, same, inStep, rules⟩ := valid.inStep.addRule plain matched
    cases reached.symm.trans same
    exact ⟨valid.tracked, inStep, valid.named.addRule found rules⟩
  next => exact valid

/-! ## Steps -/

theorem Valid.reset (valid : watched.Valid) (checks : σ → Checks) :
    (watched.step checks .reset).Valid := by
  obtain ⟨tracked, told⟩ := valid.tracked.reset (checks watched.engine.scheduler.host)
  have keeps := watched.engine.network.reset_keeps (checks watched.engine.scheduler.host)
  unfold step Watched.told Engine.perform Engine.reset
  dsimp only [session] at tracked told ⊢
  generalize watched.engine.network.reset (checks watched.engine.scheduler.host) = outcome at *
  obtain ⟨after, error | events⟩ := outcome
  · exact valid.arrive (valid.underway.failed tracked keeps)
  · obtain ⟨routed, reached, underway⟩ := valid.underway.done tracked told keeps
    dsimp only
    rw [reached]
    exact valid.arrive underway

theorem Valid.apply (valid : watched.Valid) (checks : σ → Checks) (changes : List FactChange) :
    (watched.step checks (.apply changes)).Valid := by
  have outcome := Engine.applyRouted_network checks watched.engine.routes watched.session
    watched.engine.scheduler changes
  unfold step told Engine.perform Engine.apply
  dsimp only [session] at outcome ⊢
  rw [outcome]
  exact valid.arrive (valid.underway.applyRecorded checks changes)

/-- A run in an engine is the run that keeps what users learn. -/
theorem fireAll_eq (watched : Watched σ) (checks : σ → Checks) (turns : Nat) :
    let outcome := Scheduler.runWith turns (Engine.applyRecorded checks watched.engine.routes)
      watched.session watched.engine.scheduler
    watched.engine.fireAll turns checks =
      ({ watched.engine with network := outcome.1.network, scheduler := outcome.2.1 },
        outcome.2.2) := by
  unfold Engine.fireAll
  rw [show watched.engine.network = watched.session.network from rfl,
    Scheduler.runWith_map Session.network (Engine.applyRouted_network checks watched.engine.routes)]

theorem Valid.fireAll (valid : watched.Valid) (checks : σ → Checks) (turns : Nat) :
    (watched.step checks (.fireAll turns)).Valid ∧
      ∀ summary, (watched.engine.fireAll turns checks).2 = .finished summary →
        (watched.step checks (.fireAll turns)).engine.scheduler.Quiet := by
  obtain ⟨underway, quiet⟩ := valid.underway.runWith checks turns
  unfold step told Engine.perform
  dsimp only
  rw [fireAll_eq]
  exact ⟨valid.arrive underway, quiet⟩

theorem Valid.step (valid : watched.Valid) (checks : σ → Checks) (action : Engine.Action σ)
    (plain : ∀ rule, action = .addRule rule → rule.Plain) : (watched.step checks action).Valid := by
  cases action with
  | installQuery bodies => exact valid.installQuery checks bodies
  | addRule rule => exact valid.addRule checks (plain rule rfl)
  | apply changes => exact valid.apply checks changes
  | reset => exact valid.reset checks
  | fireAll turns => exact (valid.fireAll checks turns).1
  | outside change => exact valid.arrive (valid.underway.aside _ _ _ _)

theorem Valid.run (valid : watched.Valid) {steps : List ((σ → Checks) × Engine.Action σ)}
    (plain : ∀ step ∈ steps, ∀ rule, step.2 = .addRule rule → rule.Plain) :
    (watched.run steps).Valid := by
  induction steps generalizing watched with
  | nil => exact valid
  | cons step rest ih =>
    exact ih (valid.step step.1 step.2 (plain step List.mem_cons_self))
      fun other member => plain other (List.mem_cons_of_mem _ member)

/-! ## Rules and their matches -/

/-- Exactly the tuples that are shown have an activation for a match that is there. -/
def MirrorsDefault (watched : Watched σ) (number : RuleId) (query : QueryId) : Prop :=
  ∀ tuple,
    (watched.Shows query tuple ↔ ∃ activation ∈ watched.engine.scheduler.live,
      activation.rule = number ∧ activation.tuple = tuple ∧
        activation.state ∈ ["appeared", "fired", "updated"]) ∧
    (¬watched.Shows query tuple → ∀ activation ∈ watched.engine.scheduler.live,
      activation.rule = number → activation.tuple = tuple → activation.state = "disappeared")

/-- Only tuples that are shown have activations. -/
def MirrorsSimple (watched : Watched σ) (number : RuleId) (query : QueryId) : Prop :=
  ∀ activation ∈ watched.engine.scheduler.live, activation.rule = number →
    watched.Shows query activation.tuple

/-- Exactly the tuples that are shown have activations, all of which have fired. -/
def HasFired (watched : Watched σ) (number : RuleId) (query : QueryId) : Prop :=
  (∀ tuple, watched.Shows query tuple ↔ ∃ activation ∈ watched.engine.scheduler.live,
    activation.rule = number ∧ activation.tuple = tuple) ∧
  ∀ activation ∈ watched.engine.scheduler.live, activation.rule = number →
    activation.state = "fired"

/-- The activations of a rule mirror what is shown of the query that it names, as far as its
lifecycle mirrors presence. -/
theorem Valid.mirrors (valid : watched.Valid) {number : RuleId} {rule : Rule σ}
    (known : watched.engine.scheduler.rule? number = some rule) :
    ∃ query, watched.engine.findQuery? rule.query = some query ∧
      ∀ present absent, rule.lifecycle.Mirrors present absent →
        (∀ activation ∈ watched.engine.scheduler.live, activation.rule = number →
          (watched.Shows query activation.tuple → some activation.state ∈ present) ∧
          (¬watched.Shows query activation.tuple → some activation.state ∈ absent)) ∧
        (none ∉ present → ∀ tuple, watched.Shows query tuple →
          ∃ activation ∈ watched.engine.scheduler.live,
            activation.rule = number ∧ activation.tuple = tuple) := by
  obtain ⟨query, found, listed⟩ := valid.named.routed number rule known
  refine ⟨query, valid.named.findQuery?_eq_some.mpr found, fun present absent mirrors => ?_⟩
  have states := valid.inStep.mirrors query number listed rule known present absent mirrors
  simp only [← valid.shows_iff] at states
  refine ⟨fun activation live here => ?_, fun some_ tuple shown => ?_⟩
  · have state := (Scheduler.stateOf?_eq_some_iff valid.inStep.coherent).mpr
      ⟨activation, live, here, rfl, rfl⟩
    exact state ▸ states activation.tuple
  · have state := (states tuple).1 shown
    cases stateHere : watched.engine.scheduler.stateOf? number tuple with
    | none => exact absurd (stateHere ▸ state) some_
    | some name =>
      obtain ⟨activation, live, here, about, _⟩ :=
        (Scheduler.stateOf?_eq_some_iff valid.inStep.coherent).mp stateHere
      exact ⟨activation, live, here, about⟩

/-- The activations of a rule tell what is shown, if its lifecycle is the default one. -/
structure Reflects (watched : Watched σ) (number : RuleId) (query : QueryId) : Prop where
  present : ∀ activation ∈ watched.engine.scheduler.live, activation.rule = number →
    watched.Shows query activation.tuple → activation.state ∈ ["appeared", "fired", "updated"]
  absent : ∀ activation ∈ watched.engine.scheduler.live, activation.rule = number →
    ¬watched.Shows query activation.tuple → activation.state = "disappeared"
  exist : ∀ tuple, watched.Shows query tuple → ∃ activation ∈ watched.engine.scheduler.live,
    activation.rule = number ∧ activation.tuple = tuple

theorem Valid.reflects (valid : watched.Valid) {number : RuleId} {rule : Rule σ}
    (known : watched.engine.scheduler.rule? number = some rule)
    (default : rule.lifecycle = .default) :
    ∃ query, watched.engine.findQuery? rule.query = some query ∧ watched.Reflects number query := by
  obtain ⟨query, found, mirrors⟩ := valid.mirrors known
  obtain ⟨states, exist⟩ := mirrors _ _ (default ▸ Lifecycle.mirrors_default)
  refine ⟨query, found, fun activation live here shown => ?_, fun activation live here hidden => ?_,
    exist (by decide)⟩
  · simpa using (states activation live here).1 shown
  · simpa using (states activation live here).2 hidden

theorem Reflects.mirrorsDefault {number : RuleId} {query : QueryId}
    (reflects : watched.Reflects number query) : watched.MirrorsDefault number query := by
  refine fun tuple => ⟨⟨fun shown => ?_, ?_⟩, ?_⟩
  · obtain ⟨activation, live, here, rfl⟩ := reflects.exist tuple shown
    exact ⟨activation, live, here, rfl, reflects.present activation live here shown⟩
  · rintro ⟨activation, live, here, rfl, state⟩
    by_contra hidden
    rw [reflects.absent activation live here hidden] at state
    exact absurd state (by decide)
  · rintro hidden activation live here rfl
    exact reflects.absent activation live here hidden

/-- When nothing is left to fire, matches that are not shown have been forgotten and the others have
fired. -/
theorem Reflects.hasFired {number : RuleId} {query : QueryId} {rule : Rule σ}
    (reflects : watched.Reflects number query)
    (known : watched.engine.scheduler.rule? number = some rule)
    (default : rule.lifecycle = .default) (quiet : watched.engine.scheduler.Quiet) :
    watched.HasFired number query := by
  have waits (activation) (live : activation ∈ watched.engine.scheduler.live)
      (here : activation.rule = number) : Lifecycle.default.isFireable activation.state = false :=
    default ▸ quiet activation live rule (here ▸ known)
  have shown (activation) (live : activation ∈ watched.engine.scheduler.live)
      (here : activation.rule = number) : watched.Shows query activation.tuple := by
    by_contra hidden
    have waits := waits activation live here
    rw [reflects.absent activation live here hidden] at waits
    exact absurd waits (by decide)
  refine ⟨fun tuple => ⟨reflects.exist tuple, ?_⟩, fun activation live here => ?_⟩
  · rintro ⟨activation, live, here, rfl⟩
    exact shown activation live here
  · have waits := waits activation live here
    have state := reflects.present activation live here (shown activation live here)
    simp only [List.mem_cons, List.not_mem_nil, or_false] at state
    rcases state with appeared | fired | updated
    · exact absurd (appeared ▸ waits) (by decide)
    · exact fired
    · exact absurd (updated ▸ waits) (by decide)

theorem Valid.mirrorsSimple (valid : watched.Valid) {number : RuleId} {rule : Rule σ}
    (known : watched.engine.scheduler.rule? number = some rule)
    (simple : rule.lifecycle = .simple) :
    ∃ query, watched.engine.findQuery? rule.query = some query ∧
      watched.MirrorsSimple number query := by
  obtain ⟨query, found, mirrors⟩ := valid.mirrors known
  obtain ⟨states, _⟩ := mirrors _ _ (simple ▸ Lifecycle.mirrors_simple)
  refine ⟨query, found, fun activation live here => ?_⟩
  by_contra hidden
  simpa using (states activation live here).2 hidden

/-- Whatever has been done with an engine: a rule has at most one activation for a tuple, its
activations mirror the matches of the query that it names, and after a run that has finished exactly
the matches have activations, which have all fired. -/
theorem run_mirrors [Draw.Generator] (network : NetworkId) (hints : Hints) (policy : Policy)
    (order : BucketOrder) (host : σ) {steps : List ((σ → Checks) × Engine.Action σ)}
    (plain : ∀ step ∈ steps, ∀ rule, step.2 = .addRule rule → rule.Plain) :
    let watched := (new network hints policy order host).run steps
    watched.engine.scheduler.live.Pairwise (fun first second =>
      (first.rule, first.tuple) ≠ (second.rule, second.tuple)) ∧
    (∀ number rule, watched.engine.scheduler.rule? number = some rule →
      ∃ query, watched.engine.findQuery? rule.query = some query ∧
        (rule.lifecycle = .default → watched.MirrorsDefault number query) ∧
        (rule.lifecycle = .simple → watched.MirrorsSimple number query)) ∧
    ∀ checks turns summary, (watched.engine.fireAll turns checks).2 = .finished summary →
      let fired := watched.step checks (.fireAll turns)
      ∀ number rule, fired.engine.scheduler.rule? number = some rule → rule.lifecycle = .default →
        ∃ query, fired.engine.findQuery? rule.query = some query ∧ fired.HasFired number query := by
  have valid := (valid_new network hints policy order host).run plain
  refine ⟨valid.inStep.coherent.pairwise_live.imp And.left, fun number rule known => ?_,
    fun checks turns summary finished number rule known default => ?_⟩
  · obtain ⟨query, found, _⟩ := valid.mirrors known
    refine ⟨query, found, fun default => ?_, fun simple => ?_⟩
    · obtain ⟨_, same, reflects⟩ := valid.reflects known default
      cases found.symm.trans same
      exact reflects.mirrorsDefault
    · obtain ⟨_, same, mirrors⟩ := valid.mirrorsSimple known simple
      cases found.symm.trans same
      exact mirrors
  · obtain ⟨after, quiet⟩ := valid.fireAll checks turns
    obtain ⟨query, found, reflects⟩ := after.reflects known default
    exact ⟨query, found, reflects.hasFired known default (quiet summary finished)⟩

/-- Answers the fact that holds false with the one that holds true. -/
def answering : Rule Unit :=
  Rule.withJob ⟨"answering", "listing", .default, 0, .empty⟩ "appeared" fun activation host =>
    ⟨if activation.tuple = [.bool false] then Agenda.insert {} ⟨⟨0⟩, [.bool true]⟩ else {},
      none, host⟩

theorem answering_plain : answering.Plain := by
  refine Rule.Plain.withJob (fun _ _ found => by cases found) (fun activation host => ?_) "appeared"
  dsimp only
  split <;> exact ⟨rfl, .inl rfl⟩

/-- A fact that comes after the rule. -/
def answeringSteps : List ((Unit → Checks) × Engine.Action Unit) :=
  [(fun _ _ _ => .ok true, .installQuery [Session.listing.body]),
    (fun _ _ _ => .ok true, .addRule answering),
    (fun _ _ _ => .ok true, .apply [⟨.insert, ⟨⟨0⟩, [.bool false]⟩⟩])]

/-- The match that a job causes fires in the same run. -/
theorem answering_hasFired :
    let watched := (new ⟨0⟩ {} .fixed .fifo ()).run answeringSteps
    let fired := watched.step (fun _ _ _ => .ok true) (.fireAll 3)
    (watched.engine.fireAll 3 (fun _ _ _ => .ok true)).2 = .finished ⟨2, 0, []⟩ ∧
      fired.Shows ⟨0⟩ [.bool true] ∧ fired.HasFired ⟨0⟩ ⟨0⟩ := by
  intro watched fired
  have plain : ∀ step ∈ answeringSteps, ∀ rule, step.2 = .addRule rule → rule.Plain := by
    intro step member rule added
    simp only [answeringSteps, List.mem_cons, List.not_mem_nil, or_false] at member
    rcases member with rfl | rfl | rfl
    · cases added
    · cases added
      exact answering_plain
    · cases added
  have finished : (watched.engine.fireAll 3 (fun _ _ _ => .ok true)).2 = .finished ⟨2, 0, []⟩ := by
    decide +kernel
  have known : (fired.engine.scheduler.rule? ⟨0⟩).map (fun rule => (rule.lifecycle, rule.query)) =
      some (.default, "listing") := by
    decide +kernel
  have named : fired.engine.findQuery? "listing" = some ⟨0⟩ := by decide +kernel
  have answered : ∃ activation ∈ fired.engine.scheduler.live,
      activation.rule = ⟨0⟩ ∧ activation.tuple = [.bool true] := by
    decide +kernel
  obtain ⟨rule, known, same⟩ := Option.map_eq_some_iff.mp known
  obtain ⟨default, query⟩ := Prod.mk.inj same
  obtain ⟨_, found, hasFired⟩ :=
    (run_mirrors ⟨0⟩ {} .fixed .fifo () plain).2.2 _ 3 _ finished ⟨0⟩ rule known default
  have found : fired.engine.findQuery? rule.query = some _ := found
  rw [query, named] at found
  cases found
  exact ⟨finished, (hasFired.1 _).mpr answered, hasFired⟩

end Watched
end LiveQuery
