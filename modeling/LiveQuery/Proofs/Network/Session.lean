import LiveQuery.Proofs.Network.Meaning
import LiveQuery.Proofs.Network.Operations

/-!
# Sessions

A session is a network together with a record of what its users know: the plans that every query was
installed from, and the match sets that were last reported.  `Session.run` performs actions one
after another, each with its own checks, and goes on after failures.  An action keeps the wiring,
unless it is an install that succeeds (`step_cases`).

`Session.Sound` is the invariant of all sessions whose checks agree: the network is wired, it is
settled unless it is poisoned, and every query has a production for its plans.  Each operation keeps
it, whether it succeeds or not, by its own list of outcomes: a change and a reset leave the wiring
and settle the network when they succeed (`Sound.change`, `Sound.reset`), an install adds nodes that
are settled when the others are (`Sound.install`).

Hence a network that is not poisoned holds for every query the matches that the batch evaluator
finds for the plans of the query (`matchesOf_eq_batch`).
-/

namespace LiveQuery

/-- Something that a user of a network does. -/
inductive Action where
  | install (plans : List Plan)
  | change (change : FactChange)
  | apply (changes : List FactChange)
  | reset
  | subscribe (query : QueryId)

/-- A network, the plans of its queries, and their match sets as last reported. -/
structure Session where
  network : Network
  plans : List (List Plan)
  reported : List (OrderedSet Tuple)

namespace Session

/-- Nothing has been done yet. -/
def new (id : NetworkId) : Session := ⟨.new id, [], []⟩

/-- After an operation that reports events when it succeeds. -/
def record (session : Session) (outcome : Network × Except Error (List MatchEvent)) : Session :=
  match outcome with
  | (network, .ok _) => { session with network, reported := network.matchSets }
  | (network, .error _) => { session with network }

/-- Applies changes one at a time until one fails. -/
def applyAll (checks : Checks) (session : Session) : List FactChange → Session
  | [] => session
  | first :: rest =>
    let outcome := session.network.change checks first
    match outcome.2 with
    | .ok _ => (session.record outcome).applyAll checks rest
    | .error _ => session.record outcome

/-- Performs one action; a new query is reported with its present matches. -/
def step (checks : Checks) (session : Session) : Action → Session
  | .install plans =>
    match session.network.install checks plans with
    | (network, .ok _) =>
      { network
        plans := session.plans ++ [plans]
        reported := session.reported ++ network.matchSets.drop session.reported.length }
    | (network, .error _) => { session with network }
  | .change change => session.record (session.network.change checks change)
  | .apply changes => session.applyAll checks changes
  | .reset => session.record (session.network.reset checks)
  | .subscribe query =>
    match session.network.subscribe query with
    | .ok network => { session with network }
    | .error _ => session

/-- Performs actions in order, each with its own checks. -/
def run (session : Session) (steps : List (Checks × Action)) : Session :=
  steps.foldl (fun session (checks, action) => session.step checks action) session

theorem network_applyAll (checks : Checks) (session : Session) (changes : List FactChange) :
    (session.applyAll checks changes).network = (session.network.apply checks changes).1 := by
  have until_ : (session.applyAll checks changes).network =
      (session.network.applyUntilFailure checks changes).1 := by
    induction changes generalizing session with
    | nil => rfl
    | cons first rest ih =>
      rw [applyAll, Network.applyUntilFailure]
      generalize session.network.change checks first = outcome
      obtain ⟨network, events | error⟩ := outcome
      · rfl
      · exact ih _
  rw [until_]
  unfold Network.apply
  split <;> simp_all

theorem network_record (session : Session) (outcome : Network × Except Error (List MatchEvent)) :
    (session.record outcome).network = outcome.1 := by
  obtain ⟨network, error | events⟩ := outcome <;> rfl

theorem plans_record (session : Session) (outcome : Network × Except Error (List MatchEvent)) :
    (session.record outcome).plans = session.plans := by
  obtain ⟨network, error | events⟩ := outcome <;> rfl

theorem network_install (checks : Checks) (session : Session) (plans : List Plan) :
    (session.step checks (.install plans)).network = (session.network.install checks plans).1 := by
  unfold step
  dsimp only
  split
  next found => rw [found]
  next found => rw [found]

/-! ## Induction -/

/-- What every change keeps holds after several changes, wherever they stop. -/
theorem applyAll_induction {P : Session → Prop} {checks : Checks}
    (change : ∀ session change, P session →
      P (session.record (session.network.change checks change)))
    {session : Session} (begins : P session) (changes : List FactChange) :
    P (session.applyAll checks changes) := by
  induction changes generalizing session with
  | nil => exact begins
  | cons first rest ih =>
    have next := change session first begins
    unfold applyAll
    dsimp only
    split
    · exact ih next
    · exact next

/-- What every step keeps holds at the end. -/
theorem run_induction {P : Session → Prop} {session : Session} {steps : List (Checks × Action)}
    (begins : P session)
    (step : ∀ step ∈ steps, ∀ session, P session → P (session.step step.1 step.2)) :
    P (session.run steps) := by
  induction steps generalizing session with
  | nil => exact begins
  | cons first rest ih =>
    rw [List.forall_mem_cons] at step
    exact ih (step.1 session begins) step.2

/-! ## Wiring -/

theorem sameWiring_change (checks : Checks) (session : Session) (change : FactChange) :
    Network.SameWiring session.network
      (session.record (session.network.change checks change)).network := by
  rw [network_record]
  exact (Network.change_outcome checks session.network change).sameWiring

theorem sameWiring_applyAll (checks : Checks) (session : Session) (changes : List FactChange) :
    (session.applyAll checks changes).plans = session.plans ∧
      Network.SameWiring session.network (session.applyAll checks changes).network := by
  refine applyAll_induction (P := fun now => now.plans = session.plans ∧
    Network.SameWiring session.network now.network) ?_ ⟨rfl, .refl _⟩ changes
  intro now change kept
  exact ⟨(plans_record _ _).trans kept.1, kept.2.trans (sameWiring_change checks now change)⟩

theorem sameWiring_step (checks : Checks) (session : Session) {action : Action}
    (other : ∀ plans, action ≠ .install plans) :
    (session.step checks action).plans = session.plans ∧
      Network.SameWiring session.network (session.step checks action).network := by
  cases action with
  | install plans => exact absurd rfl (other plans)
  | change change => exact ⟨plans_record _ _, sameWiring_change checks session change⟩
  | apply changes => exact sameWiring_applyAll checks session changes
  | reset =>
    refine ⟨plans_record _ _, ?_⟩
    show Network.SameWiring _ (session.record (session.network.reset checks)).network
    rw [network_record]
    exact (Network.reset_outcome checks session.network).sameWiring
  | subscribe query =>
    unfold step Network.subscribe
    dsimp only
    cases session.network.demandQuery query with
    | error error => exact ⟨rfl, .refl _⟩
    | ok installed => exact ⟨rfl, rfl, rfl⟩

/-- An action keeps the plans and the wiring, unless it is an install that succeeds. -/
theorem step_cases {session : Session} (wired : session.network.Wired) (checks : Checks)
    (action : Action) :
    ((session.step checks action).plans = session.plans ∧
      Network.SameWiring session.network (session.step checks action).network) ∨
    ∃ plans query, (session.step checks action).plans = session.plans ++ [plans] ∧
      session.network.install checks plans =
        ((session.step checks action).network, .ok query) := by
  by_cases installs : ∃ plans, action = .install plans
  · obtain ⟨plans, rfl⟩ := installs
    have spec := Network.install_spec checks wired plans
    unfold step
    dsimp only
    cases outcome : session.network.install checks plans with
    | mk network answer =>
      rw [outcome] at spec
      cases answer with
      | error error => exact .inl ⟨rfl, spec ▸ .refl _⟩
      | ok query => exact .inr ⟨plans, query, rfl, outcome⟩
  · exact .inl (sameWiring_step checks session fun plans same => installs ⟨plans, same⟩)

/-- The plans of a session are among those that were to be installed. -/
theorem forall_plans {P : Plan → Prop} (id : NetworkId) (steps : List (Checks × Action))
    (installs : ∀ step ∈ steps, ∀ plans, step.2 = .install plans → ∀ plan ∈ plans, P plan) :
    ∀ plan ∈ ((new id).run steps).plans.flatten, P plan := by
  refine run_induction (P := fun session => ∀ plan ∈ session.plans.flatten, P plan) nofun ?_
  intro step member session before
  have planned := installs step member
  obtain ⟨checks, action⟩ := step
  cases action with
  | install plans =>
    unfold Session.step
    dsimp only
    split
    · intro plan listed
      rw [List.flatten_append, List.mem_append] at listed
      exact listed.elim (before plan) fun new => planned plans rfl plan (by simpa using new)
    · exact before
  | change change =>
    show ∀ plan ∈ (session.record _).plans.flatten, P plan
    rwa [plans_record]
  | apply changes =>
    show ∀ plan ∈ (session.applyAll checks changes).plans.flatten, P plan
    rwa [(sameWiring_applyAll checks session changes).1]
  | reset =>
    show ∀ plan ∈ (session.record _).plans.flatten, P plan
    rwa [plans_record]
  | subscribe query =>
    unfold Session.step
    dsimp only
    split
    · exact before
    · exact before

/-! ## The invariant of sessions -/

/-- The network is wired, settled unless it is poisoned, and every query has a production for its
plans. -/
structure Sound (truth : CheckId → Tuple → Bool) (session : Session) : Prop where
  wired : session.network.Wired
  settled : session.network.reported = none → session.network.Settled truth
  produces : List.Forall₂ (fun plans query =>
    Produces session.network.skeleton plans query.production) session.plans session.network.queries

variable {truth : CheckId → Tuple → Bool} {checks : Checks} {session : Session}

theorem sound_new (truth : CheckId → Tuple → Bool) (id : NetworkId) : (new id).Sound truth where
  wired := Network.wired_new id
  settled _ := ⟨fun _ _ => 0, by simp [new, Network.new], by simp, by simp [new, Network.new]⟩
  produces := .nil

/-- An operation that leaves the wiring alone only has to leave the network settled. -/
theorem Sound.sameWiring (sound : session.Sound truth) {after : Session}
    (plans : after.plans = session.plans)
    (same : Network.SameWiring session.network after.network)
    (settled : after.network.reported = none → after.network.Settled truth) :
    after.Sound truth where
  wired := same.wired sound.wired
  settled := settled
  produces := by
    rw [plans, same.skeleton, same.queries]
    exact sound.produces

theorem Sound.change (sound : session.Sound truth) (agree : checks.Agree truth)
    (change : FactChange) :
    (session.record (session.network.change checks change)).Sound truth := by
  have outcome := Network.change_outcome checks session.network change
  generalize session.network.change checks change = result at outcome ⊢
  obtain ⟨network, answer⟩ := result
  have same := outcome.sameWiring
  cases answer with
  | ok events =>
    exact sound.sameWiring rfl same fun _ => outcome.settled agree sound.wired sound.settled
  | error error =>
    refine sound.sameWiring rfl same ?_
    intro usable
    rcases outcome.failed with rfl | poisoned
    · exact sound.settled usable
    · exact absurd usable poisoned

theorem Sound.applyAll (sound : session.Sound truth) (agree : checks.Agree truth)
    (changes : List FactChange) : (session.applyAll checks changes).Sound truth :=
  applyAll_induction (fun _ change sound => sound.change agree change) sound changes

theorem Sound.reset (sound : session.Sound truth) (agree : checks.Agree truth) :
    (session.record (session.network.reset checks)).Sound truth := by
  have outcome := Network.reset_outcome checks session.network
  generalize session.network.reset checks = result at outcome ⊢
  obtain ⟨network, answer⟩ := result
  have same := outcome.sameWiring
  cases answer with
  | ok events => exact sound.sameWiring rfl same fun _ => outcome.settled agree sound.wired
  | error error => exact sound.sameWiring rfl same fun usable => absurd usable outcome.failed

theorem Sound.install (sound : session.Sound truth) (agree : checks.Agree truth)
    (plans : List Plan) : (session.step checks (.install plans)).Sound truth := by
  have spec := Network.install_spec checks sound.wired plans
  unfold step
  dsimp only
  split
  next network query found =>
    rw [found] at spec
    obtain ⟨_, ⟨name, production, arity, fields, produces⟩, nodes, wired, settled⟩ := spec
    have usable : network.reported = session.network.reported := by
      rw [fields]
    have queries : network.queries = session.network.queries ++ [⟨name, production, arity⟩] := by
      rw [fields]
    refine ⟨wired, fun healthy => settled truth agree (sound.settled (usable ▸ healthy)), ?_⟩
    -- the older queries keep their productions
    show List.Forall₂ _ (session.plans ++ [plans]) network.queries
    rw [queries]
    refine List.rel_append ?_ (.cons produces .nil)
    exact sound.produces.imp fun _ _ older => older.mono (nodes.map _)
  next network error found =>
    rw [found] at spec
    subst spec
    exact ⟨sound.wired, sound.settled, sound.produces⟩

theorem Sound.step (sound : session.Sound truth) (agree : checks.Agree truth) (action : Action) :
    (session.step checks action).Sound truth := by
  cases action with
  | install plans => exact sound.install agree plans
  | change change => exact sound.change agree change
  | apply changes => exact sound.applyAll agree changes
  | reset => exact sound.reset agree
  | subscribe query =>
    unfold Session.step Network.subscribe
    dsimp only
    cases session.network.demandQuery query with
    | error error => exact sound
    | ok installed =>
      exact sound.sameWiring rfl ⟨rfl, rfl⟩ fun usable => (sound.settled usable).congr rfl rfl

theorem Sound.run (sound : session.Sound truth) {steps : List (Checks × Action)}
    (agree : ∀ step ∈ steps, step.1.Agree truth) : (session.run steps).Sound truth :=
  run_induction sound fun step member _ sound => sound.step (agree step member) step.2

/-! ## Matches -/

/-- Every installed query has a production for its plans. -/
theorem Sound.exists_produces (sound : session.Sound truth) {query : QueryId} {plans : List Plan}
    (installed : session.plans[query.index]? = some plans) :
    ∃ entry, session.network.queries[query.index]? = some entry ∧
      Produces session.network.skeleton plans entry.production := by
  obtain ⟨inside, rfl⟩ := List.getElem?_eq_some_iff.mp installed
  have known : query.index < session.network.queries.length := sound.produces.length_eq ▸ inside
  exact ⟨_, List.getElem?_eq_getElem known, sound.produces.get inside known⟩

/-- Whatever has been installed, changed, applied and reset, with whatever failures: a network that
is not poisoned holds for every query the matches that the batch evaluator finds for its plans. -/
theorem matchesOf_eq_batch (truth : CheckId → Tuple → Bool) (id : NetworkId)
    (steps : List (Checks × Action)) (agree : ∀ step ∈ steps, step.1.Agree truth)
    (usable : ((new id).run steps).network.isPoisoned = false) {query : QueryId}
    {plans : List Plan} (installed : ((new id).run steps).plans[query.index]? = some plans)
    (agreeNow : checks.Agree truth) {found : OrderedSet Tuple}
    (batch : Plan.evaluateAll checks plans ((new id).run steps).network.facts [] = .ok found) :
    ((new id).run steps).network.matchesOf query = .ok found := by
  have sound := (sound_new truth id).run agree
  generalize (new id).run steps = session at sound usable installed batch
  have healthy : session.network.reported = none := by
    simpa [Network.isPoisoned] using usable
  obtain ⟨inside, rfl⟩ := List.getElem?_eq_some_iff.mp installed
  have inside' : query.index < session.network.queries.length :=
    sound.produces.length_eq ▸ inside
  have produces := List.Forall₂.get sound.produces inside inside'
  calc
    session.network.matchesOf query =
        .ok (session.network.produced session.network.queries[query.index].production) :=
      Network.matchesOf_eq healthy (List.getElem?_eq_getElem inside')
    _ = .ok found := congrArg Except.ok <|
      Network.produced_eq_of_evaluateAll agreeNow (sound.settled healthy) produces batch

/-- The plan that lists the only column of the first relation. -/
def listing : Plan where
  body := ⟨⟨"listing", 0, ["x"], [.relation ⟨0⟩ [⟨0⟩] []], [⟨0⟩], {}⟩, by decide⟩
  arena := ⟨[⟨.enumerate ⟨0⟩, .singleton ⟨0⟩, .singleton ⟨0⟩⟩,
    ⟨.project ⟨0⟩ [⟨0⟩], .singleton ⟨0⟩, .singleton ⟨0⟩⟩]⟩
  root := ⟨1⟩
  adornment := .empty
  hints := {}

/-- Two bodies with this plan share their nodes, and a fact that comes later is found once. -/
def listingSteps : List (Checks × Action) :=
  [(fun _ _ => .ok true, .install [listing, listing]),
    (fun _ _ => .ok true, .change ⟨.insert, ⟨⟨0⟩, [.bool true]⟩⟩)]

theorem matchesOf_listing :
    ((new ⟨0⟩).run listingSteps).network.matchesOf ⟨0⟩ = .ok (.singleton [.bool true]) := by
  have agree : Checks.Agree (fun _ _ => .ok true) (fun _ _ => true) :=
    fun _ _ _ answer => (Except.ok.inj answer).symm
  have usable : ((new ⟨0⟩).run listingSteps).network.isPoisoned = false := by decide +kernel
  have installed : ((new ⟨0⟩).run listingSteps).plans[0]? = some [listing, listing] := by
    decide +kernel
  have batch : Plan.evaluateAll (fun _ _ => .ok true) [listing, listing]
      ((new ⟨0⟩).run listingSteps).network.facts [] = .ok (.singleton [.bool true]) :=
    of_decide_eq_true (by decide +kernel)
  refine matchesOf_eq_batch _ ⟨0⟩ listingSteps ?_ usable installed agree batch
  intro step member
  simp only [listingSteps, List.mem_cons, List.not_mem_nil, or_false] at member
  rcases member with rfl | rfl <;> exact agree

end Session
end LiveQuery
