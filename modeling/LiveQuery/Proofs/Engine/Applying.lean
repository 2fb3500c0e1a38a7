import LiveQuery.Proofs.Engine.Names
import LiveQuery.Proofs.Network.Reporting

/-!
# Changes in an engine

While an engine applies changes, resets its network or fires, its network and its scheduler are on
the way to the next state (`Engine.Underway`): users know what the network has told, the rules are
in step with what users know, and queries and rules stay as they are.  Every single change keeps
that, whether it succeeds or not (`Underway.applyAll`), and so does a whole run that applies the
changes of jobs (`Underway.runWith`).

What users know is kept beside the network, as a session.  Applying changes to a session does the
same to its network as applying them without one (`applyRouted_network`).
-/

namespace LiveQuery

/-! ## Changes of networks -/

namespace Network

theorem change_keeps (checks : Checks) (network : Network) (change : FactChange) :
    (network.change checks change).1.id = network.id ∧
      (network.change checks change).1.queries = network.queries := by
  have outcome := change_outcome checks network change
  generalize network.change checks change = result at outcome ⊢
  obtain ⟨after, answer⟩ := result
  refine ⟨?_, outcome.sameWiring.queries⟩
  cases outcome with
  | refused => rfl
  | @faulted facts =>
    have shape := spreadOf_shape checks network facts change
    rw [shape.fields]
  | @done facts =>
    have shape := spreadOf_shape checks network facts change
    unfold notify
    rw [shape.fields]

theorem reset_keeps (checks : Checks) (network : Network) :
    (network.reset checks).1.id = network.id ∧
      (network.reset checks).1.queries = network.queries := by
  have outcome := reset_outcome checks network
  have shape := rebuild_shape checks { network with nodes := network.nodes.map Node.cleared }
  unfold Building.Ensures at shape
  generalize network.reset checks = result at outcome ⊢
  obtain ⟨after, answer⟩ := result
  refine ⟨?_, outcome.sameWiring.queries⟩
  cases outcome with
  | faulted ran =>
    rw [ran] at shape
    rw [shape.fields]
  | done ran =>
    rw [ran] at shape
    unfold notify
    rw [shape.fields]

end Network

/-- A session changes its network as the network changes itself. -/
theorem Session.network_applyUntilFailure (checks : Checks) (session : Session)
    (changes : List FactChange) : (session.applyAll checks changes).network =
      (session.network.applyUntilFailure checks changes).1 := by
  rw [network_applyAll]
  unfold Network.apply
  split <;> simp_all

namespace Engine

variable {σ : Type} {engine : Engine σ} {session : Session} {scheduler : Scheduler σ}

/-- A session and a scheduler on their way from one state of the engine to the next. -/
structure Underway (engine : Engine σ) (session : Session) (scheduler : Scheduler σ) : Prop where
  tracked : session.Tracked
  inStep : scheduler.InStep engine.routes session.reported
  id : session.network.id = engine.network.id
  queries : session.network.queries = engine.network.queries
  rules : scheduler.rules = engine.scheduler.rules

/-! ## One operation -/

theorem Underway.done (underway : engine.Underway session scheduler) {after : Network}
    {events : List MatchEvent} (tracked : (session.record (after, .ok events)).Tracked)
    (told : session.Told (after, .ok events))
    (keeps : after.id = session.network.id ∧ after.queries = session.network.queries) :
    ∃ routed, scheduler.route engine.routes events = .ok routed ∧
      engine.Underway (session.record (after, .ok events)) routed := by
  obtain ⟨differences, _, _⟩ := told
  obtain ⟨routed, reached, inStep, rules⟩ := underway.inStep.route differences
  exact ⟨routed, reached, tracked, inStep, keeps.1.trans underway.id,
    keeps.2.trans underway.queries, rules.trans underway.rules⟩

theorem Underway.failed (underway : engine.Underway session scheduler) {after : Network}
    {error : Error} (tracked : (session.record (after, .error error)).Tracked)
    (keeps : after.id = session.network.id ∧ after.queries = session.network.queries) :
    engine.Underway (session.record (after, .error error)) scheduler :=
  ⟨tracked, underway.inStep, keeps.1.trans underway.id, keeps.2.trans underway.queries,
    underway.rules⟩

theorem route_append (routes : Table QueryId (List RuleId)) (first later : List MatchEvent) :
    scheduler.route routes (first ++ later) =
      scheduler.route routes first >>= fun next => next.route routes later :=
  List.foldlM_append

/-- The rules learn of every change before the one that fails, if any does. -/
theorem Underway.applyAll (underway : engine.Underway session scheduler) (checks : Checks)
    (changes : List FactChange) :
    ∃ routed, scheduler.route engine.routes
        (session.network.applyUntilFailure checks changes).2.1 = .ok routed ∧
      engine.Underway (session.applyAll checks changes) routed := by
  induction changes generalizing session scheduler with
  | nil => exact ⟨scheduler, rfl, underway⟩
  | cons first rest ih =>
    obtain ⟨tracked, told⟩ := underway.tracked.change checks first
    have keeps := session.network.change_keeps checks first
    unfold Session.applyAll Network.applyUntilFailure
    generalize session.network.change checks first = outcome at tracked told keeps ⊢
    obtain ⟨after, error | events⟩ := outcome
    · exact ⟨scheduler, rfl, underway.failed tracked keeps⟩
    · obtain ⟨next, reached, underway⟩ := underway.done tracked told keeps
      obtain ⟨routed, reachedLater, underway⟩ := ih underway
      refine ⟨routed, ?_, underway⟩
      dsimp only
      rw [route_append, reached]
      exact reachedLater

/-! ## Firing -/

/-- Applies the changes of a job, and keeps what users learn. -/
def applyRecorded (checks : σ → Checks) (routes : Table QueryId (List RuleId)) :
    Scheduler.Applier Session σ := fun session scheduler changes =>
  (session.applyAll (checks scheduler.host) changes,
    (applyRouted checks routes session.network scheduler changes).2)

theorem applyRouted_network (checks : σ → Checks) (routes : Table QueryId (List RuleId))
    (session : Session) (scheduler : Scheduler σ) (changes : List FactChange) :
    applyRouted checks routes session.network scheduler changes =
      ((applyRecorded checks routes session scheduler changes).1.network,
        (applyRecorded checks routes session scheduler changes).2) := by
  unfold applyRecorded
  rw [Session.network_applyUntilFailure]
  unfold applyRouted
  dsimp only
  split <;> rfl

theorem Underway.applyRecorded (underway : engine.Underway session scheduler)
    (checks : σ → Checks) (changes : List FactChange) :
    engine.Underway (applyRecorded checks engine.routes session scheduler changes).1
      (applyRecorded checks engine.routes session scheduler changes).2.1 := by
  obtain ⟨routed, reached, underway⟩ := underway.applyAll (checks scheduler.host) changes
  unfold Engine.applyRecorded applyRouted
  dsimp only
  rw [reached]
  exact underway

theorem Underway.aside (underway : engine.Underway session scheduler) (failures : List JobFailure)
    (handler : Option (JobFailure → σ → σ)) (isRunning : Bool) (host : σ) :
    engine.Underway session (scheduler.aside failures handler isRunning host) :=
  ⟨underway.tracked, underway.inStep.aside .., underway.id, underway.queries, underway.rules⟩

theorem Underway.fire (underway : engine.Underway session scheduler) (id : ActivationId) :
    engine.Underway session (scheduler.fire id).1 := by
  refine ⟨underway.tracked, underway.inStep.fire id, underway.id, underway.queries, ?_⟩
  refine Eq.trans ?_ underway.rules
  exact Scheduler.fire_induction (P := fun after => after.rules = scheduler.rules)
    (fun _ _ _ _ _ same => same)
    (fun _ _ _ _ _ same _ => (Scheduler.rules_move ..).trans same) id rfl

/-- A run keeps users and rules in step, and when it finishes nothing is left to fire. -/
theorem Underway.runWith (underway : engine.Underway session scheduler) (checks : σ → Checks)
    (turns : Nat) :
    let outcome :=
      Scheduler.runWith turns (Engine.applyRecorded checks engine.routes) session scheduler
    engine.Underway outcome.1 outcome.2.1 ∧
      ∀ summary, outcome.2.2 = .finished summary → outcome.2.1.Quiet := by
  refine Scheduler.runWith_induction (P := engine.Underway) (Q := fun _ => Scheduler.Quiet)
    ?_ ?_ ?_ ?_ turns ?_ ?_ underway
  · intro session scheduler underway
    exact ⟨underway.tracked, underway.inStep.selectNext, underway.id, underway.queries,
      underway.rules⟩
  · intro session scheduler activation underway _
    exact Underway.fire ⟨underway.tracked, underway.inStep.selectNext, underway.id,
      underway.queries, underway.rules⟩ activation.id
  · exact fun _ _ changes underway => underway.applyRecorded checks changes
  · exact fun _ _ underway nothing => underway.inStep.coherent.quiet nothing
  · exact fun _ _ isRunning underway => underway.aside _ _ isRunning _
  · exact fun _ _ quiet => quiet

end Engine
end LiveQuery
