import LiveQuery.Proofs.Network.Priming

/-!
# What changes and resets do

`ChangeOutcome` and `ResetOutcome` list once what a change and a reset can do; everything else about
them is derived from these lists.

* A change is refused and leaves the network as it was; or it is stopped while it spreads, which
  poisons the network and makes it remember what was last reported; or it spreads to its end and
  tells what is left of its events.
* A reset clears all memories and primes the nodes again.  If this fails the network is poisoned and
  remembers what was last reported; otherwise it is usable, and tells the differences to that.

Both keep the skeleton and the queries of the network (`ChangeOutcome.sameWiring`,
`ResetOutcome.sameWiring`), and when they succeed they leave it settled (`ChangeOutcome.settled`,
`ResetOutcome.settled`).  Only a check can make a reset fail (`ResetOutcome.fault`).
-/

namespace LiveQuery.Network

/-! ## Changes -/

/-- How a change of a fact spreads, once the fact store has accepted it. -/
def spreadOf (checks : Checks) (network : Network) (facts : FactStore) (change : FactChange) :
    Spread :=
  propagate checks { network with facts } <|
    broadcast (network.readers (.facts change.fact.relation)) [⟨change.kind, change.fact.tuple⟩]

/-- What a change can do: the network afterwards, and the answer. -/
inductive ChangeOutcome (checks : Checks) (network : Network) (change : FactChange) :
    Network × Except Error (List MatchEvent) → Prop where
  | refused (error : Error) : ChangeOutcome checks network change (network, .error error)
  | faulted {facts : FactStore} {presence : Presence} {error : Error}
      (usable : network.reported = none)
      (applied : network.facts.apply change = .ok (facts, presence))
      (failed : (spreadOf checks network facts change).failure = some error) :
      ChangeOutcome checks network change
        ({ (spreadOf checks network facts change).network with
            reported := some ((spreadOf checks network facts change).network.reportedView
              (spreadOf checks network facts change).events) },
          .error error)
  | done {facts : FactStore} {presence : Presence} (usable : network.reported = none)
      (applied : network.facts.apply change = .ok (facts, presence))
      (finished : (spreadOf checks network facts change).failure = none) :
      ChangeOutcome checks network change
        ((spreadOf checks network facts change).network.notify
            (netOut (spreadOf checks network facts change).events),
          .ok (netOut (spreadOf checks network facts change).events))

theorem reported_of_demandUsable {network : Network} (usable : network.demandUsable = .ok ()) :
    network.reported = none := by
  unfold demandUsable isPoisoned at usable
  split at usable
  · cases usable
  next absent => simpa using absent

/-- A network that is not poisoned tells the matches of all its queries. -/
theorem matchesOf_eq {network : Network} (usable : network.reported = none) {query : QueryId}
    {installed : InstalledQuery} (found : network.queries[query.index]? = some installed) :
    network.matchesOf query = .ok (network.produced installed.production) := by
  unfold matchesOf demandUsable demandQuery isPoisoned query?
  rw [usable, found]
  rfl

theorem change_outcome (checks : Checks) (network : Network) (change : FactChange) :
    ChangeOutcome checks network change (network.change checks change) := by
  unfold Network.change
  split
  next error _ => exact .refused error
  next usable =>
    split
    next error _ => exact .refused error
    next facts presence applied =>
      have usable := reported_of_demandUsable usable
      dsimp only
      split
      next error failed => exact .faulted usable applied failed
      next finished => exact .done usable applied finished

variable {checks : Checks} {truth : CheckId → Tuple → Bool} {network after : Network}
  {change : FactChange} {answer : Except Error (List MatchEvent)} {events : List MatchEvent}

theorem spreadOf_shape (checks : Checks) (network : Network) (facts : FactStore)
    (change : FactChange) :
    SameShape { network with facts } (spreadOf checks network facts change).network :=
  propagate_shape _ _ _

theorem ChangeOutcome.sameWiring (outcome : ChangeOutcome checks network change (after, answer)) :
    SameWiring network after := by
  cases outcome with
  | refused => exact .refl network
  | @faulted facts =>
    have same := spreadOf_shape checks network facts change
    exact ⟨same.skeleton, same.queries⟩
  | @done facts =>
    have same := spreadOf_shape checks network facts change
    exact ⟨same.skeleton, same.queries⟩

/-- A change that fails leaves the network as it was or poisons it. -/
theorem ChangeOutcome.failed {error : Error}
    (outcome : ChangeOutcome checks network change (after, .error error)) :
    after = network ∨ after.reported ≠ none := by
  cases outcome with
  | refused => exact .inl rfl
  | faulted => exact .inr (Option.some_ne_none _)

theorem ChangeOutcome.settled (agree : checks.Agree truth) (wired : network.Wired)
    (settled : network.reported = none → network.Settled truth)
    (outcome : ChangeOutcome checks network change (after, .ok events)) :
    after.Settled truth := by
  cases outcome with
  | @done facts _ usable applied finished =>
    obtain ⟨received, flight⟩ := (settled usable).changeFacts wired applied
    have same : SameWiring network { network with facts } := ⟨rfl, rfl⟩
    have ends : (spreadOf checks network facts change).Ends _ :=
      InFlight.propagate agree (same.wired wired) flight
    rw [Spread.Ends, finished] at ends
    exact Settled.congr ends rfl rfl

/-! ## Resets -/

/-- What a reset can do: the network afterwards, and the answer. -/
inductive ResetOutcome (checks : Checks) (network : Network) :
    Network × Except Error (List MatchEvent) → Prop where
  | faulted {unfinished : Network} {error : Error}
      (ran : (rebuild checks).run { network with nodes := network.nodes.map Node.cleared } =
        .error error unfinished) :
      ResetOutcome checks network
        ({ unfinished with reported := some (network.reported.getD (network.reportedView [])) },
          .error error)
  | done {rebuilt : Network} {events : List MatchEvent}
      (ran : (rebuild checks).run { network with nodes := network.nodes.map Node.cleared } =
        .ok () rebuilt)
      (differences : events =
        ((network.reported.getD (network.reportedView [])).zip rebuilt.matchSets).zipIdx.flatMap
          fun ((old, new), place) => corrections ⟨place⟩ old new) :
      ResetOutcome checks network (({ rebuilt with reported := none } : Network).notify events,
        .ok events)

theorem reset_outcome (checks : Checks) (network : Network) :
    ResetOutcome checks network (network.reset checks) := by
  unfold reset
  dsimp only
  split
  next error unfinished ran => exact .faulted ran
  next rebuilt ran => exact .done ran rfl

theorem cleared_sameWiring (network : Network) :
    SameWiring network { network with nodes := network.nodes.map Node.cleared } where
  skeleton := by
    simp only [skeleton, List.map_map]
    refine List.map_congr_left ?_
    intro node _
    simp [Node.cleared]
  queries := rfl

theorem ResetOutcome.sameWiring (outcome : ResetOutcome checks network (after, answer)) :
    SameWiring network after := by
  have shape := rebuild_shape checks { network with nodes := network.nodes.map Node.cleared }
  cases outcome with
  | faulted ran =>
    have same := (cleared_sameWiring network).trans (shape.of_error ran).sameWiring
    exact ⟨same.skeleton, same.queries⟩
  | done ran =>
    have same := (cleared_sameWiring network).trans (shape.of_ok ran).sameWiring
    exact ⟨same.skeleton, same.queries⟩

theorem ResetOutcome.failed {error : Error}
    (outcome : ResetOutcome checks network (after, .error error)) : after.reported ≠ none := by
  cases outcome
  exact Option.some_ne_none _

/-- Priming all nodes again settles the network, whatever state it was in; only a check can fail. -/
theorem rebuild_cleared_spec (agree : checks.Agree truth) (wired : network.Wired) :
    (rebuild checks).Ensures { network with nodes := network.nodes.map Node.cleared }
      (fun _ changed => changed.Settled truth)
      (fun error _ => ∃ label detail, error = .evaluationFault label detail) := by
  refine rebuild_spec agree ((cleared_sameWiring network).wired wired) ?_
  intro node member
  obtain ⟨old, _, rfl⟩ := List.mem_map.mp member
  exact Cell.cleared_cleared _

theorem ResetOutcome.settled (agree : checks.Agree truth) (wired : network.Wired)
    (outcome : ResetOutcome checks network (after, .ok events)) : after.Settled truth := by
  cases outcome with
  | done ran => exact ((rebuild_cleared_spec agree wired).of_ok ran).congr rfl rfl

/-- Only a check can make a reset fail. -/
theorem ResetOutcome.fault (agree : checks.Agree truth) (wired : network.Wired) {error : Error}
    (outcome : ResetOutcome checks network (after, .error error)) :
    ∃ label detail, error = .evaluationFault label detail := by
  cases outcome with
  | faulted ran => exact (rebuild_cleared_spec agree wired).of_error ran

end LiveQuery.Network
