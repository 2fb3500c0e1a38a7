import LiveQuery.Proofs.Network.Events
import LiveQuery.Proofs.Network.Session

/-!
# What users are told

Every delivery changes the match sets exactly by the events that it causes (`deliver_tells`), and so
does every spread, even one that a failure stops (`propagate_tells`).  Hence undoing the events of a
spread recovers the match sets before it, and the events that are left when opposite ones have
cancelled out are the differences.

`Session.Told` says what users learn from a change or a reset: the differences to what was last
reported if it succeeds, and nothing if it fails.  It holds in every session, whatever the checks
answer (`Session.told_differences`).
-/

namespace LiveQuery

/-! ## Productions -/

theorem Cell.produce_cases {produced changed : Bag Tuple} {delta : RowDelta} {sent : List RowDelta}
    (answered : Cell.produce produced delta = .ok (changed, sent)) :
    (sent = [] ∧ ∀ row, row ∈ changed.distinct ↔ row ∈ produced.distinct) ∨
    (sent = [delta] ∧ (delta.row ∈ produced.distinct ↔ delta.kind = .delete) ∧
      ∀ row, row ∈ changed.distinct ↔
        if row = delta.row then delta.kind = .insert else row ∈ produced.distinct) := by
  obtain ⟨kind, fact⟩ := delta
  simp only [Bag.mem_distinct]
  cases kind with
  | insert =>
    simp only [Cell.produce, Bag.presenceOnAdd] at answered
    by_cases present : produced.contains fact = true
    · rw [if_pos present] at answered
      cases answered
      rw [Bag.contains_iff] at present
      refine .inl ⟨rfl, ?_⟩
      intro row
      simp only [Bag.add, List.mem_cons]
      grind
    · rw [if_neg present] at answered
      cases answered
      rw [Bag.contains_iff] at present
      refine .inr ⟨rfl, by simpa using present, ?_⟩
      intro row
      simp only [Bag.add, List.mem_cons]
      grind
  | delete =>
    have present : fact ∈ produced.occurrences ↔ 0 < produced.count fact :=
      Bag.count_pos_iff.symm
    have left : fact ∈ (produced.erase fact).occurrences ↔ 1 < produced.count fact := by
      rw [← Bag.count_pos_iff, Bag.count_erase, if_pos rfl]
      omega
    have others (row : Tuple) (different : row ≠ fact) :
        row ∈ (produced.erase fact).occurrences ↔ row ∈ produced.occurrences :=
      Bag.mem_erase_of_ne different
    simp only [Cell.produce, Bag.presenceOnErase?] at answered
    -- no occurrence cannot be taken away, one is the last, and of several others are left
    rcases count : produced.count fact with _ | _ | several
    · rw [count] at answered
      cases answered
    · rw [count] at answered
      cases answered
      refine .inr ⟨rfl, by simp [present, count], ?_⟩
      intro row
      by_cases same : row = fact
      · simp [same, left, count]
      · simp [same, others row same]
    · rw [count] at answered
      cases answered
      refine .inl ⟨rfl, ?_⟩
      intro row
      by_cases same : row = fact
      · rw [same, left, present, count]
        omega
      · exact others row same

/-- What a production passes on are the events that lead from its old rows to its new ones. -/
theorem tells_of_produce {produced changed : Bag Tuple} {delta : RowDelta} {sent : List RowDelta}
    (answered : Cell.produce produced delta = .ok (changed, sent))
    {sets : List (OrderedSet Tuple)} {query : QueryId}
    (found : sets[query.index]? = some (.ofList produced.distinct)) :
    Tells sets (sent.map (MatchEvent.ofDelta query))
      (sets.set query.index (.ofList changed.distinct)) := by
  rcases Cell.produce_cases answered with ⟨rfl, unchanged⟩ | ⟨rfl, fresh, turned⟩
  · have same : OrderedSet.ofList changed.distinct = .ofList produced.distinct :=
      OrderedSet.ext_mem fun row => by simp [unchanged]
    obtain ⟨inside, here⟩ := List.getElem?_eq_some_iff.mp found
    rw [same, ← here, List.set_getElem_self]
    exact .nil _
  · have kinds : ((MatchEvent.ofDelta query delta).kind = .disappeared ↔ delta.kind = .delete) ∧
        ((MatchEvent.ofDelta query delta).kind = .appeared ↔ delta.kind = .insert) := by
      unfold MatchEvent.ofDelta
      cases delta.kind <;> simp
    have possible : (MatchEvent.ofDelta query delta).Possible sets :=
      ⟨_, found, by rw [OrderedSet.mem_ofList, kinds.1]; exact fresh⟩
    have redone : (MatchEvent.ofDelta query delta).redo sets =
        sets.set query.index (.ofList changed.distinct) := by
      refine MatchEvent.redo_eq_set found ?_
      intro row
      rw [OrderedSet.mem_ofList, OrderedSet.mem_ofList, turned, kinds.2]
      rfl
    rw [← redone]
    exact .cons possible (.nil _)

namespace Network

variable {checks : Checks} {network changed : Network}

theorem matched_matchSets {query : QueryId} {installed : InstalledQuery}
    (found : network.queries[query.index]? = some installed) {tuple : Tuple} :
    Matched network.matchSets query tuple ↔ tuple ∈ network.produced installed.production := by
  simp [Matched, matchSets, found]

/-! ## Deliveries -/

theorem produced_set_ne {place : Nat} (node : Node) {production : NodeId}
    (other : place ≠ production.index) :
    ({ network with nodes := network.nodes.set place node } : Network).produced production =
      network.produced production := by
  unfold produced
  rw [List.getElem?_set_ne other]

theorem matchSets_set_other {place : Nat} (node : Node)
    (other : ∀ query ∈ network.queries, query.production.index ≠ place) :
    ({ network with nodes := network.nodes.set place node } : Network).matchSets =
      network.matchSets :=
  List.map_congr_left fun query member => produced_set_ne node (other query member).symm

theorem matchSets_set (wired : network.Wired) {query : QueryId} {installed : InstalledQuery}
    (found : network.queries[query.index]? = some installed) (node : Node)
    (inside : installed.production.index < network.nodes.length) :
    ({ network with
        nodes := network.nodes.set installed.production.index node } : Network).matchSets =
      network.matchSets.set query.index (.ofList node.cell.stored) := by
  refine List.ext_getElem? ?_
  intro place
  rw [List.getElem?_set]
  unfold matchSets
  rw [List.getElem?_map, List.getElem?_map, List.length_map]
  split
  next here =>
    rw [if_pos (List.getElem?_eq_some_iff.mp found).1, ← here, found]
    refine congrArg some ?_
    show produced _ _ = _
    unfold produced
    rw [List.getElem?_set_self inside]
  next elsewhere =>
    cases other : network.queries[place]? with
    | none => rfl
    | some another =>
      refine congrArg some ?_
      -- no two queries share a production
      have different : installed.production.index ≠ another.production.index := by
        intro same
        have productions : (network.queries.map InstalledQuery.production)[query.index]? =
            (network.queries.map InstalledQuery.production)[place]? := by
          rw [List.getElem?_map, List.getElem?_map, found, other]
          exact congrArg some (Id.ext same)
        refine elsewhere ((List.getElem?_inj ?_ wired.distinct).mp productions)
        rw [List.length_map]
        exact (List.getElem?_eq_some_iff.mp found).1
      exact produced_set_ne node different

/-- A delivery changes the match sets by the events that it causes. -/
theorem deliver_tells (wired : network.Wired) {message : Message} {further : List Message}
    {caused : List MatchEvent}
    (delivered : network.deliver checks message = .ok (changed, further, caused)) :
    Tells network.matchSets caused changed.matchSets := by
  obtain ⟨node, cell, sent, found, received, rfl, outcome⟩ := deliver_cases delivered
  obtain ⟨query, belongs, _, rfl⟩ | ⟨inner, _, rfl⟩ := outcome
  · obtain ⟨installed, queryFound, same⟩ := queryOf?_eq_some belongs
    rw [← same] at found ⊢
    have inside := (List.getElem?_eq_some_iff.mp found).1
    obtain ⟨produced, isProduction⟩ := wired.production (List.mem_of_getElem? queryFound) found
    rw [isProduction] at received
    obtain ⟨⟨after, rows⟩, answered, rest⟩ := ok_of_bind received
    cases rest
    have setFound : network.matchSets[query.index]? = some (.ofList produced.distinct) := by
      unfold matchSets
      rw [List.getElem?_map, queryFound]
      refine congrArg some ?_
      unfold Network.produced
      simp only [found, isProduction]
      rfl
    rw [matchSets_set wired queryFound _ inside]
    exact tells_of_produce answered setFound
  · have other : ∀ query ∈ network.queries, query.production.index ≠ message.node.index :=
      fun query member same => queryOf?_eq_none inner query member (Id.ext same)
    rw [matchSets_set_other _ other]
    exact .nil _

/-- What is delivered before a failure changes the match sets by the events that it causes, too. -/
theorem deliverAll_tells (wired : network.Wired) (wave : List Message) :
    Tells network.matchSets (network.deliverAll checks wave).events
      (network.deliverAll checks wave).network.matchSets := by
  induction wave generalizing network with
  | nil => exact .nil _
  | cons message rest ih =>
    unfold deliverAll
    split
    · exact .nil _
    next changed further caused delivered =>
      exact (deliver_tells wired delivered).append (ih ((deliver_shape delivered).wired wired))

/-- The match sets change by the events of a spread, whether it comes to its end or not. -/
theorem propagate_tells (wired : network.Wired) (wave : List Message) :
    Tells network.matchSets (network.propagate checks wave).events
      (network.propagate checks wave).network.matchSets := by
  fun_induction propagate checks network wave with
  | case1 network wave spread unsettled later ih =>
    have shape := deliverAll_shape checks network wave
    exact (deliverAll_tells wired wave).append (ih (shape.wired wired))
  | case2 network wave spread settled => exact deliverAll_tells wired wave

theorem spreadOf_tells (checks : Checks) (wired : network.Wired) (facts : FactStore)
    (change : FactChange) :
    Tells network.matchSets (spreadOf checks network facts change).events
      (spreadOf checks network facts change).network.matchSets := by
  have same : SameWiring network { network with facts } := ⟨rfl, rfl⟩
  exact propagate_tells (same.wired wired) _

/-- What a change that succeeds does to facts and match sets. -/
theorem ChangeOutcome.done_spec {after : Network} {change : FactChange} {events : List MatchEvent}
    (wired : network.Wired) (outcome : ChangeOutcome checks network change (after, .ok events)) :
    (∃ presence, network.facts.apply change = .ok (after.facts, presence)) ∧
      Differences network.matchSets after.matchSets events := by
  cases outcome with
  | @done facts presence usable applied finished =>
    have shape := spreadOf_shape checks network facts change
    refine ⟨⟨presence, ?_⟩, (spreadOf_tells checks wired facts change).netOut⟩
    rw [applied]
    unfold notify
    rw [shape.fields]

/-- A reset that succeeds tells the differences to what was last reported. -/
theorem ResetOutcome.differences {after : Network} {events : List MatchEvent}
    (length : (network.reported.getD network.matchSets).length = network.queries.length)
    (outcome : ResetOutcome checks network (after, .ok events)) :
    Differences (network.reported.getD network.matchSets) after.matchSets events := by
  have same := outcome.sameWiring
  cases outcome with
  | done ran differences =>
    rw [differences]
    refine differences_corrections ?_
    show (network.reported.getD network.matchSets).length = _
    rw [length, ← same.queries]
    exact (List.length_map _).symm

/-! ## Installs -/

theorem reported_of_install {plans : List Plan} {query : QueryId}
    (installed : network.install checks plans = (changed, .ok query)) :
    network.reported = none := by
  obtain ⟨_, _, demanded, _⟩ := run_of_install installed
  obtain ⟨_, usable, _⟩ := ok_of_bind demanded
  exact reported_of_demandUsable usable

theorem Installed.matchSets {plans : List Plan} {query : QueryId} (wired : network.Wired)
    (installed : Installed checks network plans query changed) :
    ∃ installed, changed.queries[query.index]? = some installed ∧
      changed.matchSets = network.matchSets ++ [changed.produced installed.production] := by
  obtain ⟨rfl, ⟨name, production, arity, fields, _⟩, nodes, _, _⟩ := installed
  have queries : changed.queries = network.queries ++ [⟨name, production, arity⟩] := by rw [fields]
  refine ⟨⟨name, production, arity⟩, by simp [queries], ?_⟩
  have older : ∀ query ∈ network.queries,
      changed.produced query.production = network.produced query.production := by
    intro query member
    obtain ⟨node, found, _⟩ := wired.produced query member
    have inside := (List.getElem?_eq_some_iff.mp found).1
    rw [skeleton, List.length_map] at inside
    have here := List.getElem?_eq_getElem inside
    unfold produced
    rw [here, getElem?_mono nodes here]
  unfold Network.matchSets
  rw [queries, List.map_append, List.map_congr_left older]
  rfl

end Network

namespace Session

variable {session : Session} {checks : Checks}

/-! ## What users know -/

/-- What users learn from a change or a reset with some outcome: all differences to what they knew,
each once, if it succeeds, and nothing if it fails. -/
def Told (session : Session) (outcome : Network × Except Error (List MatchEvent)) : Prop :=
  match outcome with
  | (after, .ok events) =>
    Differences session.reported after.matchSets events ∧
    after.observers = session.network.observers.map (fun observer =>
      { observer with received := observer.received ++ events.filter (·.query = observer.query) }) ∧
    (session.record outcome).reported = after.matchSets
  | (after, .error _) =>
    after.observers = session.network.observers ∧
    (session.record outcome).reported = session.reported

/-- What users learn from an install: the matches of a new query are known at once. -/
def Introduced (checks : Checks) (session : Session) (plans : List Plan) : Prop :=
  match session.network.install checks plans with
  | (after, .ok query) =>
    after.observers = session.network.observers ∧ query.index = session.reported.length ∧
    ∃ known, after.matchesOf query = .ok known ∧
      (session.step checks (.install plans)).reported = session.reported ++ [known]
  | (after, .error _) =>
    after.observers = session.network.observers ∧
    (session.step checks (.install plans)).reported = session.reported

/-- Users know the present match sets, or those that a poisoned network remembers. -/
structure Tracked (session : Session) : Prop where
  wired : session.network.Wired
  length : session.reported.length = session.network.queries.length
  reported : session.reported = session.network.reported.getD session.network.matchSets

theorem Tracked.usable (tracked : session.Tracked) (usable : session.network.reported = none) :
    session.reported = session.network.matchSets := by
  rw [tracked.reported, usable, Option.getD_none]

theorem tracked_new (id : NetworkId) : (new id).Tracked where
  wired := Network.wired_new id
  length := rfl
  reported := rfl

/-- After a failure the network remembers what users know. -/
theorem Tracked.failed (tracked : session.Tracked) {after : Network} {error : Error}
    (same : Network.SameWiring session.network after)
    (observers : after.observers = session.network.observers)
    (reported : after.reported = some session.reported) :
    (session.record (after, .error error)).Tracked ∧ session.Told (after, .error error) := by
  refine ⟨⟨same.wired tracked.wired, ?_, ?_⟩, observers, rfl⟩
  · exact tracked.length.trans (congrArg List.length same.queries).symm
  · show session.reported = after.reported.getD after.matchSets
    rw [reported, Option.getD_some]

/-- After a success users know the present match sets. -/
theorem Tracked.done (tracked : session.Tracked) {after : Network} {events : List MatchEvent}
    (same : Network.SameWiring session.network after) (usable : after.reported = none)
    (differences : Differences session.reported after.matchSets events)
    (observers : after.observers = (session.network.notify events).observers) :
    (session.record (after, .ok events)).Tracked ∧ session.Told (after, .ok events) := by
  refine ⟨⟨same.wired tracked.wired, List.length_map _, ?_⟩, differences, observers, rfl⟩
  show after.matchSets = after.reported.getD after.matchSets
  rw [usable, Option.getD_none]

theorem Tracked.change (tracked : session.Tracked) (checks : Checks) (change : FactChange) :
    (session.record (session.network.change checks change)).Tracked ∧
      session.Told (session.network.change checks change) := by
  have outcome := Network.change_outcome checks session.network change
  generalize session.network.change checks change = result at outcome ⊢
  obtain ⟨after, answer⟩ := result
  have same := outcome.sameWiring
  cases outcome with
  | refused error => exact ⟨tracked, rfl, rfl⟩
  | @faulted facts _ error usable applied failed =>
    have shape := Network.spreadOf_shape checks session.network facts change
    have tells := Network.spreadOf_tells checks tracked.wired facts change
    -- the events until the failure are undone
    refine tracked.failed same ?_ ?_
    · rw [shape.fields]
    · rw [tracked.usable usable]
      exact congrArg some tells.undo
  | @done facts _ usable applied finished =>
    have shape := Network.spreadOf_shape checks session.network facts change
    have tells := Network.spreadOf_tells checks tracked.wired facts change
    -- all events are told, as far as they do not cancel out
    refine tracked.done same ?_ ?_ ?_
    · unfold Network.notify
      rw [shape.fields]
      exact usable
    · rw [tracked.usable usable]
      exact tells.netOut
    · unfold Network.notify
      rw [shape.fields]

theorem Tracked.reset (tracked : session.Tracked) (checks : Checks) :
    (session.record (session.network.reset checks)).Tracked ∧
      session.Told (session.network.reset checks) := by
  have outcome := Network.reset_outcome checks session.network
  generalize session.network.reset checks = result at outcome ⊢
  obtain ⟨after, answer⟩ := result
  have same := outcome.sameWiring
  have shape := Network.rebuild_shape checks
    { session.network with nodes := session.network.nodes.map Node.cleared }
  unfold Network.Building.Ensures at shape
  have known : session.network.reported.getD (session.network.reportedView []) =
      session.reported := tracked.reported.symm
  cases outcome with
  | faulted ran =>
    rw [ran] at shape
    refine tracked.failed same ?_ (congrArg some known)
    rw [shape.fields]
  | done ran differences =>
    rw [ran] at shape
    refine tracked.done same rfl ?_ ?_
    · rw [tracked.reported]
      exact Network.ResetOutcome.differences (tracked.reported ▸ tracked.length)
        (.done ran differences)
    · unfold Network.notify
      rw [shape.fields]

theorem Tracked.install (tracked : session.Tracked) (checks : Checks) (plans : List Plan) :
    (session.step checks (.install plans)).Tracked ∧ session.Introduced checks plans := by
  have spec := Network.install_spec checks tracked.wired plans
  unfold Introduced step
  dsimp only
  cases outcome : session.network.install checks plans with
  | mk network answer =>
    rw [outcome] at spec
    cases answer with
    | error error =>
      obtain rfl : network = session.network := spec
      exact ⟨tracked, rfl, rfl⟩
    | ok query =>
      have usable := Network.reported_of_install outcome
      obtain ⟨installed, found, sets⟩ := Network.Installed.matchSets tracked.wired spec
      obtain ⟨rfl, ⟨name, production, arity, fields, _⟩, _, wired, _⟩ := spec
      have healthy : network.reported = none := by rw [fields]; exact usable
      have queries : network.queries = session.network.queries ++ [⟨name, production, arity⟩] := by
        rw [fields]
      have known : session.reported ++ network.matchSets.drop session.reported.length =
          session.reported ++ [network.produced installed.production] := by
        calc
          session.reported ++ network.matchSets.drop session.reported.length =
              session.network.matchSets ++ (session.network.matchSets ++
                [network.produced installed.production]).drop
                  session.network.matchSets.length := by
            rw [sets, tracked.usable usable]
          _ = session.network.matchSets ++ [network.produced installed.production] := by
            rw [List.drop_left]
          _ = session.reported ++ [network.produced installed.production] := by
            rw [tracked.usable usable]
      refine ⟨⟨wired, ?_, ?_⟩, ?_, tracked.length.symm, _, ?_, known⟩
      · show (session.reported ++ network.matchSets.drop session.reported.length).length =
          network.queries.length
        rw [known, queries, List.length_append, List.length_append, tracked.length]
        rfl
      · show session.reported ++ network.matchSets.drop session.reported.length =
          network.reported.getD network.matchSets
        rw [known, healthy, Option.getD_none, sets, tracked.usable usable]
      · rw [fields]
      · exact Network.matchesOf_eq healthy found

theorem Tracked.applyAll (tracked : session.Tracked) (changes : List FactChange) :
    (session.applyAll checks changes).Tracked :=
  applyAll_induction (fun _ change tracked => (tracked.change checks change).1) tracked changes

theorem Tracked.step (tracked : session.Tracked) (action : Action) :
    (session.step checks action).Tracked := by
  cases action with
  | install plans => exact (tracked.install checks plans).1
  | change change => exact (tracked.change checks change).1
  | apply changes => exact tracked.applyAll changes
  | reset => exact (tracked.reset checks).1
  | subscribe query =>
    unfold Session.step Network.subscribe
    dsimp only
    cases session.network.demandQuery query with
    | error error => exact tracked
    | ok installed =>
      have same : Network.SameWiring session.network { session.network with
          observers := session.network.observers ++ [⟨query, []⟩] } := ⟨rfl, rfl⟩
      exact ⟨same.wired tracked.wired, tracked.length, tracked.reported⟩

theorem Tracked.run (tracked : session.Tracked) (steps : List (Checks × Action)) :
    (session.run steps).Tracked :=
  run_induction tracked fun step _ _ tracked => tracked.step step.2

/-- Whatever has been done before, and whatever the checks answer: changes and resets that succeed
tell every difference between the match sets and what was known, once, to the observers of its query
and to nobody else; those that fail tell nothing.  A new query is known with its matches. -/
theorem told_differences (id : NetworkId) (steps : List (Checks × Action)) (checks : Checks) :
    (∀ change, ((new id).run steps).Told (((new id).run steps).network.change checks change)) ∧
    ((new id).run steps).Told (((new id).run steps).network.reset checks) ∧
    (∀ plans, ((new id).run steps).Introduced checks plans) := by
  have tracked := (tracked_new id).run steps
  refine ⟨fun change => ?_, ?_, fun plans => ?_⟩
  · exact (tracked.change checks change).2
  · exact (tracked.reset checks).2
  · exact (tracked.install checks plans).2

end Session
end LiveQuery
