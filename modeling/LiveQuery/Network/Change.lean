import LiveQuery.Network.Basic

/-!
# Changing facts

A change of a fact is sent to the nodes that read its relation and spreads breadth-first from
there, in waves: all rows that the nodes of one wave send on form the next.  What the productions
pass on becomes the events of the change, after opposite events for one match have cancelled out.

A check that fails on the way leaves some nodes changed and others not, and poisons the network.
What was reported last is then recovered by undoing the events that led to the present matches.  A
reset rebuilds every node from the facts and reports the difference to what was last reported.
-/

namespace LiveQuery

/-- A row on its way to a node. -/
structure Message where
  node : NodeId
  inlet : Inlet
  delta : RowDelta
  deriving DecidableEq, Repr

/-- The messages that bring some rows to every listed reader. -/
def broadcast (readers : List (NodeId × Inlet)) (deltas : List RowDelta) : List Message :=
  deltas.flatMap fun delta => readers.map fun (reader, inlet) => ⟨reader, inlet, delta⟩

/-- The event that a row passed on by a production stands for. -/
def MatchEvent.ofDelta (query : QueryId) (delta : RowDelta) : MatchEvent where
  query := query
  kind := match delta.kind with
    | .insert => .appeared
    | .delete => .disappeared
  tuple := delta.row

/-- Whether two events speak about the same match. -/
def MatchEvent.sameMatch (first second : MatchEvent) : Bool :=
  first.query = second.query && first.tuple = second.tuple

/-- The match sets of all queries before an event changed one of them. -/
def MatchEvent.undo (event : MatchEvent) (sets : List (OrderedSet Tuple)) :
    List (OrderedSet Tuple) :=
  sets.modify event.query.index fun set =>
    match event.kind with
    | .appeared => set.erase event.tuple
    | .disappeared => set.insert event.tuple

/-- How far a change has spread: the messages that are still on their way, the events that it has
caused so far, and the failure that stopped it. -/
structure Spread where
  network : Network
  pending : List Message
  events : List MatchEvent
  failure : Option Error

namespace Network

/-! ## Propagation -/

/-- The query whose matches a node holds. -/
def queryOf? (network : Network) (node : NodeId) : Option QueryId :=
  (network.queries.findIdx? (·.production = node)).map Id.mk

/-- What one message causes: further messages, or events if the node is a production. -/
def deliver (checks : Checks) (network : Network) (message : Message) :
    Except Error (Network × List Message × List MatchEvent) :=
  match network.nodes[message.node.index]? with
  | none => .error .outOfRange
  | some node => do
    let (cell, sent) ← node.cell.receive checks node.label message.inlet message.delta
    let changed := { network with
      nodes := network.nodes.set message.node.index { node with cell } }
    match network.queryOf? message.node with
    | some query => return (changed, [], sent.map (MatchEvent.ofDelta query))
    | none => return (changed, broadcast (network.readers (.node message.node)) sent, [])

/-- Delivers the messages of one wave in order and collects the next wave and the events, until a
delivery fails. -/
def deliverAll (checks : Checks) (network : Network) : List Message → Spread
  | [] => ⟨network, [], [], none⟩
  | message :: rest =>
    match network.deliver checks message with
    | .error error => ⟨network, [], [], some error⟩
    | .ok (changed, further, caused) =>
      let spread := changed.deliverAll checks rest
      { spread with pending := further ++ spread.pending, events := caused ++ spread.events }

/-- How many nodes there are from the first one on that a wave reaches. -/
def ahead (network : Network) : List Message → Nat
  | [] => 0
  | message :: rest => max (network.nodes.length - message.node.index) (network.ahead rest)

theorem precedes_of_mem_readers {network : Network} {input : NodeInput} {reader : NodeId × Inlet}
    (member : reader ∈ network.readers input) : input.precedes reader.1.index = true := by
  simp only [readers, List.mem_flatMap, Node.inletsOf] at member
  obtain ⟨⟨node, place⟩, _, member⟩ := member
  split at member
  next precedes =>
    obtain ⟨_, _, rfl⟩ := List.mem_map.mp member
    exact precedes
  · simp at member

theorem ahead_lt_iff {network : Network} {wave : List Message} {bound : Nat}
    (positive : 0 < bound) :
    network.ahead wave < bound ↔
      ∀ message ∈ wave, network.nodes.length - message.node.index < bound := by
  induction wave with
  | nil => simpa [ahead] using positive
  | cons message rest ih =>
    rw [ahead, Nat.max_lt, ih]
    simp

/-- What a delivery does: the node changes its memories, and what it sends becomes events if it is
the production of a query, and messages to its readers otherwise.  -/
theorem deliver_cases {checks : Checks} {network changed : Network} {message : Message}
    {further : List Message} {caused : List MatchEvent}
    (delivered : network.deliver checks message = .ok (changed, further, caused)) :
    ∃ node cell sent, network.nodes[message.node.index]? = some node ∧
      node.cell.receive checks node.label message.inlet message.delta = .ok (cell, sent) ∧
      changed = { network with
        nodes := network.nodes.set message.node.index { node with cell } } ∧
      ((∃ query, network.queryOf? message.node = some query ∧ further = [] ∧
          caused = sent.map (MatchEvent.ofDelta query)) ∨
        (network.queryOf? message.node = none ∧
          further = broadcast (network.readers (.node message.node)) sent ∧ caused = [])) := by
  unfold deliver at delivered
  split at delivered
  · cases delivered
  next node found =>
    cases received : node.cell.receive checks node.label message.inlet message.delta with
    | error error => rw [received] at delivered; cases delivered
    | ok answer =>
      obtain ⟨cell, sent⟩ := answer
      rw [received] at delivered
      simp only [bind, Except.bind] at delivered
      refine ⟨node, cell, sent, found, received, ?_⟩
      split at delivered
      next query production =>
        cases delivered
        exact ⟨rfl, .inl ⟨query, production, rfl, rfl⟩⟩
      next inner =>
        cases delivered
        exact ⟨rfl, .inr ⟨inner, rfl, rfl⟩⟩

/-- A delivery keeps the number of nodes, and its messages go to later nodes. -/
theorem deliver_forward {checks : Checks} {network changed : Network} {message : Message}
    {further : List Message} {caused : List MatchEvent}
    (delivered : network.deliver checks message = .ok (changed, further, caused)) :
    message.node.index < network.nodes.length ∧ changed.nodes.length = network.nodes.length ∧
      ∀ other ∈ further, message.node.index < other.node.index := by
  obtain ⟨node, cell, sent, found, _, rfl, outcome⟩ := deliver_cases delivered
  refine ⟨(List.getElem?_eq_some_iff.mp found).1, by simp, fun other member => ?_⟩
  obtain ⟨_, _, rfl, _⟩ | ⟨_, rfl, _⟩ := outcome
  · cases member
  · obtain ⟨_, _, member⟩ := List.mem_flatMap.mp member
    obtain ⟨reader, readerMember, rfl⟩ := List.mem_map.mp member
    simpa [NodeInput.precedes] using precedes_of_mem_readers readerMember

/-- A wave that is delivered keeps the number of nodes, and the next wave goes to later nodes. -/
theorem deliverAll_forward (checks : Checks) (network : Network) (wave : List Message)
    (finished : (network.deliverAll checks wave).failure = none) :
    (network.deliverAll checks wave).network.nodes.length = network.nodes.length ∧
      ∀ other ∈ (network.deliverAll checks wave).pending,
        ∃ message ∈ wave, message.node.index < network.nodes.length ∧
          message.node.index < other.node.index := by
  induction wave generalizing network with
  | nil => simp [deliverAll]
  | cons message rest ih =>
    unfold deliverAll at finished ⊢
    split at finished
    · cases finished
    next changed further caused delivered =>
      have ⟨inside, sameLength, forward⟩ := deliver_forward delivered
      have ⟨restLength, restForward⟩ := ih changed finished
      refine ⟨restLength.trans sameLength, fun other member => ?_⟩
      rcases List.mem_append.mp member with member | member
      · exact ⟨message, List.mem_cons_self, inside, forward other member⟩
      · obtain ⟨source, sourceMember, sourceInside, less⟩ := restForward other member
        exact ⟨source, List.mem_cons_of_mem _ sourceMember, sameLength ▸ sourceInside, less⟩

/-- Each wave reaches less far back than the one before. -/
theorem ahead_deliverAll_lt (checks : Checks) (network : Network) (wave : List Message)
    (finished : (network.deliverAll checks wave).failure = none)
    (unsettled : (network.deliverAll checks wave).pending ≠ []) :
    (network.deliverAll checks wave).network.ahead (network.deliverAll checks wave).pending <
      network.ahead wave := by
  have ⟨sameLength, forward⟩ := deliverAll_forward checks network wave finished
  have reaches : ∀ message ∈ wave,
      network.nodes.length - message.node.index ≤ network.ahead wave := by
    intro message member
    have := (@ahead_lt_iff network wave _ (Nat.succ_pos _)).mp (Nat.lt_succ_self _) message member
    omega
  obtain ⟨first, member⟩ := List.exists_mem_of_ne_nil _ unsettled
  obtain ⟨source, sourceMember, inside, _⟩ := forward first member
  have positive := reaches source sourceMember
  rw [ahead_lt_iff (by omega), sameLength]
  intro other member
  obtain ⟨source, sourceMember, inside, less⟩ := forward other member
  have := reaches source sourceMember
  omega

/-- Delivers waves until nothing is on its way any more or a delivery fails. -/
def propagate (checks : Checks) (network : Network) (wave : List Message) : Spread :=
  let spread := network.deliverAll checks wave
  if _unsettled : spread.failure = none ∧ spread.pending ≠ [] then
    let later := spread.network.propagate checks spread.pending
    { later with events := spread.events ++ later.events }
  else spread
termination_by network.ahead wave
decreasing_by exact ahead_deliverAll_lt checks network wave _unsettled.1 _unsettled.2

/-- The events that remain when each event for a match cancels an open earlier one. -/
def netOut (events : List MatchEvent) : List MatchEvent :=
  events.foldl (fun open_ event =>
    if open_.any event.sameMatch then open_.filter (!event.sameMatch ·) else open_ ++ [event]) []

/-- The match sets as they were before some events that nobody has been told of. -/
def reportedView (network : Network) (unreported : List MatchEvent) : List (OrderedSet Tuple) :=
  unreported.foldr MatchEvent.undo network.matchSets

/-! ## Changes -/

/-- Applies one change and propagates it.  When a check fails on the way, the fact and the nodes
reached so far are changed all the same; the network is poisoned and remembers the match sets
without the events that are not reported. -/
def change (checks : Checks) (network : Network) (change : FactChange) :
    Network × Except Error (List MatchEvent) :=
  match network.demandUsable with
  | .error error => (network, .error error)
  | .ok () =>
    match network.facts.apply change with
    | .error error => (network, .error error)
    | .ok (facts, _) =>
      let changed := { network with facts }
      let wave := broadcast (network.readers (.facts change.fact.relation))
        [⟨change.kind, change.fact.tuple⟩]
      let spread := changed.propagate checks wave
      match spread.failure with
      | some error =>
        ({ spread.network with reported := some (spread.network.reportedView spread.events) },
          .error error)
      | none =>
        let events := netOut spread.events
        (spread.network.notify events, .ok events)

/-- Applies changes one at a time until one fails.  The answer holds the events of the changes
before that one, and its error. -/
def applyUntilFailure (checks : Checks) (network : Network) :
    List FactChange → Network × List MatchEvent × Option Error
  | [] => (network, [], none)
  | first :: rest =>
    match network.change checks first with
    | (network, .error error) => (network, [], some error)
    | (network, .ok events) =>
      let (network, later, failure) := applyUntilFailure checks network rest
      (network, events ++ later, failure)

/-- Applies changes one at a time; the events are lost when one fails. -/
def apply (checks : Checks) (network : Network) (changes : List FactChange) :
    Network × Except Error (List MatchEvent) :=
  match network.applyUntilFailure checks changes with
  | (network, _, some error) => (network, .error error)
  | (network, events, none) => (network, .ok events)

/-! ## Reset -/

/-- Primes every node, in the order of the nodes. -/
def rebuild (checks : Checks) : Building Unit := do
  (List.range (← get).nodes.length).forM fun place => prime checks ⟨place⟩

/-- The events that lead from one match set of a query to another. -/
def corrections (query : QueryId) (before after : OrderedSet Tuple) : List MatchEvent :=
  ((before.diff after).toList.map (⟨query, .disappeared, ·⟩)) ++
    ((after.diff before).toList.map (⟨query, .appeared, ·⟩))

/-- Rebuilds every node from the facts and reports the difference to what was last reported.  The
network stays or becomes poisoned if a check still fails. -/
def reset (checks : Checks) (network : Network) : Network × Except Error (List MatchEvent) :=
  let before := network.reported.getD (network.reportedView [])
  match (rebuild checks).run { network with nodes := network.nodes.map Node.cleared } with
  | .error error unfinished => ({ unfinished with reported := some before }, .error error)
  | .ok () rebuilt =>
    let usable := { rebuilt with reported := none }
    let events := (before.zip usable.matchSets).zipIdx.flatMap fun ((old, new), place) =>
      corrections ⟨place⟩ old new
    (usable.notify events, .ok events)

end Network
end LiveQuery
