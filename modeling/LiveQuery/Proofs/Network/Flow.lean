import LiveQuery.Proofs.Network.Wiring

/-!
# Rows in flight

While a change spreads, some nodes have received their rows and others have not yet.  `InFlight`
describes such a state by what every node has received so far: the memories hold it, and the
messages that are still on their way lead from it to what the inputs of the node supply by now.  A
network is `Settled` when this holds and nothing is on its way.

A delivered message keeps the description (`InFlight.deliver`), because the rows that its node sends
on are exactly what the readers of the node are then owed (`leads_gathered`, `count_readers`), and
so does draining the queue (`InFlight.drains`).  The messages of a change are what is owed after it
(`Settled.changeFacts`), so that a change that spreads to the end leaves the network settled
(`InFlight.propagate`).
-/

namespace LiveQuery

/-- What every place has received on every inlet. -/
abbrev Receipts := Nat → Inlet → Multiset Tuple

/-- What a list of inputs supplies on one inlet, all together. -/
def gathered (supply : NodeInput → Multiset Tuple) (inputs : List (NodeInput × Inlet))
    (inlet : Inlet) : Multiset Tuple :=
  ((inputs.filter (·.2 = inlet)).map fun entry => supply entry.1).sum

/-- The changes that are on their way to an inlet of a place, in order. -/
def pendingAt (queue : List Message) (place : Nat) (inlet : Inlet) : List RowDelta :=
  (queue.filter fun message => message.node = ⟨place⟩ ∧ message.inlet = inlet).map Message.delta

/-- What a spread leads to, unless a check fails. -/
def Spread.Ends (spread : Spread) (post : Prop) : Prop :=
  match spread.failure with
  | none => post
  | some error => ∃ label detail, error = .evaluationFault label detail

/-! ## Inputs -/

section Inputs

variable {supply other : NodeInput → Multiset Tuple}

@[simp] theorem gathered_nil (inlet : Inlet) : gathered supply [] inlet = 0 := rfl

@[simp] theorem gathered_cons (entry : NodeInput × Inlet) (inputs : List (NodeInput × Inlet))
    (inlet : Inlet) :
    gathered supply (entry :: inputs) inlet =
      (if entry.2 = inlet then supply entry.1 else 0) + gathered supply inputs inlet := by
  unfold gathered
  by_cases same : entry.2 = inlet
  · simp [same]
  · simp [same]

theorem mem_gathered {inputs : List (NodeInput × Inlet)} {inlet : Inlet} {row : Tuple} :
    row ∈ gathered supply inputs inlet ↔
      ∃ entry ∈ inputs, entry.2 = inlet ∧ row ∈ supply entry.1 := by
  induction inputs with
  | nil => simp
  | cons entry rest ih =>
    rw [gathered_cons, Multiset.mem_add, ih]
    by_cases same : entry.2 = inlet <;> simp [same]

theorem gathered_congr {inputs : List (NodeInput × Inlet)} {inlet : Inlet}
    (same : ∀ entry ∈ inputs, supply entry.1 = other entry.1) :
    gathered supply inputs inlet = gathered other inputs inlet := by
  unfold gathered
  refine congrArg _ (List.map_congr_left ?_)
  intro entry member
  exact same entry (List.mem_of_mem_filter member)

theorem gathered_split (input : NodeInput) (inputs : List (NodeInput × Inlet)) (inlet : Inlet) :
    gathered supply inputs inlet = inputs.count (input, inlet) • supply input +
      gathered supply (inputs.filter (·.1 ≠ input)) inlet := by
  induction inputs with
  | nil => simp [gathered]
  | cons entry rest ih =>
    obtain ⟨source, port⟩ := entry
    rw [gathered_cons, ih, List.count_cons, List.filter_cons]
    by_cases sameSource : source = input
    · subst sameSource
      by_cases samePort : port = inlet
      · simp [samePort, succ_nsmul', add_assoc]
      · simp [samePort]
    · simp [sameSource, add_left_comm]

theorem leads_gathered {input : NodeInput} {deltas : List RowDelta}
    (change : Leads (supply input) deltas (other input))
    (same : ∀ source, source ≠ input → supply source = other source)
    (inputs : List (NodeInput × Inlet)) (inlet : Inlet) :
    Leads (gathered supply inputs inlet)
      (deltas.flatMap (List.replicate (inputs.count (input, inlet))))
      (gathered other inputs inlet) := by
  have rest : gathered supply (inputs.filter (·.1 ≠ input)) inlet =
      gathered other (inputs.filter (·.1 ≠ input)) inlet := by
    refine gathered_congr fun entry member => same _ ?_
    simpa using List.of_mem_filter member
  rw [gathered_split input inputs, gathered_split input inputs, rest]
  exact (change.copies _).add_right _

end Inputs

/-! ## Queues -/

@[simp] theorem pendingAt_append (first second : List Message) (place : Nat) (inlet : Inlet) :
    pendingAt (first ++ second) place inlet =
      pendingAt first place inlet ++ pendingAt second place inlet := by
  simp [pendingAt]

theorem pendingAt_cons (message : Message) (rest : List Message) (place : Nat) (inlet : Inlet) :
    pendingAt (message :: rest) place inlet =
      (if message.node = ⟨place⟩ ∧ message.inlet = inlet then [message.delta] else []) ++
        pendingAt rest place inlet := by
  unfold pendingAt
  by_cases addressed : message.node = ⟨place⟩ ∧ message.inlet = inlet
  · simp [addressed]
  · simp [addressed]

theorem pendingAt_broadcast (readers : List (NodeId × Inlet)) (deltas : List RowDelta) (place : Nat)
    (inlet : Inlet) :
    pendingAt (broadcast readers deltas) place inlet =
      deltas.flatMap (List.replicate (readers.count (⟨place⟩, inlet))) := by
  have single (delta : RowDelta) :
      pendingAt (readers.map fun reader => ⟨reader.1, reader.2, delta⟩) place inlet =
        List.replicate (readers.count (⟨place⟩, inlet)) delta := by
    induction readers with
    | nil => rfl
    | cons reader rest ih =>
      rw [List.map_cons, pendingAt_cons, ih, List.count_cons, Nat.add_comm, List.replicate_add]
      by_cases same : reader = (⟨place⟩, inlet)
      · subst same
        simp
      · have apart : ¬(reader.1 = ⟨place⟩ ∧ reader.2 = inlet) :=
          fun both => same (Prod.ext both.1 both.2)
        simp [same, apart]
  induction deltas with
  | nil => rfl
  | cons delta rest ih =>
    show pendingAt (readers.map (fun reader => ⟨reader.1, reader.2, delta⟩) ++
      broadcast readers rest) place inlet = _
    rw [pendingAt_append, single, ih, List.flatMap_cons]

/-! ## Readers -/

theorem count_inletsOf {node : Node} {place : Nat} {input : NodeInput} {inlet : Inlet}
    (forward : (input, inlet) ∈ node.inputs → input.precedes place = true) :
    (node.inletsOf place input).count (⟨place⟩, inlet) = node.inputs.count (input, inlet) := by
  unfold Node.inletsOf
  split
  next precedes =>
    clear forward
    induction node.inputs with
    | nil => rfl
    | cons entry rest ih =>
      obtain ⟨source, port⟩ := entry
      rw [List.filter_cons, List.count_cons]
      by_cases same : source = input
      · simp [same, ih, List.count_cons]
      · simp [same, ih]
  next backward =>
    have absent : (input, inlet) ∉ node.inputs := fun member => backward (forward member)
    simp [List.count_eq_zero.mpr absent]

theorem count_inletsOf_elsewhere (node : Node) {place other : Nat} (different : other ≠ place)
    (input : NodeInput) (inlet : Inlet) :
    (node.inletsOf other input).count (⟨place⟩, inlet) = 0 := by
  refine List.count_eq_zero.mpr ?_
  intro member
  unfold Node.inletsOf at member
  split at member
  · obtain ⟨_, _, same⟩ := List.mem_map.mp member
    exact different (congrArg (fun reader => reader.1.index) same)
  · cases member

theorem count_inletsOf_zipIdx (nodes : List Node) (start place : Nat) (input : NodeInput)
    (inlet : Inlet) :
    ((nodes.zipIdx start).flatMap fun (node, other) => node.inletsOf other input).count
        (⟨place⟩, inlet) =
      if start ≤ place then
        (nodes[place - start]?.elim 0 fun node =>
          (node.inletsOf place input).count (⟨place⟩, inlet))
      else 0 := by
  induction nodes generalizing start with
  | nil => simp
  | cons node rest ih =>
    rw [List.zipIdx_cons, List.flatMap_cons, List.count_append, ih]
    -- only the node at the place has inlets there
    rcases Nat.lt_trichotomy start place with before | rfl | after
    · have shift : place - start = place - (start + 1) + 1 := by omega
      rw [count_inletsOf_elsewhere node before.ne, if_pos before.le,
        if_pos (Nat.succ_le_of_lt before), shift,
        List.getElem?_cons_succ, Nat.zero_add]
    · simp
    · rw [count_inletsOf_elsewhere node after.ne', if_neg (by omega), if_neg (by omega)]

namespace Network

/-- A node is listed among the readers of an input once for each connection. -/
theorem count_readers {network : Network} {place : Nat} {node : Node}
    (found : network.nodes[place]? = some node) (input : NodeInput) (inlet : Inlet)
    (forward : (input, inlet) ∈ node.inputs → input.precedes place = true) :
    (network.readers input).count (⟨place⟩, inlet) = node.inputs.count (input, inlet) := by
  rw [readers, count_inletsOf_zipIdx, if_pos (Nat.zero_le _), Nat.sub_zero, found]
  exact count_inletsOf forward

/-! ## The state of a spreading change -/

section Flow

variable (truth : CheckId → Tuple → Bool) (network : Network) (received : Receipts)

/-- What the node at a place has sent. -/
def sentAt (place : Nat) : Multiset Tuple :=
  match network.nodes[place]? with
  | some node => node.cell.sent truth (received place)
  | none => 0

/-- What an input supplies by now. -/
def suppliedBy : NodeInput → Multiset Tuple
  | .node id => network.sentAt truth received id.index
  | .facts relation => network.facts.occurrencesOf relation

/-- Every node has received something, remembers it, and is owed the rest by the messages that are
still on their way to it. -/
structure InFlight (queue : List Message) : Prop where
  holds : ∀ (place : Nat) (node : Node), network.nodes[place]? = some node →
    node.cell.Holds (received place)
  addressed : ∀ message ∈ queue, ∃ node, network.nodes[message.node.index]? = some node ∧
    node.cell.Accepts message.inlet
  owed : ∀ (place : Nat) (node : Node), network.nodes[place]? = some node → ∀ inlet,
    Leads (received place inlet) (pendingAt queue place inlet)
      (gathered (network.suppliedBy truth received) node.inputs inlet)

/-- Every node has received all that its inputs supply. -/
def Settled : Prop := ∃ received, network.InFlight truth received []

end Flow

variable {checks : Checks} {truth : CheckId → Tuple → Bool} {network : Network}
  {received : Receipts}

theorem Settled.congr {other : Network} (settled : network.Settled truth)
    (nodes : other.nodes = network.nodes) (facts : other.facts = network.facts) :
    other.Settled truth := by
  obtain ⟨received, flight⟩ := settled
  cases network
  cases other
  cases nodes
  cases facts
  exact ⟨received, flight.holds, flight.addressed, flight.owed⟩

/-! ## Delivering messages -/

/-- The messages to the readers of an input are what they are then owed. -/
theorem pendingAt_readers (wired : network.Wired) {place : Nat} {node : Node}
    (found : network.nodes[place]? = some node) (input : NodeInput) (deltas : List RowDelta)
    (inlet : Inlet) :
    pendingAt (broadcast (network.readers input) deltas) place inlet =
      deltas.flatMap (List.replicate (node.inputs.count (input, inlet))) := by
  rw [pendingAt_broadcast, count_readers found input inlet]
  intro member
  exact (wired.of_mem_inputs found member).2.1

theorem of_mem_readers {input : NodeInput} {reader : NodeId × Inlet}
    (member : reader ∈ network.readers input) :
    ∃ node, network.nodes[reader.1.index]? = some node ∧ (input, reader.2) ∈ node.inputs := by
  simp only [readers, List.mem_flatMap, Node.inletsOf] at member
  obtain ⟨⟨node, place⟩, placed, member⟩ := member
  split at member
  · obtain ⟨⟨source, inlet⟩, entry, rfl⟩ := List.mem_map.mp member
    obtain ⟨connected, same⟩ := List.mem_filter.mp entry
    obtain rfl : source = input := by simpa using same
    exact ⟨node, List.mem_zipIdx_iff_getElem?.mp placed, connected⟩
  · cases member

/-- The messages to the readers of an input arrive where rows are taken. -/
theorem addressed_readers (wired : network.Wired) (input : NodeInput) (deltas : List RowDelta) :
    ∀ message ∈ broadcast (network.readers input) deltas,
      ∃ node, network.nodes[message.node.index]? = some node ∧
        node.cell.Accepts message.inlet := by
  intro message member
  obtain ⟨delta, _, member⟩ := List.mem_flatMap.mp member
  obtain ⟨reader, readerMember, rfl⟩ := List.mem_map.mp member
  obtain ⟨node, found, connected⟩ := of_mem_readers readerMember
  exact ⟨node, found, (wired.of_mem_inputs found connected).1⟩

theorem sentAt_set {place : Nat} {node : Node} {cell : Cell} {now : Inlet → Multiset Tuple}
    (found : network.nodes[place]? = some node) (other : Nat) :
    sentAt truth { network with nodes := network.nodes.set place { node with cell } }
        (Function.update received place now) other =
      if other = place then cell.sent truth now else network.sentAt truth received other := by
  have inside := (List.getElem?_eq_some_iff.mp found).1
  by_cases same : other = place
  · subst same
    simp [sentAt, inside]
  · simp [sentAt, same, Ne.symm same]

theorem getElem?_set_cases {α : Type} {entries : List α} {place other : Nat} {entry value : α}
    (found : (entries.set place value)[other]? = some entry) :
    (other = place ∧ entry = value) ∨ (other ≠ place ∧ entries[other]? = some entry) := by
  by_cases here : other = place
  · subst here
    have inside : other < entries.length := by
      simpa using (List.getElem?_eq_some_iff.mp found).1
    rw [List.getElem?_set_self inside] at found
    exact .inl ⟨rfl, (Option.some.inj found).symm⟩
  · rw [List.getElem?_set_ne (Ne.symm here)] at found
    exact .inr ⟨here, found⟩

theorem leads_suppliedBy_set {place : Nat} {node : Node} {cell : Cell}
    {now : Inlet → Multiset Tuple} {rows : List RowDelta}
    (found : network.nodes[place]? = some node)
    (sends : Leads (node.cell.sent truth (received place)) rows (cell.sent truth now)) :
    Leads (network.suppliedBy truth received (.node ⟨place⟩)) rows
      (suppliedBy truth { network with nodes := network.nodes.set place { node with cell } }
        (Function.update received place now) (.node ⟨place⟩)) := by
  show Leads (network.sentAt truth received place) rows (sentAt truth _ _ place)
  rw [sentAt_set found, if_pos rfl]
  simpa [sentAt, found] using sends

theorem suppliedBy_set {place : Nat} {node : Node} {cell : Cell} {now : Inlet → Multiset Tuple}
    (found : network.nodes[place]? = some node) (source : NodeInput)
    (different : source ≠ .node ⟨place⟩) :
    network.suppliedBy truth received source =
      suppliedBy truth { network with nodes := network.nodes.set place { node with cell } }
        (Function.update received place now) source := by
  cases source with
  | facts relation => rfl
  | node id =>
    have apart : id.index ≠ place := fun same => different (congrArg NodeInput.node (Id.ext same))
    simp [suppliedBy, sentAt_set found, apart]

/-- One node receives a change, and its readers are owed what it sends on. -/
theorem InFlight.receive {message : Message} {rest further : List Message}
    (flight : network.InFlight truth received (message :: rest)) {node : Node} {cell : Cell}
    {rows : List RowDelta} {after : Multiset Tuple}
    (found : network.nodes[message.node.index]? = some node)
    (same : cell.cleared = node.cell.cleared)
    (holds : cell.Holds (Function.update (received message.node.index) message.inlet after))
    (sends : Leads (node.cell.sent truth (received message.node.index)) rows
      (cell.sent truth (Function.update (received message.node.index) message.inlet after)))
    (remaining : Leads after (pendingAt rest message.node.index message.inlet)
      (gathered (network.suppliedBy truth received) node.inputs message.inlet))
    (owed : ∀ (place : Nat) (other : Node), network.nodes[place]? = some other → ∀ inlet,
      pendingAt further place inlet =
        rows.flatMap (List.replicate (other.inputs.count (.node message.node, inlet))))
    (addressed : ∀ later ∈ further, ∃ other, network.nodes[later.node.index]? = some other ∧
      other.cell.Accepts later.inlet) :
    InFlight truth
      { network with nodes := network.nodes.set message.node.index { node with cell } }
      (Function.update received message.node.index
        (Function.update (received message.node.index) message.inlet after))
      (rest ++ further) := by
  obtain ⟨⟨place⟩, inlet, delta⟩ := message
  have inside := (List.getElem?_eq_some_iff.mp found).1
  set now := Function.update (received place) inlet after
  set changed : Network := { network with nodes := network.nodes.set place { node with cell } }
  have supplies := leads_suppliedBy_set found sends
  have others (source : NodeInput) (different : source ≠ .node ⟨place⟩) :
      network.suppliedBy truth received source =
        changed.suppliedBy truth (Function.update received place now) source :=
    suppliedBy_set found source different
  refine ⟨fun other entry entryFound => ?_, fun later member => ?_,
    fun other entry entryFound port => ?_⟩
  · rcases getElem?_set_cases entryFound with ⟨rfl, rfl⟩ | ⟨here, old⟩
    · simpa using holds
    · rw [Function.update_of_ne here]
      exact flight.holds other entry old
  · have old : ∃ other, network.nodes[later.node.index]? = some other ∧
        other.cell.Accepts later.inlet := by
      rcases List.mem_append.mp member with member | member
      · exact flight.addressed later (List.mem_cons_of_mem _ member)
      · exact addressed later member
    obtain ⟨other, otherFound, accepts⟩ := old
    by_cases here : later.node.index = place
    · rw [here, found] at otherFound
      cases otherFound
      exact ⟨{ node with cell }, by simp [changed, here, inside],
        (Cell.accepts_congr same _).mpr accepts⟩
    · exact ⟨other, by simpa [changed, Ne.symm here] using otherFound, accepts⟩
  · rw [pendingAt_append]
    rcases getElem?_set_cases entryFound with ⟨rfl, rfl⟩ | ⟨here, old⟩
    · -- the node is still owed what was behind the delivered message
      rw [owed other node found]
      refine Leads.append ?_ (leads_gathered supplies others node.inputs port)
      rw [Function.update_self]
      by_cases same : port = inlet
      · subst same
        simpa [now] using remaining
      · have still := flight.owed other node found port
        rw [pendingAt_cons, if_neg (fun both => same both.2.symm), List.nil_append] at still
        simpa [now, same] using still
    · -- the other nodes are owed the new messages after the old ones
      rw [owed other entry old, Function.update_of_ne here]
      refine Leads.append ?_ (leads_gathered supplies others entry.inputs port)
      have still := flight.owed other entry old port
      rwa [pendingAt_cons, if_neg (fun both => here (congrArg Id.index both.1).symm),
        List.nil_append] at still

theorem count_inputs_production (wired : network.Wired) {id : NodeId} {query : QueryId}
    (production : network.queryOf? id = some query) {place : Nat} {node : Node}
    (found : network.nodes[place]? = some node) (inlet : Inlet) :
    node.inputs.count (.node id, inlet) = 0 := by
  refine List.count_eq_zero.mpr ?_
  intro member
  obtain ⟨installed, queryFound, rfl⟩ := queryOf?_eq_some production
  obtain ⟨blank, blankFound, none⟩ :=
    wired.produced installed (List.mem_of_getElem? queryFound)
  obtain ⟨operating, operatingFound, some⟩ :=
    (wired.of_mem_inputs found member).2.2 installed.production rfl
  rw [blankFound] at operatingFound
  cases operatingFound
  exact some none

/-- A delivery can only fail through a check.  Otherwise the node has then received the row. -/
theorem InFlight.deliver (agree : checks.Agree truth) (wired : network.Wired) {message : Message}
    {rest : List Message} (flight : network.InFlight truth received (message :: rest)) :
    Answers (network.deliver checks message) fun (changed, further, _) => ∃ after,
      Leads (received message.node.index message.inlet) [message.delta] after ∧
        changed.InFlight truth (Function.update received message.node.index
          (Function.update (received message.node.index) message.inlet after))
          (rest ++ further) := by
  obtain ⟨node, found, accepts⟩ := flight.addressed message List.mem_cons_self
  have owed := flight.owed message.node.index node found message.inlet
  rw [pendingAt_cons, if_pos ⟨rfl, rfl⟩] at owed
  obtain ⟨after, change, remaining⟩ := owed.uncons
  have spec := Cell.receive_spec agree node.label (flight.holds _ node found) accepts change
  simp only [Network.deliver, found]
  cases answered : node.cell.receive checks node.label message.inlet message.delta with
  | error error =>
    rw [answered] at spec
    exact spec
  | ok answer =>
    obtain ⟨cell, rows⟩ := answer
    obtain ⟨holds, sends⟩ := spec.of_ok answered
    have same := Cell.cleared_receive answered
    dsimp only [bind, Except.bind]
    split
    next query production =>
      -- nobody reads the production, so that nobody is owed anything
      refine ⟨_, change, flight.receive found same holds sends remaining ?_ (by simp)⟩
      intro place other otherFound inlet
      rw [count_inputs_production wired production otherFound]
      simp [pendingAt]
    · refine ⟨_, change, flight.receive found same holds sends remaining ?_
        (addressed_readers wired _ _)⟩
      intro place other otherFound inlet
      exact pendingAt_readers wired otherFound _ _ _

theorem InFlight.drains (agree : checks.Agree truth) (wired : network.Wired)
    {queue later : List Message} {after : Network}
    (flight : network.InFlight truth received queue)
    (drains : Drains checks network queue after later) :
    ∃ received, after.InFlight truth received later := by
  induction drains generalizing received with
  | refl => exact ⟨received, flight⟩
  | deliver delivered _ ih =>
    obtain ⟨_, _, next⟩ := (flight.deliver agree wired).of_ok delivered
    exact ih ((deliver_shape delivered).wired wired) next

/-- A wave that spreads to the end leaves the network settled. -/
theorem InFlight.propagate (agree : checks.Agree truth) (wired : network.Wired)
    {wave : List Message} (flight : network.InFlight truth received wave) :
    (network.propagate checks wave).Ends
      ((network.propagate checks wave).network.Settled truth) := by
  have drains := propagate_drains checks network wave
  unfold DrainsTo at drains
  unfold Spread.Ends
  cases failure : (network.propagate checks wave).failure with
  | none =>
    rw [failure] at drains
    exact flight.drains agree wired drains
  | some error =>
    rw [failure] at drains
    obtain ⟨message, rest, reaches, fails⟩ := drains
    obtain ⟨_, now⟩ := flight.drains agree wired reaches
    have answers := now.deliver agree (reaches.shape.wired wired)
    rw [fails] at answers
    exact answers

/-! ## Changing facts -/

theorem occurrencesOf_add (facts : FactStore) (fact : Fact) (relation : RelationId) :
    FactStore.occurrencesOf (facts.add fact) relation =
      (if fact.relation = relation then [fact.tuple] else []) ++ facts.occurrencesOf relation := by
  unfold FactStore.occurrencesOf Bag.add
  by_cases same : fact.relation = relation
  · simp [FactStore.tupleOf?, same]
  · simp [FactStore.tupleOf?, same]

theorem occurrencesOf_erase {facts : FactStore} {fact : Fact} (present : fact ∈ facts.occurrences)
    (relation : RelationId) :
    (facts.occurrencesOf relation : Multiset Tuple) =
      (if fact.relation = relation then [fact.tuple] else [] : List Tuple) +
        FactStore.occurrencesOf (facts.erase fact) relation := by
  rw [Multiset.coe_add, Multiset.coe_eq_coe]
  calc
    (facts.occurrencesOf relation).Perm
        (FactStore.occurrencesOf ((facts.erase fact).add fact) relation) :=
      (List.perm_cons_erase present).filterMap (FactStore.tupleOf? relation)
    List.Perm _ ((if fact.relation = relation then [fact.tuple] else []) ++
        FactStore.occurrencesOf (facts.erase fact) relation) :=
      List.Perm.of_eq (occurrencesOf_add (facts.erase fact) fact relation)

theorem facts_of_apply {facts changed : FactStore} {change : FactChange} {presence : Presence}
    (applied : facts.apply change = .ok (changed, presence)) :
    changed = match change.kind with
      | .insert => facts.add change.fact
      | .delete => facts.erase change.fact := by
  obtain ⟨kind, fact⟩ := change
  cases kind with
  | insert =>
    cases applied
    rfl
  | delete =>
    simp only [FactStore.apply, FactStore.delete] at applied
    split at applied <;> cases applied
    rfl

/-- A change that the store accepts changes the rows of its relation by one, and no others. -/
theorem leads_apply {facts changed : FactStore} {change : FactChange} {presence : Presence}
    (applied : facts.apply change = .ok (changed, presence)) :
    Leads (facts.occurrencesOf change.fact.relation) [⟨change.kind, change.fact.tuple⟩]
        (changed.occurrencesOf change.fact.relation) ∧
      ∀ relation, relation ≠ change.fact.relation →
        (facts.occurrencesOf relation : Multiset Tuple) = changed.occurrencesOf relation := by
  obtain rfl := facts_of_apply applied
  obtain ⟨kind, fact⟩ := change
  cases kind with
  | insert =>
    refine ⟨.insert ?_, fun relation different => ?_⟩
    · rw [occurrencesOf_add, if_pos rfl]
      exact .nil _
    · rw [occurrencesOf_add, if_neg (Ne.symm different), List.nil_append]
  | delete =>
    simp only [FactStore.apply, FactStore.delete, Bag.presenceOnErase?] at applied
    -- a deletion is only accepted when the fact is there
    have present : fact ∈ facts.occurrences := by
      rw [← Bag.count_pos_iff]
      by_contra absent
      rw [Nat.eq_zero_of_not_pos absent] at applied
      cases applied
    refine ⟨?_, fun relation different => ?_⟩
    · rw [occurrencesOf_erase present, if_pos rfl, Multiset.coe_singleton, Multiset.singleton_add]
      exact .delete (.nil _)
    · rw [occurrencesOf_erase present, if_neg (Ne.symm different), Multiset.coe_nil, zero_add]

/-- The messages of a change are what the readers of its relation are then owed. -/
theorem InFlight.changeFacts (wired : network.Wired) (flight : network.InFlight truth received [])
    {change : FactChange} {facts : FactStore} {presence : Presence}
    (applied : network.facts.apply change = .ok (facts, presence)) :
    InFlight truth { network with facts } received
      (broadcast (network.readers (.facts change.fact.relation))
        [⟨change.kind, change.fact.tuple⟩]) := by
  obtain ⟨moves, rests⟩ := leads_apply applied
  refine ⟨flight.holds, addressed_readers wired _ _, fun place node found inlet => ?_⟩
  rw [pendingAt_readers wired found, (flight.owed place node found inlet).eq_of_nil]
  refine leads_gathered moves (fun source different => ?_) node.inputs inlet
  cases source with
  | node id => rfl
  | facts relation => exact rests relation fun same => different (congrArg _ same)

theorem Settled.changeFacts (wired : network.Wired) (settled : network.Settled truth)
    {change : FactChange} {facts : FactStore} {presence : Presence}
    (applied : network.facts.apply change = .ok (facts, presence)) :
    ∃ received, InFlight truth { network with facts } received
      (broadcast (network.readers (.facts change.fact.relation))
        [⟨change.kind, change.fact.tuple⟩]) := by
  obtain ⟨received, flight⟩ := settled
  exact ⟨received, flight.changeFacts wired applied⟩

end Network
end LiveQuery
