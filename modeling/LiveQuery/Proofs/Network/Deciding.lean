import LiveQuery.Proofs.Network.Telling

/-!
# Tests that have answered

A filter runs its check on every row that reaches it, and the delivery fails if the check does.  So
while a change spreads the tests of all filters answer on the rows that have reached them, if they
did before (`Network.Decided`, kept by `Decided.deliver`).  In a settled network these are the rows
that the nodes below the filters have sent, and the tests answer on them if and only if all nodes
can tell what they have sent (`telling_iff`).  A change that succeeds therefore leaves a network in
which all nodes can tell, if they could before (`ChangeOutcome.telling`).
-/

namespace LiveQuery.Network

variable {checks : Checks} {truth : CheckId → Tuple → Bool} {network : Network}
  {received : Receipts}

/-- All nodes can tell what they have sent. -/
def Telling (checks : Checks) (network : Network) : Prop :=
  ∀ place < network.nodes.length, network.Tells checks ⟨place⟩

/-- The tests of all filters answer on the rows that have reached them. -/
def Decided (checks : Checks) (network : Network) (received : Receipts) : Prop :=
  ∀ (place : Nat) (node : Node) (test : RowTest), network.nodes[place]? = some node →
    node.cell = .filter test → ∀ row ∈ received place .single, test.Decides checks row

theorem Telling.congr {other : Network} (telling : network.Telling checks)
    (nodes : other.nodes = network.nodes) (facts : other.facts = network.facts) :
    other.Telling checks := by
  intro place inside
  rw [nodes] at inside
  exact (telling place inside).congr facts fun _ _ => by rw [nodes]

theorem Telling.refillable (wired : network.Wired) (telling : network.Telling checks) :
    network.Refillable checks := by
  intro place node _ found _ child inlet member
  obtain ⟨_, there, _⟩ := (wired.of_mem_inputs found member).2.2 child rfl
  obtain ⟨_, inside, _⟩ := of_getElem?_skeleton there
  exact telling child.index (List.getElem?_eq_some_iff.mp inside).1

/-! ## Settled filters -/

/-- What a settled filter has received is what the only node that it reads has sent. -/
theorem received_filter (wired : network.Wired)
    (below : network.SettledBelow truth received network.nodes.length) {place : Nat} {node : Node}
    {test : RowTest} (found : network.nodes[place]? = some node) (cell : node.cell = .filter test) :
    ∃ child, node.inputs = [(.node child, .single)] ∧ child.index < place ∧
      received place .single = network.sentAt truth received child.index := by
  obtain ⟨children, made, earlier⟩ := wired.ofOperator found (by rw [cell]; rfl)
  obtain ⟨child, rfl, inputs⟩ := inputs_of_single (.inl ⟨test, rfl⟩) made
  refine ⟨child, inputs, (earlier child List.mem_cons_self).1, ?_⟩
  rw [(below place node (List.getElem?_eq_some_iff.mp found).1 found).2 .single, inputs]
  simp [gathered, suppliedBy]

theorem mem_output (agree : checks.Agree truth) (wired : network.Wired)
    (below : network.SettledBelow truth received network.nodes.length) {id : NodeId}
    (inside : id.index < network.nodes.length) {rows : List Tuple}
    (told : network.output checks id = .ok rows) (row : Tuple) :
    row ∈ rows ↔ row ∈ network.sentAt truth received id.index := by
  rw [← (output_spec agree wired below inside inside).of_ok told, Multiset.mem_coe]

/-- In a settled network all nodes can tell if and only if the tests of all filters answer. -/
theorem telling_iff (agree : checks.Agree truth) (wired : network.Wired)
    (below : network.SettledBelow truth received network.nodes.length) :
    network.Telling checks ↔ network.Decided checks received := by
  constructor
  · intro telling place node test found cell row member
    have inside := (List.getElem?_eq_some_iff.mp found).1
    obtain ⟨child, inputs, earlier, same⟩ := received_filter wired below found cell
    have here : network.nodes[(⟨place⟩ : NodeId).index]? = some node := found
    rcases (tells_iff wired here).mp (telling place inside) with stateful | told
    · rw [cell] at stateful
      cases stateful
    · obtain ⟨rows, output, decides⟩ := told child .single (by simp [inputs])
      refine decides test cell row ?_
      rwa [mem_output agree wired below (earlier.trans inside) output, ← same]
  · intro decided place
    induction place using Nat.strongRecOn with
    | _ place ih =>
      intro inside
      have found : network.nodes[(⟨place⟩ : NodeId).index]? = some network.nodes[place] :=
        List.getElem?_eq_getElem inside
      refine (tells_iff wired found).mpr (.inr fun child inlet member => ?_)
      have earlier := wired.lt_of_mem_inputs found member
      obtain ⟨rows, output⟩ := ih child.index earlier (earlier.trans inside)
      refine ⟨rows, output, fun test cell row rowMember => ?_⟩
      obtain ⟨other, inputs, _, same⟩ := received_filter wired below found cell
      rw [inputs] at member
      obtain ⟨rfl, _⟩ : child = other ∧ inlet = .single := by simpa using member
      refine decided place _ test found cell row ?_
      rwa [same, ← mem_output agree wired below (earlier.trans inside) output]

/-! ## Changes -/

theorem decides_of_receive {label : String} {inlet : Inlet} {delta : RowDelta} {test : RowTest}
    {cell : Cell} {sent : List RowDelta}
    (receives : (Cell.filter test).receive checks label inlet delta = .ok (cell, sent)) :
    test.Decides checks delta.row := by
  obtain ⟨accepted, passed, _⟩ := ok_of_bind receives
  exact RowTest.decides_of_passes passed

/-- A delivery that succeeds brings a row on which the test of its node answers. -/
theorem Decided.deliver {changed : Network} {message : Message} {further : List Message}
    {caused : List MatchEvent} (decided : network.Decided checks received)
    (delivered : network.deliver checks message = .ok (changed, further, caused))
    {after : Multiset Tuple}
    (leads : Leads (received message.node.index message.inlet) [message.delta] after) :
    changed.Decided checks (Function.update received message.node.index
      (Function.update (received message.node.index) message.inlet after)) := by
  obtain ⟨node, cell, sent, found, receives, rfl, _⟩ := deliver_cases delivered
  intro place other test otherFound isFilter row member
  rcases getElem?_set_cases otherFound with ⟨rfl, rfl⟩ | ⟨apart, old⟩
  · have before : node.cell = .filter test := by
      have same := Cell.cleared_receive receives
      rw [show cell = .filter test from isFilter] at same
      cases kind : node.cell <;> rw [kind] at same <;> cases same
      rfl
    have earlier := decided _ node test found before
    rw [Function.update_self] at member
    by_cases here : message.inlet = .single
    · rw [here] at leads member
      rw [Function.update_self] at member
      rw [before] at receives
      rcases leads.single with rfl | same
      · rcases Multiset.mem_cons.mp member with rfl | member
        · exact decides_of_receive receives
        · exact earlier row member
      · exact earlier row (same ▸ Multiset.mem_cons_of_mem member)
    · rw [Function.update_of_ne (Ne.symm here)] at member
      exact earlier row member
  · rw [Function.update_of_ne apart] at member
    exact decided place other test old isFilter row member

theorem Decided.drains (agree : checks.Agree truth) (wired : network.Wired)
    {queue later : List Message} {after : Network} (decided : network.Decided checks received)
    (flight : network.InFlight truth received queue)
    (drains : Drains checks network queue after later) :
    ∃ received, after.InFlight truth received later ∧ after.Decided checks received := by
  induction drains generalizing received with
  | refl => exact ⟨received, flight, decided⟩
  | deliver delivered _ ih =>
    obtain ⟨_, leads, next⟩ := (flight.deliver agree wired).of_ok delivered
    exact ih ((deliver_shape delivered).wired wired) (decided.deliver delivered leads) next

theorem ChangeOutcome.telling {change : FactChange} {after : Network} {events : List MatchEvent}
    (agree : checks.Agree truth) (wired : network.Wired)
    (settled : network.reported = none → network.Settled truth)
    (telling : network.reported = none → network.Telling checks)
    (outcome : ChangeOutcome checks network change (after, .ok events)) :
    after.Telling checks := by
  cases outcome with
  | @done facts _ usable applied finished =>
    obtain ⟨received, flight⟩ := settled usable
    have same : SameWiring network { network with facts } := ⟨rfl, rfl⟩
    have decided := (telling_iff agree wired (inFlight_nil_iff.mp flight)).mp (telling usable)
    have drains := propagate_drains checks { network with facts } (broadcast (network.readers
      (.facts change.fact.relation)) [⟨change.kind, change.fact.tuple⟩])
    unfold DrainsTo at drains
    unfold spreadOf at finished
    rw [finished] at drains
    have begun : Decided checks { network with facts } received := decided
    obtain ⟨now, settledNow, decidedNow⟩ :=
      begun.drains agree (same.wired wired) (flight.changeFacts wired applied) drains
    have told := (telling_iff agree (drains.shape.wired (same.wired wired))
      (inFlight_nil_iff.mp settledNow)).mpr decidedNow
    exact told.congr rfl rfl

end LiveQuery.Network
