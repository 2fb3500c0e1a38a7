import LiveQuery.Proofs.Network.Operations
import LiveQuery.Proofs.Network.Staffing

/-!
# Nodes that can tell what they have sent

A node without a memory derives what it has sent from what its child has sent, and runs its check
again on the way.  It can tell (`Network.Tells`) unless the check fails on one of these rows.  A
node with a memory is primed from the nodes that it reads, so a network whose nodes have all been
primed is `Network.Refillable`: what nodes with a memory read can be told, and they could be primed
again.  An install keeps this when it succeeds, and a reset that succeeds leads to it
(`Refillable.install`, `ResetOutcome.refillable`).
-/

namespace LiveQuery

theorem Cell.isStateful_congr {cell other : Cell} (same : other.cleared = cell.cleared) :
    other.isStateful = cell.isStateful := by
  have cleared (cell : Cell) : cell.cleared.isStateful = cell.isStateful := by cases cell <;> rfl
  rw [← cleared, same, cleared]

theorem Cell.exists_receive (checks : Checks) (label : String) (inlet : Inlet) (row : Tuple)
    {cell : Cell} (stateful : cell.isStateful = true) :
    ∃ changed sent, cell.receive checks label inlet ⟨.insert, row⟩ = .ok (changed, sent) ∧
      changed.isStateful = true := by
  cases cell with
  | join leftKey rightKey output left right => cases inlet <;> exact ⟨_, _, rfl, rfl⟩
  | antiJoin relation key kept blocked =>
    cases inlet with
    | right =>
      unfold receive block
      dsimp only
      split <;> exact ⟨_, _, rfl, rfl⟩
    | single => exact ⟨_, _, rfl, rfl⟩
    | left => exact ⟨_, _, rfl, rfl⟩
  | closure relation single swap state =>
    unfold receive
    dsimp only
    split <;> exact ⟨_, _, rfl, rfl⟩
  | production produced =>
    unfold receive produce
    dsimp only
    split <;> exact ⟨_, _, rfl, rfl⟩
  | _ => cases stateful

namespace Network

variable {checks : Checks} {network : Network} {id : NodeId} {node : Node}

/-! ## Telling -/

/-- The node can tell what it has sent: no check fails on the way. -/
def Tells (checks : Checks) (network : Network) (id : NodeId) : Prop :=
  ∃ rows, network.output checks id = .ok rows

theorem output_congr {other : Network} (facts : other.facts = network.facts)
    (nodes : ∀ place ≤ id.index, other.nodes[place]? = network.nodes[place]?) :
    other.output checks id = network.output checks id := by
  induction place : id.index using Nat.strongRecOn generalizing id with
  | _ index ih =>
    rw [output, output, nodes id.index le_rfl, facts]
    cases network.nodes[id.index]? with
    | none => rfl
    | some node =>
      -- the node reads its child only if it comes before it
      have child (child : NodeId) (early : child.index < id.index) :
          other.output checks child = network.output checks child :=
        ih child.index (place ▸ early) (fun before less => nodes before (less.trans early.le)) rfl
      obtain ⟨cell, label, inputs, shared⟩ := node
      rcases inputs with _ | ⟨⟨source | relation, inlet⟩, rest⟩
      · rfl
      · dsimp only
        by_cases early : source.index < id.index
        · rw [if_pos early, if_pos early, child source early]
        · rw [if_neg early, if_neg early]
      · rfl

theorem Tells.congr {other : Network} (tells : network.Tells checks id)
    (facts : other.facts = network.facts)
    (nodes : ∀ place ≤ id.index, other.nodes[place]? = network.nodes[place]?) :
    other.Tells checks id := by
  unfold Tells
  rwa [output_congr facts nodes]

/-- A node with a memory can always tell, and the others can if their children can and their test
answers on each of the rows. -/
theorem tells_iff (wired : network.Wired) (found : network.nodes[id.index]? = some node) :
    network.Tells checks id ↔ node.cell.isStateful = true ∨
      ∀ child inlet, (.node child, inlet) ∈ node.inputs → ∃ rows,
        network.output checks child = .ok rows ∧
          ∀ test, node.cell = .filter test → ∀ row ∈ rows, test.Decides checks row := by
  obtain ⟨cell, label, inputs, shared⟩ := node
  unfold Tells
  rw [output, found]
  dsimp only
  cases cell with
  | join | antiJoin | closure | production => exact ⟨fun _ => .inl rfl, fun _ => ⟨_, rfl⟩⟩
  | source relation arity columns equal =>
    obtain ⟨_, made, _⟩ := wired.ofOperator found rfl
    cases made
    exact ⟨fun _ => .inr (by simp), fun _ => ⟨_, rfl⟩⟩
  | unit row =>
    obtain ⟨_, made, _⟩ := wired.ofOperator found rfl
    cases made
    exact ⟨fun _ => .inr (by simp), fun _ => ⟨_, rfl⟩⟩
  | filter test =>
    obtain ⟨children, made, below⟩ := wired.ofOperator found rfl
    obtain ⟨child, rfl, rfl⟩ := inputs_of_single (.inl ⟨test, rfl⟩) made
    simp only [(below child List.mem_cons_self).1, if_true, List.mem_singleton, Prod.mk.injEq,
      NodeInput.node.injEq, Cell.filter.injEq, forall_eq']
    constructor
    · rintro ⟨passed, selected⟩
      obtain ⟨rows, told, ran⟩ := ok_of_bind selected
      refine .inr ?_
      rintro _ _ ⟨rfl, rfl⟩
      exact ⟨rows, told, RowTest.exists_select_iff.mp ⟨passed, ran⟩⟩
    · rintro (stateful | all)
      · cases stateful
      · obtain ⟨rows, told, decides⟩ := all child .single ⟨rfl, rfl⟩
        obtain ⟨passed, selected⟩ := RowTest.exists_select_iff.mpr decides
        exact ⟨passed, by rw [told]; exact selected⟩
  | project columns =>
    obtain ⟨children, made, below⟩ := wired.ofOperator found rfl
    obtain ⟨child, rfl, rfl⟩ := inputs_of_single (.inr ⟨columns, rfl⟩) made
    simp only [(below child List.mem_cons_self).1, if_true, List.mem_singleton, Prod.mk.injEq,
      NodeInput.node.injEq, reduceCtorEq, false_implies, implies_true, and_true]
    constructor
    · rintro ⟨projected, answered⟩
      obtain ⟨rows, told, _⟩ := ok_of_bind answered
      refine .inr ?_
      rintro _ _ ⟨rfl, rfl⟩
      exact ⟨rows, told⟩
    · rintro (stateful | all)
      · cases stateful
      · obtain ⟨rows, told⟩ := all child .single ⟨rfl, rfl⟩
        exact ⟨_, by rw [told]; rfl⟩

/-! ## Priming -/

/-- The nodes that the node reads can tell. -/
def ReadsTold (checks : Checks) (network : Network) (node : Node) : Prop :=
  ∀ child inlet, (.node child, inlet) ∈ node.inputs → network.Tells checks child

theorem exists_primed (told : network.ReadsTold checks node) :
    ∃ cell, network.primed checks node = .ok cell := by
  have succeeds : Fulfils (network.primed checks node) (fun _ => True) (fun _ => False) := by
    unfold primed
    split
    next stateful =>
      refine Fulfils.mono (?_ : Fulfils _ (fun cell : Cell => cell.isStateful = true) _)
        fun _ _ => trivial
      refine Fulfils.foldlM node.inputs (fun entry member cell before => ?_) stateful
      obtain ⟨input, inlet⟩ := entry
      have supplied : Fulfils (network.supply checks input) (fun _ => True) (fun _ => False) := by
        cases input with
        | facts relation => trivial
        | node child =>
          obtain ⟨rows, found⟩ := told child inlet member
          simp only [supply, found]
          trivial
      refine supplied.andThen fun rows => Fulfils.foldlM rows (fun row _ cell before => ?_) before
      obtain ⟨changed, sent, received, after⟩ :=
        Cell.exists_receive checks node.label inlet row before
      rw [received]
      exact after
    · trivial
  cases primed : network.primed checks node with
  | ok cell => exact ⟨cell, rfl⟩
  | error error => exact (succeeds.of_error primed).elim

theorem readsTold_of_primed (stateful : node.cell.isStateful = true) {cell : Cell}
    (primed : network.primed checks node = .ok cell) : network.ReadsTold checks node := by
  unfold Network.primed at primed
  rw [if_pos stateful] at primed
  unfold ReadsTold
  generalize node.cell = start at primed
  generalize node.inputs = inputs at primed ⊢
  induction inputs generalizing start with
  | nil => simp
  | cons entry rest ih =>
    rw [List.foldlM_cons] at primed
    obtain ⟨middle, first, later⟩ := ok_of_bind primed
    obtain ⟨rows, supplied, _⟩ := ok_of_bind first
    intro child inlet member
    rcases List.mem_cons.mp member with rfl | member
    · exact ⟨rows, supplied⟩
    · exact ih middle later child inlet member

/-! ## Refillable networks -/

/-- What nodes with a memory read can be told, below a place. -/
def RefillableBelow (checks : Checks) (network : Network) (bound : Nat) : Prop :=
  ∀ (place : Nat) (node : Node), place < bound → network.nodes[place]? = some node →
    node.cell.isStateful = true → network.ReadsTold checks node

/-- Every node with a memory could be primed again. -/
def Refillable (checks : Checks) (network : Network) : Prop :=
  network.RefillableBelow checks network.nodes.length

theorem RefillableBelow.congr (wired : network.Wired) {bound : Nat}
    (below : network.RefillableBelow checks bound) {other : Network}
    (facts : other.facts = network.facts)
    (nodes : ∀ place < bound, other.nodes[place]? = network.nodes[place]?) :
    other.RefillableBelow checks bound := by
  intro place node inside found stateful child inlet member
  rw [nodes place inside] at found
  have early := wired.lt_of_mem_inputs found member
  refine (below place node inside found stateful child inlet member).congr facts ?_
  exact fun before less => nodes before (less.trans_lt (early.trans inside))

theorem Refillable.congr {other : Network} (refillable : network.Refillable checks)
    (nodes : other.nodes = network.nodes) (facts : other.facts = network.facts) :
    other.Refillable checks := by
  intro place node inside found stateful child inlet member
  rw [nodes] at inside found
  refine (refillable place node inside found stateful child inlet member).congr facts ?_
  exact fun _ _ => by rw [nodes]

theorem prime_refillable (checks : Checks) (wired : network.Wired) {id : NodeId}
    (below : network.RefillableBelow checks id.index)
    (found : network.nodes[id.index]? = some node) :
    (prime checks id).Ensures network
      (fun _ changed => SameShape network changed ∧
        changed.RefillableBelow checks (id.index + 1)) (fun _ _ => True) := by
  refine (prime_cases checks network found).mono ?_ fun _ _ _ => trivial
  rintro _ _ ⟨cell, primed, rfl⟩
  have same := sameShape_set found (cleared_primed primed)
  set changed : Network := { network with nodes := network.nodes.set id.index { node with cell } }
  have earlier (place : Nat) (less : place < id.index) :
      changed.nodes[place]? = network.nodes[place]? := List.getElem?_set_ne less.ne'
  refine ⟨same, fun place other inside otherFound stateful => ?_⟩
  rcases getElem?_set_cases otherFound with ⟨rfl, rfl⟩ | ⟨apart, old⟩
  · -- what the node was primed from is told as before
    intro child inlet member
    have remembers : node.cell.isStateful = true := by
      rwa [← Cell.isStateful_congr (cleared_primed primed)]
    have early := wired.lt_of_mem_inputs found member
    refine (readsTold_of_primed remembers primed child inlet member).congr rfl ?_
    exact fun before less => earlier before (less.trans_lt early)
  · have less : place < id.index := lt_of_le_of_ne (Nat.lt_succ_iff.mp inside) apart
    have kept : changed.RefillableBelow checks id.index := below.congr wired rfl earlier
    exact kept place other less otherFound stateful

/-- Adding a node to a refillable network makes a refillable network. -/
theorem adds_refillable (checks : Checks) (plans : List Plan) :
    Adds checks plans (Refillable checks) fun _ _ => True := by
  intro network node wired refillable blank fits _
  have pushedWired := wired.append blank fits
  have found : ({ network with nodes := network.nodes ++ [node] } : Network).nodes[
      network.nodes.length]? = some node := List.getElem?_concat_length
  have below : RefillableBelow checks { network with nodes := network.nodes ++ [node] }
      network.nodes.length :=
    RefillableBelow.congr wired refillable rfl fun place less => List.getElem?_append_left less
  refine Building.Ensures.get (Building.Ensures.set ?_)
  refine Building.Ensures.bind (@prime_refillable _ _ checks pushedWired ⟨_⟩ below found) ?_
  rintro _ changed ⟨same, all⟩
  have length : changed.nodes.length = network.nodes.length + 1 := by
    rw [same.length, List.length_append, List.length_singleton]
  show changed.RefillableBelow checks changed.nodes.length
  rwa [length]

/-- A network that has been rebuilt is refillable, whatever state it was in. -/
theorem rebuild_refillable (checks : Checks) (wired : network.Wired) :
    (rebuild checks).Ensures network (fun _ changed => changed.Refillable checks)
      (fun _ _ => True) := by
  have all (count place : Nat) (current : Network) (wired : current.Wired)
      (total : place + count = current.nodes.length)
      (below : current.RefillableBelow checks place) :
      Building.Ensures ((List.range' place count).forM fun place => prime checks ⟨place⟩) current
        (fun _ changed => changed.Refillable checks) (fun _ _ => True) := by
    induction count generalizing place current with
    | zero =>
      show current.RefillableBelow checks current.nodes.length
      rwa [← total]
    | succ count ih =>
      have inside : place < current.nodes.length := by omega
      rw [List.range'_succ]
      show Building.Ensures (prime checks ⟨place⟩ >>= fun _ =>
        (List.range' (place + 1) count).forM fun place => prime checks ⟨place⟩) current _ _
      refine Building.Ensures.bind (@prime_refillable _ _ checks wired ⟨place⟩ below
        (List.getElem?_eq_getElem inside)) ?_
      rintro _ changed ⟨same, next⟩
      exact ih (place + 1) changed (same.wired wired) (by rw [same.length]; omega) next
  have start := all network.nodes.length 0 network wired (Nat.zero_add _)
    fun _ _ early => absurd early (Nat.not_lt_zero _)
  rwa [← List.range_eq_range'] at start

/-- After an install, nodes with a memory can be primed again, if this was so before. -/
theorem Refillable.install {plans : List Plan} {query : QueryId} {after : Network}
    (wired : network.Wired) (refillable : network.Refillable checks)
    (installed : network.install checks plans = (after, .ok query)) : after.Refillable checks := by
  obtain ⟨name, arity, demanded, ran⟩ := run_of_install installed
  obtain ⟨_, sound⟩ := (demandInstall_spec network plans).of_ok demanded
  have built := (adds_refillable checks plans).build (fun _ _ _ _ => trivial)
    (fun _ _ refillable => refillable.congr rfl rfl) wired name arity
    (fun plan member => Plan.grounded_of_demandSound (sound plan member).2) refillable
  exact built.of_ok ran

theorem ResetOutcome.refillable {after : Network} {events : List MatchEvent}
    (wired : network.Wired) (outcome : ResetOutcome checks network (after, .ok events)) :
    after.Refillable checks := by
  have rebuilt := rebuild_refillable checks ((cleared_sameWiring network).wired wired)
  cases outcome with
  | done ran => exact (rebuilt.of_ok ran).congr rfl rfl

end Network
end LiveQuery
