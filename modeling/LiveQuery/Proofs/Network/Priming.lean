import LiveQuery.Proofs.Network.Flow

/-!
# Priming nodes

A node that is new, or whose memories have been cleared, receives everything that its inputs supply
at present.  What a node supplies is computed from its memories, or by the nodes below it if it has
none.  `output_spec` says that in a settled network these are the rows which the node has sent, so
that a new reader is told what an old one has been told bit by bit.

Receiving one row after another leads to memories that hold all of them (`receiveInputs_spec`), and
what the node sends meanwhile is for nobody, since a new node has no readers.  So priming a node
settles it when all nodes before it are settled (`prime_spec`), and priming every node in order
settles the network, whatever state it was in (`rebuild_spec`).  Only a check can stop it, and the
nodes keep what they are all the same (`prime_shape`).
-/

namespace LiveQuery.Network

/-! ## Computations that change a network -/

/-- What a computation leads to from a network: an answer and a network, or an error and what has
become of the network until then. -/
def Building.Ensures {α : Type} (computation : Building α) (network : Network)
    (good : α → Network → Prop) (bad : Error → Network → Prop) : Prop :=
  match computation.run network with
  | .ok answer changed => good answer changed
  | .error error unfinished => bad error unfinished

namespace Building.Ensures

variable {α β : Type} {computation : Building α} {network : Network}
  {good middle : α → Network → Prop} {final : β → Network → Prop}
  {bad worse : Error → Network → Prop}

theorem bind {next : α → Building β} (first : computation.Ensures network middle bad)
    (second : ∀ answer changed, middle answer changed → (next answer).Ensures changed final bad) :
    Building.Ensures (computation >>= next) network final bad := by
  unfold Building.Ensures at first ⊢
  rw [EStateM.run_bind]
  cases found : computation.run network with
  | ok answer changed =>
    rw [found] at first
    exact second answer changed first
  | error error unfinished =>
    rw [found] at first
    exact first

theorem mono (ensures : computation.Ensures network middle worse)
    (better : ∀ answer changed, middle answer changed → good answer changed)
    (weaker : ∀ error unfinished, worse error unfinished → bad error unfinished) :
    computation.Ensures network good bad := by
  unfold Building.Ensures at ensures ⊢
  split at ensures
  · exact better _ _ ensures
  · exact weaker _ _ ensures

theorem of_ok {answer : α} {changed : Network} (ensures : computation.Ensures network good bad)
    (ran : computation.run network = .ok answer changed) : good answer changed := by
  unfold Building.Ensures at ensures
  rwa [ran] at ensures

theorem of_error {error : Error} {unfinished : Network}
    (ensures : computation.Ensures network good bad)
    (ran : computation.run network = .error error unfinished) : bad error unfinished := by
  unfold Building.Ensures at ensures
  rwa [ran] at ensures

theorem lift {result : Except Error α} {next : α → Building β}
    (answered : ∀ answer, result = .ok answer → (next answer).Ensures network final bad)
    (failed : ∀ error, result = .error error → bad error network) :
    Building.Ensures (liftExcept result >>= next) network final bad := by
  cases result with
  | ok answer => exact answered answer rfl
  | error error => exact failed error rfl

theorem lift_ok {result : Except Error α} {answer : α} {next : α → Building β}
    (found : result = .ok answer) (ensures : (next answer).Ensures network final bad) :
    Building.Ensures (liftExcept result >>= next) network final bad := by
  rw [found]
  exact ensures

theorem get {next : Network → Building β} (ensures : (next network).Ensures network final bad) :
    Building.Ensures (MonadState.get >>= next) network final bad := ensures

theorem set {changed : Network} {next : PUnit → Building β}
    (ensures : (next ⟨⟩).Ensures changed final bad) :
    Building.Ensures (MonadStateOf.set changed >>= next) network final bad := ensures

end Building.Ensures

/-! ## Settled places -/

variable {checks : Checks} {truth : CheckId → Tuple → Bool} {network : Network}
  {received : Receipts}

/-- The nodes below a place have received all that their inputs supply. -/
def SettledBelow (truth : CheckId → Tuple → Bool) (network : Network) (received : Receipts)
    (bound : Nat) : Prop :=
  ∀ (place : Nat) (node : Node), place < bound → network.nodes[place]? = some node →
    node.cell.Holds (received place) ∧
      ∀ inlet, received place inlet = gathered (network.suppliedBy truth received) node.inputs inlet

/-- With nothing on its way, all nodes have received what their inputs supply. -/
theorem inFlight_nil_iff : network.InFlight truth received [] ↔
    network.SettledBelow truth received network.nodes.length := by
  constructor
  · intro flight place node _ found
    exact ⟨flight.holds place node found, fun inlet =>
      (flight.owed place node found inlet).eq_of_nil⟩
  · intro below
    have inside {place : Nat} {node : Node} (found : network.nodes[place]? = some node) :=
      below place node (List.getElem?_eq_some_iff.mp found).1 found
    refine ⟨fun place node found => (inside found).1, by simp, ?_⟩
    intro place node found inlet
    rw [(inside found).2 inlet]
    exact .nil _

theorem settled_iff :
    network.Settled truth ↔
      ∃ received, network.SettledBelow truth received network.nodes.length :=
  exists_congr fun _ => inFlight_nil_iff

/-- What nodes before a place supply does not depend on the rest of the network. -/
theorem suppliedBy_congr (other : Network) {now : Receipts} {place : Nat} {input : NodeInput}
    (precedes : input.precedes place = true) (facts : other.facts = network.facts)
    (nodes : ∀ before < place, other.nodes[before]? = network.nodes[before]?)
    (receipts : ∀ before < place, now before = received before) :
    other.suppliedBy truth now input = network.suppliedBy truth received input := by
  cases input with
  | facts relation => simp only [suppliedBy, facts]
  | node id =>
    have before : id.index < place := by simpa [NodeInput.precedes] using precedes
    simp only [suppliedBy, sentAt, nodes _ before, receipts _ before]

theorem SettledBelow.congr (wired : network.Wired) {bound : Nat}
    (below : network.SettledBelow truth received bound) {other : Network}
    (facts : other.facts = network.facts)
    (nodes : ∀ place < bound, other.nodes[place]? = network.nodes[place]?) :
    other.SettledBelow truth received bound := by
  intro place node less found
  rw [nodes place less] at found
  obtain ⟨holds, receives⟩ := below place node less found
  refine ⟨holds, fun inlet => (receives inlet).trans (gathered_congr ?_)⟩
  intro entry member
  refine (suppliedBy_congr other (wired.of_mem_inputs found member).2.1 facts ?_ ?_).symm
  · exact fun before early => nodes before (early.trans less)
  · exact fun before _ => rfl

/-! ## What nodes supply -/

theorem nodup_eraseDups {α : Type} [DecidableEq α] (values : List α) : values.eraseDups.Nodup := by
  induction size : values.length using Nat.strong_induction_on generalizing values with
  | _ size' ih =>
    cases values with
    | nil => exact List.nodup_nil
    | cons value rest =>
      rw [List.eraseDups_cons, List.nodup_cons]
      have shorter := List.length_filter_le (fun other => !other == value) rest
      refine ⟨fun member => ?_, ih _ (by simp at size; omega) _ rfl⟩
      rw [List.mem_eraseDups] at member
      simpa using List.of_mem_filter member

theorem coe_distinct (memory : Bag Tuple) :
    (memory.distinct : Multiset Tuple) = (memory.occurrences : Multiset Tuple).dedup := by
  refine (Multiset.Nodup.ext ?_ (Multiset.nodup_dedup _)).mpr fun row => ?_
  · rw [Multiset.coe_nodup]
    exact nodup_eraseDups _
  · rw [Multiset.mem_coe, Bag.mem_distinct, Multiset.mem_dedup, Multiset.mem_coe]

/-- The memories of a cell determine what it has sent. -/
theorem stored_spec {cell : Cell} {receipts : Inlet → Multiset Tuple} (holds : cell.Holds receipts)
    (stateful : cell.isStateful = true) :
    (cell.stored : Multiset Tuple) = cell.sent truth receipts := by
  cases cell with
  | join leftKey rightKey output left right =>
    obtain ⟨leftHolds, rightHolds⟩ := holds
    have matching (row : Tuple) := Cell.coe_matching rightKey (row.project leftKey) rightHolds
    simp only [Cell.stored, Cell.sent, ← leftHolds, ← matching, Multiset.map_coe, Multiset.coe_bind]
  | antiJoin relation key kept blocked =>
    obtain ⟨keptHolds, blockedHolds⟩ := holds
    simp only [Cell.stored, Cell.sent, ← keptHolds, Multiset.filter_coe,
      Cell.contains_eq blockedHolds, decide_not]
  | closure relation single swap state => rfl
  | production produced =>
    have produced' : (produced.occurrences : Multiset Tuple) = receipts .single := holds
    rw [Cell.stored, Cell.sent, coe_distinct, produced']
  | _ => cases stateful

theorem Wired.ofOperator (wired : network.Wired) {place : Nat} {node : Node}
    (found : network.nodes[place]? = some node) {operator : Operator}
    (carries : node.cell.operator? = some operator) :
    ∃ children, Node.ofOperator operator children = .ok (node.cell.cleared, node.inputs) ∧
      ∀ child ∈ children, child.index < place ∧ Operates network.skeleton child := by
  have fits := wired.nodes place _ (getElem?_skeleton found)
  unfold Node.Fits at fits
  simp only [Node.cleared, Cell.operator?_cleared, carries] at fits
  obtain ⟨children, made, operates⟩ := fits
  exact ⟨children, made, fun child member =>
    ⟨(operates child member).lt, (operates child member).mono (List.take_prefix _ _)⟩⟩

theorem inputs_of_single {operator : Operator} {children : List NodeId} {cell : Cell}
    {inputs : List (NodeInput × Inlet)}
    (single : (∃ test, operator = .filter test) ∨ ∃ columns, operator = .project columns)
    (made : Node.ofOperator operator children = .ok (cell, inputs)) :
    ∃ child, children = [child] ∧ inputs = [(.node child, .single)] := by
  rcases single with ⟨test, rfl⟩ | ⟨columns, rfl⟩
  · rcases children with _ | ⟨child, _ | ⟨_, _⟩⟩ <;> cases made
    exact ⟨child, rfl, rfl⟩
  · rcases children with _ | ⟨child, _ | ⟨_, _⟩⟩ <;> cases made
    exact ⟨child, rfl, rfl⟩

theorem output_spec (agree : checks.Agree truth) (wired : network.Wired) {bound : Nat}
    (below : network.SettledBelow truth received bound) {id : NodeId} (early : id.index < bound)
    (inside : id.index < network.nodes.length) :
    Answers (network.output checks id) fun rows =>
      (rows : Multiset Tuple) = network.sentAt truth received id.index := by
  induction place : id.index using Nat.strong_induction_on generalizing id with
  | _ index ih =>
    have found : network.nodes[id.index]? = some network.nodes[id.index] :=
      List.getElem?_eq_getElem inside
    generalize network.nodes[id.index] = node at found
    obtain ⟨holds, receives⟩ := below _ _ early found
    have sent : network.sentAt truth received id.index =
        node.cell.sent truth (received id.index) := by
      simp only [sentAt, found]
    -- a node with one input supplies a function of what its child supplies
    have single (child : NodeId) (inputs : node.inputs = [(.node child, .single)])
        (before : child.index < id.index) :
        Answers (network.output checks child) fun rows =>
          (rows : Multiset Tuple) = received id.index .single := by
      have gathers : received id.index .single = network.sentAt truth received child.index := by
        rw [receives .single, inputs]
        simp [gathered, suppliedBy]
      rw [gathers]
      exact ih child.index (place ▸ before) (before.trans early) (before.trans inside) rfl
    rw [← place, sent, output, found]
    dsimp only
    cases cell : node.cell with
    | source relation arity columns equal =>
      obtain ⟨_, made, _⟩ := wired.ofOperator found (by rw [cell]; rfl)
      have inputs : node.inputs = [(.facts relation, .single)] := (Prod.ext_iff.mp
        (Except.ok.inj made)).2.symm
      have supplied : received id.index .single = network.facts.occurrencesOf relation := by
        rw [receives .single, inputs]
        simp [gathered, suppliedBy]
      show (((network.facts.occurrencesOf relation).filterMap _ : List Tuple) : Multiset Tuple) = _
      rw [Cell.sent, supplied, Multiset.filterMap_coe]
    | unit row => rfl
    | filter test =>
      obtain ⟨children, made, operates⟩ := wired.ofOperator found (by rw [cell]; rfl)
      obtain ⟨child, rfl, inputs⟩ := inputs_of_single (.inl ⟨test, rfl⟩) made
      have before := (operates child List.mem_cons_self).1
      simp only [inputs, before, if_true]
      refine (single child inputs before).bind ?_
      intro rows supplied
      have passed := test.select_spec agree node.label rows
      unfold Answers at passed ⊢
      split at passed
      · rw [passed, Cell.sent, ← supplied, Multiset.filter_coe]
        simp
      · exact passed
    | project columns =>
      obtain ⟨children, made, operates⟩ := wired.ofOperator found (by rw [cell]; rfl)
      obtain ⟨child, rfl, inputs⟩ := inputs_of_single (.inr ⟨columns, rfl⟩) made
      have before := (operates child List.mem_cons_self).1
      simp only [inputs, before, if_true]
      refine (single child inputs before).bind ?_
      intro rows supplied
      show ((rows.map _ : List Tuple) : Multiset Tuple) = _
      rw [Cell.sent, ← supplied, Multiset.map_coe]
    -- the other cells answer from their memories
    | join leftKey rightKey output left right =>
      rw [cell] at holds
      exact stored_spec holds rfl
    | antiJoin relation key kept blocked =>
      rw [cell] at holds
      exact stored_spec holds rfl
    | closure relation single swap state =>
      rw [cell] at holds
      exact stored_spec holds rfl
    | production produced =>
      rw [cell] at holds
      exact stored_spec holds rfl

theorem supply_spec (agree : checks.Agree truth) (wired : network.Wired) {place : Nat}
    (below : network.SettledBelow truth received place) (inside : place ≤ network.nodes.length)
    {input : NodeInput} (precedes : input.precedes place = true) :
    Answers (network.supply checks input) fun rows =>
      (rows : Multiset Tuple) = network.suppliedBy truth received input := by
  cases input with
  | facts relation => rfl
  | node id =>
    have before : id.index < place := by simpa [NodeInput.precedes] using precedes
    exact output_spec agree wired below before (before.trans_le inside)

/-! ## What nodes receive at first -/

/-- A cell without memories holds what it has received before the first row. -/
theorem holds_zero {cell : Cell} (blank : cell.cleared = cell) : cell.Holds fun _ => 0 := by
  rw [← blank]
  cases cell with
  | join leftKey rightKey output left right => exact ⟨rfl, rfl⟩
  | antiJoin relation key kept blocked => exact ⟨rfl, rfl⟩
  | closure relation single swap state => exact ⟨Closure.exact_empty, rfl⟩
  | production produced => rfl
  | _ => trivial

theorem receiveAll_spec (agree : checks.Agree truth) (label : String) {inlet : Inlet}
    (rows : List Tuple) {cell : Cell} {receipts : Inlet → Multiset Tuple}
    (holds : cell.Holds receipts) (accepts : cell.Accepts inlet) :
    Answers (rows.foldlM (fun cell row =>
        Prod.fst <$> cell.receive checks label inlet ⟨.insert, row⟩) cell) fun changed =>
      changed.cleared = cell.cleared ∧
        changed.Holds (Function.update receipts inlet (receipts inlet + rows)) := by
  induction rows generalizing cell receipts with
  | nil =>
    refine ⟨rfl, ?_⟩
    rwa [Multiset.coe_nil, add_zero, Function.update_eq_self]
  | cons row rest ih =>
    have change : Leads (receipts inlet) [⟨.insert, row⟩] (row ::ₘ receipts inlet) :=
      .insert (.nil _)
    have spec := Cell.receive_spec agree label holds accepts change
    rw [List.foldlM_cons]
    cases answered : cell.receive checks label inlet ⟨.insert, row⟩ with
    | error error =>
      rw [answered] at spec
      exact spec
    | ok answer =>
      obtain ⟨changed, sent⟩ := answer
      have same := Cell.cleared_receive answered
      have later := ih (spec.of_ok answered).1 ((Cell.accepts_congr same inlet).mpr accepts)
      rw [same, Function.update_idem, Function.update_self, Multiset.cons_add,
        ← Multiset.add_cons, Multiset.cons_coe] at later
      exact later

theorem receiveInputs_spec (agree : checks.Agree truth) (wired : network.Wired) {place : Nat}
    (below : network.SettledBelow truth received place) (inside : place ≤ network.nodes.length)
    (label : String) (inputs : List (NodeInput × Inlet)) {cell : Cell}
    {receipts : Inlet → Multiset Tuple} (holds : cell.Holds receipts)
    (connected : ∀ entry ∈ inputs, cell.Accepts entry.2 ∧ entry.1.precedes place = true) :
    Answers (inputs.foldlM (fun cell (input, inlet) => do
        (← network.supply checks input).foldlM (fun cell row =>
          Prod.fst <$> cell.receive checks label inlet ⟨.insert, row⟩) cell) cell) fun changed =>
      changed.cleared = cell.cleared ∧
        changed.Holds fun inlet =>
          receipts inlet + gathered (network.suppliedBy truth received) inputs inlet := by
  induction inputs generalizing cell receipts with
  | nil =>
    refine ⟨rfl, ?_⟩
    simpa [gathered] using holds
  | cons entry rest ih =>
    obtain ⟨input, inlet⟩ := entry
    obtain ⟨accepts, precedes⟩ := connected _ List.mem_cons_self
    rw [List.foldlM_cons]
    have supplies := supply_spec agree wired below inside precedes
    have step : Answers (network.supply checks input >>= fun rows =>
        rows.foldlM (fun cell row =>
          Prod.fst <$> cell.receive checks label inlet ⟨.insert, row⟩) cell) fun changed =>
        changed.cleared = cell.cleared ∧ changed.Holds (Function.update receipts inlet
          (receipts inlet + network.suppliedBy truth received input)) := by
      refine supplies.bind ?_
      intro rows supplied
      rw [← supplied]
      exact receiveAll_spec agree label rows holds accepts
    refine step.bind ?_
    intro changed kept
    obtain ⟨same, changedHolds⟩ := kept
    have later := ih changedHolds fun other member => by
      rw [Cell.accepts_congr same]
      exact connected other (List.mem_cons_of_mem _ member)
    -- what the first input supplies goes to its own inlet only
    have total : (fun port => Function.update receipts inlet
          (receipts inlet + network.suppliedBy truth received input) port +
          gathered (network.suppliedBy truth received) rest port) =
        fun port => receipts port +
          gathered (network.suppliedBy truth received) ((input, inlet) :: rest) port := by
      funext port
      rw [gathered_cons]
      by_cases here : port = inlet
      · subst here
        simp [add_assoc]
      · simp [here, Ne.symm here]
    rwa [same, total] at later

/-- The cell of a node of which the network knows nothing but its inputs. -/
theorem primed_spec (agree : checks.Agree truth) (wired : network.Wired) {place : Nat} {node : Node}
    (below : network.SettledBelow truth received place)
    (found : network.nodes[place]? = some node) (blank : node.cell.cleared = node.cell) :
    Answers (network.primed checks node) fun cell => cell.cleared = node.cell ∧
      cell.Holds (gathered (network.suppliedBy truth received) node.inputs) := by
  have inside := (List.getElem?_eq_some_iff.mp found).1
  have received := receiveInputs_spec agree wired below inside.le node.label node.inputs
    (holds_zero blank) fun entry member =>
      ⟨(wired.of_mem_inputs found member).1, (wired.of_mem_inputs found member).2.1⟩
  simp only [zero_add] at received
  unfold primed
  split
  · rwa [blank] at received
  next stateless =>
    refine ⟨blank, ?_⟩
    cases cell : node.cell with
    | join | antiJoin | closure | production => rw [cell] at stateless; exact absurd rfl stateless
    | _ => trivial

/-! ## Priming -/

/-- Whatever the checks answer, a primed cell differs in its memories only. -/
theorem cleared_primed {node : Node} {cell : Cell} (found : network.primed checks node = .ok cell) :
    cell.cleared = node.cell.cleared := by
  unfold primed at found
  split at found
  · refine foldlM_ok (fun cell => cell.cleared = node.cell.cleared) ?_ rfl found
    intro entry _ before after same step
    obtain ⟨rows, _, received⟩ := ok_of_bind step
    refine foldlM_ok (fun cell => cell.cleared = node.cell.cleared) ?_ same received
    intro row _ before after same step
    cases answered : before.receive checks node.label entry.2 ⟨.insert, row⟩ with
    | error error => rw [answered] at step; cases step
    | ok answer =>
      rw [answered] at step
      cases step
      exact (Cell.cleared_receive answered).trans same
  · cases found
    rfl

theorem prime_cases (checks : Checks) (network : Network) {id : NodeId} {node : Node}
    (found : network.nodes[id.index]? = some node) :
    (prime checks id).Ensures network
      (fun _ changed => ∃ cell, network.primed checks node = .ok cell ∧
        changed = { network with nodes := network.nodes.set id.index { node with cell } })
      (fun error unfinished =>
        network.primed checks node = .error error ∧ unfinished = network) := by
  unfold Building.Ensures prime
  rw [EStateM.run_bind, EStateM.run_get]
  simp only [found]
  cases primed : network.primed checks node with
  | ok cell => exact ⟨cell, rfl, rfl⟩
  | error error => exact ⟨rfl, rfl⟩

theorem SettledBelow.succ (wired : network.Wired) {place : Nat} {node : Node} {cell : Cell}
    (below : network.SettledBelow truth received place)
    (found : network.nodes[place]? = some node)
    (holds : cell.Holds (gathered (network.suppliedBy truth received) node.inputs)) :
    SettledBelow truth { network with nodes := network.nodes.set place { node with cell } }
      (Function.update received place (gathered (network.suppliedBy truth received) node.inputs))
      (place + 1) := by
  set now := Function.update received place
    (gathered (network.suppliedBy truth received) node.inputs)
  set changed : Network := { network with nodes := network.nodes.set place { node with cell } }
  -- up to the place, inputs come from nodes that have not changed
  have same {other : Nat} {entry : Node} (entryFound : network.nodes[other]? = some entry)
      (early : other ≤ place) (inlet : Inlet) :
      gathered (network.suppliedBy truth received) entry.inputs inlet =
        gathered (changed.suppliedBy truth now) entry.inputs inlet := by
    refine gathered_congr ?_
    intro input member
    have nodes (before : Nat) (less : before < other) :
        changed.nodes[before]? = network.nodes[before]? :=
      List.getElem?_set_ne (less.trans_le early).ne'
    have receipts (before : Nat) (less : before < other) : now before = received before :=
      Function.update_of_ne (less.trans_le early).ne _ _
    have facts : changed.facts = network.facts := rfl
    exact (suppliedBy_congr changed (wired.of_mem_inputs entryFound member).2.1 facts nodes
      receipts).symm
  intro other entry less entryFound
  rcases getElem?_set_cases entryFound with ⟨rfl, rfl⟩ | ⟨apart, old⟩
  · have own : now other = gathered (network.suppliedBy truth received) node.inputs :=
      Function.update_self _ _ _
    rw [own]
    exact ⟨holds, fun inlet => same found le_rfl inlet⟩
  · have early : other < place := lt_of_le_of_ne (Nat.lt_succ_iff.mp less) apart
    obtain ⟨entryHolds, receives⟩ := below other entry early old
    have unchanged : now other = received other := Function.update_of_ne apart _ _
    rw [unchanged]
    refine ⟨entryHolds, ?_⟩
    intro inlet
    calc
      received other inlet = gathered (network.suppliedBy truth received) entry.inputs inlet :=
        receives inlet
      _ = gathered (changed.suppliedBy truth now) entry.inputs inlet := same old early.le inlet

/-- Priming a node without memories settles one more place. -/
theorem prime_spec (agree : checks.Agree truth) (wired : network.Wired) {id : NodeId} {node : Node}
    (below : network.SettledBelow truth received id.index)
    (found : network.nodes[id.index]? = some node) (blank : node.cell.cleared = node.cell) :
    (prime checks id).Ensures network
      (fun _ changed => SameShape network changed ∧
        (∀ place, id.index < place → changed.nodes[place]? = network.nodes[place]?) ∧
        ∃ received, changed.SettledBelow truth received (id.index + 1))
      (fun error unfinished => unfinished = network ∧
        ∃ label detail, error = .evaluationFault label detail) := by
  have spec := primed_spec agree wired below found blank
  refine (prime_cases checks network found).mono ?_ ?_
  · intro _ _ found
    obtain ⟨cell, primed, rfl⟩ := found
    obtain ⟨same, holds⟩ := spec.of_ok primed
    refine ⟨sameShape_set found (same.trans blank.symm), fun place later => ?_,
      _, below.succ wired found holds⟩
    exact List.getElem?_set_ne later.ne
  · intro error _ found
    obtain ⟨failed, rfl⟩ := found
    rw [failed] at spec
    exact ⟨rfl, spec⟩

/-! ## Rebuilding -/

theorem prime_shape (checks : Checks) (network : Network) (id : NodeId) :
    (prime checks id).Ensures network (fun _ changed => SameShape network changed)
      (fun _ unfinished => SameShape network unfinished) := by
  cases found : network.nodes[id.index]? with
  | none =>
    unfold Building.Ensures prime
    rw [EStateM.run_bind, EStateM.run_get]
    simp only [found]
    exact .refl network
  | some node =>
    refine (prime_cases checks network found).mono ?_ ?_
    · intro _ _ found
      obtain ⟨cell, primed, rfl⟩ := found
      exact sameShape_set found (cleared_primed primed)
    · intro _ _ found
      obtain ⟨_, rfl⟩ := found
      exact .refl _

theorem rebuild_shape (checks : Checks) (network : Network) :
    (rebuild checks).Ensures network (fun _ changed => SameShape network changed)
      (fun _ unfinished => SameShape network unfinished) := by
  have all (places : List Nat) (current : Network) (same : SameShape network current) :
      Building.Ensures (places.forM fun place => prime checks ⟨place⟩) current
        (fun _ changed => SameShape network changed)
        (fun _ unfinished => SameShape network unfinished) := by
    induction places generalizing current with
    | nil => exact same
    | cons place rest ih =>
      show Building.Ensures (prime checks ⟨place⟩ >>= fun _ =>
        rest.forM fun place => prime checks ⟨place⟩) current _ _
      refine Building.Ensures.bind ((prime_shape checks current ⟨place⟩).mono
        (fun _ changed next => same.trans next) (fun _ unfinished next => same.trans next)) ?_
      exact fun _ changed next => ih changed next
  exact all _ network (.refl _)

/-- Priming all nodes in order settles a network without memories; only a check can fail. -/
theorem rebuild_spec (agree : checks.Agree truth) (wired : network.Wired)
    (blank : ∀ node ∈ network.nodes, node.cell.cleared = node.cell) :
    (rebuild checks).Ensures network (fun _ changed => changed.Settled truth)
      (fun error _ => ∃ label detail, error = .evaluationFault label detail) := by
  -- the nodes from the place on have no memories yet, and those before it are settled
  have all (count place : Nat) (current : Network) (received : Receipts) (wired : current.Wired)
      (total : place + count = current.nodes.length)
      (rest : ∀ later node, place ≤ later → current.nodes[later]? = some node →
        node.cell.cleared = node.cell)
      (below : current.SettledBelow truth received place) :
      Building.Ensures ((List.range' place count).forM fun place => prime checks ⟨place⟩) current
        (fun _ changed => changed.Settled truth)
        (fun error _ => ∃ label detail, error = .evaluationFault label detail) := by
    induction count generalizing place current received with
    | zero =>
      refine settled_iff.mpr ⟨received, ?_⟩
      rwa [← total]
    | succ count ih =>
      have inside : place < current.nodes.length := by omega
      have found := List.getElem?_eq_getElem inside
      rw [List.range'_succ]
      show Building.Ensures (prime checks ⟨place⟩ >>= fun _ =>
        (List.range' (place + 1) count).forM fun place => prime checks ⟨place⟩) current _ _
      refine Building.Ensures.bind ((prime_spec agree wired below found
        (rest place _ le_rfl found)).mono (fun _ _ next => next) fun _ _ failed => failed.2) ?_
      intro _ changed found
      obtain ⟨same, later, now, settled⟩ := found
      refine ih (place + 1) changed now (same.wired wired) ?_ ?_ settled
      · rw [same.length]
        omega
      · intro other node after otherFound
        rw [later other after] at otherFound
        exact rest other node (by omega) otherFound
  have start := all network.nodes.length 0 network (fun _ _ => 0) wired (by simp)
    (fun _ node _ found => blank node (List.mem_of_getElem? found))
    (fun _ _ early => absurd early (Nat.not_lt_zero _))
  rwa [← List.range_eq_range'] at start

end LiveQuery.Network
