import LiveQuery.Proofs.Network.Meaning

/-!
# Rows that may be on their way

`may` says which rows an input of a node may ever bring.  It `Closes` a list of nodes if an operator
node that is brought such rows only sends such rows.  While a change spreads, the memories then hold
no other rows and no other rows are on their way (`Carries.drains`), whatever the order in which the
messages are delivered.  Rows that are taken back before the change has settled are among them.

An anti-join sends no row that is blocked by a fact which is there all along.  Which facts these are
depends on the change, so that they are a parameter (`barred`).
-/

namespace LiveQuery

/-! ## Cells -/

namespace Cell

/-- The memories hold rows that may have arrived. -/
def Keeps (arrives : Inlet → Tuple → Prop) : Cell → Prop
  | .join _ _ _ left right =>
    (∀ row ∈ left.occurrences, arrives .left row) ∧ ∀ row ∈ right.occurrences, arrives .right row
  | .antiJoin _ _ kept _ => ∀ row ∈ kept.occurrences, arrives .left row
  | .closure _ _ _ state => state.Exact ∧ ∀ source target,
    (source, target) ∈ state.edges.occurrences → arrives .single [source, target]
  | _ => True

/-- The barred facts are remembered among those that block rows. -/
def Bars (barred : RelationId → Tuple → Prop) : Cell → Prop
  | .antiJoin relation _ _ blocked => ∀ fact, barred relation fact → fact ∈ blocked.occurrences
  | _ => True

/-- The rows that a cell may send, given which rows may arrive. -/
def Sends (truth : CheckId → Tuple → Bool) (barred : RelationId → Tuple → Prop)
    (arrives : Inlet → Tuple → Prop) : Cell → Tuple → Prop
  | .source _ arity columns equal, row => ∃ fact, arrives .single fact ∧
    Operator.sourceRow? arity columns equal fact = some row
  | .unit fixed, row => row = fixed
  | .filter test, row => arrives .single row ∧ test.holds truth row = true
  | .project columns, row => ∃ whole, arrives .single whole ∧ whole.project columns = row
  | .join leftKey rightKey output _ _, row => ∃ first second, arrives .left first ∧
    arrives .right second ∧ second.project rightKey = first.project leftKey ∧
      Operator.joinRow output first second = row
  | .antiJoin relation key _ _, row => arrives .left row ∧ ¬barred relation (row.project key)
  | .closure _ single swap _, row => ∃ source target,
    Relation.TransGen (fun source target => arrives .single [source, target]) source target ∧
      Operator.closureRow? single swap (source, target) = some row
  | .production _, _ => True

variable {checks : Checks} {truth : CheckId → Tuple → Bool} {barred : RelationId → Tuple → Prop}
  {arrives : Inlet → Tuple → Prop} {label : String} {inlet : Inlet} {delta : RowDelta}
  {cell changed : Cell} {sent : List RowDelta}

theorem keeps_of_blank (blank : cell.cleared = cell) : cell.Keeps arrives := by
  rw [← blank]
  cases cell with
  | join => exact ⟨nofun, nofun⟩
  | antiJoin => exact nofun
  | closure => exact ⟨Closure.exact_empty, nofun⟩
  | source | unit | filter | project | production => trivial

theorem remember_keeps {memory changed : Bag Tuple} {keeps : Tuple → Prop}
    (before : ∀ row ∈ memory.occurrences, keeps row) (arrived : keeps delta.row)
    (remembered : remember memory delta = .ok changed) :
    ∀ row ∈ changed.occurrences, keeps row := by
  unfold remember at remembered
  split at remembered
  · cases remembered
    exact List.forall_mem_cons.mpr ⟨arrived, before⟩
  · split at remembered
    · cases remembered
      exact fun row member => before row (Bag.mem_of_mem_erase member)
    · cases remembered

theorem mem_matching {memory : Bag Tuple} {columns : List Nat} {key row : Tuple} :
    row ∈ matching memory columns key ↔ row ∈ memory.occurrences ∧ row.project columns = key := by
  simp [matching]

/-- A row that a change of the facts moves was not blocked before or is not blocked now. -/
theorem row_of_block {key : List Nat} {kept blocked changed : Bag Tuple}
    (answered : block key kept blocked delta = .ok (changed, sent)) :
    ∀ other ∈ sent, other.row ∈ kept.occurrences ∧
      (other.row.project key ∉ blocked.occurrences ∨
        other.row.project key ∉ changed.occurrences) := by
  have moved {kind : ChangeKind} {other : RowDelta}
      (member : other ∈ (matching kept key delta.row).map (⟨kind, ·⟩)) :
      other.row ∈ kept.occurrences ∧ other.row.project key = delta.row := by
    obtain ⟨row, matches_, rfl⟩ := List.mem_map.mp member
    exact mem_matching.mp matches_
  unfold block at answered
  dsimp only at answered
  split at answered
  · split at answered
    next appeared =>
      cases answered
      intro other member
      obtain ⟨here, key⟩ := moved member
      refine ⟨here, .inl fun there => ?_⟩
      rw [key, ← Bag.contains_iff] at there
      simp [Bag.presenceOnAdd, there] at appeared
    · cases answered
      exact List.forall_mem_nil _
  · split at answered
    next disappeared =>
      cases answered
      intro other member
      obtain ⟨here, key⟩ := moved member
      refine ⟨here, .inr fun there => ?_⟩
      rw [key, ← Bag.count_pos_iff, Bag.count_erase, if_pos rfl] at there
      -- the fact was there once only
      unfold Bag.presenceOnErase? at disappeared
      split at disappeared
      · cases disappeared
      · omega
      · cases disappeared
    · cases answered
      exact List.forall_mem_nil _
    · cases answered

theorem moveEdge_exact {state changed : Closure Value} {moved : ClosureDelta Value}
    {source target : Value} (exact : state.Exact)
    (answered : moveEdge state delta source target = .ok (changed, moved)) :
    changed.Exact ∧ Closure.Reports state changed moved ∧
      ∀ edge ∈ changed.edges.occurrences,
        edge = (source, target) ∨ edge ∈ state.edges.occurrences := by
  unfold moveEdge at answered
  split at answered
  · obtain ⟨after, edges, reports⟩ := Closure.exact_insertEdge exact source target
    rw [Except.ok.inj answered] at after edges reports
    refine ⟨after, reports, fun edge member => ?_⟩
    rw [edges] at member
    exact List.mem_cons.mp member
  · split at answered
    next deleted =>
      cases answered
      obtain ⟨after, edges, reports⟩ := Closure.exact_deleteEdge exact deleted
      refine ⟨after, reports, fun edge member => .inr ?_⟩
      rw [edges] at member
      exact Bag.mem_of_mem_erase member
    · cases answered

theorem transGen_of_joined {state : Closure Value}
    (edges : ∀ source target, (source, target) ∈ state.edges.occurrences →
      arrives .single [source, target]) {source target : Value}
    (joined : state.Joined source target) :
    Relation.TransGen (fun source target => arrives .single [source, target]) source target :=
  Relation.TransGen.mono edges source target joined

theorem row_of_closureRows {single swap : Bool} {moved : ClosureDelta Value} {other : RowDelta}
    (member : other ∈ closureRows single swap moved) : ∃ source target,
      ((source, target) ∈ moved.appeared ∨ (source, target) ∈ moved.disappeared) ∧
        Operator.closureRow? single swap (source, target) = some other.row := by
  unfold closureRows at member
  rcases List.mem_append.mp member with member | member
  · obtain ⟨row, found, rfl⟩ := List.mem_map.mp member
    obtain ⟨⟨source, target⟩, pair, same⟩ := List.mem_filterMap.mp found
    exact ⟨source, target, .inl pair, same⟩
  · obtain ⟨row, found, rfl⟩ := List.mem_map.mp member
    obtain ⟨⟨source, target⟩, pair, same⟩ := List.mem_filterMap.mp found
    exact ⟨source, target, .inr pair, same⟩

/-- A cell that receives a row remembers and sends no rows but those that it may. -/
theorem Keeps.receive (agree : checks.Agree truth) (keeps : cell.Keeps arrives)
    (accepts : cell.Accepts inlet) (arrived : arrives inlet delta.row) (bars : cell.Bars barred)
    (received : cell.receive checks label inlet delta = .ok (changed, sent))
    (still : changed.Bars barred) :
    changed.Keeps arrives ∧ ∀ other ∈ sent, cell.Sends truth barred arrives other.row := by
  cases cell with
  | source relation arity columns equal =>
    obtain rfl : inlet = .single := accepts
    simp only [Cell.receive] at received
    split at received
    next row found =>
      cases received
      exact ⟨trivial, List.forall_mem_singleton.mpr ⟨_, arrived, found⟩⟩
    · cases received
      exact ⟨trivial, List.forall_mem_nil _⟩
  | unit row => exact accepts.elim
  | filter test =>
    obtain rfl : inlet = .single := accepts
    obtain ⟨accepted, passes, same⟩ := ok_of_bind received
    cases same
    have holds := (test.passes_spec agree label delta.row).of_ok passes
    refine ⟨trivial, fun other member => ?_⟩
    split at member
    next passed =>
      obtain rfl := List.mem_singleton.mp member
      exact ⟨arrived, holds ▸ passed⟩
    · cases member
  | project columns =>
    obtain rfl : inlet = .single := accepts
    cases received
    exact ⟨trivial, List.forall_mem_singleton.mpr ⟨_, arrived, rfl⟩⟩
  | join leftKey rightKey output left right =>
    obtain ⟨leftKeeps, rightKeeps⟩ := keeps
    -- a row from one side meets what is remembered of the other side
    rcases accepts with rfl | rfl
    · obtain ⟨memory, remembered, same⟩ := ok_of_bind received
      cases same
      refine ⟨⟨remember_keeps leftKeeps arrived remembered, rightKeeps⟩, fun other member => ?_⟩
      obtain ⟨second, meets, rfl⟩ := List.mem_map.mp member
      obtain ⟨there, key⟩ := mem_matching.mp meets
      exact ⟨delta.row, second, arrived, rightKeeps second there, key, rfl⟩
    · obtain ⟨memory, remembered, same⟩ := ok_of_bind received
      cases same
      refine ⟨⟨leftKeeps, remember_keeps rightKeeps arrived remembered⟩, fun other member => ?_⟩
      obtain ⟨first, meets, rfl⟩ := List.mem_map.mp member
      obtain ⟨there, key⟩ := mem_matching.mp meets
      exact ⟨first, delta.row, leftKeeps first there, arrived, key.symm, rfl⟩
  | antiJoin relation key kept blocked =>
    rcases accepts with rfl | rfl
    · obtain ⟨memory, remembered, same⟩ := ok_of_bind received
      cases same
      refine ⟨remember_keeps keeps arrived remembered, fun other member => ?_⟩
      split at member
      · cases member
      next passed =>
        obtain rfl := List.mem_singleton.mp member
        refine ⟨arrived, fun blocks => passed ?_⟩
        exact Bag.contains_iff.mpr (bars _ blocks)
    · obtain ⟨⟨now, moved⟩, answered, same⟩ := ok_of_bind received
      cases same
      refine ⟨keeps, fun other member => ?_⟩
      obtain ⟨here, free⟩ := row_of_block answered other member
      refine ⟨keeps _ here, fun blocks => ?_⟩
      rcases free with free | free
      · exact free (bars _ blocks)
      · exact free (still _ blocks)
  | closure relation single swap state =>
    obtain rfl : inlet = .single := accepts
    obtain ⟨exact, edges⟩ := keeps
    simp only [Cell.receive] at received
    split at received
    · cases received
      exact ⟨⟨exact, edges⟩, List.forall_mem_nil _⟩
    next source target edge =>
      obtain ⟨⟨now, moved⟩, answered, same⟩ := ok_of_bind received
      cases same
      obtain ⟨after, reports, grown⟩ := moveEdge_exact exact answered
      have edgesNow (first last : Value) (member : (first, last) ∈ now.edges.occurrences) :
          arrives .single [first, last] := by
        rcases grown _ member with new | old
        · cases new
          rwa [← FactStore.edge?_eq_some.mp edge]
        · exact edges first last old
      refine ⟨⟨after, edgesNow⟩, fun other member => ?_⟩
      obtain ⟨first, last, pair, found⟩ := row_of_closureRows member
      refine ⟨first, last, ?_, found⟩
      rcases pair with appeared | disappeared
      · exact transGen_of_joined edgesNow ((reports.appeared first last).mp appeared).1
      · exact transGen_of_joined edges ((reports.disappeared first last).mp disappeared).1
  | production produced =>
    obtain ⟨_, _, same⟩ := ok_of_bind received
    cases same
    exact ⟨trivial, fun _ _ => trivial⟩

/-- Why a row cannot be received: it leaves without having arrived, or a check fails on it. -/
inductive Refuses (checks : Checks) (label : String) (row : Tuple) : Cell → Error → Prop where
  | unknown (cell : Cell) (detail : String) : Refuses checks label row cell (.internal detail)
  | faults {id : CheckId} {columns : List Nat} {detail : String}
      (failed : checks id (row.project columns) = .error detail) :
      Refuses checks label row (.filter (.check id columns)) (.evaluationFault label detail)

theorem Refuses.ne_outOfRange {row : Tuple} {error : Error}
    (refuses : cell.Refuses checks label row error) : error ≠ .outOfRange := by
  cases refuses <;> exact nofun

/-- A row is received, unless a check fails on it or it was never remembered. -/
theorem fulfils_receive (checks : Checks) (label : String) (inlet : Inlet) (delta : RowDelta)
    (cell : Cell) :
    Fulfils (cell.receive checks label inlet delta) (fun _ => True)
      (cell.Refuses checks label delta.row) := by
  have remembers (memory : Bag Tuple) :
      Fulfils (remember memory delta) (fun _ => True) (cell.Refuses checks label delta.row) := by
    unfold remember
    split
    · trivial
    · split
      · trivial
      · exact .unknown _ _
  cases cell with
  | source relation arity columns equal =>
    simp only [Cell.receive]
    split <;> trivial
  | unit row => trivial
  | filter test =>
    refine Fulfils.andThen ?_ fun _ => trivial
    -- only checks fail
    cases test with
    | constant | equal | different => trivial
    | check id columns =>
      simp only [RowTest.passes]
      split
      · trivial
      next failed => exact .faults failed
  | project columns => trivial
  | join leftKey rightKey output left right =>
    cases inlet with
    | right => exact (remembers right).andThen fun _ => trivial
    | single => exact (remembers left).andThen fun _ => trivial
    | left => exact (remembers left).andThen fun _ => trivial
  | antiJoin relation key kept blocked =>
    cases inlet with
    | right =>
      refine Fulfils.andThen ?_ fun _ => trivial
      unfold block
      dsimp only
      split
      · split <;> trivial
      · split
        · trivial
        · trivial
        · exact .unknown _ _
    | single => exact (remembers kept).andThen fun _ => trivial
    | left => exact (remembers kept).andThen fun _ => trivial
  | closure relation single swap state =>
    simp only [Cell.receive]
    split
    · trivial
    next source target edge =>
      refine Fulfils.andThen ?_ fun _ => trivial
      unfold moveEdge
      split
      · trivial
      · split
        · trivial
        · exact .unknown _ _
  | production produced =>
    refine Fulfils.andThen ?_ fun _ => trivial
    unfold produce
    split
    · split <;> trivial
    · split
      · trivial
      · trivial
      · exact .unknown _ _

theorem sends_of_stored (keeps : cell.Keeps arrives) (bars : cell.Bars barred) {row : Tuple}
    (stored : row ∈ cell.stored) : cell.Sends truth barred arrives row := by
  cases cell with
  | join leftKey rightKey output left right =>
    obtain ⟨first, here, meets⟩ := List.mem_flatMap.mp stored
    obtain ⟨second, there, rfl⟩ := List.mem_map.mp meets
    obtain ⟨there, key⟩ := mem_matching.mp there
    exact ⟨first, second, keeps.1 first here, keeps.2 second there, key, rfl⟩
  | antiJoin relation key kept blocked =>
    obtain ⟨here, free⟩ := List.mem_filter.mp stored
    refine ⟨keeps row here, fun blocks => ?_⟩
    rw [Bag.contains_iff.mpr (bars _ blocks)] at free
    cases free
  | closure relation single swap state =>
    obtain ⟨⟨source, target⟩, pair, same⟩ := List.mem_filterMap.mp stored
    exact ⟨source, target, transGen_of_joined keeps.2 (keeps.1.mem_pairs.mp pair), same⟩
  | production produced => trivial
  | source | unit | filter | project => cases stored

end Cell

/-! ## Nodes -/

/-- A row may arrive on an inlet of a node if one of the inputs that lead there may bring it. -/
def Node.Arrives (may : NodeInput → Tuple → Prop) (node : Node) (inlet : Inlet) (row : Tuple) :
    Prop :=
  ∃ input, (input, inlet) ∈ node.inputs ∧ may input row

theorem Node.Arrives.of_only {may : NodeInput → Tuple → Prop} {node : Node} {inlet : Inlet}
    {row : Tuple} (arrives : node.Arrives may inlet row) {source : NodeInput}
    (only : ∀ input, (input, inlet) ∈ node.inputs → input = source) : may source row := by
  obtain ⟨input, member, brings⟩ := arrives
  exact only input member ▸ brings

/-- An operator node that is brought rows that may be there only sends rows that may be there. -/
def Closes (truth : CheckId → Tuple → Bool) (barred : RelationId → Tuple → Prop)
    (may : NodeInput → Tuple → Prop) (nodes : List Node) : Prop :=
  ∀ (id : NodeId) (node : Node) (operator : Operator) (children : List NodeId) (row : Tuple),
    nodes[id.index]? = some node →
    Node.ofOperator operator children = .ok (node.cell, node.inputs) →
    operator.Emits truth (fun relation => may (.facts relation)) barred []
      (children.map fun child => may (.node child)) row →
    may (.node id) row

theorem Closes.shorten {truth : CheckId → Tuple → Bool} {barred : RelationId → Tuple → Prop}
    {may : NodeInput → Tuple → Prop} {short long : List Node}
    (closes : Closes truth barred may long) (longer : short <+: long) :
    Closes truth barred may short :=
  fun id node operator children row found => closes id node operator children row
    (getElem?_mono longer found)

section Nodes

variable {checks : Checks} {truth : CheckId → Tuple → Bool} {barred : RelationId → Tuple → Prop}
  {may : NodeInput → Tuple → Prop}

/-- What a cell may send, told by its operator and the nodes that it reads. -/
theorem Node.emits_of_sends {node : Node} {operator : Operator} {children : List NodeId}
    (made : Node.ofOperator operator children = .ok (node.cell.cleared, node.inputs)) {row : Tuple}
    (sends : node.cell.Sends truth barred (node.Arrives may) row) :
    operator.Emits truth (fun relation => may (.facts relation)) barred []
      (children.map fun child => may (.node child)) row := by
  obtain ⟨cell, label, inputs, shared⟩ := node
  have carries := (Node.of_ofOperator made).1
  rw [Cell.operator?_cleared] at carries
  cases cell with
  | source relation arity columns equal =>
    cases carries
    cases made
    obtain ⟨fact, arrives, same⟩ := sends
    exact ⟨fact, arrives.of_only (by simp), same⟩
  | unit fixed =>
    cases carries
    exact sends
  | filter test =>
    cases carries
    obtain ⟨child, rfl, rfl⟩ := Network.inputs_of_single (.inl ⟨test, rfl⟩) made
    exact ⟨sends.1.of_only (by simp), sends.2⟩
  | project columns =>
    cases carries
    obtain ⟨child, rfl, rfl⟩ := Network.inputs_of_single (.inr ⟨columns, rfl⟩) made
    obtain ⟨whole, arrives, same⟩ := sends
    exact ⟨whole, arrives.of_only (by simp), same⟩
  | join leftKey rightKey output left right =>
    cases carries
    rcases children with _ | ⟨first, _ | ⟨second, _ | ⟨_, _⟩⟩⟩ <;> cases made
    obtain ⟨one, other, left, right, key, same⟩ := sends
    exact ⟨one, other, left.of_only (by simp), right.of_only (by simp), key, same⟩
  | antiJoin relation key kept blocked =>
    cases carries
    rcases children with _ | ⟨child, _ | ⟨_, _⟩⟩ <;> cases made
    exact ⟨sends.1.of_only (by simp), sends.2⟩
  | closure relation single swap state =>
    cases carries
    cases made
    obtain ⟨source, target, path, same⟩ := sends
    have edges (source target : Value)
        (arrives : Node.Arrives may ⟨.closure relation single swap state, label,
          [(.facts relation, .single)], shared⟩ .single [source, target]) :
        may (.facts relation) [source, target] := arrives.of_only (by simp)
    exact ⟨source, target, Relation.TransGen.mono edges source target path, same⟩
  | production produced => cases carries

/-- Two ways to make one cell with the same inputs read the same nodes. -/
theorem Node.emits_of_made {operator : Operator} {children others : List NodeId} {cell : Cell}
    {inputs : List (NodeInput × Inlet)} {brings : NodeId → Tuple → Prop} {row : Tuple}
    {given : RelationId → Tuple → Prop}
    (made : Node.ofOperator operator children = .ok (cell, inputs))
    (again : Node.ofOperator operator others = .ok (cell, inputs))
    (emits : operator.Emits truth given barred [] (children.map brings) row) :
    operator.Emits truth given barred [] (others.map brings) row := by
  cases operator with
  | source | unit | input | closure => exact emits
  | filter | project | antiJoin =>
    rcases children with _ | ⟨child, _ | ⟨_, _⟩⟩ <;> cases made
    rcases others with _ | ⟨other, _ | ⟨_, _⟩⟩ <;> cases again
    exact emits
  | join =>
    rcases children with _ | ⟨first, _ | ⟨second, _ | ⟨_, _⟩⟩⟩ <;> cases made
    rcases others with _ | ⟨other, _ | ⟨another, _ | ⟨_, _⟩⟩⟩ <;> cases again
    exact emits

/-! ## Rows told by steps -/

/-- What an input may bring, told by the facts that are given and by the steps that nodes carry
out. -/
def Meant (given : RelationId → Tuple → Prop) (reading : Plan → SubPlanId → Tuple → Prop)
    (nodes : List Node) : NodeInput → Tuple → Prop
  | .facts relation, row => given relation row
  | .node id, row => ∀ plan step, Implements nodes plan step id → reading plan step row

/-- A reading that passes from the children of a step to the step passes along the nodes. -/
theorem closes_meant {given : RelationId → Tuple → Prop}
    {reading : Plan → SubPlanId → Tuple → Prop}
    (each : ∀ plan step lowered means row, plan.lower step = .ok lowered →
      lowered.operator.Emits truth given barred [] means row →
      List.Forall₂ (fun child mean => ∀ row, mean row → reading plan child row)
        (plan.childrenOf step) means →
      reading plan step row)
    (nodes : List Node) : Closes truth barred (Meant given reading nodes) nodes := by
  intro id node operator children row found made emits plan step implements
  obtain @⟨_, _, lowered, other, others, lowers, again, remade, length, below⟩ := implements
  rw [found] at again
  cases again
  obtain rfl : operator = lowered.operator := by
    have first := (Node.of_ofOperator made).1
    rw [(Node.of_ofOperator remade).1] at first
    exact (Option.some.inj first).symm
  refine each plan step lowered _ row lowers (Node.emits_of_made made remade emits) ?_
  refine List.forall₂_map_right_iff.mpr (List.forall₂_iff_zip.mpr ⟨length, fun pair row may => ?_⟩)
  exact may plan _ (below _ _ pair)

end Nodes

namespace Network

/-- All anti-joins remember the barred facts. -/
def Bars (barred : RelationId → Tuple → Prop) (network : Network) : Prop :=
  ∀ (place : Nat) (node : Node), network.nodes[place]? = some node → node.cell.Bars barred

/-- The memories hold, and the messages bring, no rows but those that may be there. -/
structure Carries (may : NodeInput → Tuple → Prop) (network : Network) (queue : List Message) :
    Prop where
  keeps : ∀ (place : Nat) (node : Node), network.nodes[place]? = some node →
    node.cell.Keeps (node.Arrives may)
  arrives : ∀ message ∈ queue, ∃ node, network.skeleton[message.node.index]? = some node ∧
    node.Arrives may message.inlet message.delta.row

variable {checks : Checks} {truth : CheckId → Tuple → Bool} {barred : RelationId → Tuple → Prop}
  {may : NodeInput → Tuple → Prop} {network : Network}

theorem may_of_sends (wired : network.Wired) (closes : Closes truth barred may network.skeleton)
    {id : NodeId} (operates : Operates network.skeleton id) {node : Node}
    (found : network.nodes[id.index]? = some node) {row : Tuple}
    (sends : node.cell.Sends truth barred (node.Arrives may) row) : may (.node id) row := by
  obtain ⟨blank, blankFound, carries⟩ := operates
  rw [getElem?_skeleton found] at blankFound
  cases blankFound
  obtain ⟨operator, carries⟩ := Option.ne_none_iff_exists'.mp carries
  rw [Node.cleared, Cell.operator?_cleared] at carries
  obtain ⟨children, made, _⟩ := wired.ofOperator found carries
  exact closes id node.cleared operator children row (getElem?_skeleton found) made
    (Node.emits_of_sends made sends)

theorem arrives_of_mem_broadcast {input : NodeInput} {sent : List RowDelta}
    (brings : ∀ other ∈ sent, may input other.row) {message : Message}
    (member : message ∈ broadcast (network.readers input) sent) :
    ∃ node, network.skeleton[message.node.index]? = some node ∧
      node.Arrives may message.inlet message.delta.row := by
  obtain ⟨delta, sends, member⟩ := List.mem_flatMap.mp member
  obtain ⟨reader, readerMember, rfl⟩ := List.mem_map.mp member
  obtain ⟨node, found, connected⟩ := of_mem_readers readerMember
  exact ⟨node.cleared, getElem?_skeleton found, input, connected, brings delta sends⟩

theorem Carries.deliver (agree : checks.Agree truth) (wired : network.Wired)
    (closes : Closes truth barred may network.skeleton) {message : Message}
    {rest further : List Message} {caused : List MatchEvent} {changed : Network}
    (carries : network.Carries may (message :: rest))
    (delivered : network.deliver checks message = .ok (changed, further, caused))
    (bars : network.Bars barred) (still : changed.Bars barred) :
    changed.Carries may (rest ++ further) := by
  have skeleton := (deliver_shape delivered).skeleton
  obtain ⟨node, cell, sent, found, received, rfl, outcome⟩ := deliver_cases delivered
  obtain ⟨blank, blankFound, input, connected, brings⟩ :=
    carries.arrives message List.mem_cons_self
  rw [getElem?_skeleton found] at blankFound
  cases blankFound
  have inside := (List.getElem?_eq_some_iff.mp found).1
  obtain ⟨keeps, sends⟩ := (carries.keeps _ node found).receive agree
    (wired.of_mem_inputs found connected).1 ⟨input, connected, brings⟩ (bars _ node found) received
    (still message.node.index { node with cell } (by simp [inside]))
  refine ⟨fun place other otherFound => ?_, fun later member => ?_⟩
  · rcases getElem?_set_cases otherFound with ⟨rfl, rfl⟩ | ⟨_, old⟩
    · exact keeps
    · exact carries.keeps place other old
  · rw [skeleton]
    rcases List.mem_append.mp member with member | member
    · exact carries.arrives later (List.mem_cons_of_mem _ member)
    · rcases outcome with ⟨_, _, rfl, _⟩ | ⟨_, rfl, _⟩
      · cases member
      · -- a node that is read carries out an operator
        obtain ⟨delta, sentMember, later⟩ := List.mem_flatMap.mp member
        obtain ⟨reader, readerMember, rfl⟩ := List.mem_map.mp later
        obtain ⟨other, otherFound, reads⟩ := of_mem_readers readerMember
        have operates := (wired.of_mem_inputs otherFound reads).2.2 message.node rfl
        exact ⟨other.cleared, getElem?_skeleton otherFound, _, reads,
          may_of_sends wired closes operates found (sends delta sentMember)⟩

/-- Draining the queue brings nothing but rows that may be there. -/
theorem Carries.drains (agree : checks.Agree truth) (wired : network.Wired)
    (closes : Closes truth barred may network.skeleton) {queue later : List Message}
    {after : Network} (carries : network.Carries may queue)
    (drains : Drains checks network queue after later)
    (bars : ∀ middle left, Drains checks network queue middle left → middle.Bars barred) :
    after.Carries may later := by
  induction drains with
  | refl => exact carries
  | deliver delivered drains ih =>
    have same := deliver_shape delivered
    have next := carries.deliver agree wired closes delivered (bars _ _ (.refl _ _))
      (bars _ _ (.deliver delivered (.refl _ _)))
    exact ih (same.wired wired) (same.skeleton ▸ closes) next
      fun middle left further => bars middle left (.deliver delivered further)

/-! ## Settled networks -/

theorem may_of_mem_suppliedBy {received : Receipts} (wired : network.Wired)
    (closes : Closes truth barred may network.skeleton)
    (settled : network.SettledBelow truth received network.nodes.length)
    (facts : ∀ relation fact, network.facts.Has relation fact → may (.facts relation) fact)
    (there : ∀ relation fact, barred relation fact → network.facts.Has relation fact)
    {input : NodeInput} (operates : ∀ id, input = .node id → Operates network.skeleton id)
    {row : Tuple} (supplied : row ∈ network.suppliedBy truth received input) : may input row := by
  cases input with
  | facts relation =>
    exact facts relation row (FactStore.mem_occurrencesOf.mp (Multiset.mem_coe.mp supplied))
  | node id =>
    induction place : id.index using Nat.strongRecOn generalizing id row with
    | _ index ih =>
      obtain ⟨blank, blankFound, carries⟩ := operates id rfl
      obtain ⟨node, found, rfl⟩ := of_getElem?_skeleton blankFound
      obtain ⟨operator, carries⟩ := Option.ne_none_iff_exists'.mp carries
      rw [Node.cleared, Cell.operator?_cleared] at carries
      obtain ⟨children, made, below⟩ := wired.ofOperator found carries
      have emits := Operator.rows_iff_emits.mp
        ((mem_sentAt settled found made [] row).mp supplied)
      refine closes id node.cleared operator children row blankFound made (emits.mono
        (fun relation _ => facts relation) (fun relation _ => there relation) ?_)
      refine List.forall₂_map_left_iff.mpr (List.forall₂_map_right_iff.mpr ?_)
      refine List.forall₂_same.mpr fun child member row sent => ?_
      obtain ⟨earlier, operates⟩ := below child member
      have reads (other : NodeId) (same : NodeInput.node child = .node other) :
          Operates network.skeleton other := by
        cases same
        exact operates
      exact ih child.index (place ▸ earlier) child reads sent rfl

theorem carries_of_settled {received : Receipts} (wired : network.Wired)
    (closes : Closes truth barred may network.skeleton)
    (settled : network.SettledBelow truth received network.nodes.length)
    (facts : ∀ relation fact, network.facts.Has relation fact → may (.facts relation) fact)
    (there : ∀ relation fact, barred relation fact → network.facts.Has relation fact)
    (place : Nat) (node : Node) (found : network.nodes[place]? = some node) :
    node.cell.Keeps (node.Arrives may) := by
  obtain ⟨holds, receives⟩ := settled place node (List.getElem?_eq_some_iff.mp found).1 found
  have arrives (inlet : Inlet) (row : Tuple) (member : row ∈ received place inlet) :
      node.Arrives may inlet row := by
    rw [receives inlet, mem_gathered] at member
    obtain ⟨⟨input, port⟩, connected, rfl, supplied⟩ := member
    exact ⟨input, connected, may_of_mem_suppliedBy wired closes settled facts there
      (wired.of_mem_inputs found connected).2.2 supplied⟩
  cases cell : node.cell with
  | join leftKey rightKey output left right =>
    rw [cell] at holds
    refine ⟨fun row member => arrives _ row ?_, fun row member => arrives _ row ?_⟩
    · rw [← holds.1]
      exact member
    · rw [← holds.2]
      exact member
  | antiJoin relation key kept blocked =>
    rw [cell] at holds
    refine fun row member => arrives _ row ?_
    rw [← holds.1]
    exact member
  | closure relation single swap state =>
    rw [cell] at holds
    refine ⟨holds.1, fun source target edge => arrives _ _ ?_⟩
    have edges : (source, target) ∈ (received place .single).filterMap Operator.edge? := by
      rw [← holds.2]
      exact edge
    obtain ⟨row, member, same⟩ := (Multiset.mem_filterMap _ _).mp edges
    rwa [FactStore.edge?_eq_some.mp same] at member
  | source | unit | filter | project | production => trivial

end Network
end LiveQuery
