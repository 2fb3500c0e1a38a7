import LiveQuery.Network.Change
import LiveQuery.Proofs.Network.Cell

/-!
# The wiring of a network

What a network keeps when rows flow through it is its skeleton: the nodes without the rows they
remember.  `Wired` says that the skeleton is what installing plans builds.  Every node carries out
an operator on nodes before it, or is a production that reads nodes before it, and only operator
nodes are read (`NodesWired.of_mem_inputs`).

A spreading change is a queue of messages: the first one is delivered, and what it causes goes to
the end (`Drains`).  Waves do not matter for this order (`propagate_drains`).  Delivering messages
keeps the skeleton (`Drains.shape`), whatever the checks answer.
-/

namespace LiveQuery

/-! ## Cells without memories -/

namespace Cell

@[simp] theorem cleared_cleared (cell : Cell) : cell.cleared.cleared = cell.cleared := by
  cases cell <;> rfl

@[simp] theorem operator?_cleared (cell : Cell) : cell.cleared.operator? = cell.operator? := by
  cases cell <;> rfl

@[simp] theorem accepts_cleared (cell : Cell) (inlet : Inlet) :
    cell.cleared.Accepts inlet ↔ cell.Accepts inlet := by
  cases cell <;> exact Iff.rfl

theorem accepts_congr {cell other : Cell} (same : other.cleared = cell.cleared) (inlet : Inlet) :
    other.Accepts inlet ↔ cell.Accepts inlet := by
  rw [← accepts_cleared, same, accepts_cleared]

theorem eq_production {cell : Cell} (none : cell.operator? = none) :
    ∃ produced, cell = .production produced := by
  cases cell with
  | production produced => exact ⟨produced, rfl⟩
  | _ => cases none

/-- Whatever a cell receives, only its memories change. -/
theorem cleared_receive {checks : Checks} {label : String} {inlet : Inlet} {delta : RowDelta}
    {cell changed : Cell} {sent : List RowDelta}
    (received : cell.receive checks label inlet delta = .ok (changed, sent)) :
    changed.cleared = cell.cleared := by
  cases cell with
  | source relation arity columns equal =>
    simp only [receive] at received
    split at received <;> cases received <;> rfl
  | unit row => cases received; rfl
  | filter test => obtain ⟨_, _, found⟩ := ok_of_bind received; cases found; rfl
  | project columns => cases received; rfl
  | join leftKey rightKey output left right =>
    simp only [receive] at received
    split at received <;> (obtain ⟨_, _, found⟩ := ok_of_bind received; cases found; rfl)
  | antiJoin relation key kept blocked =>
    simp only [receive] at received
    split at received <;> (obtain ⟨_, _, found⟩ := ok_of_bind received; cases found; rfl)
  | closure relation single swap state =>
    simp only [receive] at received
    split at received
    · cases received; rfl
    · obtain ⟨_, _, found⟩ := ok_of_bind received; cases found; rfl
  | production produced => obtain ⟨_, _, found⟩ := ok_of_bind received; cases found; rfl

end Cell

/-- The cell of an operator carries it out and remembers nothing yet. -/
theorem Node.of_ofOperator {operator : Operator} {children : List NodeId} {cell : Cell}
    {inputs : List (NodeInput × Inlet)}
    (made : Node.ofOperator operator children = .ok (cell, inputs)) :
    cell.operator? = some operator ∧ cell.cleared = cell := by
  unfold ofOperator at made
  split at made <;> cases made <;> exact ⟨rfl, rfl⟩

/-- Nodes that are the same apart from what they remember. -/
theorem Node.cleared_eq_iff {node other : Node} :
    other.cleared = node.cleared ↔ other.cell.cleared = node.cell.cleared ∧
      other.label = node.label ∧ other.inputs = node.inputs ∧ other.isShared = node.isShared := by
  simp [cleared]

/-! ## Wired nodes -/

/-- The node carries out an operator, so that others may read it. -/
def Operates (nodes : List Node) (id : NodeId) : Prop :=
  ∃ node, nodes[id.index]? = some node ∧ node.cell.operator? ≠ none

/-- A node without memories that reads earlier nodes in the way its operator does, or a production
that reads the tops of some plans. -/
def Node.Fits (earlier : List Node) (node : Node) : Prop :=
  match node.cell.operator? with
  | some operator => ∃ children, Node.ofOperator operator children = .ok (node.cell, node.inputs) ∧
    ∀ child ∈ children, Operates earlier child
  | none => node.cell = .production .empty ∧
    ∃ tops : List NodeId, node.inputs = tops.map (fun top => (.node top, .single)) ∧
      ∀ top ∈ tops, Operates earlier top

/-- Every node fits the nodes before it. -/
def NodesWired (nodes : List Node) : Prop :=
  ∀ (place : Nat) (node : Node), nodes[place]? = some node → node.Fits (nodes.take place)

theorem getElem?_mono {α : Type} {short long : List α} (longer : short <+: long) {place : Nat}
    {entry : α} (found : short[place]? = some entry) : long[place]? = some entry := by
  obtain ⟨rest, rfl⟩ := longer
  rw [List.getElem?_append_left (List.getElem?_eq_some_iff.mp found).1]
  exact found

theorem Operates.mono {nodes more : List Node} (longer : nodes <+: more) {id : NodeId}
    (operates : Operates nodes id) : Operates more id := by
  obtain ⟨node, found, operator⟩ := operates
  exact ⟨node, getElem?_mono longer found, operator⟩

theorem Operates.lt {nodes : List Node} {place : Nat} {id : NodeId}
    (operates : Operates (nodes.take place) id) : id.index < place := by
  obtain ⟨node, found, _⟩ := operates
  have inside := (List.getElem?_eq_some_iff.mp found).1
  rw [List.length_take] at inside
  omega

theorem NodesWired.append {nodes : List Node} {node : Node} (wired : NodesWired nodes)
    (fits : node.Fits nodes) : NodesWired (nodes ++ [node]) := by
  intro place other found
  -- the nodes before an older node stay the same
  rcases Nat.lt_trichotomy place nodes.length with inside | rfl | outside
  · rw [List.getElem?_append_left inside] at found
    rw [List.take_append_of_le_length inside.le]
    exact wired place other found
  · rw [List.getElem?_concat_length] at found
    cases found
    rw [List.take_left]
    exact fits
  · rw [List.getElem?_eq_none (by simp; omega)] at found
    cases found

/-- Rows only arrive where the cell takes them, from facts or from an operator node before it. -/
theorem Node.Fits.of_mem_inputs {earlier : List Node} {node : Node} (fits : node.Fits earlier)
    {input : NodeInput} {inlet : Inlet} (member : (input, inlet) ∈ node.inputs) :
    node.cell.Accepts inlet ∧ ∀ id, input = .node id → Operates earlier id := by
  unfold Node.Fits at fits
  cases operator : node.cell.operator? with
  | none =>
    rw [operator] at fits
    obtain ⟨cell, tops, inputs, operate⟩ := fits
    rw [inputs] at member
    obtain ⟨top, topMember, same⟩ := List.mem_map.mp member
    cases same
    rw [cell]
    refine ⟨rfl, ?_⟩
    rintro _ ⟨⟩
    exact operate top topMember
  | some operator' =>
    rw [operator] at fits
    obtain ⟨children, made, operate⟩ := fits
    -- every operator names its inputs, and its cell takes rows on their inlets
    obtain ⟨cell, label, inputs, shared⟩ := node
    unfold Node.ofOperator at made
    split at made <;> cases made <;> simp_all only [List.mem_cons, Prod.mk.injEq, Cell.Accepts] <;>
      grind

theorem NodesWired.of_mem_inputs {nodes : List Node} (wired : NodesWired nodes) {place : Nat}
    {node : Node} (found : nodes[place]? = some node) {input : NodeInput} {inlet : Inlet}
    (member : (input, inlet) ∈ node.inputs) :
    node.cell.Accepts inlet ∧ input.precedes place = true ∧
      ∀ id, input = .node id → Operates nodes id := by
  obtain ⟨accepts, operates⟩ := (wired place node found).of_mem_inputs member
  refine ⟨accepts, ?_, fun id same => (operates id same).mono (List.take_prefix _ _)⟩
  cases input with
  | facts relation => rfl
  | node id => simpa [NodeInput.precedes] using (operates id rfl).lt

namespace Network

/-- The nodes without the rows they remember. -/
def skeleton (network : Network) : List Node := network.nodes.map Node.cleared

/-- The nodes fit together, and every query has a production of its own. -/
structure Wired (network : Network) : Prop where
  nodes : NodesWired network.skeleton
  produced : ∀ query ∈ network.queries, ∃ node,
    network.skeleton[query.production.index]? = some node ∧ node.cell.operator? = none
  distinct : (network.queries.map InstalledQuery.production).Nodup

theorem getElem?_skeleton {network : Network} {place : Nat} {node : Node}
    (found : network.nodes[place]? = some node) :
    network.skeleton[place]? = some node.cleared := by
  simp [skeleton, found]

theorem of_getElem?_skeleton {network : Network} {place : Nat} {blank : Node}
    (found : network.skeleton[place]? = some blank) :
    ∃ node, network.nodes[place]? = some node ∧ node.cleared = blank := by
  simpa [skeleton] using found

theorem Wired.of_mem_inputs {network : Network} (wired : network.Wired) {place : Nat} {node : Node}
    (found : network.nodes[place]? = some node) {input : NodeInput} {inlet : Inlet}
    (member : (input, inlet) ∈ node.inputs) :
    node.cell.Accepts inlet ∧ input.precedes place = true ∧
      ∀ id, input = .node id → Operates network.skeleton id := by
  have facts := wired.nodes.of_mem_inputs (getElem?_skeleton found) member
  rwa [Node.cleared, Cell.accepts_cleared] at facts

/-- Nodes read earlier nodes. -/
theorem Wired.lt_of_mem_inputs {network : Network} (wired : network.Wired) {place : Nat}
    {node : Node} (found : network.nodes[place]? = some node) {child : NodeId} {inlet : Inlet}
    (member : (.node child, inlet) ∈ node.inputs) : child.index < place := by
  simpa [NodeInput.precedes] using (wired.of_mem_inputs found member).2.1

theorem wired_new (id : NetworkId) : (new id).Wired where
  nodes := by
    intro place node found
    simp [new, skeleton] at found
  produced := by simp [new]
  distinct := by simp [new]

/-! ## What rows leave alone -/

/-- The skeleton and the queries are the same. -/
structure SameWiring (before after : Network) : Prop where
  skeleton : after.skeleton = before.skeleton
  queries : after.queries = before.queries

namespace SameWiring

variable {before middle after : Network}

theorem refl (network : Network) : SameWiring network network := ⟨rfl, rfl⟩

theorem trans (first : SameWiring before middle) (second : SameWiring middle after) :
    SameWiring before after :=
  ⟨second.skeleton.trans first.skeleton, second.queries.trans first.queries⟩

theorem symm (same : SameWiring before after) : SameWiring after before :=
  ⟨same.skeleton.symm, same.queries.symm⟩

theorem length (same : SameWiring before after) : after.nodes.length = before.nodes.length := by
  simpa [Network.skeleton] using congrArg List.length same.skeleton

/-- Where one network has a node, the other one has the same, apart from what it remembers. -/
theorem getElem? (same : SameWiring before after) {place : Nat} {node : Node}
    (found : before.nodes[place]? = some node) :
    ∃ other, after.nodes[place]? = some other ∧ other.cleared = node.cleared := by
  refine of_getElem?_skeleton ?_
  rw [same.skeleton]
  exact getElem?_skeleton found

theorem wired (same : SameWiring before after) (wired : before.Wired) : after.Wired where
  nodes := same.skeleton ▸ wired.nodes
  produced := by
    rw [same.queries, same.skeleton]
    exact wired.produced
  distinct := same.queries ▸ wired.distinct

end SameWiring

/-- Only what nodes remember differs. -/
structure SameShape (before after : Network) : Prop where
  fields : after = { before with nodes := after.nodes }
  skeleton : after.skeleton = before.skeleton

namespace SameShape

variable {before middle after : Network}

theorem refl (network : Network) : SameShape network network := ⟨rfl, rfl⟩

theorem trans (first : SameShape before middle) (second : SameShape middle after) :
    SameShape before after := by
  refine ⟨?_, second.skeleton.trans first.skeleton⟩
  rw [second.fields, first.fields]

theorem facts (same : SameShape before after) : after.facts = before.facts := by
  rw [same.fields]

theorem queries (same : SameShape before after) : after.queries = before.queries := by
  rw [same.fields]

theorem sameWiring (same : SameShape before after) : SameWiring before after :=
  ⟨same.skeleton, same.queries⟩

theorem length (same : SameShape before after) : after.nodes.length = before.nodes.length :=
  same.sameWiring.length

theorem wired (same : SameShape before after) (wired : before.Wired) : after.Wired :=
  same.sameWiring.wired wired

end SameShape

/-- Replacing what one node remembers keeps the shape. -/
theorem sameShape_set {network : Network} {place : Nat} {node : Node} {cell : Cell}
    (found : network.nodes[place]? = some node) (same : cell.cleared = node.cell.cleared) :
    SameShape network { network with nodes := network.nodes.set place { node with cell } } where
  fields := rfl
  skeleton := by
    have unchanged : ({ node with cell } : Node).cleared = node.cleared := by
      simp only [Node.cleared, same]
    simp only [skeleton, List.map_set, unchanged]
    obtain ⟨inside, same⟩ := List.getElem?_eq_some_iff.mp (getElem?_skeleton found)
    rw [← same]
    exact List.set_getElem_self inside

variable {checks : Checks} {network changed : Network}

/-! ## Productions -/

/-- The node of a query is a production. -/
theorem Wired.production (wired : network.Wired) {query : InstalledQuery}
    (member : query ∈ network.queries) {node : Node}
    (found : network.nodes[query.production.index]? = some node) :
    ∃ produced, node.cell = .production produced := by
  obtain ⟨other, otherFound, none_⟩ := wired.produced query member
  rw [getElem?_skeleton found] at otherFound
  cases otherFound
  rw [Node.cleared, Cell.operator?_cleared] at none_
  exact Cell.eq_production none_

/-- A query that a node belongs to has the node as its production. -/
theorem queryOf?_eq_some {node : NodeId} {query : QueryId}
    (belongs : network.queryOf? node = some query) :
    ∃ installed, network.queries[query.index]? = some installed ∧ installed.production = node := by
  obtain ⟨place, found, rfl⟩ := Option.map_eq_some_iff.mp belongs
  obtain ⟨inside, same, _⟩ := List.findIdx?_eq_some_iff_getElem.mp found
  exact ⟨_, List.getElem?_eq_getElem inside, of_decide_eq_true same⟩

theorem queryOf?_eq_none {node : NodeId} (belongs : network.queryOf? node = none) :
    ∀ query ∈ network.queries, query.production ≠ node := by
  intro query member same
  have absent := List.findIdx?_eq_none_iff.mp (Option.map_eq_none_iff.mp belongs) query member
  simp [same] at absent

/-! ## Deliveries -/

theorem deliver_shape {message : Message} {further : List Message} {caused : List MatchEvent}
    (delivered : network.deliver checks message = .ok (changed, further, caused)) :
    SameShape network changed := by
  obtain ⟨node, cell, sent, found, received, rfl, _⟩ := deliver_cases delivered
  exact sameShape_set found (Cell.cleared_receive received)

/-! ## The queue -/

/-- Delivering messages in order leads from the first network and queue to the second ones: what a
message causes goes to the end of the queue. -/
inductive Drains (checks : Checks) : Network → List Message → Network → List Message → Prop where
  | refl (network : Network) (queue : List Message) : Drains checks network queue network queue
  | deliver {network changed after : Network} {message : Message} {rest further later : List Message}
      {caused : List MatchEvent}
      (delivered : network.deliver checks message = .ok (changed, further, caused))
      (drains : Drains checks changed (rest ++ further) after later) :
      Drains checks network (message :: rest) after later

theorem Drains.trans {middle after : Network} {first second third : List Message}
    (drains : Drains checks network first middle second)
    (later : Drains checks middle second after third) :
    Drains checks network first after third := by
  induction drains with
  | refl => exact later
  | deliver delivered _ ih => exact .deliver delivered (ih later)

/-- How a spread drains a queue: some messages are left in the end, unless the delivery of the first
one fails before. -/
def DrainsTo (checks : Checks) (network : Network) (queue : List Message) (spread : Spread)
    (left : List Message) : Prop :=
  match spread.failure with
  | none => Drains checks network queue spread.network left
  | some error => ∃ message rest, Drains checks network queue spread.network (message :: rest) ∧
    spread.network.deliver checks message = .error error

theorem Drains.thenTo {middle : Network} {first second left : List Message} {spread : Spread}
    (drains : Drains checks network first middle second)
    (later : DrainsTo checks middle second spread left) :
    DrainsTo checks network first spread left := by
  unfold DrainsTo at later ⊢
  split at later
  · exact drains.trans later
  · obtain ⟨message, rest, reaches, fails⟩ := later
    exact ⟨message, rest, drains.trans reaches, fails⟩

/-- A wave is delivered from the front of the queue, and the next wave is put behind it. -/
theorem deliverAll_drains (checks : Checks) (network : Network) (wave later : List Message) :
    DrainsTo checks network (wave ++ later) (network.deliverAll checks wave)
      (later ++ (network.deliverAll checks wave).pending) := by
  induction wave generalizing network later with
  | nil =>
    rw [deliverAll, List.append_nil]
    exact .refl network later
  | cons message rest ih =>
    unfold deliverAll
    cases delivered : network.deliver checks message with
    | error error => exact ⟨message, rest ++ later, .refl _ _, delivered⟩
    | ok answer =>
      obtain ⟨changed, further, caused⟩ := answer
      have drains := ih changed (later ++ further)
      rw [← List.append_assoc rest, List.append_assoc later] at drains
      exact Drains.thenTo (.deliver delivered (.refl _ _)) drains

/-- Spreading in waves is draining one queue. -/
theorem propagate_drains (checks : Checks) (network : Network) (wave : List Message) :
    DrainsTo checks network wave (network.propagate checks wave) [] := by
  fun_induction Network.propagate checks network wave with
  | case1 network wave spread unsettled later ih =>
    have first : DrainsTo checks network (wave ++ []) spread ([] ++ spread.pending) :=
      deliverAll_drains checks network wave []
    rw [DrainsTo, unsettled.1, List.append_nil] at first
    exact first.thenTo ih
  | case2 network wave spread settled =>
    have first : DrainsTo checks network (wave ++ []) spread ([] ++ spread.pending) :=
      deliverAll_drains checks network wave []
    rw [List.append_nil, List.nil_append] at first
    cases finished : spread.failure with
    | none =>
      have empty : spread.pending = [] := by
        by_contra waiting
        exact settled ⟨finished, waiting⟩
      rwa [empty] at first
    | some error =>
      unfold DrainsTo at first ⊢
      rwa [finished] at first ⊢

theorem Drains.shape {after : Network} {queue later : List Message}
    (drains : Drains checks network queue after later) : SameShape network after := by
  induction drains with
  | refl => exact .refl _
  | deliver delivered _ ih => exact (deliver_shape delivered).trans ih

theorem DrainsTo.shape {queue left : List Message} {spread : Spread}
    (drains : DrainsTo checks network queue spread left) : SameShape network spread.network := by
  unfold DrainsTo at drains
  split at drains
  · exact drains.shape
  · obtain ⟨message, rest, reaches, fails⟩ := drains
    exact reaches.shape

theorem deliverAll_shape (checks : Checks) (network : Network) (wave : List Message) :
    SameShape network (network.deliverAll checks wave).network :=
  DrainsTo.shape (deliverAll_drains checks network wave [])

theorem propagate_shape (checks : Checks) (network : Network) (wave : List Message) :
    SameShape network (network.propagate checks wave).network :=
  (propagate_drains checks network wave).shape

end Network
end LiveQuery
