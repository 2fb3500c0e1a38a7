import LiveQuery.Network.Node
import LiveQuery.OrderedSet

/-!
# The evaluation network

A network owns a fact store and a directed acyclic graph of nodes, in which every node comes after
the nodes it reads.  The last node of every installed query is a production that holds its matches.
A fault in a check leaves the network poisoned; it then remembers the matches that were last
reported, until a reset succeeds.
-/

namespace LiveQuery

/-- The form of a query number that shows its kind. -/
def QueryId.literal (id : QueryId) : String := "QueryId(" ++ toString id.index ++ ")"

/-- Whether a match entered or left the match set of a query. -/
inductive MatchEventKind where
  | appeared
  | disappeared
  deriving DecidableEq, Repr

/-- A change of the match set of a query. -/
structure MatchEvent where
  query : QueryId
  kind : MatchEventKind
  tuple : Tuple
  deriving DecidableEq, Repr

/-- A query with the node that holds its matches and the number of its parameters. -/
structure InstalledQuery where
  name : String
  production : NodeId
  arity : Nat
  deriving DecidableEq, Repr

/-- Someone who follows a query, with the events received so far. -/
structure Observer where
  query : QueryId
  received : List MatchEvent
  deriving DecidableEq, Repr

/-- The state of an evaluation network. -/
structure Network where
  id : NetworkId
  facts : FactStore
  nodes : List Node
  queries : List InstalledQuery
  observers : List Observer
  /-- The match sets as last reported, while the network is poisoned. -/
  reported : Option (List (OrderedSet Tuple))

namespace Network

/-- A network without facts and queries. -/
def new (id : NetworkId) : Network := ⟨id, .empty, [], [], [], none⟩

/-! ## Observation -/

def isPoisoned (network : Network) : Bool := network.reported.isSome

/-- Shared nodes count once. -/
def nodeCount (network : Network) : Nat := network.nodes.length

def query? (network : Network) (id : QueryId) : Option InstalledQuery :=
  network.queries[id.index]?

/-- The first query with a name. -/
def findQuery? (network : Network) (name : String) : Option QueryId :=
  (network.queries.findIdx? (·.name = name)).map Id.mk

/-- A poisoned network refuses everything but a reset. -/
def demandUsable (network : Network) : Except Error Unit :=
  if network.isPoisoned then .error .networkPoisoned else .ok ()

/-- The query with a number, which has to be installed. -/
def demandQuery (network : Network) (id : QueryId) : Except Error InstalledQuery :=
  match network.query? id with
  | some query => .ok query
  | none => .error (.unknownQuery id.literal)

/-- The rows that a production holds. -/
def produced (network : Network) (production : NodeId) : OrderedSet Tuple :=
  match network.nodes[production.index]? with
  | some node => .ofList node.cell.stored
  | none => .empty

/-- The match sets of all queries. -/
def matchSets (network : Network) : List (OrderedSet Tuple) :=
  network.queries.map fun query => network.produced query.production

/-- The matches of a query. -/
def matchesOf (network : Network) (id : QueryId) : Except Error (OrderedSet Tuple) := do
  network.demandUsable
  let query ← network.demandQuery id
  return network.produced query.production

/-- Lets an observer follow a query. -/
def subscribe (network : Network) (query : QueryId) : Except Error Network := do
  discard (network.demandQuery query)
  return { network with observers := network.observers ++ [⟨query, []⟩] }

/-- Hands events to the observers of their queries. -/
def notify (network : Network) (events : List MatchEvent) : Network :=
  { network with observers := network.observers.map fun observer =>
      { observer with
        received := observer.received ++ events.filter (·.query = observer.query) } }

/-! ## Nodes -/

/-- The nodes that read an input, in the order of their creation. -/
def readers (network : Network) (input : NodeInput) : List (NodeId × Inlet) :=
  network.nodes.zipIdx.flatMap fun (node, place) => node.inletsOf place input

/-- The rows that a node has sent on so far, as often as they were sent.  Nodes without a memory
derive them from what they read. -/
def output (checks : Checks) (network : Network) (id : NodeId) : Except Error (List Tuple) :=
  match network.nodes[id.index]? with
  | none => .error .outOfRange
  | some node =>
    let child : Except Error (List Tuple) :=
      match node.inputs with
      | (.node child, _) :: _ =>
        if child.index < id.index then network.output checks child else .error .outOfRange
      | _ => .error (.internal s!"{node.label} has no input node")
    match node.cell with
    | .source relation arity columns equal =>
      .ok ((network.facts.occurrencesOf relation).filterMap
        (Operator.sourceRow? arity columns equal))
    | .unit row => .ok [row]
    | .filter test => do test.select checks node.label (← child)
    | .project columns => do return (← child).map (Tuple.project · columns)
    | cell => .ok cell.stored
termination_by id.index

/-- The rows that an input supplies at present. -/
def supply (checks : Checks) (network : Network) : NodeInput → Except Error (List Tuple)
  | .node child => network.output checks child
  | .facts relation => .ok (network.facts.occurrencesOf relation)

/-- The cell of a node after it has received everything that its inputs supply at present. -/
def primed (checks : Checks) (network : Network) (node : Node) : Except Error Cell :=
  if node.cell.isStateful then
    node.inputs.foldlM (fun cell (input, inlet) => do
      (← network.supply checks input).foldlM (fun cell row =>
        Prod.fst <$> cell.receive checks node.label inlet ⟨.insert, row⟩) cell) node.cell
  else .ok node.cell

/-- A computation that changes a network step by step.  When it fails, the changes made so far
remain. -/
abbrev Building := EStateM Error Network

/-- Lets a node receive everything that its inputs supply at present. -/
def prime (checks : Checks) (id : NodeId) : Building Unit := do
  let network ← get
  match network.nodes[id.index]? with
  | none => throw .outOfRange
  | some node =>
    let cell ← liftExcept (network.primed checks node)
    set { network with nodes := network.nodes.set id.index { node with cell } }

/-- Adds a node that has received everything that its inputs supply. -/
def addNode (checks : Checks) (node : Node) : Building NodeId := do
  let network ← get
  let id : NodeId := ⟨network.nodes.length⟩
  set { network with nodes := network.nodes ++ [node] }
  prime checks id
  return id

end Network
end LiveQuery
