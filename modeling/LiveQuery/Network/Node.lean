import LiveQuery.Closure.Basic
import LiveQuery.Row.Operator

/-!
# Network nodes

A node receives rows that enter or leave its inputs and answers with the rows that enter or leave
its output.  Joins, anti-joins, closures and productions remember what they have received, with
multiplicities, so that a later row meets everything that came before it.
-/

namespace LiveQuery

/-- Which input of a node a row arrives on. -/
inductive Inlet where
  | single
  | left
  | right
  deriving DecidableEq, Repr

/-- Where an input of a node comes from. -/
inductive NodeInput where
  | node (id : NodeId)
  | facts (relation : RelationId)
  deriving DecidableEq, Repr

/-- Whether an input is there before the node at a place; facts always are. -/
def NodeInput.precedes : NodeInput → Nat → Bool
  | .node id, place => id.index < place
  | .facts _, _ => true

/-- One row that enters or leaves. -/
structure RowDelta where
  kind : ChangeKind
  row : Tuple
  deriving DecidableEq, Repr

/-- What a node does to rows, with the rows it remembers. -/
inductive Cell where
  | source (relation : RelationId) (arity : Nat) (columns : List Nat) (equal : List (Nat × Nat))
  | unit (row : Tuple)
  | filter (test : RowTest)
  | project (columns : List Nat)
  /-- The rows received on either side. -/
  | join (leftKey rightKey : List Nat) (output : List (Side × Nat)) (left right : Bag Tuple)
  /-- The rows received from the child, and the facts that block them. -/
  | antiJoin (relation : RelationId) (key : List Nat) (kept blocked : Bag Tuple)
  | closure (relation : RelationId) (single swap : Bool) (state : Closure Value)
  /-- The matches of a query, as often as its bodies produce them. -/
  | production (produced : Bag Tuple)

namespace Cell

/-- The operator that the cell carries out; productions carry out none. -/
def operator? : Cell → Option Operator
  | .source relation arity columns equal => some (.source relation arity columns equal)
  | .unit row => some (.unit row)
  | .filter test => some (.filter test)
  | .project columns => some (.project columns)
  | .join leftKey rightKey output _ _ => some (.join leftKey rightKey output)
  | .antiJoin relation key _ _ => some (.antiJoin relation key)
  | .closure relation single swap _ => some (.closure relation single swap)
  | .production _ => none

/-- The cell without the rows it remembers. -/
def cleared : Cell → Cell
  | .join leftKey rightKey output _ _ => .join leftKey rightKey output .empty .empty
  | .antiJoin relation key _ _ => .antiJoin relation key .empty .empty
  | .closure relation single swap _ => .closure relation single swap .empty
  | .production _ => .production .empty
  | cell => cell

/-- Whether the cell remembers rows. -/
def isStateful : Cell → Bool
  | .join .. | .antiJoin .. | .closure .. | .production .. => true
  | _ => false

/-! ## Receiving rows -/

/-- The memory after a row has entered or left it; only remembered rows can leave. -/
def remember (memory : Bag Tuple) (delta : RowDelta) : Except Error (Bag Tuple) :=
  match delta.kind with
  | .insert => .ok (memory.add delta.row)
  | .delete =>
    if memory.contains delta.row then .ok (memory.erase delta.row)
    else .error (.internal s!"retracted row {delta.row.render} was never stored")

/-- The remembered rows with a key, as often as they are remembered. -/
def matching (memory : Bag Tuple) (columns : List Nat) (key : Tuple) : List Tuple :=
  memory.occurrences.filter fun row => row.project columns = key

/-- A row that reaches the left side of a join meets the rows of the right side. -/
def joinLeft (leftKey rightKey : List Nat) (output : List (Side × Nat)) (right : Bag Tuple)
    (delta : RowDelta) : List RowDelta :=
  (matching right rightKey (delta.row.project leftKey)).map fun other =>
    ⟨delta.kind, Operator.joinRow output delta.row other⟩

/-- A row that reaches the right side of a join meets the rows of the left side. -/
def joinRight (leftKey rightKey : List Nat) (output : List (Side × Nat)) (left : Bag Tuple)
    (delta : RowDelta) : List RowDelta :=
  (matching left leftKey (delta.row.project rightKey)).map fun other =>
    ⟨delta.kind, Operator.joinRow output other delta.row⟩

/-- A fact that appears takes away the rows with that key, and one that disappears brings them
back; further occurrences of a fact change nothing. -/
def block (key : List Nat) (kept blocked : Bag Tuple) (delta : RowDelta) :
    Except Error (Bag Tuple × List RowDelta) :=
  let rows := matching kept key delta.row
  match delta.kind with
  | .insert =>
    match blocked.presenceOnAdd delta.row with
    | .appeared => .ok (blocked.add delta.row, rows.map (⟨.delete, ·⟩))
    | _ => .ok (blocked.add delta.row, [])
  | .delete =>
    match blocked.presenceOnErase? delta.row with
    | some .disappeared => .ok (blocked.erase delta.row, rows.map (⟨.insert, ·⟩))
    | some _ => .ok (blocked.erase delta.row, [])
    | none => .error (.internal s!"retracted fact {delta.row.render} was never inserted")

/-- The closure after an edge has entered or left it, and what that changed; only edges that are
there can leave. -/
def moveEdge (state : Closure Value) (delta : RowDelta) (source target : Value) :
    Except Error (Closure Value × ClosureDelta Value) :=
  match delta.kind with
  | .insert => .ok (state.insertEdge source target)
  | .delete =>
    match state.deleteEdge? source target with
    | some changed => .ok changed
    | none => .error (.internal s!"retracted edge {delta.row.render} was never inserted")

/-- The rows that the changed pairs of a closure stand for. -/
def closureRows (single swap : Bool) (change : ClosureDelta Value) : List RowDelta :=
  (change.appeared.filterMap (Operator.closureRow? single swap)).map (⟨.insert, ·⟩) ++
    (change.disappeared.filterMap (Operator.closureRow? single swap)).map (⟨.delete, ·⟩)

/-- The matches after one more or one less production of a row; only the first one and the last
one are passed on. -/
def produce (produced : Bag Tuple) (delta : RowDelta) :
    Except Error (Bag Tuple × List RowDelta) :=
  match delta.kind with
  | .insert =>
    match produced.presenceOnAdd delta.row with
    | .appeared => .ok (produced.add delta.row, [delta])
    | _ => .ok (produced.add delta.row, [])
  | .delete =>
    match produced.presenceOnErase? delta.row with
    | some .disappeared => .ok (produced.erase delta.row, [delta])
    | some _ => .ok (produced.erase delta.row, [])
    | none => .error (.internal s!"retracted match {delta.row.render} was never produced")

/-- The cell after a row has arrived on one of its inputs, and the rows that this sends on. -/
def receive (checks : Checks) (label : String) (inlet : Inlet) (delta : RowDelta) :
    Cell → Except Error (Cell × List RowDelta)
  | cell@(.source _ arity columns equal) =>
    match Operator.sourceRow? arity columns equal delta.row with
    | some row => .ok (cell, [⟨delta.kind, row⟩])
    | none => .ok (cell, [])
  | cell@(.unit _) => .ok (cell, [])
  | cell@(.filter test) => do
    return (cell, if ← test.passes checks label delta.row then [delta] else [])
  | cell@(.project columns) => .ok (cell, [⟨delta.kind, delta.row.project columns⟩])
  | .join leftKey rightKey output left right =>
    match inlet with
    | .right => do
      let sent := joinRight leftKey rightKey output left delta
      return (.join leftKey rightKey output left (← remember right delta), sent)
    | _ => do
      let sent := joinLeft leftKey rightKey output right delta
      return (.join leftKey rightKey output (← remember left delta) right, sent)
  | .antiJoin relation key kept blocked =>
    match inlet with
    | .right => do
      let (blocked, sent) ← block key kept blocked delta
      return (.antiJoin relation key kept blocked, sent)
    | _ => do
      let sent := if blocked.contains (delta.row.project key) then [] else [delta]
      return (.antiJoin relation key (← remember kept delta) blocked, sent)
  | cell@(.closure relation single swap state) =>
    match Operator.edge? delta.row with
    | none => .ok (cell, [])
    | some (first, second) => do
      let (state, change) ← moveEdge state delta first second
      return (.closure relation single swap state, closureRows single swap change)
  | .production produced => do
    let (produced, sent) ← produce produced delta
    return (.production produced, sent)

/-- What a cell that remembers rows has sent on so far, as often as it has been sent. -/
def stored : Cell → List Tuple
  | .join leftKey rightKey output left right =>
    left.occurrences.flatMap fun row =>
      (matching right rightKey (row.project leftKey)).map (Operator.joinRow output row)
  | .antiJoin _ key kept blocked =>
    kept.occurrences.filter fun row => !blocked.contains (row.project key)
  | .closure _ single swap state => state.pairs.filterMap (Operator.closureRow? single swap)
  | .production produced => produced.distinct
  | _ => []

end Cell

/-- A cell with the name under which its faults are reported and its inputs. -/
structure Node where
  cell : Cell
  label : String
  inputs : List (NodeInput × Inlet)
  /-- Whether later queries may use the node too. -/
  isShared : Bool

namespace Node

/-- The inlets of a node at some place that an input goes to.  A node is only read by nodes that
come after it.  -/
def inletsOf (node : Node) (place : Nat) (input : NodeInput) : List (NodeId × Inlet) :=
  if input.precedes place then
    (node.inputs.filter (·.1 = input)).map fun (_, inlet) => (⟨place⟩, inlet)
  else []

/-- The node without the rows it remembers. -/
def cleared (node : Node) : Node := { node with cell := node.cell.cleared }

/-- The cell of an operator over given children, and where its rows come from. -/
def ofOperator (operator : Operator) (children : List NodeId) :
    Except Error (Cell × List (NodeInput × Inlet)) :=
  match operator, children with
  | .source relation arity columns equal, _ =>
    .ok (.source relation arity columns equal, [(.facts relation, .single)])
  | .closure relation single swap, _ =>
    .ok (.closure relation single swap .empty, [(.facts relation, .single)])
  | .antiJoin relation key, [child] =>
    .ok (.antiJoin relation key .empty .empty, [(.node child, .left), (.facts relation, .right)])
  | .join leftKey rightKey output, [left, right] =>
    .ok (.join leftKey rightKey output .empty .empty, [(.node left, .left), (.node right, .right)])
  | .filter test, [child] => .ok (.filter test, [(.node child, .single)])
  | .project columns, [child] => .ok (.project columns, [(.node child, .single)])
  | .unit row, _ => .ok (.unit row, [])
  | .input _, _ =>
    .error (.malformedPlan "input rows can only be supplied to the batch evaluator")
  | _, _ => .error .outOfRange

end Node
end LiveQuery
