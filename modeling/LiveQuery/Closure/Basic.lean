import LiveQuery.Closure.Component
import LiveQuery.Closure.Partition

/-!
# Incremental transitive closure

Maintains, while edges come and go, which nodes reach which others by at least one edge, the
partition of the nodes into strongly connected components, and which partitions reach which
others.  Nodes become known when an edge first mentions them and are never forgotten.  Edges are
counted: only the first insertion and the last deletion of an edge change anything else.

Every change reports a delta: the pairs that appeared or disappeared, the merge or split of
partitions, and the pairs of partitions whose reachability changed.
-/

namespace LiveQuery

/-- What happened to the partitions. -/
inductive PartitionEvent where
  /-- Partitions on a new cycle became one; the others no longer exist. -/
  | merged (survivor : PartitionId) (retired : List PartitionId)
  /-- A partition fell apart; it no longer exists and new ones replace it. -/
  | split (parent : PartitionId) (parts : List PartitionId)
  deriving DecidableEq, Repr

/-- A pair of partitions began or ceased to reach one another. -/
structure ReachabilityEvent where
  appeared : Bool
  source : PartitionId
  target : PartitionId
  deriving DecidableEq, Repr

/-- For every pair of partitions, one occurrence for each pair of nodes that witnesses it. -/
abbrev Witnesses := Bag (PartitionId × PartitionId)

namespace Witnesses

/-- Counts one more witness for each listed pair of partitions, in order. -/
def gain (witnesses : Witnesses) : List (PartitionId × PartitionId) →
    Witnesses × List ReachabilityEvent
  | [] => (witnesses, [])
  | pair :: rest =>
    let (final, events) := gain (witnesses.add pair) rest
    match witnesses.presenceOnAdd pair with
    | .appeared => (final, ⟨true, pair.1, pair.2⟩ :: events)
    | _ => (final, events)

/-- Counts one witness less for each listed pair of partitions, in order. -/
def lose (witnesses : Witnesses) : List (PartitionId × PartitionId) →
    Witnesses × List ReachabilityEvent
  | [] => (witnesses, [])
  | pair :: rest =>
    let (final, events) := lose (witnesses.erase pair) rest
    match witnesses.presenceOnErase? pair with
    | some .disappeared => (final, ⟨false, pair.1, pair.2⟩ :: events)
    | _ => (final, events)

end Witnesses

/-- Everything that one change of an edge changed. -/
structure ClosureDelta (α : Type) where
  appeared : List (α × α) := []
  disappeared : List (α × α) := []
  partitions : List PartitionEvent := []
  reachability : List ReachabilityEvent := []
  deriving DecidableEq, Repr

/-- Whether nothing observable changed. -/
def ClosureDelta.isEmpty {α : Type} (delta : ClosureDelta α) : Bool :=
  delta.appeared.isEmpty && delta.disappeared.isEmpty && delta.partitions.isEmpty &&
    delta.reachability.isEmpty

/-- The state of an incremental closure. -/
structure Closure (α : Type) where
  /-- The known nodes in the order of their first mention. -/
  nodes : List α
  edges : EdgeGraph α
  /-- For every node the nodes that a path of at least one edge leads to. -/
  forward : Table α (List α)
  /-- For every node the nodes that such a path comes from. -/
  backward : Table α (List α)
  partitions : Partitions α
  witnesses : Witnesses

namespace Closure

variable {α : Type} [DecidableEq α]

/-- No node and no edge is known yet. -/
def empty : Closure α := ⟨[], .empty, .empty, .empty, .empty, .empty⟩

instance : Inhabited (Closure α) := ⟨empty⟩

/-! ## Observations -/

/-- The nodes that a node reaches, in no particular order. -/
def reached (closure : Closure α) (source : α) : List α :=
  (closure.forward.get? source).getD []

/-- The nodes that reach a node, in no particular order. -/
def reaching (closure : Closure α) (target : α) : List α :=
  (closure.backward.get? target).getD []

def reaches (closure : Closure α) (source target : α) : Bool :=
  (closure.reached source).contains target

/-- The nodes that a node reaches, in the order of their first mention. -/
def reachableFrom (closure : Closure α) (source : α) : List α :=
  closure.nodes.filter (closure.reaches source)

/-- The reachable pairs, sources and then targets in the order of their first mention. -/
def pairs (closure : Closure α) : List (α × α) :=
  closure.nodes.flatMap fun source => (closure.reachableFrom source).map (source, ·)

def partitionOf? (closure : Closure α) (node : α) : Option PartitionId :=
  closure.partitions.of? node

/-- The nodes of a partition in the order of their first mention. -/
def partitionMembers (closure : Closure α) (id : PartitionId) : List α :=
  closure.nodes.filter (closure.partitions.membersOf id).contains

def partitionReaches (closure : Closure α) (source target : PartitionId) : Bool :=
  closure.witnesses.contains (source, target)

/-- The pairs of partitions with a witness, ascending. -/
def partitionPairs (closure : Closure α) : List (PartitionId × PartitionId) :=
  let ids := (OrderedSet.ofList
    (closure.witnesses.distinct.flatMap fun (source, target) => [source, target])).toList
  ids.flatMap fun source => (ids.filter (closure.partitionReaches source)).map (source, ·)

/-- How often an edge has been inserted and not yet deleted. -/
def edgeMultiplicity (closure : Closure α) (source target : α) : Nat :=
  closure.edges.count (source, target)

def nodeCount (closure : Closure α) : Nat := closure.nodes.length

/-- The number of different edges. -/
def edgeCount (closure : Closure α) : Nat := closure.edges.size

def partitionCount (closure : Closure α) : Nat := closure.partitions.size

/-! ## Changes -/

/-- Makes a node known, in a partition of its own. -/
def know (closure : Closure α) (node : α) : Closure α :=
  if closure.nodes.contains node then closure
  else { closure with
    nodes := closure.nodes ++ [node]
    partitions := (closure.partitions.create [node]).1 }

/-- A node together with the nodes that reach it. -/
def ancestors (closure : Closure α) (node : α) : List α :=
  closure.nodes.filter fun other => other = node || (closure.reaching node).contains other

/-- A node together with the nodes that it reaches. -/
def descendants (closure : Closure α) (node : α) : List α :=
  closure.nodes.filter fun other => other = node || closure.reaches node other

/-- Enters a pair that became reachable into both directions. -/
def link (closure : Closure α) (pair : α × α) : Closure α :=
  { closure with
    forward := closure.forward.insert pair.1 (pair.2 :: closure.reached pair.1)
    backward := closure.backward.insert pair.2 (pair.1 :: closure.reaching pair.2) }

/-- Computes anew from the edges what a node reaches. -/
def recompute (closure : Closure α) (node : α) : Closure α :=
  { closure with forward := closure.forward.insert node (closure.edges.reachable node) }

/-- Takes a pair that is no longer reachable out of the direction towards its source. -/
def unlinkBack (closure : Closure α) (pair : α × α) : Closure α :=
  { closure with
    backward := closure.backward.insert pair.2
      ((closure.reaching pair.2).filter fun source => decide (source ≠ pair.1)) }

/-- The pair of partitions that a pair of nodes witnesses, if every node is in the partition that is
said. -/
def witnessed (home? : α → Option PartitionId) (pair : α × α) :
    Option (PartitionId × PartitionId) := do
  return (← home? pair.1, ← home? pair.2)

/-- The reachable pairs that begin or end at one of some nodes, read off the rows of these nodes in
both directions.  Every pair is listed once, sources and then targets in the order of their first
mention. -/
def touching (closure : Closure α) (nodes : List α) : List (α × α) :=
  let found := nodes.flatMap fun node =>
    (closure.reached node).map (node, ·) ++ (closure.reaching node).map (·, node)
  closure.nodes.flatMap fun source =>
    (closure.nodes.filter fun target => found.contains (source, target)).map (source, ·)

/-- The partition that a node was in before a change: the one that has been noted, or else the
present one. -/
def formerly (closure : Closure α) (previous : Table α PartitionId) (node : α) :
    Option PartitionId :=
  (previous.get? node).or (closure.partitionOf? node)

/-- Counts the witnesses that touch moved nodes under the present partitions instead of those that
the nodes were in before.  The pairs to be skipped are not counted yet. -/
def rekey (closure : Closure α) (moved : List α) (previous : Table α PartitionId)
    (skip : List (α × α)) : Closure α × List ReachabilityEvent :=
  let before := witnessed (closure.formerly previous)
  let now := witnessed closure.partitionOf?
  let changed := (closure.touching moved).filter fun pair =>
    !skip.contains pair && before pair ≠ now pair
  let (witnesses, losses) := closure.witnesses.lose (changed.filterMap before)
  let (witnesses, gains) := witnesses.gain (changed.filterMap now)
  ({ closure with witnesses }, losses ++ gains)

/-- Merges the partitions on the cycle that an edge closes.  The fresh pairs have no witnesses
yet, so only the other pairs are counted anew. -/
def mergeCycle (closure : Closure α) (source target : α) (fresh : List (α × α)) :
    Closure α × List PartitionEvent × List ReachabilityEvent :=
  let crossing := closure.partitionOf? source ≠ closure.partitionOf? target
  if crossing && closure.reaches target source then
    let cycle := (closure.descendants target).filter (closure.ancestors source).contains
    let previous := Table.tabulate closure.partitionOf? cycle
    match closure.partitions.merge? cycle with
    | none => (closure, [], [])
    | some (partitions, survivor, retired, moved) =>
      let (rekeyed, events) := { closure with partitions }.rekey moved previous fresh
      (rekeyed, [.merged survivor retired], events)
  else (closure, [], [])

/-- One more occurrence of an edge. -/
def insertEdge (closure : Closure α) (source target : α) : Closure α × ClosureDelta α :=
  let known := (closure.know source).know target
  let counted := { known with edges := known.edges.add (source, target) }
  if known.edges.contains (source, target) then (counted, {})
  else
    let fresh := ((known.ancestors source).flatMap fun first =>
      (known.descendants target).map (first, ·)).filter fun pair => !known.reaches pair.1 pair.2
    let extended := fresh.foldl link counted
    let (merged, partitions, rekeyed) := extended.mergeCycle source target fresh
    let (witnesses, gains) :=
      merged.witnesses.gain (fresh.filterMap (witnessed merged.partitionOf?))
    ({ merged with witnesses }, { appeared := fresh, partitions, reachability := rekeyed ++ gains })

/-- Splits the partition of an edge that was deleted, if it fell apart. -/
def splitApart (closure : Closure α) (source target : α) :
    Closure α × List PartitionEvent × List ReachabilityEvent :=
  match closure.partitionOf? source with
  | none => (closure, [], [])
  | some id =>
    if closure.partitionOf? target = some id && source ≠ target then
      let members := closure.partitionMembers id
      match closure.edges.components? members with
      | some groups@(_ :: _ :: _) =>
        let previous := Table.tabulate (fun _ => some id) members
        let (partitions, parts) := closure.partitions.split id groups
        let (rekeyed, events) := { closure with partitions }.rekey members previous []
        (rekeyed, [.split id parts], events)
      | _ => (closure, [], [])
    else (closure, [], [])

/-- One occurrence of an edge less, or nothing when the edge is not there. -/
def deleteEdge? (closure : Closure α) (source target : α) :
    Option (Closure α × ClosureDelta α) :=
  if !closure.edges.contains (source, target) then none
  else
    let counted := { closure with edges := closure.edges.erase (source, target) }
    if counted.edges.contains (source, target) then some (counted, {})
    else
      let recomputed := (closure.ancestors source).foldl recompute counted
      let lost := (closure.ancestors source).flatMap fun first =>
        ((closure.reachableFrom first).filter (!recomputed.reaches first ·)).map (first, ·)
      let (witnesses, losses) :=
        closure.witnesses.lose (lost.filterMap (witnessed closure.partitionOf?))
      let shrunk := { lost.foldl unlinkBack recomputed with witnesses }
      let (separated, partitions, rekeyed) := shrunk.splitApart source target
      some (separated, { disappeared := lost, partitions, reachability := losses ++ rekeyed })

end Closure
end LiveQuery
