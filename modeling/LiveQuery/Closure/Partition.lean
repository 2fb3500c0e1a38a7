import LiveQuery.Id
import LiveQuery.OrderedSet
import LiveQuery.Table

/-!
# Partitions

Which partition every node is in.  Partitions are numbered in the order of their creation; a merge
keeps the oldest number, a split gives every part a new one, and no number is used twice.
-/

namespace LiveQuery

namespace PartitionId

/-- The form shown to a reader. -/
def render (id : PartitionId) : String := "P" ++ toString id.index

/-- The form that shows the kind of the number. -/
def literal (id : PartitionId) : String := "PartitionId(" ++ toString id.index ++ ")"

end PartitionId

/-- The partition of every node, the nodes of every partition, and the first unused number. -/
structure Partitions (α : Type) where
  home : Table α PartitionId
  members : Table PartitionId (List α)
  next : Nat

namespace Partitions

variable {α : Type} [DecidableEq α]

/-- No node is known yet. -/
def empty : Partitions α := ⟨.empty, .empty, 0⟩

instance : Inhabited (Partitions α) := ⟨empty⟩

/-- The partition of a node. -/
def of? (partitions : Partitions α) (node : α) : Option PartitionId := partitions.home.get? node

/-- The nodes of a partition; a number that is not in use has none. -/
def membersOf (partitions : Partitions α) (id : PartitionId) : List α :=
  (partitions.members.get? id).getD []

/-- The number of partitions. -/
def size (partitions : Partitions α) : Nat := partitions.members.size

/-- Puts nodes into a partition. -/
def place (partitions : Partitions α) (id : PartitionId) (nodes : List α) : Partitions α :=
  { partitions with
    home := nodes.foldl (fun home node => home.insert node id) partitions.home
    members := partitions.members.insert id (partitions.membersOf id ++ nodes) }

/-- Puts nodes into a partition with an unused number. -/
def create (partitions : Partitions α) (nodes : List α) : Partitions α × PartitionId :=
  let id : PartitionId := ⟨partitions.next⟩
  ({ partitions.place id nodes with next := partitions.next + 1 }, id)

/-- Merges the partitions of some nodes into the oldest of them.  The answer names the surviving
and the retired partitions, and the nodes that come to another partition; there is none if the nodes
share one partition already. -/
def merge? (partitions : Partitions α) (nodes : List α) :
    Option (Partitions α × PartitionId × List PartitionId × List α) :=
  match (OrderedSet.ofList (nodes.filterMap partitions.of?)).toList with
  | survivor :: retired@(_ :: _) =>
    let moved := retired.flatMap partitions.membersOf
    let kept := { partitions with members := retired.foldl Table.erase partitions.members }
    some (kept.place survivor moved, survivor, retired, moved)
  | _ => none

/-- Replaces a partition by new ones, one for each group of its nodes. -/
def split (partitions : Partitions α) (id : PartitionId) (groups : List (List α)) :
    Partitions α × List PartitionId :=
  groups.foldl (fun (partitions, ids) nodes =>
    let (partitions, id) := partitions.create nodes
    (partitions, ids ++ [id])) ({ partitions with members := partitions.members.erase id }, [])

end Partitions
end LiveQuery
