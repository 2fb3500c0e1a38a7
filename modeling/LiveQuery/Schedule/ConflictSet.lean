import LiveQuery.Draw.Source
import LiveQuery.Id
import LiveQuery.Schedule.Policy
import LiveQuery.Table

/-!
# The conflict set

The activations that may fire, filed in buckets by their priority.  The lowest priority is the
most urgent; inside its bucket the order of filing decides, or a draw.
-/

namespace LiveQuery

/-- The activations of one priority, in the order in which they were filed. -/
structure Bucket where
  priority : Int32
  members : List ActivationId
  deriving DecidableEq, Repr

/-- The buckets by ascending priority, and the priority under which every activation is filed. -/
structure ConflictSet where
  buckets : List Bucket
  filed : Table ActivationId Int32
  order : BucketOrder
  /-- Where the draws of a random order come from. -/
  draws : Option Draw.Source

namespace ConflictSet

/-- The empty set with an order. -/
def new [Draw.Generator] (order : BucketOrder) : ConflictSet where
  buckets := []
  filed := .empty
  order := order
  draws := match order with
    | .random seed => some (Draw.Generator.ofSeed seed)
    | .fifo | .lifo => none

/-! ## Asking -/

/-- The priority under which an activation is filed. -/
def priorityOf? (set : ConflictSet) (id : ActivationId) : Option Int32 := set.filed.get? id

def contains (set : ConflictSet) (id : ActivationId) : Bool := set.filed.contains id

/-- The activations filed under a priority. -/
def bucket (set : ConflictSet) (priority : Int32) : List ActivationId :=
  ((set.buckets.find? (·.priority = priority)).map Bucket.members).getD []

/-- The priorities in use, in ascending order. -/
def priorities (set : ConflictSet) : List Int32 := set.buckets.map Bucket.priority

def size (set : ConflictSet) : Nat := set.filed.size

def isEmpty (set : ConflictSet) : Bool := set.filed.isEmpty

/-! ## Filing -/

/-- Puts an activation at the end of the bucket of a priority, which is opened if needed. -/
def fileUnder (priority : Int32) (id : ActivationId) : List Bucket → List Bucket
  | [] => [⟨priority, [id]⟩]
  | first :: rest =>
    if priority < first.priority then ⟨priority, [id]⟩ :: first :: rest
    else if priority = first.priority then { first with members := first.members ++ [id] } :: rest
    else first :: fileUnder priority id rest

/-- Takes an activation out of the bucket of a priority, which is closed when nothing is left. -/
def takeFrom (priority : Int32) (id : ActivationId) : List Bucket → List Bucket
  | [] => []
  | first :: rest =>
    if first.priority = priority then
      match first.members.filter (· ≠ id) with
      | [] => rest
      | left@(_ :: _) => ⟨priority, left⟩ :: rest
    else first :: takeFrom priority id rest

/-- The set without an activation. -/
def remove (set : ConflictSet) (id : ActivationId) : ConflictSet :=
  match set.filed.get? id with
  | none => set
  | some priority => { set with
      buckets := takeFrom priority id set.buckets
      filed := set.filed.erase id }

/-- The set with an activation filed under a priority.  An activation that is filed under another
priority is moved; one that is filed under this priority keeps its place. -/
def insert (set : ConflictSet) (id : ActivationId) (priority : Int32) : ConflictSet :=
  if set.filed.get? id = some priority then set
  else
    let without := set.remove id
    { without with
      buckets := fileUnder priority id without.buckets
      filed := without.filed.insert id priority }

/-- The set without any activation.  Draws go on where they were. -/
def clear (set : ConflictSet) : ConflictSet := { set with buckets := [], filed := .empty }

@[simp] theorem priorityOf?_remove (set : ConflictSet) (id other : ActivationId) :
    (set.remove id).priorityOf? other = if other = id then none else set.priorityOf? other := by
  unfold remove
  split
  next absent =>
    split
    next same => exact same ▸ absent
    · rfl
  · exact Table.get?_erase ..

@[simp] theorem priorityOf?_insert (set : ConflictSet) (id other : ActivationId)
    (priority : Int32) :
    (set.insert id priority).priorityOf? other =
      if other = id then some priority else set.priorityOf? other := by
  unfold insert
  split
  next present =>
    split
    next same => exact same ▸ present
    · rfl
  · refine (Table.get?_insert ..).trans ?_
    split
    · rfl
    next other_id => exact (priorityOf?_remove ..).trans (if_neg other_id)

/-! ## Choosing -/

/-- The activation that is next to fire, which stays in the set.  In a random order every choice
from a set that is not empty uses up a draw. -/
def next (set : ConflictSet) : ConflictSet × Option ActivationId :=
  match set.buckets with
  | [] => (set, none)
  | ⟨_, members⟩ :: _ =>
    match set.order, set.draws with
    | .lifo, _ => (set, members.getLast?)
    | .random _, some draws =>
      let (place, draws) := draws.below members.length
      ({ set with draws := some draws }, members[place]?)
    | _, _ => (set, members.head?)

/-- Choosing files nothing and takes nothing out. -/
@[simp] theorem priorityOf?_next (set : ConflictSet) (id : ActivationId) :
    set.next.1.priorityOf? id = set.priorityOf? id := by
  unfold next
  split
  · rfl
  · split <;> rfl

end ConflictSet
end LiveQuery
