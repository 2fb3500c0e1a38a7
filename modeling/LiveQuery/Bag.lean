import LiveQuery.OrderedSet

/-!
# Bags

Finite collections in which a value may occur several times.  A bag is observed through the
number of occurrences of each value; adding and removing report whether a value crossed the
threshold between absent and present.
-/

namespace LiveQuery

/-- What one more or one less occurrence means for the presence of a value. -/
inductive Presence where
  | appeared
  | disappeared
  | absorbed
  deriving DecidableEq, Repr

/-- A collection of occurrences; their order carries no meaning. -/
structure Bag (α : Type) where
  occurrences : List α

namespace Bag

variable {α : Type}

/-- The collection without occurrences. -/
def empty : Bag α := ⟨[]⟩

instance : EmptyCollection (Bag α) := ⟨empty⟩
instance : Inhabited (Bag α) := ⟨empty⟩

/-- The number of occurrences of all values together. -/
def total (bag : Bag α) : Nat := bag.occurrences.length

def isEmpty (bag : Bag α) : Bool := bag.occurrences.isEmpty

variable [DecidableEq α]

def count (bag : Bag α) (value : α) : Nat := bag.occurrences.count value

def contains (bag : Bag α) (value : α) : Bool := bag.occurrences.contains value

/-- The values that occur, each once. -/
def distinct (bag : Bag α) : List α := bag.occurrences.eraseDups

/-- The number of different values. -/
def size (bag : Bag α) : Nat := bag.distinct.length

/-- One more occurrence of a value. -/
def add (bag : Bag α) (value : α) : Bag α := ⟨value :: bag.occurrences⟩

/-- One occurrence less of a value; nothing changes when there is none. -/
def erase (bag : Bag α) (value : α) : Bag α := ⟨bag.occurrences.erase value⟩

@[simp] theorem count_empty (value : α) : (empty : Bag α).count value = 0 := by
  simp [count, empty]

@[simp] theorem count_add (bag : Bag α) (value other : α) :
    (bag.add value).count other = bag.count other + if value = other then 1 else 0 := by
  simp [count, add, List.count_cons]

@[simp] theorem count_erase (bag : Bag α) (value other : α) :
    (bag.erase value).count other = bag.count other - if other = value then 1 else 0 := by
  simp only [count, erase, List.count_erase, beq_iff_eq, @eq_comm _ value]

theorem contains_iff {bag : Bag α} {value : α} :
    bag.contains value = true ↔ value ∈ bag.occurrences :=
  List.contains_iff_mem

theorem mem_distinct {bag : Bag α} {value : α} :
    value ∈ bag.distinct ↔ value ∈ bag.occurrences :=
  List.mem_eraseDups

theorem count_pos_iff {bag : Bag α} {value : α} :
    0 < bag.count value ↔ value ∈ bag.occurrences :=
  List.count_pos_iff

theorem mem_of_mem_erase {bag : Bag α} {value other : α}
    (member : other ∈ (bag.erase value).occurrences) : other ∈ bag.occurrences :=
  List.mem_of_mem_erase member

theorem mem_erase_of_ne {bag : Bag α} {value other : α} (different : other ≠ value) :
    other ∈ (bag.erase value).occurrences ↔ other ∈ bag.occurrences :=
  List.mem_erase_of_ne different

/-- What adding one occurrence means: only the first one makes the value appear. -/
def presenceOnAdd (bag : Bag α) (value : α) : Presence :=
  if bag.contains value then .absorbed else .appeared

/-- What removing one occurrence means, or nothing when there is none to remove: only the last
one makes the value disappear. -/
def presenceOnErase? (bag : Bag α) (value : α) : Option Presence :=
  match bag.count value with
  | 0 => none
  | 1 => some .disappeared
  | _ => some .absorbed

end Bag
end LiveQuery
