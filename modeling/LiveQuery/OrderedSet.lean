/-!
# Ordered sets

Finite sets kept as strictly ascending lists.  Two sets with the same members are equal, and the
members are always met in ascending order, so everything computed from a set is deterministic.
-/

namespace LiveQuery

/-- A finite set, listed in strictly ascending order. -/
@[ext] structure OrderedSet (α : Type) [Ord α] where
  toList : List α
  ascending : toList.Pairwise fun first second => compare first second = .lt

namespace OrderedSet

variable {α : Type} [Ord α]

instance [DecidableEq α] : DecidableEq (OrderedSet α) := fun first second =>
  decidable_of_iff (first.toList = second.toList) OrderedSet.ext_iff.symm

/-- The set without members. -/
def empty : OrderedSet α := ⟨[], .nil⟩

instance : EmptyCollection (OrderedSet α) := ⟨empty⟩
instance : Inhabited (OrderedSet α) := ⟨empty⟩

/-- The set with exactly one member. -/
def singleton (value : α) : OrderedSet α := ⟨[value], by simp⟩

def size (set : OrderedSet α) : Nat := set.toList.length

def isEmpty (set : OrderedSet α) : Bool := set.toList.isEmpty

instance : Membership α (OrderedSet α) := ⟨fun set value => value ∈ set.toList⟩

theorem mem_toList {set : OrderedSet α} {value : α} : value ∈ set.toList ↔ value ∈ set := Iff.rfl

@[simp] theorem mem_singleton {value other : α} : other ∈ singleton value ↔ other = value :=
  List.mem_singleton

@[simp] theorem notMem_empty {value : α} : ¬value ∈ (empty : OrderedSet α) :=
  List.not_mem_nil

instance [DecidableEq α] (value : α) (set : OrderedSet α) : Decidable (value ∈ set) :=
  inferInstanceAs (Decidable (value ∈ set.toList))

/-- The members that pass a test. -/
def filter (test : α → Bool) (set : OrderedSet α) : OrderedSet α :=
  ⟨set.toList.filter test, set.ascending.filter _⟩

@[simp] theorem mem_filter {test : α → Bool} {set : OrderedSet α} {value : α} :
    value ∈ set.filter test ↔ value ∈ set ∧ test value = true :=
  List.mem_filter

/-! ## Sets of comparable values -/

/-- Puts a value at its place in an ascending list, unless it is there already. -/
def insertSorted (value : α) : List α → List α
  | [] => [value]
  | head :: rest =>
    match compare value head with
    | .lt => value :: head :: rest
    | .eq => head :: rest
    | .gt => head :: insertSorted value rest

variable [Std.TransOrd α] [Std.LawfulEqOrd α]

omit [Std.TransOrd α] in
theorem mem_insertSorted {value other : α} {list : List α} :
    other ∈ insertSorted value list ↔ other = value ∨ other ∈ list := by
  induction list with
  | nil => simp [insertSorted]
  | cons head rest ih =>
    unfold insertSorted
    split
    · simp
    next equal => simp [Std.LawfulEqOrd.eq_of_compare equal]
    · simp only [List.mem_cons, ih]
      grind

theorem ascending_insertSorted {value : α} {list : List α}
    (ascending : list.Pairwise fun first second => compare first second = .lt) :
    (insertSorted value list).Pairwise fun first second => compare first second = .lt := by
  induction list with
  | nil => simp [insertSorted]
  | cons head rest ih =>
    unfold insertSorted
    have ⟨headFirst, restAscending⟩ := List.pairwise_cons.mp ascending
    split
    next less =>
      exact List.pairwise_cons.mpr ⟨fun other member => by
        rcases List.mem_cons.mp member with rfl | member
        · exact less
        · exact Std.TransCmp.lt_trans less (headFirst other member), ascending⟩
    · exact ascending
    next greater =>
      refine List.pairwise_cons.mpr ⟨fun other member => ?_, ih restAscending⟩
      rcases mem_insertSorted.mp member with rfl | member
      · exact Std.OrientedCmp.lt_of_gt greater
      · exact headFirst other member

/-- The set with one more member. -/
def insert (set : OrderedSet α) (value : α) : OrderedSet α :=
  ⟨insertSorted value set.toList, ascending_insertSorted set.ascending⟩

@[simp] theorem mem_insert {set : OrderedSet α} {value other : α} :
    other ∈ set.insert value ↔ other = value ∨ other ∈ set :=
  mem_insertSorted

/-- The set of the values of a list. -/
def ofList (values : List α) : OrderedSet α :=
  values.foldl insert empty

/-- The values that are in one of two sets. -/
def union (first second : OrderedSet α) : OrderedSet α :=
  second.toList.foldl insert first

theorem mem_foldl_insert {values : List α} {set : OrderedSet α} {value : α} :
    value ∈ values.foldl insert set ↔ value ∈ values ∨ value ∈ set := by
  induction values generalizing set with
  | nil => simp
  | cons first rest ih =>
    rw [List.foldl_cons, ih, mem_insert, List.mem_cons]
    grind

@[simp] theorem mem_ofList {values : List α} {value : α} :
    value ∈ ofList values ↔ value ∈ values := by
  rw [ofList, mem_foldl_insert]
  simp

@[simp] theorem mem_union {first second : OrderedSet α} {value : α} :
    value ∈ first.union second ↔ value ∈ first ∨ value ∈ second := by
  rw [union, mem_foldl_insert, mem_toList]
  exact Or.comm

section Decidable

variable [DecidableEq α]

def contains (set : OrderedSet α) (value : α) : Bool := decide (value ∈ set)

/-- The values that are in both of two sets. -/
def inter (first second : OrderedSet α) : OrderedSet α := first.filter second.contains

/-- The values of the first set that are not in the second. -/
def diff (first second : OrderedSet α) : OrderedSet α :=
  first.filter fun value => !second.contains value

def isSubset (first second : OrderedSet α) : Bool := first.toList.all second.contains

omit [Std.TransOrd α] [Std.LawfulEqOrd α] in
theorem isSubset_iff {first second : OrderedSet α} :
    first.isSubset second = true ↔ ∀ value ∈ first, value ∈ second := by
  simp [isSubset, contains, mem_toList]

def isDisjoint (first second : OrderedSet α) : Bool :=
  first.toList.all fun value => !second.contains value

/-- The set without one value. -/
def erase (set : OrderedSet α) (value : α) : OrderedSet α :=
  set.filter fun other => decide (other ≠ value)

omit [Std.TransOrd α] [Std.LawfulEqOrd α] in
@[simp] theorem mem_inter {first second : OrderedSet α} {value : α} :
    value ∈ first.inter second ↔ value ∈ first ∧ value ∈ second := by
  simp [inter, contains]

omit [Std.TransOrd α] [Std.LawfulEqOrd α] in
@[simp] theorem mem_diff {first second : OrderedSet α} {value : α} :
    value ∈ first.diff second ↔ value ∈ first ∧ ¬value ∈ second := by
  simp [diff, contains]

omit [Std.TransOrd α] [Std.LawfulEqOrd α] in
@[simp] theorem mem_erase {set : OrderedSet α} {value other : α} :
    other ∈ set.erase value ↔ other ∈ set ∧ other ≠ value := by
  simp [erase]

end Decidable

omit [Std.LawfulEqOrd α] in
/-- Ascending lists of the same values are equal. -/
theorem eq_of_ascending {first second : List α}
    (firstAscending : first.Pairwise fun value other => compare value other = .lt)
    (secondAscending : second.Pairwise fun value other => compare value other = .lt)
    (same : ∀ value, value ∈ first ↔ value ∈ second) : first = second := by
  induction first generalizing second with
  | nil =>
    cases second with
    | nil => rfl
    | cons value rest => simpa using same value
  | cons value rest ih =>
    cases second with
    | nil => simpa using same value
    | cons other others =>
      have ⟨valueFirst, restAscending⟩ := List.pairwise_cons.mp firstAscending
      have ⟨otherFirst, othersAscending⟩ := List.pairwise_cons.mp secondAscending
      have irreflexive (value : α) : compare value value ≠ .lt := by
        simp [Std.ReflOrd.compare_self]
      -- each head would have to come before the other
      have heads : value = other := by
        rcases List.mem_cons.mp ((same value).mp List.mem_cons_self) with equal | later
        · exact equal
        · rcases List.mem_cons.mp ((same other).mpr List.mem_cons_self) with equal | earlier
          · exact equal.symm
          · exact absurd (Std.TransCmp.lt_trans (otherFirst value later) (valueFirst other earlier))
              (irreflexive other)
      subst heads
      refine congrArg _ (ih restAscending othersAscending fun candidate => ?_)
      constructor
      · intro member
        rcases List.mem_cons.mp ((same candidate).mp (List.mem_cons_of_mem _ member)) with
          rfl | there
        · exact absurd (valueFirst _ member) (irreflexive _)
        · exact there
      · intro member
        rcases List.mem_cons.mp ((same candidate).mpr (List.mem_cons_of_mem _ member)) with
          rfl | there
        · exact absurd (otherFirst _ member) (irreflexive _)
        · exact there

omit [Std.LawfulEqOrd α] in
/-- Sets with the same members are equal. -/
theorem ext_mem {first second : OrderedSet α} (same : ∀ value, value ∈ first ↔ value ∈ second) :
    first = second :=
  OrderedSet.ext (eq_of_ascending first.ascending second.ascending same)

omit [Std.LawfulEqOrd α] in
/-- Every member is listed once. -/
theorem nodup_toList (set : OrderedSet α) : set.toList.Nodup :=
  set.ascending.imp fun {_ second} less same => by
    have equal : compare second second = .eq := Std.ReflOrd.compare_self
    rw [same, equal] at less
    cases less

theorem perm_toList_insert {set : OrderedSet α} {value : α} (absent : ¬value ∈ set) :
    (set.insert value).toList.Perm (value :: set.toList) := by
  rw [List.perm_ext_iff_of_nodup (nodup_toList _) (List.nodup_cons.mpr ⟨absent, nodup_toList _⟩)]
  intro other
  rw [mem_toList, mem_insert, List.mem_cons, mem_toList]

omit [Std.LawfulEqOrd α] in
theorem perm_toList_erase [DecidableEq α] {set : OrderedSet α} {value : α} (present : value ∈ set) :
    set.toList.Perm (value :: (set.erase value).toList) := by
  rw [List.perm_ext_iff_of_nodup (nodup_toList _)
    (List.nodup_cons.mpr ⟨by simp [mem_toList], nodup_toList _⟩)]
  intro other
  rw [List.mem_cons, mem_toList, mem_toList, mem_erase]
  by_cases same : other = value
  · simp [same, present]
  · simp [same]

/-- The members between curly brackets, each written by the given function. -/
def render (write : α → String) (set : OrderedSet α) : String :=
  "\x7b" ++ ", ".intercalate (set.toList.map write) ++ "\x7d"

end OrderedSet
end LiveQuery
