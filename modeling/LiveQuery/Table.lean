/-!
# Tables

Finite maps kept as lists of entries in the order in which their keys were first stored.  A key
has at most one entry as long as the table is only changed through `insert` and `erase`.
-/

namespace LiveQuery

/-- Values stored under keys, oldest key first. -/
structure Table (κ ν : Type) where
  entries : List (κ × ν)
  deriving DecidableEq, Repr

namespace Table

variable {κ ν : Type}

/-- The table without entries. -/
def empty : Table κ ν := ⟨[]⟩

instance : EmptyCollection (Table κ ν) := ⟨empty⟩
instance : Inhabited (Table κ ν) := ⟨empty⟩

def keys (table : Table κ ν) : List κ := table.entries.map Prod.fst

def size (table : Table κ ν) : Nat := table.entries.length

def isEmpty (table : Table κ ν) : Bool := table.entries.isEmpty

/-- The table with a function applied to every stored value. -/
def mapValues {μ : Type} (change : ν → μ) (table : Table κ ν) : Table κ μ :=
  ⟨table.entries.map fun (key, value) => (key, change value)⟩

variable [DecidableEq κ]

/-- The value stored under a key. -/
def get? (table : Table κ ν) (key : κ) : Option ν :=
  (table.entries.find? fun entry => entry.1 = key).map Prod.snd

def contains (table : Table κ ν) (key : κ) : Bool := (table.get? key).isSome

/-- Stores a value under a key: in its old place if the key is known, otherwise last. -/
def insertEntry (key : κ) (value : ν) : List (κ × ν) → List (κ × ν)
  | [] => [(key, value)]
  | entry :: rest =>
    if entry.1 = key then (key, value) :: rest else entry :: insertEntry key value rest

/-- The table with a value stored under a key. -/
def insert (table : Table κ ν) (key : κ) (value : ν) : Table κ ν :=
  ⟨insertEntry key value table.entries⟩

/-- The table of those of some keys to which a function gives a value. -/
def tabulate (value? : κ → Option ν) (keys : List κ) : Table κ ν :=
  keys.foldl (fun table key => match value? key with
    | some value => table.insert key value
    | none => table) empty

/-- Forgets a key. -/
def erase (table : Table κ ν) (key : κ) : Table κ ν :=
  ⟨table.entries.filter fun entry => entry.1 ≠ key⟩

@[simp] theorem get?_empty (key : κ) : (empty : Table κ ν).get? key = none := rfl

@[simp] theorem get?_erase (table : Table κ ν) (key other : κ) :
    (table.erase key).get? other = if other = key then none else table.get? other := by
  obtain ⟨entries⟩ := table
  induction entries with
  | nil => simp [get?, erase]
  | cons entry rest ih =>
    simp only [get?, erase, List.filter_cons] at ih ⊢
    grind

@[simp] theorem get?_insert (table : Table κ ν) (key other : κ) (value : ν) :
    (table.insert key value).get? other = if other = key then some value else table.get? other := by
  obtain ⟨entries⟩ := table
  induction entries with
  | nil => grind [get?, insert, insertEntry]
  | cons entry rest ih =>
    simp only [get?, insert, insertEntry] at ih ⊢
    grind

@[simp] theorem get?_tabulate (value? : κ → Option ν) (keys : List κ) (key : κ) :
    (tabulate value? keys).get? key = if key ∈ keys then value? key else none := by
  have folded (table : Table κ ν) : (keys.foldl (fun table key => match value? key with
      | some value => table.insert key value
      | none => table) table).get? key =
        if key ∈ keys then (value? key).or (table.get? key) else table.get? key := by
    induction keys generalizing table with
    | nil => rfl
    | cons first rest ih =>
      rw [List.foldl_cons, ih]
      cases value : value? first <;> simp only [get?_insert, List.mem_cons] <;> grind
  exact (folded empty).trans (by simp)

/-- What is stored already is not stored anew. -/
theorem insert_insert (table : Table κ ν) (key : κ) (value : ν) :
    (table.insert key value).insert key value = table.insert key value := by
  obtain ⟨entries⟩ := table
  induction entries with
  | nil => simp [insert, insertEntry]
  | cons entry rest ih =>
    simp only [insert, insertEntry, mk.injEq] at ih ⊢
    grind [insertEntry]

/-- What is found under a key is one of the entries. -/
theorem mem_of_get? {table : Table κ ν} {key : κ} {value : ν} (found : table.get? key = some value) :
    (key, value) ∈ table.entries := by
  obtain ⟨⟨other, _⟩, first, rfl⟩ := Option.map_eq_some_iff.mp found
  obtain rfl : other = key := by simpa using List.find?_some first
  exact List.mem_of_find?_eq_some first

/-! ## Keys -/

theorem contains_iff {table : Table κ ν} {key : κ} :
    table.contains key = true ↔ ∃ value, table.get? key = some value :=
  Option.isSome_iff_exists

theorem mem_keys_iff {table : Table κ ν} {key : κ} :
    key ∈ table.keys ↔ ∃ value, table.get? key = some value := by
  unfold keys get?
  rw [← Option.isSome_iff_exists, Option.isSome_map, List.find?_isSome]
  simp

theorem keys_erase (table : Table κ ν) (key : κ) :
    (table.erase key).keys = table.keys.filter fun other => other ≠ key := by
  unfold keys erase
  rw [List.filter_map]
  rfl

theorem keys_insert (table : Table κ ν) (key : κ) (value : ν) :
    (table.insert key value).keys =
      if key ∈ table.keys then table.keys else table.keys ++ [key] := by
  obtain ⟨entries⟩ := table
  induction entries with
  | nil => simp [keys, insert, insertEntry]
  | cons entry rest ih =>
    simp only [keys, insert, insertEntry] at ih ⊢
    grind

/-- Erasing keeps every key single. -/
theorem nodup_keys_erase {table : Table κ ν} (nodup : table.keys.Nodup) (key : κ) :
    (table.erase key).keys.Nodup := by
  rw [keys_erase]
  exact nodup.filter _

/-- Storing keeps every key single. -/
theorem nodup_keys_insert {table : Table κ ν} (nodup : table.keys.Nodup) (key : κ) (value : ν) :
    (table.insert key value).keys.Nodup := by
  rw [keys_insert]
  split
  · exact nodup
  next absent =>
    rw [List.nodup_append]
    exact ⟨nodup, by simp, by grind⟩

/-- Under single keys, the entries are what the keys stand for. -/
theorem mem_entries_iff {table : Table κ ν} (nodup : table.keys.Nodup) {key : κ} {value : ν} :
    (key, value) ∈ table.entries ↔ table.get? key = some value := by
  obtain ⟨entries⟩ := table
  induction entries with
  | nil => simp [get?]
  | cons entry rest ih =>
    obtain ⟨first, others⟩ := List.nodup_cons.mp nodup
    have ih := ih others
    have single : ∀ other ∈ rest, other.1 ≠ entry.1 := fun other member same =>
      first (List.mem_map.mpr ⟨other, member, same⟩)
    simp only [get?, List.mem_cons, List.find?_cons] at ih ⊢
    grind

section Middle

variable {table : Table κ ν} {before after : List (κ × ν)} {key : κ} {old : ν}

omit [DecidableEq κ] in
theorem notMem_of_middle (nodup : table.keys.Nodup)
    (shape : table.entries = before ++ (key, old) :: after) :
    (∀ entry ∈ before, entry.1 ≠ key) ∧ ∀ entry ∈ after, entry.1 ≠ key := by
  unfold keys at nodup
  rw [shape, List.map_append, List.map_cons, List.nodup_append, List.nodup_cons] at nodup
  obtain ⟨-, ⟨unused, -⟩, apart⟩ := nodup
  exact ⟨fun entry member => apart _ (List.mem_map_of_mem member) key List.mem_cons_self,
    fun entry member same => unused (List.mem_map.mpr ⟨entry, member, same⟩)⟩

/-- A known value is replaced in its place. -/
theorem entries_insert_middle (nodup : table.keys.Nodup)
    (shape : table.entries = before ++ (key, old) :: after) (value : ν) :
    (table.insert key value).entries = before ++ (key, value) :: after := by
  obtain ⟨unused, -⟩ := notMem_of_middle nodup shape
  show insertEntry key value table.entries = _
  rw [shape]
  clear shape
  induction before with
  | nil => simp [insertEntry]
  | cons entry rest ih =>
    obtain ⟨other, others⟩ := List.forall_mem_cons.mp unused
    rw [List.cons_append, insertEntry, if_neg other, ih others, List.cons_append]

theorem entries_erase_middle (nodup : table.keys.Nodup)
    (shape : table.entries = before ++ (key, old) :: after) :
    (table.erase key).entries = before ++ after := by
  obtain ⟨earlier, later⟩ := notMem_of_middle nodup shape
  have kept {entries : List (κ × ν)} (unused : ∀ entry ∈ entries, entry.1 ≠ key) :
      entries.filter (fun entry => entry.1 ≠ key) = entries :=
    List.filter_eq_self.mpr fun entry member => decide_eq_true (unused entry member)
  unfold erase
  rw [shape, List.filter_append, List.filter_cons_of_neg (by simp), kept earlier, kept later]

end Middle

end Table
end LiveQuery
