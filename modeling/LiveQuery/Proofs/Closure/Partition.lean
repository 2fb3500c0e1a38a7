import Mathlib.Data.List.Forall2
import LiveQuery.Closure.Partition

/-!
# What creating, merging and splitting do to partitions

`Partitions.Consistent` says that the two tables describe the same partition of the known nodes and
that no partition is empty.  Between the removal of an old partition and the creation of those that
replace it, some nodes are on the move: their home is out of date and nobody lists them.  The
invariant therefore has them as a parameter.  Retiring numbers sets their nodes on the move
(`Consistent.retire`), and placing nodes ends this for them (`Consistent.place`).

A merge retires all numbers of its nodes but the smallest one, and places their members under that
one.  `Merged` says which node is where afterwards, and a merge also tells which nodes have moved
(`merge?_spec`).  A split retires one number and places every group under a number of its own, which
has not been used before.  `Divided` says which node is where afterwards (`split_spec`).
-/

namespace LiveQuery

theorem PartitionId.compare_lt_iff {first second : PartitionId} :
    compare first second = .lt ↔ first.index < second.index :=
  Nat.compare_eq_lt

namespace Partitions

variable {α : Type} [DecidableEq α]

/-- Both tables describe the same partition of the nodes, apart from those on the move, and every
number in use has been issued. -/
structure Consistent (nodes moving : List α) (partitions : Partitions α) : Prop where
  known : ∀ node, node ∉ moving → ((∃ id, partitions.of? node = some id) ↔ node ∈ nodes)
  listed : ∀ node id,
    node ∈ partitions.membersOf id ↔ partitions.of? node = some id ∧ node ∉ moving
  inhabited : ∀ id ∈ partitions.members.keys, partitions.membersOf id ≠ []
  keys : partitions.members.keys.Nodup
  issued : ∀ node id, partitions.of? node = some id → id.index < partitions.next

variable {nodes moving cycle : List α} {partitions after : Partitions α} {id : PartitionId}

theorem consistent_empty : Consistent [] [] (empty : Partitions α) where
  known node _ := by simp [of?, empty]
  listed node id := by simp [of?, membersOf, empty]
  inhabited id member := by simp [empty, Table.keys, Table.empty] at member
  keys := List.nodup_nil
  issued node id found := by simp [of?, empty] at found

namespace Consistent

/-- The numbers in use are the homes of the nodes. -/
theorem mem_keys_iff (consistent : partitions.Consistent nodes []) :
    id ∈ partitions.members.keys ↔ ∃ node, partitions.of? node = some id := by
  constructor
  · intro member
    obtain ⟨node, listed⟩ := List.exists_mem_of_ne_nil _ (consistent.inhabited id member)
    exact ⟨node, ((consistent.listed node id).mp listed).1⟩
  · rintro ⟨node, home⟩
    have listed : node ∈ partitions.membersOf id :=
      (consistent.listed node id).mpr ⟨home, List.not_mem_nil⟩
    unfold membersOf at listed
    rw [Table.mem_keys_iff]
    cases found : partitions.members.get? id with
    | none => simp [found] at listed
    | some members => exact ⟨members, rfl⟩

end Consistent

/-! ## Placing nodes -/

theorem of?_place (partitions : Partitions α) (id : PartitionId) (moved : List α) (node : α) :
    (partitions.place id moved).of? node =
      if node ∈ moved then some id else partitions.of? node := by
  unfold place of?
  dsimp only
  generalize partitions.home = home
  induction moved generalizing home with
  | nil => simp
  | cons first rest ih =>
    rw [List.foldl_cons, ih, Table.get?_insert]
    grind

theorem membersOf_place (partitions : Partitions α) (id other : PartitionId) (moved : List α) :
    (partitions.place id moved).membersOf other =
      if other = id then partitions.membersOf id ++ moved else partitions.membersOf other := by
  simp only [place, membersOf, Table.get?_insert]
  split <;> simp_all

theorem Consistent.place (consistent : partitions.Consistent nodes moving) {moved left : List α}
    {next : Nat} (fresh : id.index < next) (grows : partitions.next ≤ next) (some_ : moved ≠ [])
    (taken : ∀ node ∈ moved, node ∈ moving ∧ node ∈ nodes)
    (remain : ∀ node, node ∈ left ↔ node ∈ moving ∧ node ∉ moved) :
    Consistent nodes left { partitions.place id moved with next } where
  known node stays := by
    show (∃ other, (partitions.place id moved).of? node = some other) ↔ _
    rw [of?_place]
    split
    next here => simpa using (taken node here).2
    next elsewhere =>
      exact consistent.known node fun moves => stays ((remain node).mpr ⟨moves, elsewhere⟩)
  listed node other := by
    show node ∈ (partitions.place id moved).membersOf other ↔
      (partitions.place id moved).of? node = some other ∧ _
    rw [of?_place, membersOf_place, remain]
    have here := consistent.listed node other
    by_cases moves : node ∈ moved
    · have absent : node ∉ partitions.membersOf other := fun member =>
        ((consistent.listed node other).mp member).2 (taken node moves).1
      by_cases same : other = id
      · subst same; simp [moves]
      · simp [moves, same, absent, Ne.symm same]
    · by_cases same : other = id
      · subst same; simp [moves, here]
      · simp [moves, same, here]
  inhabited other member := by
    show (partitions.place id moved).membersOf other ≠ []
    rw [membersOf_place]
    split
    · simp [some_]
    next different =>
      have old : other ∈ partitions.members.keys := by
        have member : other ∈ (partitions.members.insert id _).keys := member
        rw [Table.mem_keys_iff] at member ⊢
        simpa [different] using member
      exact consistent.inhabited other old
  keys := Table.nodup_keys_insert consistent.keys _ _
  issued node other found := by
    have found : (partitions.place id moved).of? node = some other := found
    rw [of?_place] at found
    split at found
    · cases found
      exact fresh
    · exact Nat.lt_of_lt_of_le (consistent.issued node other found) grows

/-- A node that becomes known is put into a partition of its own. -/
theorem Consistent.create (consistent : partitions.Consistent nodes []) {node : α}
    (unknown : node ∉ nodes) :
    Consistent (nodes ++ [node]) [] (partitions.create [node]).1 := by
  have homeless (other : PartitionId) : partitions.of? node ≠ some other := fun home =>
    unknown ((consistent.known node List.not_mem_nil).mp ⟨other, home⟩)
  have waiting : partitions.Consistent (nodes ++ [node]) [node] := by
    refine ⟨fun other stays => ?_, fun other id => ?_, consistent.inhabited, consistent.keys,
      consistent.issued⟩
    · have different : other ≠ node := fun same => stays (List.mem_singleton.mpr same)
      simpa [different] using consistent.known other List.not_mem_nil
    · rw [consistent.listed, List.mem_singleton]
      refine and_congr_right fun home => iff_of_true List.not_mem_nil ?_
      exact fun same => homeless id (same ▸ home)
  exact waiting.place (Nat.lt_succ_self _) (Nat.le_succ _) (List.cons_ne_nil _ _)
    (by simp) (by simp)

/-! ## Retiring numbers -/

omit [DecidableEq α] in
theorem get?_foldl_erase (ids : List PartitionId) (members : Table PartitionId (List α))
    (other : PartitionId) :
    (ids.foldl Table.erase members).get? other =
      if other ∈ ids then none else members.get? other := by
  induction ids generalizing members with
  | nil => simp
  | cons first rest ih =>
    rw [List.foldl_cons, ih, Table.get?_erase]
    grind

omit [DecidableEq α] in
theorem nodup_keys_foldl_erase (ids : List PartitionId) {members : Table PartitionId (List α)}
    (nodup : members.keys.Nodup) : (ids.foldl Table.erase members).keys.Nodup := by
  induction ids generalizing members with
  | nil => exact nodup
  | cons first rest ih => exact ih (Table.nodup_keys_erase nodup first)

/-- When numbers are retired, their nodes are on the move. -/
theorem Consistent.retire (consistent : partitions.Consistent nodes []) (ids : List PartitionId) :
    Consistent nodes (ids.flatMap partitions.membersOf)
      { partitions with members := ids.foldl Table.erase partitions.members } where
  known node _ := consistent.known node List.not_mem_nil
  listed node id := by
    have homes : node ∉ ids.flatMap partitions.membersOf ↔
        ∀ retired ∈ ids, partitions.of? node ≠ some retired := by
      simp [consistent.listed]
    rw [homes]
    have listed := consistent.listed node id
    simp only [membersOf, get?_foldl_erase, List.not_mem_nil, not_false_eq_true, and_true]
      at listed ⊢
    show _ ↔ partitions.of? node = some id ∧ _
    split
    next gone =>
      refine iff_of_false List.not_mem_nil fun found => ?_
      exact found.2 id gone found.1
    next stays =>
      refine listed.trans (iff_self_and.mpr fun home retired member same => stays ?_)
      have equal : id = retired := Option.some.inj (home.symm.trans same)
      exact equal ▸ member
  inhabited id member := by
    rw [Table.mem_keys_iff] at member
    obtain ⟨members, found⟩ := member
    have found : (ids.foldl Table.erase partitions.members).get? id = some members := found
    rw [get?_foldl_erase] at found
    split at found
    · cases found
    next stays =>
      have old := consistent.inhabited id (Table.mem_keys_iff.mpr ⟨members, found⟩)
      simpa [membersOf, get?_foldl_erase, stays] using old
  keys := nodup_keys_foldl_erase ids consistent.keys
  issued node id found := consistent.issued node id found

/-! ## Merging -/

/-- The partitions of some nodes have become one: the oldest of them has survived. -/
structure Merged (before after : Partitions α) (cycle : List α) (survivor : PartitionId)
    (retired : List PartitionId) : Prop where
  some_ : retired ≠ []
  oldest : ∀ id ∈ retired, survivor.index < id.index
  involved : ∀ id, (∃ node ∈ cycle, before.of? node = some id) ↔ id = survivor ∨ id ∈ retired
  next : after.next = before.next
  home : ∀ node, after.of? node =
    (before.of? node).map fun id => if id ∈ retired then survivor else id

theorem Merged.exists_retired {survivor : PartitionId} {retired : List PartitionId}
    (merged : Merged partitions after cycle survivor retired) {node : α}
    (leaves : partitions.of? node ≠ after.of? node) :
    ∃ id ∈ retired, partitions.of? node = some id := by
  by_contra stays
  refine leaves ?_
  rw [merged.home]
  cases home : partitions.of? node with
  | none => rfl
  | some id => rw [Option.map_some, if_neg fun gone => stays ⟨id, gone, home⟩]

theorem merge?_spec (consistent : partitions.Consistent nodes []) {survivor : PartitionId}
    {retired : List PartitionId} {moved : List α}
    (merged : partitions.merge? cycle = some (after, survivor, retired, moved)) :
    after.Consistent nodes [] ∧ Merged partitions after cycle survivor retired ∧
      ∀ node, node ∈ moved ↔ ∃ id ∈ retired, partitions.of? node = some id := by
  unfold merge? at merged
  split at merged
  next listing first second rest ids =>
    cases merged
    have ascending := (OrderedSet.ofList (cycle.filterMap partitions.of?)).ascending
    rw [ids, List.pairwise_cons] at ascending
    have involved : ∀ id, (∃ node ∈ cycle, partitions.of? node = some id) ↔
        id = survivor ∨ id ∈ second :: rest := by
      intro id
      rw [← List.mem_cons, ← ids, OrderedSet.mem_toList, OrderedSet.mem_ofList, List.mem_filterMap]
    have moves (node : α) : node ∈ (second :: rest).flatMap partitions.membersOf ↔
        ∃ id ∈ second :: rest, partitions.of? node = some id := by
      simp only [List.mem_flatMap, consistent.listed, List.not_mem_nil, not_false_eq_true, and_true]
    have live (id : PartitionId) (member : id = survivor ∨ id ∈ second :: rest) :
        ∃ node, partitions.of? node = some id := by
      obtain ⟨node, _, home⟩ := (involved id).mpr member
      exact ⟨node, home⟩
    obtain ⟨oldestNode, oldestHome⟩ := live survivor (.inl rfl)
    obtain ⟨movedNode, movedHome⟩ := live second (.inr List.mem_cons_self)
    have some_ : (second :: rest).flatMap partitions.membersOf ≠ [] :=
      List.ne_nil_of_mem ((moves movedNode).mpr ⟨second, List.mem_cons_self, movedHome⟩)
    refine ⟨?_, ⟨List.cons_ne_nil _ _, fun id member => ?_, involved, rfl, fun node => ?_⟩, moves⟩
    · refine (consistent.retire (second :: rest)).place
        (consistent.issued oldestNode survivor oldestHome) (Nat.le_refl _) some_ ?_ ?_
      · intro node member
        obtain ⟨id, _, home⟩ := (moves node).mp member
        exact ⟨member, (consistent.known node List.not_mem_nil).mp ⟨id, home⟩⟩
      · exact fun node => iff_of_false List.not_mem_nil fun found => found.2 found.1
    · exact PartitionId.compare_lt_iff.mp (ascending.1 id member)
    · rw [of?_place]
      simp only [moves]
      show (if _ then _ else partitions.of? node) = _
      cases home : partitions.of? node with
      | none => simp
      | some id =>
        simp only [Option.some.injEq, exists_eq_right', Option.map_some]
        split <;> rfl
  · cases merged

theorem eq_of_merge?_eq_none (unmerged : partitions.merge? cycle = none) {first second : α}
    {one other : PartitionId} (firstMember : first ∈ cycle) (secondMember : second ∈ cycle)
    (firstHome : partitions.of? first = some one) (secondHome : partitions.of? second = some other) :
    one = other := by
  have listed {node : α} {id : PartitionId} (member : node ∈ cycle)
      (home : partitions.of? node = some id) :
      id ∈ (OrderedSet.ofList (cycle.filterMap partitions.of?)).toList := by
    rw [OrderedSet.mem_toList, OrderedSet.mem_ofList, List.mem_filterMap]
    exact ⟨node, member, home⟩
  have oneListed := listed firstMember firstHome
  have otherListed := listed secondMember secondHome
  unfold merge? at unmerged
  split at unmerged
  · cases unmerged
  next few =>
    match ids : (OrderedSet.ofList (cycle.filterMap partitions.of?)).toList with
    | [] => simp [ids] at oneListed
    | [only] =>
      rw [ids, List.mem_singleton] at oneListed otherListed
      exact oneListed.trans otherListed.symm
    | survivor :: second :: rest => exact (few survivor second rest ids).elim

/-! ## Splitting -/

/-- Every group of nodes has moved into a new partition of its own, in the given order. -/
structure Divided (before after : Partitions α) (groups : List (List α))
    (parts : List PartitionId) : Prop where
  next : before.next ≤ after.next
  fresh : ∀ part ∈ parts, before.next ≤ part.index ∧ part.index < after.next
  others : ∀ node, node ∉ groups.flatten → after.of? node = before.of? node
  groups : List.Forall₂ (fun group part => ∀ node, node ∈ group ↔ after.of? node = some part)
    groups parts

/-- Every node of the groups is in one of the new partitions. -/
theorem Divided.exists_part {groups : List (List α)} {parts : List PartitionId}
    (divided : Divided partitions after groups parts) {node : α} (inside : node ∈ groups.flatten) :
    ∃ part ∈ parts, after.of? node = some part := by
  obtain ⟨group, member, here⟩ := List.mem_flatten.mp inside
  have filled := divided.groups
  clear divided inside
  induction filled with
  | nil => cases member
  | @cons head part _ _ first _ ih =>
    rcases List.mem_cons.mp member with rfl | later
    · exact ⟨part, List.mem_cons_self, (first node).mp here⟩
    · obtain ⟨other, otherMember, home⟩ := ih later
      exact ⟨other, List.mem_cons_of_mem _ otherMember, home⟩

/-- A node only enters a partition whose number was not in use before. -/
theorem Divided.unused_of_entered {groups : List (List α)} {parts : List PartitionId}
    (divided : Divided partitions after groups parts) (consistent : partitions.Consistent nodes moving)
    {node : α} (home : after.of? node = some id) (entered : partitions.of? node ≠ some id)
    (other : α) : partitions.of? other ≠ some id := by
  intro used
  have moved : node ∈ groups.flatten := by
    by_contra outside
    exact entered ((divided.others node outside).symm.trans home)
  obtain ⟨part, member, here⟩ := divided.exists_part moved
  obtain rfl := Option.some.inj (here.symm.trans home)
  exact Nat.not_lt.mpr (divided.fresh _ member).1 (consistent.issued other _ used)

/-- Two nodes of the groups are in the same new partition if they come from the same group. -/
theorem Divided.same_iff {groups : List (List α)} {parts : List PartitionId}
    (divided : Divided partitions after groups parts) {group : List α} (member : group ∈ groups)
    {first second : α} (inside : first ∈ group) :
    after.of? second = after.of? first ↔ second ∈ group := by
  have filled := divided.groups
  clear divided
  induction filled with
  | nil => cases member
  | @cons head part _ _ here _ ih =>
    rcases List.mem_cons.mp member with rfl | later
    · rw [(here first).mp inside, here second]
    · exact ih later

/-- Puts every group into a new partition. -/
def divide (partitions : Partitions α) : List (List α) → Partitions α × List PartitionId
  | [] => (partitions, [])
  | group :: rest =>
    let (created, part) := partitions.create group
    let (final, parts) := created.divide rest
    (final, part :: parts)

theorem split_eq_divide (partitions : Partitions α) (id : PartitionId) (groups : List (List α)) :
    partitions.split id groups =
      divide { partitions with members := partitions.members.erase id } groups := by
  have folded (start : Partitions α) (ids : List PartitionId) :
      groups.foldl (fun (partitions, ids) nodes =>
        let (partitions, id) := partitions.create nodes
        (partitions, ids ++ [id])) (start, ids) =
      ((start.divide groups).1, ids ++ (start.divide groups).2) := by
    induction groups generalizing start ids with
    | nil => simp [divide]
    | cons group rest ih => simp only [List.foldl_cons, ih, divide, List.append_assoc]; rfl
  exact folded _ []

theorem of?_divide_of_notMem {groups : List (List α)} {node : α} (outside : node ∉ groups.flatten)
    (partitions : Partitions α) : (partitions.divide groups).1.of? node = partitions.of? node := by
  induction groups generalizing partitions with
  | nil => rfl
  | cons group rest ih =>
    rw [List.flatten_cons, List.mem_append, not_or] at outside
    exact (ih outside.2 _).trans ((of?_place ..).trans (if_neg outside.1))

theorem of?_split_of_notMem {groups : List (List α)} {node : α} (outside : node ∉ groups.flatten)
    (partitions : Partitions α) (id : PartitionId) :
    (partitions.split id groups).1.of? node = partitions.of? node := by
  rw [split_eq_divide]
  exact of?_divide_of_notMem outside _

theorem divide_spec {groups : List (List α)} (consistent : partitions.Consistent nodes moving)
    (some_ : ∀ group ∈ groups, group ≠ []) (once : groups.flatten.Nodup)
    (moves : ∀ node, node ∈ moving ↔ node ∈ groups.flatten)
    (known : ∀ node ∈ moving, node ∈ nodes) :
    (partitions.divide groups).1.Consistent nodes [] ∧
      Divided partitions (partitions.divide groups).1 groups (partitions.divide groups).2 := by
  induction groups generalizing partitions moving with
  | nil =>
    have settled : moving = [] := List.eq_nil_iff_forall_not_mem.mpr fun node member => by
      simpa using (moves node).mp member
    exact ⟨settled ▸ consistent, Nat.le_refl _, by simp [divide], fun _ _ => rfl, .nil⟩
  | cons group rest ih =>
    rw [List.flatten_cons, List.nodup_append] at once
    obtain ⟨_, restOnce, apart⟩ := once
    have separate (node : α) (member : node ∈ group) : node ∉ rest.flatten :=
      fun later => apart node member node later rfl
    have placed : Consistent nodes rest.flatten (partitions.create group).1 := by
      refine consistent.place (Nat.lt_succ_self _) (Nat.le_succ _)
        (some_ group List.mem_cons_self) (fun node member => ?_) (fun node => ?_)
      · have moving := (moves node).mpr (List.mem_append_left _ member)
        exact ⟨moving, known node moving⟩
      · rw [moves, List.flatten_cons, List.mem_append]
        grind
    have ⟨settled, divided⟩ := ih placed
      (fun other member => some_ other (List.mem_cons_of_mem _ member)) restOnce (fun _ => Iff.rfl)
      (fun node member => known node ((moves node).mpr (List.mem_append_right _ member)))
    have home (node : α) : (partitions.create group).1.of? node =
        if node ∈ group then some ⟨partitions.next⟩ else partitions.of? node := of?_place ..
    have next : (partitions.create group).1.next = partitions.next + 1 := rfl
    have nextLater := divided.next
    refine ⟨settled, ?_, ?_, ?_, .cons ?_ divided.groups⟩
    · show partitions.next ≤ ((partitions.create group).1.divide rest).1.next
      omega
    · intro part member
      show _ ∧ part.index < ((partitions.create group).1.divide rest).1.next
      rcases List.mem_cons.mp member with rfl | later
      · exact ⟨Nat.le_refl _, nextLater⟩
      · have := divided.fresh part later
        omega
    · exact fun node outside => of?_divide_of_notMem outside partitions
    · intro node
      constructor
      · intro member
        exact (divided.others node (separate node member)).trans ((home node).trans (if_pos member))
      · intro arrived
        by_contra outside
        have old : partitions.of? node = some ⟨partitions.next⟩ := by
          by_cases later : node ∈ rest.flatten
          · -- the later groups get later numbers
            obtain ⟨part, member, here⟩ := divided.exists_part later
            obtain rfl : part = ⟨partitions.next⟩ := Option.some.inj (here.symm.trans arrived)
            exact absurd (divided.fresh _ member).1 (Nat.not_succ_le_self _)
          · have unmoved := (divided.others node later).symm.trans arrived
            rwa [home, if_neg outside] at unmoved
        exact Nat.lt_irrefl _ (consistent.issued node _ old)

theorem split_spec (consistent : partitions.Consistent nodes []) {groups : List (List α)}
    (some_ : ∀ group ∈ groups, group ≠ []) (once : groups.flatten.Nodup)
    (all : ∀ node, node ∈ groups.flatten ↔ partitions.of? node = some id) :
    (partitions.split id groups).1.Consistent nodes [] ∧
      Divided partitions (partitions.split id groups).1 groups (partitions.split id groups).2 := by
  have moves (node : α) : node ∈ [id].flatMap partitions.membersOf ↔ node ∈ groups.flatten := by
    simp [all, consistent.listed]
  have ⟨settled, divided⟩ := divide_spec (consistent.retire [id]) some_ once moves
    fun node member => by
      rw [moves, all] at member
      exact (consistent.known node List.not_mem_nil).mp ⟨id, member⟩
  rw [split_eq_divide]
  exact ⟨settled, divided.next, divided.fresh, divided.others, divided.groups⟩

end Partitions
end LiveQuery
