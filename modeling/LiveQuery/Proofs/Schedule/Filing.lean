import Mathlib.Data.List.Nodup
import LiveQuery.Draw.ChaCha
import LiveQuery.Proofs.Schedule.Buckets

/-!
# What the conflict set keeps

A conflict set is a table and a list of buckets that say the same in two ways, and every use changes
both.  `Represented` tells what readers of either may rely on: an activation of the table is once in
the bucket of its priority and in no other, all members of a bucket are in the table under its
priority, and no bucket is empty.  All uses keep this (`represented_after`).

A choice is made without looking at the table.  It finds an activation just if one is filed, a draw
has a range to draw from (`Coherent.next?_eq`), and what is chosen has the least priority.
-/

namespace LiveQuery

theorem Table.isEmpty_iff {κ ν : Type} [DecidableEq κ] {table : Table κ ν} :
    table.isEmpty = true ↔ ∀ key, table.get? key = none := by
  constructor
  · intro empty key
    rw [get?, List.isEmpty_iff.mp empty]
    rfl
  · intro unknown
    refine List.isEmpty_iff.mpr (List.eq_nil_iff_forall_not_mem.mpr fun entry member => ?_)
    obtain ⟨value, found⟩ := mem_keys_iff.mp (List.mem_map_of_mem member : entry.1 ∈ table.keys)
    cases found.symm.trans (unknown entry.1)

namespace ConflictSet

variable {set : ConflictSet}

/-! ## Representation -/

/-- The table and the buckets hold the same activations under the same priorities. -/
structure Represented (set : ConflictSet) : Prop where
  /-- Every priority has one bucket at most. -/
  ascending : set.buckets.Pairwise fun first second => first.priority < second.priority
  filled : ∀ bucket ∈ set.buckets, bucket.members ≠ []
  /-- What is filed is once in the bucket of its priority, and in no other. -/
  housed : ∀ id priority, set.priorityOf? id = some priority →
    ∃ bucket ∈ set.buckets, bucket.priority = priority ∧ bucket.members.count id = 1 ∧
      ∀ other ∈ set.buckets, other ≠ bucket → id ∉ other.members
  /-- What is in a bucket is filed under its priority. -/
  listed : ∀ bucket ∈ set.buckets, ∀ id ∈ bucket.members,
    set.priorityOf? id = some bucket.priority

theorem exists_bucket {id : ActivationId} {priority : Int32} (member : id ∈ set.bucket priority) :
    ∃ bucket ∈ set.buckets, bucket.priority = priority := by
  by_contra unused
  have none_ : set.bucket priority = [] :=
    bucketOf_eq_nil fun bucket listed same => unused ⟨bucket, listed, same⟩
  rw [none_] at member
  cases member

theorem Coherent.members_eq (coherent : set.Coherent) {bucket : Bucket}
    (listed : bucket ∈ set.buckets) : set.bucket bucket.priority = bucket.members :=
  coherent.tidy.bucketOf_eq listed

theorem Coherent.listed (coherent : set.Coherent) {bucket : Bucket} (member : bucket ∈ set.buckets)
    {id : ActivationId} (inside : id ∈ bucket.members) :
    set.priorityOf? id = some bucket.priority :=
  (coherent.filed id bucket.priority).mp (coherent.members_eq member ▸ inside)

theorem Coherent.represented (coherent : set.Coherent) : set.Represented where
  ascending := coherent.tidy.ascending
  filled := coherent.tidy.filled
  listed bucket member id := coherent.listed member
  housed id priority filed := by
    have inside := (coherent.filed id priority).mpr filed
    obtain ⟨bucket, member, rfl⟩ := exists_bucket inside
    have once := coherent.once bucket.priority
    rw [coherent.members_eq member] at inside once
    refine ⟨bucket, member, rfl, List.count_eq_one_of_mem once inside, ?_⟩
    intro other otherMember different there
    -- two buckets with the activation have its priority, hence the same members
    have same : bucket.priority = other.priority :=
      Option.some.inj (filed.symm.trans (coherent.listed otherMember there))
    have members : bucket.members = other.members := by
      rw [← coherent.members_eq member, ← coherent.members_eq otherMember, same]
    obtain ⟨_, _⟩ := bucket
    obtain ⟨_, _⟩ := other
    cases same
    cases members
    exact different rfl

/-! ## Choosing -/

/-- The choice that `next` makes, where a draw from an empty range stops the program. -/
def next? (set : ConflictSet) : Option (ConflictSet × Option ActivationId) :=
  match set.buckets with
  | [] => some (set, none)
  | ⟨_, members⟩ :: _ =>
    match set.order, set.draws with
    | .lifo, _ => some (set, members.getLast?)
    | .random _, some draws =>
      if members.length = 0 then none
      else
        let (place, draws) := draws.below members.length
        some ({ set with draws := some draws }, members[place]?)
    | _, _ => some (set, members.head?)

/-- No draw is made from an empty range. -/
theorem Coherent.next?_eq (coherent : set.Coherent) : set.next? = some set.next := by
  unfold next? ConflictSet.next
  cases shape : set.buckets with
  | nil => rfl
  | cons first rest =>
    have filled : first.members.length ≠ 0 := fun empty =>
      coherent.tidy.filled first (shape ▸ List.mem_cons_self) (List.length_eq_zero_iff.mp empty)
    cases set.order with
    | fifo | lifo => rfl
    | random seed =>
      cases set.draws with
      | none => rfl
      | some draws => exact if_neg filled

theorem Coherent.next_eq_none_iff (coherent : set.Coherent) :
    set.next.2 = none ↔ set.isEmpty = true := by
  refine Iff.trans ?_ (@Table.isEmpty_iff _ _ _ set.filed).symm
  rcases coherent.next_cases with ⟨nothing, unfiled⟩ | ⟨priority, filled, _, chosen⟩
  · exact iff_of_true nothing unfiled
  · obtain ⟨id, member, picked⟩ := exists_pick set.order set.draws filled
    refine iff_of_false (by rw [chosen, picked]; exact nofun) fun unfiled => ?_
    cases (unfiled id).symm.trans ((coherent.filed id priority).mp member)

/-- What is chosen is filed under the least of the priorities in use. -/
theorem Coherent.least_of_next (coherent : set.Coherent) {id : ActivationId}
    (chosen : set.next.2 = some id) : ∃ priority ∈ set.priorities,
      set.priorityOf? id = some priority ∧ ∀ other ∈ set.priorities, priority ≤ other := by
  rcases coherent.next_cases with ⟨nothing, _⟩ | ⟨priority, filled, least, picks⟩
  · cases nothing.symm.trans chosen
  · obtain ⟨picked, member, same⟩ := exists_pick set.order set.draws filled
    obtain rfl : picked = id := Option.some.inj (same.symm.trans (picks.symm.trans chosen))
    obtain ⟨bucket, listed, rfl⟩ := exists_bucket member
    refine ⟨_, List.mem_map_of_mem listed, (coherent.filed picked _).mp member, ?_⟩
    intro other inUse
    obtain ⟨used, usedListed, rfl⟩ := List.mem_map.mp inUse
    -- no bucket is empty, so every priority in use is that of an activation
    obtain ⟨first, inside⟩ := List.exists_mem_of_ne_nil _ (coherent.tidy.filled used usedListed)
    exact least first used.priority (coherent.listed usedListed inside)

/-! ## Histories -/

/-- What can be done with a conflict set. -/
inductive Use where
  | insert (id : ActivationId) (priority : Int32)
  | remove (id : ActivationId)
  | next
  | clear

/-- The set after one use. -/
def perform (set : ConflictSet) : Use → ConflictSet
  | .insert id priority => set.insert id priority
  | .remove id => set.remove id
  | .next => set.next.1
  | .clear => set.clear

/-- The set after any number of uses of a new one. -/
def after [Draw.Generator] (order : BucketOrder) (uses : List Use) : ConflictSet :=
  uses.foldl perform (new order)

theorem Coherent.perform (coherent : set.Coherent) (use : Use) : (set.perform use).Coherent := by
  cases use with
  | insert id priority => exact coherent.insert id priority
  | remove id => exact coherent.remove id
  | next => exact coherent.next
  | clear =>
    have emptied := coherent_new set.order
    exact ⟨emptied.tidy, emptied.filed, emptied.once, emptied.keys⟩

theorem coherent_after [Draw.Generator] (order : BucketOrder) (uses : List Use) :
    (after order uses).Coherent := by
  have all (uses : List Use) (set : ConflictSet) (coherent : set.Coherent) :
      (uses.foldl ConflictSet.perform set).Coherent := by
    induction uses generalizing set with
    | nil => exact coherent
    | cons use rest ih => exact ih _ (coherent.perform use)
  exact all uses (new order) (coherent_new order)

/-- After any number of uses, in every order of the buckets, the table and the buckets hold the same
activations.  Nothing is chosen just if the set is empty, no choice draws from an empty range, and
an activation that is chosen has the least priority in use. -/
theorem represented_after [Draw.Generator] (order : BucketOrder) (uses : List Use) :
    (after order uses).Represented ∧
    ((after order uses).next.2 = none ↔ (after order uses).isEmpty = true) ∧
    (after order uses).next? = some (after order uses).next ∧
    ∀ id, (after order uses).next.2 = some id → ∃ priority ∈ (after order uses).priorities,
      (after order uses).priorityOf? id = some priority ∧
        ∀ other ∈ (after order uses).priorities, priority ≤ other := by
  have coherent := coherent_after order uses
  exact ⟨coherent.represented, coherent.next_eq_none_iff, coherent.next?_eq,
    fun _ => coherent.least_of_next⟩

/-- Two activations of one priority, of which the second is moved to a bucket of its own. -/
def moved : List Use := [.insert ⟨1⟩ 5, .insert ⟨2⟩ 5, .next, .insert ⟨2⟩ (-5), .remove ⟨3⟩]

/-- The activation that was moved has left its old bucket and is chosen next. -/
theorem represented_after_moved :
    (after .lifo moved).buckets = [⟨-5, [⟨2⟩]⟩, ⟨5, [⟨1⟩]⟩] ∧
    (∃ bucket ∈ (after .lifo moved).buckets, bucket.priority = -5 ∧
      bucket.members.count ⟨2⟩ = 1 ∧
        ∀ other ∈ (after .lifo moved).buckets, other ≠ bucket → ⟨2⟩ ∉ other.members) ∧
    ∃ priority ∈ (after .lifo moved).priorities,
      (after .lifo moved).priorityOf? ⟨2⟩ = some priority ∧
        ∀ other ∈ (after .lifo moved).priorities, priority ≤ other := by
  obtain ⟨represented, _, _, least⟩ := represented_after .lifo moved
  exact ⟨by decide, represented.housed ⟨2⟩ (-5) (by decide), least ⟨2⟩ (by decide)⟩

end ConflictSet
end LiveQuery
