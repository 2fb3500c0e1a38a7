import Mathlib.Data.List.Basic
import LiveQuery.Schedule.ConflictSet

/-!
# The representation of the conflict set

The filing table and the buckets say the same: `ConflictSet.Coherent` holds if an activation is in
exactly the bucket of the priority under which it is filed, once, the priorities of the buckets
ascend, and no bucket is empty (`Tidy`).

A bucket is found by its priority, and it is the only one of that priority (`Tidy.bucketOf_eq`).
Filing and taking out only touch the bucket of one priority (`Tidy.bucketOf_fileUnder`,
`Tidy.bucketOf_takeFrom`), so they keep the representation.  For the order inside a bucket this
means: taking an activation out leaves the others in their order (`Coherent.bucket_remove`), one
that is filed anew comes last (`Coherent.bucket_insert`), and one that is filed again under its
priority keeps its place (`insert_eq_self`).

As the priorities ascend, the first bucket is that of the least priority in use, from which the
choice is made (`Coherent.next_cases`); what the order of the buckets then picks depends on that
bucket and the draw only (`Coherent.next_eq_pick`).
-/

namespace LiveQuery.ConflictSet

/-! ## Lists of buckets -/

/-- The activations in the bucket of a priority. -/
def bucketOf (priority : Int32) (buckets : List Bucket) : List ActivationId :=
  ((buckets.find? (·.priority = priority)).map Bucket.members).getD []

/-- The priorities ascend and no bucket is empty. -/
structure Tidy (buckets : List Bucket) : Prop where
  ascending : buckets.Pairwise fun first second => first.priority < second.priority
  filled : ∀ bucket ∈ buckets, bucket.members ≠ []

variable {priority other : Int32} {id : ActivationId} {first : Bucket} {buckets rest : List Bucket}

theorem bucketOf_cons : bucketOf priority (first :: rest) =
    if first.priority = priority then first.members else bucketOf priority rest := by
  unfold bucketOf
  rw [List.find?_cons]
  by_cases same : first.priority = priority <;> simp [same]

theorem bucketOf_eq_nil (unused : ∀ bucket ∈ buckets, bucket.priority ≠ priority) :
    bucketOf priority buckets = [] := by
  unfold bucketOf
  rw [List.find?_eq_none.mpr (by simpa using unused)]
  rfl

theorem bucketOf_eq_nil_of_lt (later : ∀ bucket ∈ buckets, priority < bucket.priority) :
    bucketOf priority buckets = [] :=
  bucketOf_eq_nil fun bucket member same => Int32.lt_irrefl (same ▸ later bucket member)

theorem Tidy.tail (tidy : Tidy (first :: rest)) : Tidy rest :=
  ⟨(List.pairwise_cons.mp tidy.ascending).2,
    fun bucket member => tidy.filled bucket (List.mem_cons_of_mem _ member)⟩

theorem Tidy.cons (tidy : Tidy rest) (filled : first.members ≠ [])
    (least : ∀ bucket ∈ rest, first.priority < bucket.priority) : Tidy (first :: rest) :=
  ⟨List.pairwise_cons.mpr ⟨least, tidy.ascending⟩, List.forall_mem_cons.mpr ⟨filled, tidy.filled⟩⟩

/-- The members of the listed buckets are found under their priorities. -/
theorem Tidy.bucketOf_eq (tidy : Tidy buckets) {bucket : Bucket} (member : bucket ∈ buckets) :
    bucketOf bucket.priority buckets = bucket.members := by
  induction buckets with
  | nil => cases member
  | cons first rest ih =>
    rw [bucketOf_cons]
    rcases List.mem_cons.mp member with rfl | later
    · exact if_pos rfl
    · have less := (List.pairwise_cons.mp tidy.ascending).1 bucket later
      rw [if_neg fun same => Int32.lt_irrefl (same ▸ less)]
      exact ih tidy.tail later

/-! ### Filing -/

theorem priority_of_mem_fileUnder {bucket : Bucket}
    (member : bucket ∈ fileUnder priority id buckets) :
    bucket.priority = priority ∨ ∃ old ∈ buckets, old.priority = bucket.priority := by
  induction buckets with
  | nil => exact .inl (List.mem_singleton.mp member ▸ rfl)
  | cons first rest ih =>
    unfold fileUnder at member
    grind

theorem Tidy.fileUnder (tidy : Tidy buckets) (priority : Int32) (id : ActivationId) :
    Tidy (ConflictSet.fileUnder priority id buckets) := by
  induction buckets with
  | nil => exact ⟨List.pairwise_singleton _ _, by simp [ConflictSet.fileUnder]⟩
  | cons first rest ih =>
    have least := (List.pairwise_cons.mp tidy.ascending).1
    unfold ConflictSet.fileUnder
    split
    next before =>
      refine tidy.cons (List.cons_ne_nil _ _) (List.forall_mem_cons.mpr ⟨before, ?_⟩)
      exact fun bucket member => Int32.lt_trans before (least bucket member)
    next notBefore =>
      split
      next here => exact tidy.tail.cons (by simp) least
      next different =>
        refine (ih tidy.tail).cons (tidy.filled _ List.mem_cons_self) fun bucket member => ?_
        rcases priority_of_mem_fileUnder member with same | ⟨old, oldMember, same⟩
        · rw [same]
          exact Int32.lt_of_le_of_ne (Int32.not_lt.mp notBefore) (Ne.symm different)
        · exact same ▸ least old oldMember

theorem Tidy.bucketOf_fileUnder (tidy : Tidy buckets) (priority other : Int32) (id : ActivationId) :
    bucketOf other (ConflictSet.fileUnder priority id buckets) =
      if other = priority then bucketOf priority buckets ++ [id] else bucketOf other buckets := by
  induction buckets with
  | nil =>
    rw [ConflictSet.fileUnder, bucketOf_cons]
    simp only [eq_comm (a := other), bucketOf_eq_nil, List.not_mem_nil, false_implies, implies_true,
      List.nil_append]
  | cons first rest ih =>
    have least := (List.pairwise_cons.mp tidy.ascending).1
    unfold ConflictSet.fileUnder
    split
    next before =>
      have unused : bucketOf priority (first :: rest) = [] :=
        bucketOf_eq_nil_of_lt (List.forall_mem_cons.mpr
          ⟨before, fun bucket member => Int32.lt_trans before (least bucket member)⟩)
      rw [bucketOf_cons, unused]
      simp only [eq_comm (a := other), List.nil_append]
    next =>
      split
      next here =>
        simp only [bucketOf_cons, ← here]
        grind
      next different =>
        simp only [bucketOf_cons, ih tidy.tail]
        grind

/-! ### Taking out -/

theorem priority_of_mem_takeFrom {bucket : Bucket}
    (member : bucket ∈ takeFrom priority id buckets) :
    ∃ old ∈ buckets, old.priority = bucket.priority := by
  induction buckets with
  | nil => cases member
  | cons first rest ih =>
    unfold takeFrom at member
    grind

theorem Tidy.takeFrom (tidy : Tidy buckets) (priority : Int32) (id : ActivationId) :
    Tidy (ConflictSet.takeFrom priority id buckets) := by
  induction buckets with
  | nil => exact tidy
  | cons first rest ih =>
    have least := (List.pairwise_cons.mp tidy.ascending).1
    unfold ConflictSet.takeFrom
    split
    next here =>
      split
      · exact tidy.tail
      next head others left => exact tidy.tail.cons (List.cons_ne_nil _ _) (here ▸ least)
    next different =>
      refine (ih tidy.tail).cons (tidy.filled _ List.mem_cons_self) fun bucket member => ?_
      obtain ⟨old, oldMember, same⟩ := priority_of_mem_takeFrom member
      exact same ▸ least old oldMember

/-- Taking an activation out leaves the order of the others. -/
theorem Tidy.bucketOf_takeFrom (tidy : Tidy buckets) (priority other : Int32) (id : ActivationId) :
    bucketOf other (ConflictSet.takeFrom priority id buckets) =
      if other = priority then (bucketOf priority buckets).filter (· ≠ id)
      else bucketOf other buckets := by
  induction buckets with
  | nil => simp [ConflictSet.takeFrom, bucketOf]
  | cons first rest ih =>
    have least := (List.pairwise_cons.mp tidy.ascending).1
    unfold ConflictSet.takeFrom
    split
    next here =>
      have closed : bucketOf priority rest = [] := bucketOf_eq_nil_of_lt (here ▸ least)
      split
      next empty =>
        rw [bucketOf_cons, bucketOf_cons]
        grind
      next head others left =>
        simp only [bucketOf_cons]
        grind
    next different =>
      simp only [bucketOf_cons, ih tidy.tail]
      grind

/-! ## The conflict set -/

/-- The filing table and the buckets say the same. -/
structure Coherent (set : ConflictSet) : Prop where
  tidy : Tidy set.buckets
  filed : ∀ id priority, id ∈ set.bucket priority ↔ set.priorityOf? id = some priority
  once : ∀ priority, (set.bucket priority).Nodup
  keys : set.filed.keys.Nodup

variable {set : ConflictSet}

theorem coherent_new [Draw.Generator] (order : BucketOrder) : (new order).Coherent where
  tidy := ⟨.nil, fun _ member => by cases member⟩
  filed _ _ := by simp [new, bucket, priorityOf?]
  once _ := .nil
  keys := .nil

theorem Coherent.bucket_remove (coherent : set.Coherent) (id : ActivationId) (priority : Int32) :
    (set.remove id).bucket priority = (set.bucket priority).filter (· ≠ id) := by
  have untouched (unfiled : set.priorityOf? id ≠ some priority) :
      (set.bucket priority).filter (· ≠ id) = set.bucket priority := by
    refine List.filter_eq_self.mpr fun other member => decide_eq_true ?_
    rintro rfl
    exact unfiled ((coherent.filed other priority).mp member)
  cases found : set.filed.get? id with
  | none =>
    rw [untouched (by rw [priorityOf?, found]; exact nofun), ConflictSet.remove, found]
  | some filedUnder =>
    have removed : (set.remove id).bucket priority =
        bucketOf priority (takeFrom filedUnder id set.buckets) := by
      rw [ConflictSet.remove, found]
      rfl
    rw [removed, coherent.tidy.bucketOf_takeFrom filedUnder priority id]
    split
    next same => exact same ▸ rfl
    next different =>
      refine (untouched ?_).symm
      rw [priorityOf?, found]
      exact fun same => different (Option.some.inj same).symm

theorem Coherent.remove (coherent : set.Coherent) (id : ActivationId) :
    (set.remove id).Coherent where
  tidy := by
    unfold ConflictSet.remove
    split
    · exact coherent.tidy
    · exact coherent.tidy.takeFrom _ id
  filed other priority := by
    rw [coherent.bucket_remove, priorityOf?_remove, List.mem_filter, coherent.filed]
    by_cases self : other = id <;> simp [self]
  once priority := coherent.bucket_remove id priority ▸ (coherent.once priority).filter _
  keys := by
    unfold ConflictSet.remove
    split
    · exact coherent.keys
    · exact Table.nodup_keys_erase coherent.keys id

theorem remove_eq_self {id : ActivationId} (unfiled : set.priorityOf? id = none) :
    set.remove id = set := by
  have absent : set.filed.get? id = none := unfiled
  rw [ConflictSet.remove, absent]

/-- An activation that stays under its priority keeps its place. -/
theorem insert_eq_self {id : ActivationId} {priority : Int32}
    (stays : set.priorityOf? id = some priority) : set.insert id priority = set :=
  if_pos stays

theorem insert_eq_of_moved {id : ActivationId} {priority : Int32}
    (moved : set.priorityOf? id ≠ some priority) :
    set.insert id priority = { set.remove id with
      buckets := fileUnder priority id (set.remove id).buckets
      filed := (set.remove id).filed.insert id priority } :=
  if_neg moved

/-- An activation that is filed anew comes last in its bucket; the others keep their order. -/
theorem Coherent.bucket_insert (coherent : set.Coherent) {id : ActivationId} {priority : Int32}
    (moved : set.priorityOf? id ≠ some priority) (other : Int32) :
    (set.insert id priority).bucket other =
      (set.bucket other).filter (· ≠ id) ++ if other = priority then [id] else [] := by
  have inserted : (set.insert id priority).bucket other =
      bucketOf other (fileUnder priority id (set.remove id).buckets) := by
    rw [insert_eq_of_moved moved]
    rfl
  rw [inserted, (coherent.remove id).tidy.bucketOf_fileUnder priority other id,
    ← coherent.bucket_remove id other]
  split
  next same => exact same ▸ rfl
  next => exact (List.append_nil _).symm

theorem Coherent.insert (coherent : set.Coherent) (id : ActivationId) (priority : Int32) :
    (set.insert id priority).Coherent := by
  by_cases stays : set.priorityOf? id = some priority
  · exact (insert_eq_self stays).symm ▸ coherent
  have without := coherent.remove id
  refine ⟨?_, fun other otherPriority => ?_, fun other => ?_, ?_⟩
  · rw [insert_eq_of_moved stays]
    exact without.tidy.fileUnder priority id
  · rw [coherent.bucket_insert stays, priorityOf?_insert]
    have filed := coherent.filed other otherPriority
    by_cases self : other = id
    · subst self
      by_cases same : otherPriority = priority
      · simp [same]
      · simp [same, Ne.symm same]
    · rw [List.mem_append, List.mem_filter, if_neg self, filed]
      split <;> simp [self]
  · rw [coherent.bucket_insert stays]
    refine List.nodup_append.mpr ⟨(coherent.once other).filter _, by split <;> simp, ?_⟩
    intro one member last single
    have single : last = id := by
      split at single
      · exact List.mem_singleton.mp single
      · cases single
    simpa [single] using (List.mem_filter.mp member).2
  · rw [insert_eq_of_moved stays]
    exact Table.nodup_keys_insert without.keys id priority

theorem Coherent.next (coherent : set.Coherent) : set.next.1.Coherent := by
  unfold ConflictSet.next
  split
  · exact coherent
  · split
    · exact coherent
    · exact ⟨coherent.tidy, coherent.filed, coherent.once, coherent.keys⟩
    · exact coherent

/-- What an order picks from the members of a bucket. -/
def pick (order : BucketOrder) (draws : Option Draw.Source) (members : List ActivationId) :
    Option ActivationId :=
  match order, draws with
  | .lifo, _ => members.getLast?
  | .random _, some draws => members[(draws.below members.length).1]?
  | _, _ => members.head?

theorem exists_pick (order : BucketOrder) (draws : Option Draw.Source)
    {members : List ActivationId} (filled : members ≠ []) :
    ∃ id ∈ members, pick order draws members = some id := by
  unfold pick
  split
  · exact ⟨_, List.getLast_mem filled, List.getLast?_eq_some_getLast filled⟩
  next draws =>
    have place := draws.below_lt (List.length_pos_iff.mpr filled)
    exact ⟨_, List.getElem_mem place, List.getElem?_eq_getElem place⟩
  · exact ⟨_, List.head_mem filled, List.head?_eq_some_head filled⟩

theorem next_of_first (shape : set.buckets = first :: rest) :
    set.next.2 = pick set.order set.draws first.members := by
  obtain ⟨lowest, members⟩ := first
  unfold ConflictSet.next pick
  rw [shape]
  dsimp only
  split <;> simp_all

/-- Nothing is chosen if nothing is filed.  Otherwise the choice is made from the members of the
least priority under which an activation is filed. -/
theorem Coherent.next_cases (coherent : set.Coherent) :
    (set.next.2 = none ∧ ∀ id, set.priorityOf? id = none) ∨
    ∃ priority, set.bucket priority ≠ [] ∧
      (∀ id other, set.priorityOf? id = some other → priority ≤ other) ∧
      set.next.2 = pick set.order set.draws (set.bucket priority) := by
  -- an activation that is filed is in one of the buckets
  have listed (id : ActivationId) (priority : Int32) (filed : set.priorityOf? id = some priority) :
      ∃ bucket ∈ set.buckets, bucket.priority = priority := by
    have member := (coherent.filed id priority).mpr filed
    by_contra unused
    rw [show set.bucket priority = [] from
      bucketOf_eq_nil fun bucket member same => unused ⟨bucket, member, same⟩] at member
    cases member
  cases shape : set.buckets with
  | nil =>
    refine .inl ⟨by rw [ConflictSet.next, shape], fun id => ?_⟩
    rw [Option.eq_none_iff_forall_ne_some]
    intro priority filed
    obtain ⟨bucket, member, _⟩ := listed id priority filed
    rw [shape] at member
    cases member
  | cons first rest =>
    have firstMember : first ∈ set.buckets := shape ▸ List.mem_cons_self
    have same : set.bucket first.priority = first.members := coherent.tidy.bucketOf_eq firstMember
    refine .inr ⟨first.priority, ?_, fun id priority filed => ?_, ?_⟩
    · exact same ▸ coherent.tidy.filled first firstMember
    · obtain ⟨bucket, member, rfl⟩ := listed id priority filed
      rcases List.mem_cons.mp (shape ▸ member) with rfl | later
      · exact Int32.le_refl _
      · have ascending := shape ▸ coherent.tidy.ascending
        exact Int32.le_of_lt ((List.pairwise_cons.mp ascending).1 bucket later)
    · rw [same]
      exact next_of_first shape

/-- The priority from which the choice is made is determined by what is filed. -/
theorem Coherent.next_eq_pick (coherent : set.Coherent) (filled : set.bucket priority ≠ [])
    (least : ∀ id other, set.priorityOf? id = some other → priority ≤ other) :
    set.next.2 = pick set.order set.draws (set.bucket priority) := by
  have used {priority : Int32} (filled : set.bucket priority ≠ []) :
      ∃ id, set.priorityOf? id = some priority :=
    ⟨_, (coherent.filed _ priority).mp (List.head_mem filled)⟩
  obtain ⟨id, filed⟩ := used filled
  rcases coherent.next_cases with ⟨_, unfiled⟩ | ⟨lowest, lowestFilled, lower, chosen⟩
  · cases (unfiled id).symm.trans filed
  · obtain ⟨lowestId, lowestFiled⟩ := used lowestFilled
    have same : priority = lowest :=
      Int32.le_antisymm (least lowestId lowest lowestFiled) (lower id priority filed)
    exact same ▸ chosen

end LiveQuery.ConflictSet
