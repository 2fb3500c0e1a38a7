import Mathlib.Data.Set.Card
import LiveQuery.Proofs.Closure.Counting
import LiveQuery.Proofs.Closure.Identity

/-!
# Partitions that reach one another

Every joined pair of nodes is a witness that the partition of the one reaches the partition of the
other.  `Closure.Counted` is the invariant: the stored count of two partitions is the number of
their witnesses.  `history_witnesses` says for all histories that the counts are right and that
events name exactly the pairs of partitions whose count crosses zero.

A change takes witnesses away, brings new ones, and moves others to other partitions.  `Recounted`
says that it settles just those and gains no key that it has given up; from this follow the right
counts (`Recounted.counted`) and the right events (`Recounted.crossings`).  There is something to
show for the witnesses that move:

* Only those are visited that touch a node which has come to another partition.  Both directions of
  the tables are asked, which mirror each other, so these are all of them (`Exact.touching_eq`).
* A witness that moves has an end whose partition is another one now (`exists_end_of_relocated`), so
  none is missed; and a witness that is visited but stays is not settled.  So counting anew settles
  exactly the witnesses that move (`Exact.settled_rekey`).
* What is given up is not gained again.  After a merge, the numbers that were left are out of use
  (`notMem_of_left`); after a split, the numbers that were entered were not in use before
  (`notMem_of_entered`).

Fresh pairs of an insertion are skipped when a merge counts anew and are gained afterwards; lost
pairs of a deletion are given up before a split counts anew.
-/

namespace LiveQuery.Closure

variable {α : Type} [DecidableEq α]

/-! ## What users see -/

/-- The number of joined pairs of nodes from one partition to another. -/
noncomputable def witnessCount (closure : Closure α) (key : PartitionId × PartitionId) : Nat :=
  Set.ncard { pair : α × α | closure.partitionOf? pair.1 = some key.1 ∧
    closure.partitionOf? pair.2 = some key.2 ∧ closure.Joined pair.1 pair.2 }

/-- Every question about the reachability of partitions is answered by the witnesses, and the
listing names every answer once and ascending. -/
structure CountsWitnesses (closure : Closure α) : Prop where
  count : ∀ key, closure.witnesses.count key = closure.witnessCount key
  dead : ∀ source target, closure.partitionMembers source = [] ∨ closure.partitionMembers target = [] →
    closure.witnesses.count (source, target) = 0
  reaches : ∀ source target, closure.partitionReaches source target = true ↔
    ∃ first last, closure.partitionOf? first = some source ∧
      closure.partitionOf? last = some target ∧ closure.Joined first last
  listed : ∀ source target, (source, target) ∈ closure.partitionPairs ↔
    closure.partitionReaches source target = true
  ascending : closure.partitionPairs.Pairwise fun first second =>
    first.1.index < second.1.index ∨ first.1 = second.1 ∧ first.2.index < second.2.index

/-- The reachability events that a change reports. -/
def reachabilityEvents (answer : Option (ClosureDelta α)) : List ReachabilityEvent :=
  (answer.map ClosureDelta.reachability).getD []

variable {closure before after : Closure α} {source target : α}
  {pair : α × α} {key : PartitionId × PartitionId}

/-! ## One state -/

/-- The stored counts are those of the witnesses of the joined pairs. -/
def Counted (closure : Closure α) : Prop :=
  ∀ key, closure.witnesses.count key =
    (closure.pairs.filterMap (witnessed closure.partitionOf?)).count key

omit [DecidableEq α] in
theorem witnessed_eq_some {home? : α → Option PartitionId} :
    witnessed home? pair = some key ↔ home? pair.1 = some key.1 ∧ home? pair.2 = some key.2 := by
  unfold witnessed
  cases home? pair.1 <;> cases home? pair.2 <;> simp [Prod.ext_iff]

theorem counted_empty : (empty : Closure α).Counted := fun key => by
  rw [show (empty : Closure α).witnesses = Bag.empty from rfl, Bag.count_empty]
  rfl

theorem Counted.count_eq (counted : closure.Counted) (exact : closure.Exact)
    (key : PartitionId × PartitionId) : closure.witnesses.count key = closure.witnessCount key := by
  have listed (pair : α × α) : pair ∈ closure.pairs ↔ closure.Joined pair.1 pair.2 :=
    exact.mem_pairs
  have members : { pair : α × α | closure.partitionOf? pair.1 = some key.1 ∧
      closure.partitionOf? pair.2 = some key.2 ∧ closure.Joined pair.1 pair.2 } =
      (closure.pairs.filter fun pair => witnessed closure.partitionOf? pair = some key).toFinset := by
    ext pair
    simp only [Set.mem_ofPred_eq, List.coe_toFinset, List.mem_filter, decide_eq_true_eq,
      witnessed_eq_some, listed]
    exact and_rotate.symm
  rw [counted, witnessCount, members, Set.ncard_coe_finset,
    List.toFinset_card_of_nodup (exact.nodup_pairs.filter _), List.count_filterMap,
    ← List.countP_eq_length_filter]
  exact List.countP_congr fun _ _ => by rw [beq_iff_eq, decide_eq_true_eq]

omit [DecidableEq α] in
theorem mem_partitionPairs {source target : PartitionId} :
    (source, target) ∈ closure.partitionPairs ↔ closure.partitionReaches source target = true := by
  simp only [partitionPairs, List.mem_flatMap, List.mem_map, List.mem_filter, Prod.mk.injEq,
    OrderedSet.mem_toList, OrderedSet.mem_ofList]
  constructor
  · rintro ⟨_, _, _, ⟨_, reaches⟩, rfl, rfl⟩
    exact reaches
  · intro reaches
    have stored : (source, target) ∈ closure.witnesses.distinct :=
      Bag.mem_distinct.mpr (Bag.contains_iff.mp reaches)
    exact ⟨source, ⟨_, stored, by simp⟩, target, ⟨⟨_, stored, by simp⟩, reaches⟩, rfl, rfl⟩

theorem pairwise_lexicographic (ids : OrderedSet PartitionId)
    (test : PartitionId → PartitionId → Bool) :
    (ids.toList.flatMap fun source =>
      (ids.toList.filter (test source)).map (source, ·)).Pairwise fun first second =>
        first.1.index < second.1.index ∨ first.1 = second.1 ∧ first.2.index < second.2.index := by
  have ascending : ids.toList.Pairwise fun first second => first.index < second.index :=
    ids.ascending.imp PartitionId.compare_lt_iff.mp
  refine List.pairwise_flatMap.mpr ⟨fun source _ => ?_, ascending.imp fun less => ?_⟩
  · exact List.pairwise_map.mpr ((ascending.filter _).imp fun less => .inr ⟨rfl, less⟩)
  · intro first firstMember second secondMember
    obtain ⟨_, _, rfl⟩ := List.mem_map.mp firstMember
    obtain ⟨_, _, rfl⟩ := List.mem_map.mp secondMember
    exact .inl less

theorem Counted.describes (counted : closure.Counted) (exact : closure.Exact)
    (partitioned : closure.Partitioned) : closure.CountsWitnesses := by
  have reaches (source target : PartitionId) : closure.partitionReaches source target = true ↔
      ∃ first last, closure.partitionOf? first = some source ∧
        closure.partitionOf? last = some target ∧ closure.Joined first last := by
    rw [partitionReaches, Bag.contains_iff, ← Bag.count_pos_iff, counted, List.count_pos_iff]
    simp only [List.mem_filterMap, witnessed_eq_some, Prod.exists, exact.mem_pairs]
    exact exists₂_congr fun _ _ => and_rotate
  refine ⟨counted.count_eq exact, fun source target dead => ?_, reaches,
    fun _ _ => mem_partitionPairs, pairwise_lexicographic _ _⟩
  by_contra some_
  rw [← Ne, ← Nat.pos_iff_ne_zero, Bag.count_pos_iff, ← Bag.contains_iff] at some_
  obtain ⟨first, last, sourceHome, targetHome, _⟩ := (reaches source target).mp some_
  rw [← mem_partitionMembers partitioned.consistent] at sourceHome targetHome
  rcases dead with dead | dead
  · exact List.not_mem_nil (dead ▸ sourceHome)
  · exact List.not_mem_nil (dead ▸ targetHome)

/-! ## One change -/

/-- The pairs of nodes that witness other partitions than before. -/
def relocated (before after : α → Option PartitionId) (pairs : List (α × α)) : List (α × α) :=
  pairs.filter fun pair => witnessed before pair ≠ witnessed after pair

omit [DecidableEq α] in
theorem relocated_self (home? : α → Option PartitionId) (pairs : List (α × α)) :
    relocated home? home? pairs = [] :=
  List.filter_eq_nil_iff.mpr fun _ _ => by simp

/-- The pairs `kept` are joined before and after the change, and the change settles the witnesses
that are not the same before and after, never one that it has given up. -/
structure Recounted (before after : Closure α) (kept : List (α × α)) (delta : ClosureDelta α) :
    Prop where
  old : before.pairs.Perm (kept ++ delta.disappeared)
  new : after.pairs.Perm (kept ++ delta.appeared)
  settled : (after.witnesses, delta.reachability) = before.witnesses.settle
    ((delta.disappeared ++ relocated before.partitionOf? after.partitionOf? kept).filterMap
      (witnessed before.partitionOf?))
    ((relocated before.partitionOf? after.partitionOf? kept ++ delta.appeared).filterMap
      (witnessed after.partitionOf?))
  apart : ∀ key ∈ (delta.disappeared ++ relocated before.partitionOf? after.partitionOf? kept).filterMap
      (witnessed before.partitionOf?),
    key ∉ (relocated before.partitionOf? after.partitionOf? kept ++ delta.appeared).filterMap
      (witnessed after.partitionOf?)

theorem Recounted.counted {kept : List (α × α)} {delta : ClosureDelta α}
    (recounted : Recounted before after kept delta) (counted : before.Counted) : after.Counted := by
  intro key
  have old : before.witnesses.count key =
      ((kept ++ delta.disappeared).filterMap (witnessed before.partitionOf?)).count key :=
    (counted key).trans ((recounted.old.filterMap _).count_eq key)
  calc
    after.witnesses.count key = _ :=
      congrArg (fun settled => Bag.count (Prod.fst settled) key) recounted.settled
    _ = ((kept ++ delta.appeared).filterMap (witnessed after.partitionOf?)).count key :=
      Witnesses.count_settle key old
    _ = (after.pairs.filterMap (witnessed after.partitionOf?)).count key :=
      ((recounted.new.filterMap _).count_eq key).symm

theorem Recounted.crossings {kept : List (α × α)} {delta : ClosureDelta α}
    (recounted : Recounted before after kept delta) :
    Crossings before.witnesses.count after.witnesses.count delta.reachability := by
  have crossings : Crossings before.witnesses.count _ _ :=
    Witnesses.crossings_settle recounted.apart
  rwa [← recounted.settled] at crossings

theorem Reports.perm {kept : List (α × α)} {delta : ClosureDelta α}
    (reports : Reports before after delta) (beforeExact : before.Exact) (afterExact : after.Exact)
    (once : kept.Nodup)
    (both : ∀ first last,
      (first, last) ∈ kept ↔ before.Joined first last ∧ after.Joined first last) :
    before.pairs.Perm (kept ++ delta.disappeared) ∧ after.pairs.Perm (kept ++ delta.appeared) := by
  constructor
  · refine (List.perm_ext_iff_of_nodup beforeExact.nodup_pairs ?_).mpr fun ⟨first, last⟩ => ?_
    · refine once.append reports.disappearedOnce fun ⟨first, last⟩ stays gone => ?_
      exact ((reports.disappeared first last).mp gone).2 ((both first last).mp stays).2
    · rw [List.mem_append, beforeExact.mem_pairs, both, reports.disappeared]
      tauto
  · refine (List.perm_ext_iff_of_nodup afterExact.nodup_pairs ?_).mpr fun ⟨first, last⟩ => ?_
    · refine once.append reports.appearedOnce fun ⟨first, last⟩ stays fresh => ?_
      exact ((reports.appeared first last).mp fresh).2 ((both first last).mp stays).1
    · rw [List.mem_append, afterExact.mem_pairs, both, reports.appeared]
      tauto

omit [DecidableEq α] in
theorem Reports.congr {delta : ClosureDelta α} {other : Closure α}
    (reports : Reports other after delta) (edges : before.edges = other.edges) :
    Reports before after delta := by
  obtain ⟨appeared, disappeared, appearedOnce, disappearedOnce⟩ := reports
  simp only [Joined, ← edges] at appeared disappeared
  exact ⟨appeared, disappeared, appearedOnce, disappearedOnce⟩

theorem recounted_nothing (pairs : after.pairs = before.pairs)
    (partitions : after.partitions = before.partitions)
    (witnesses : after.witnesses = before.witnesses) : Recounted before after before.pairs {} := by
  have home : after.partitionOf? = before.partitionOf? := congrArg Partitions.of? partitions
  refine ⟨?_, ?_, ?_, ?_⟩
  · rw [List.append_nil]
  · rw [pairs, List.append_nil]
  · rw [home, relocated_self, witnesses]
    rfl
  · rw [home, relocated_self]
    exact fun _ _ => List.not_mem_nil

/-! ### Witnesses that move -/

section Moving

omit [DecidableEq α]

/-- A witness that moves has an end whose partition is another one afterwards. -/
theorem exists_end_of_relocated {before after : α → Option PartitionId}
    (moves : witnessed before pair ≠ witnessed after pair) :
    before pair.1 ≠ after pair.1 ∨ before pair.2 ≠ after pair.2 := by
  by_contra stays
  obtain ⟨source, target⟩ := not_or.mp stays
  unfold witnessed at moves
  rw [not_not.mp source, not_not.mp target] at moves
  exact moves rfl

/-- If no number that a moving node leaves is in use afterwards, what moving witnesses give up is
never gained. -/
theorem notMem_of_left {before after : α → Option PartitionId} {kept gained : List (α × α)}
    (left : ∀ node id, before node = some id → after node ≠ some id →
      ∀ other, after other ≠ some id) :
    ∀ key ∈ (relocated before after kept).filterMap (witnessed before),
      key ∉ gained.filterMap (witnessed after) := by
  intro key given found
  obtain ⟨pair, member, witness⟩ := List.mem_filterMap.mp given
  obtain ⟨other, _, again⟩ := List.mem_filterMap.mp found
  rw [witnessed_eq_some] at witness again
  rcases exists_end_of_relocated (of_decide_eq_true (List.mem_filter.mp member).2) with end_ | end_
  · exact left _ _ witness.1 (witness.1 ▸ end_.symm) _ again.1
  · exact left _ _ witness.2 (witness.2 ▸ end_.symm) _ again.2

/-- If no number that a moving node comes to was in use before, what moving witnesses gain was never
given up. -/
theorem notMem_of_entered {before after : α → Option PartitionId} {kept given : List (α × α)}
    (entered : ∀ node id, after node = some id → before node ≠ some id →
      ∀ other, before other ≠ some id) :
    ∀ key ∈ given.filterMap (witnessed before),
      key ∉ (relocated before after kept).filterMap (witnessed after) := by
  intro key found gained
  obtain ⟨pair, member, witness⟩ := List.mem_filterMap.mp gained
  obtain ⟨other, _, again⟩ := List.mem_filterMap.mp found
  rw [witnessed_eq_some] at witness again
  rcases exists_end_of_relocated (of_decide_eq_true (List.mem_filter.mp member).2) with end_ | end_
  · exact entered _ _ witness.1 (witness.1 ▸ end_) _ again.1
  · exact entered _ _ witness.2 (witness.2 ▸ end_) _ again.2

end Moving

/-! ### Witnesses that are visited -/

/-- What touches some nodes is found in their rows, since the two directions mirror each other. -/
theorem Exact.touching_eq (exact : closure.Exact) (nodes : List α) :
    closure.touching nodes =
      closure.pairs.filter fun pair => nodes.contains pair.1 || nodes.contains pair.2 := by
  have found (source target : α) : (source, target) ∈ (nodes.flatMap fun node =>
      (closure.reached node).map (node, ·) ++ (closure.reaching node).map (·, node)) ↔
      (source ∈ nodes ∨ target ∈ nodes) ∧ closure.Joined source target := by
    simp only [List.mem_flatMap, List.mem_append, List.mem_map, Prod.mk.injEq, exact.forward,
      exact.backward]
    constructor
    · rintro ⟨node, member, ⟨_, joined, rfl, rfl⟩ | ⟨_, joined, rfl, rfl⟩⟩
      · exact ⟨.inl member, joined⟩
      · exact ⟨.inr member, joined⟩
    · rintro ⟨member | member, joined⟩
      · exact ⟨source, member, .inl ⟨target, joined, rfl, rfl⟩⟩
      · exact ⟨target, member, .inr ⟨source, joined, rfl, rfl⟩⟩
  unfold touching pairs
  rw [List.filter_flatMap]
  refine List.flatMap_congr fun source _ => ?_
  rw [List.filter_map, reachableFrom, List.filter_filter]
  refine congrArg _ (List.filter_congr fun target _ => ?_)
  rw [Bool.eq_iff_iff, List.contains_iff_mem, found]
  simp [exact.reaches_iff]

/-- Counting anew settles all witnesses that move, if every node that comes to another partition is
among those whose rows are visited and among those whose old partitions have been noted.  None of
these witnesses is missed, and none is counted twice. -/
theorem Exact.settled_rekey (exact : closure.Exact) {partitions : Partitions α}
    {moved noted : List α} {home? : α → Option PartitionId}
    (known : ∀ node ∈ noted, ∃ id, home? node = some id ∧ closure.partitionOf? node = some id)
    (covers : ∀ node, closure.partitionOf? node ≠ partitions.of? node → node ∈ moved ∧ node ∈ noted)
    (skip : List (α × α)) :
    let changed := relocated closure.partitionOf? partitions.of?
      (closure.pairs.filter (!skip.contains ·))
    let rekeyed := { closure with partitions }.rekey moved (.tabulate home? noted) skip
    (rekeyed.1.witnesses, rekeyed.2) = closure.witnesses.settle
      (changed.filterMap (witnessed closure.partitionOf?))
      (changed.filterMap (witnessed partitions.of?)) := by
  intro changed rekeyed
  let recounting : Closure α := { closure with partitions }
  let old := recounting.formerly (.tabulate home? noted)
  let visited := (recounting.touching moved).filter fun pair =>
    !skip.contains pair && witnessed old pair ≠ witnessed partitions.of? pair
  have settled : (rekeyed.1.witnesses, rekeyed.2) = closure.witnesses.settle
      (visited.filterMap (witnessed old)) (visited.filterMap (witnessed partitions.of?)) := rfl
  have former : old = closure.partitionOf? := by
    funext node
    simp only [old, formerly, Table.get?_tabulate]
    split
    next here =>
      obtain ⟨id, noted, home⟩ := known node here
      rw [noted, home, Option.some_or]
    next elsewhere =>
      rw [Option.none_or]
      exact (not_not.mp fun moves => elsewhere (covers node moves).2).symm
  have counted : recounting.Exact := exact.congr ⟨rfl, rfl, rfl, rfl⟩
  have same : visited = changed := by
    simp only [visited, changed, relocated, former, counted.touching_eq, List.filter_filter]
    refine List.filter_congr fun pair _ => ?_
    by_cases stays : witnessed closure.partitionOf? pair = witnessed partitions.of? pair
    · simp [stays]
    · -- one of its ends has moved
      have touches : (moved.contains pair.1 || moved.contains pair.2) = true := by
        rcases exists_end_of_relocated stays with end_ | end_
        · simp [(covers _ end_).1]
        · simp [(covers _ end_).1]
      rw [touches, Bool.and_true, Bool.and_comm]
  rw [settled, same, former]

/-! ### Insertions -/

theorem witnesses_know (closure : Closure α) (node : α) :
    (closure.know node).witnesses = closure.witnesses := by
  unfold know
  split <;> rfl

theorem Counted.know (counted : closure.Counted) (exact : closure.Exact) (node : α) :
    (closure.know node).Counted := by
  intro key
  have pairs : (closure.know node).pairs.Perm closure.pairs := by
    refine (List.perm_ext_iff_of_nodup (exact.know node).nodup_pairs exact.nodup_pairs).mpr ?_
    rintro ⟨first, last⟩
    rw [(exact.know node).mem_pairs, exact.mem_pairs, Joined, edges_know, Joined]
  have same : closure.pairs.filterMap (witnessed (closure.know node).partitionOf?) =
      closure.pairs.filterMap (witnessed closure.partitionOf?) := by
    refine List.filterMap_congr fun pair member => ?_
    obtain ⟨first, last⟩ := pair
    obtain ⟨firstKnown, lastKnown⟩ := exact.joined_known (exact.mem_pairs.mp member)
    rw [witnessed, witnessed, partitionOf?_know_of_known firstKnown,
      partitionOf?_know_of_known lastKnown]
  rw [witnesses_know, counted, (pairs.filterMap _).count_eq, same]

/-- Merging settles the witnesses of the numbers that it retires, provided that the nodes on the
cycle are whole partitions. -/
theorem mergeCycle_witnesses (exact : closure.Exact)
    (consistent : closure.partitions.Consistent closure.nodes [])
    (whole : ∀ other ∈ closure.cycle source target, ∀ id node, closure.partitionOf? other = some id →
      closure.partitionOf? node = some id → node ∈ closure.cycle source target)
    (fresh : List (α × α)) :
    let merged := closure.mergeCycle source target fresh
    let changed := relocated closure.partitionOf? merged.1.partitionOf?
      (closure.pairs.filter (!fresh.contains ·))
    (merged.1.witnesses, merged.2.2) = closure.witnesses.settle
      (changed.filterMap (witnessed closure.partitionOf?))
      (changed.filterMap (witnessed merged.1.partitionOf?)) := by
  intro merged changed
  rcases mergeCycle_cases closure source target fresh with
    ⟨unchanged, _⟩ | ⟨partitions, _, retired, moved, rekeyed, _, _, _, found, recounted, changes⟩
  · simp only [changed, merged, unchanged, relocated_self]
    rfl
  · obtain ⟨_, spec, moves⟩ := Partitions.merge?_spec consistent found
    have noted : ∀ node ∈ closure.cycle source target, ∃ id,
        closure.partitionOf? node = some id ∧ closure.partitionOf? node = some id := by
      intro node member
      have known : node ∈ closure.nodes := (List.mem_filter.mp (List.mem_filter.mp member).1).1
      obtain ⟨id, home⟩ := (consistent.known node List.not_mem_nil).mpr known
      exact ⟨id, home, home⟩
    have covers : ∀ node, closure.partitionOf? node ≠ partitions.of? node →
        node ∈ moved ∧ node ∈ closure.cycle source target := by
      intro node leaves
      -- all nodes of a retired partition are on the cycle
      obtain ⟨id, gone, home⟩ := spec.exists_retired leaves
      obtain ⟨other, member, otherHome⟩ := (spec.involved id).mpr (.inr gone)
      exact ⟨(moves node).mpr ⟨id, gone, home⟩, whole other member id node otherHome home⟩
    have settled := exact.settled_rekey noted covers fresh
    rw [recounted] at settled
    obtain ⟨_, rfl⟩ := eq_of_rekey recounted
    simp only [changed, merged, changes]
    exact settled

/-- An insertion settles the witnesses that it moves and gains those of the pairs that it joins. -/
theorem Partitioned.recounted_insertEdge (partitioned : closure.Partitioned) (exact : closure.Exact)
    (source target : α) :
    ∃ kept, Recounted ((closure.know source).know target) (closure.insertEdge source target).1 kept
      (closure.insertEdge source target).2 := by
  have knownExact := (exact.know source).know target
  obtain ⟨afterExact, _, reports⟩ := exact_insertEdge exact source target
  have reports : Reports ((closure.know source).know target) _ _ :=
    reports.congr (by simp [edges_know])
  have knownPartitioned := (partitioned.know exact source).know (exact.know source) target
  have renumbered := (partitioned.insertEdge exact source target).2
  have left (node : α) (id : PartitionId)
      (home : ((closure.know source).know target).partitions.of? node = some id)
      (leaves : (closure.insertEdge source target).1.partitions.of? node ≠ some id) :
      ∀ other, (closure.insertEdge source target).1.partitions.of? other ≠ some id := by
    obtain ⟨event, member, ended⟩ := renumbered.ended_of_left home leaves
    exact (renumbered.ended knownPartitioned.consistent member ended).2
  have inserted := insertEdge_eq closure source target
  dsimp only at inserted
  split at inserted
  next present =>
    rw [inserted]
    exact ⟨_, recounted_nothing rfl rfl rfl⟩
  next absent =>
    obtain ⟨nodes, edges, partitions, witnesses⟩ := extended_kept closure source target
    have home := partitionOf?_extended closure source target
    have grownExact := exact_extended exact source target
    have sameKnown : (closure.extended source target).edges =
        ((closure.know source).know target).edges.add (source, target) := by
      rw [edges, edges_know, edges_know]
    have merging := mergeCycle_witnesses grownExact
      (nodes.symm ▸ partitions.symm ▸ knownPartitioned.consistent)
      (fun other member id node otherHome nodeHome => mem_cycle_of_same_home knownPartitioned sameKnown
        (fun _ => mem_cycle_extended exact) member (home ▸ otherHome) (home ▸ nodeHome))
      (((closure.know source).know target).freshPairs source target)
    have sameEdges := (samePaths_mergeCycle (closure.extended source target) source target
      (((closure.know source).know target).freshPairs source target)).2.1
    rw [inserted] at afterExact reports left ⊢
    generalize (closure.extended source target).mergeCycle source target
      (((closure.know source).know target).freshPairs source target) = merged at *
    dsimp only at merging
    rw [home, witnesses] at merging
    obtain ⟨old, new⟩ := reports.perm knownExact afterExact
      (grownExact.nodup_pairs.filter fun pair =>
        !(((closure.know source).know target).freshPairs source target).contains pair)
      fun first last => by
        have appeared := reports.appeared first last
        simp only [Joined] at appeared
        simp only [List.mem_filter, grownExact.mem_pairs, Bool.not_eq_true', ← Bool.not_eq_true,
          List.contains_iff_mem, appeared, Joined, ← sameEdges, not_and_not_right]
        exact (and_congr_right fun joined => imp_iff_right joined).trans and_comm
    refine ⟨_, old, new, ?_, ?_⟩
    · rw [List.nil_append, List.filterMap_append, Witnesses.settle_append_gained]
      let gained := (((closure.know source).know target).freshPairs source target).filterMap
        (witnessed merged.1.partitionOf?)
      exact congrArg (fun settled => ((Witnesses.gain settled.1 gained).1,
        settled.2 ++ (Witnesses.gain settled.1 gained).2)) merging
    · exact notMem_of_left left

/-! ### Deletions -/

/-- Splitting settles the witnesses of the number that it takes out of use, and merges nothing. -/
theorem splitApart_witnesses (exact : closure.Exact)
    (consistent : closure.partitions.Consistent closure.nodes []) (source target : α) :
    let split := closure.splitApart source target
    let changed := relocated closure.partitionOf? split.1.partitionOf? closure.pairs
    (split.1.witnesses, split.2.2) = closure.witnesses.settle
      (changed.filterMap (witnessed closure.partitionOf?))
      (changed.filterMap (witnessed split.1.partitionOf?)) ∧
    ∀ survivor retired, .merged survivor retired ∉ split.2.1 := by
  intro split changed
  rcases splitApart_cases closure source target with
    ⟨unchanged, _⟩ | ⟨id, groups, partitions, _, rekeyed, _, _, found, divided, recounted, changes⟩
  · simp only [changed, split, unchanged, relocated_self]
    exact ⟨rfl, fun _ _ => List.not_mem_nil⟩
  · have noted : ∀ node ∈ closure.partitionMembers id, ∃ part,
        some id = some part ∧ closure.partitionOf? node = some part := fun node member =>
      ⟨id, rfl, (mem_partitionMembers consistent).mp member⟩
    -- the groups are the components of the members, so nobody else comes to another partition
    obtain ⟨_, same, components⟩ := exact.indexed.exists_components
      (exact.nodup.filter (closure.partitions.membersOf id).contains)
    obtain rfl := Option.some.inj (found.symm.trans same)
    have covers : ∀ node, closure.partitionOf? node ≠ partitions.of? node →
        node ∈ closure.partitionMembers id ∧ node ∈ closure.partitionMembers id := by
      intro node leaves
      refine and_self_iff.mpr (by_contra fun outside => leaves ?_)
      have unmoved := Partitions.of?_split_of_notMem (outside ∘ components.covers.mem_iff.mp)
        closure.partitions id
      rw [divided] at unmoved
      exact unmoved.symm
    have settled := exact.settled_rekey noted covers []
    have all : closure.pairs.filter (!([] : List (α × α)).contains ·) = closure.pairs :=
      List.filter_eq_self.mpr fun _ _ => rfl
    rw [recounted, all] at settled
    obtain ⟨_, rfl⟩ := eq_of_rekey recounted
    simp only [changed, split, changes]
    exact ⟨settled, fun _ _ => by simp⟩

/-- A deletion gives up the witnesses of the pairs that it separates and settles those that it
moves. -/
theorem Partitioned.recounted_deleteEdge (partitioned : closure.Partitioned) (exact : closure.Exact)
    {delta : ClosureDelta α} (deleted : closure.deleteEdge? source target = some (after, delta)) :
    ∃ kept, Recounted closure after kept delta := by
  obtain ⟨afterExact, _, reports⟩ := exact_deleteEdge exact deleted
  have renumbered := (partitioned.deleteEdge exact deleted).2
  rw [deleteEdge?_eq] at deleted
  split at deleted
  · cases deleted
  next present =>
    split at deleted
    next more =>
      cases deleted
      exact ⟨_, recounted_nothing rfl rfl rfl⟩
    next last =>
      have shrunkExact := exact_shrunk exact (exact.known _ (not_not.mp present)).1 target
      obtain ⟨nodes, _, partitions⟩ := shrunk_kept closure source target
      have home : (closure.shrunk source target).partitionOf? = closure.partitionOf? :=
        congrArg Partitions.of? partitions
      have sameEdges := (samePaths_splitApart (closure.shrunk source target) source target).2.1
      obtain ⟨splitting, unmerged⟩ :=
        splitApart_witnesses shrunkExact (nodes.symm ▸ partitions.symm ▸ partitioned.consistent)
          source target
      rw [home] at splitting
      cases deleted
      obtain ⟨old, new⟩ := reports.perm exact afterExact shrunkExact.nodup_pairs
        fun first last => by
          have appeared := reports.appeared first last
          simp only [Joined, List.not_mem_nil, false_iff] at appeared
          simp only [shrunkExact.mem_pairs, Joined, sameEdges]
          exact (and_iff_right_of_imp (not_and_not_right.mp appeared)).symm
      refine ⟨_, old, new, ?_, ?_⟩
      · rw [List.append_nil, List.filterMap_append, Witnesses.settle_append_lost]
        exact congrArg (fun settled => (settled.1, _ ++ settled.2)) splitting
      · rw [List.append_nil]
        refine notMem_of_entered fun node id => ?_
        exact renumbered.unused_of_entered partitioned.consistent unmerged

/-! ## Histories -/

theorem Counted.applyEdge (counted : closure.Counted) (exact : closure.Exact)
    (partitioned : closure.Partitioned) (change : EdgeChange α) :
    (closure.applyEdge change).1.Counted ∧
      Crossings closure.witnesses.count (closure.applyEdge change).1.witnesses.count
        (reachabilityEvents (closure.applyEdge change).2) := by
  cases change with
  | insert source target =>
    obtain ⟨kept, recounted⟩ := partitioned.recounted_insertEdge exact source target
    have crossings := recounted.crossings
    rw [witnesses_know, witnesses_know] at crossings
    exact ⟨recounted.counted ((counted.know exact source).know (exact.know source) target), crossings⟩
  | delete source target =>
    cases deleted : closure.deleteEdge? source target with
    | none =>
      rw [applyEdge_delete_of_none deleted]
      exact ⟨counted, crossings_nil _⟩
    | some answer =>
      obtain ⟨kept, recounted⟩ := partitioned.recounted_deleteEdge exact deleted
      rw [applyEdge_delete_of_some deleted]
      exact ⟨recounted.counted counted, recounted.crossings⟩

theorem counted_foldl (counted : closure.Counted) (exact : closure.Exact)
    (partitioned : closure.Partitioned) (history : List (EdgeChange α)) :
    (history.foldl (fun closure change => (closure.applyEdge change).1) closure).Counted := by
  induction history generalizing closure with
  | nil => exact counted
  | cons change rest ih =>
    exact ih (counted.applyEdge exact partitioned change).1 (exact.applyEdge change).1
      (partitioned.applyEdge exact change).1

/-- After any history, partitions reach one another as often as joined pairs of nodes witness it.
Whichever change comes next, the reported events name exactly the pairs of partitions whose number
of witnesses goes from zero to positive or back, each once. -/
theorem history_witnesses (past : List (EdgeChange α)) (change : EdgeChange α) :
    (afterHistory past).CountsWitnesses ∧
      Crossings (afterHistory past).witnessCount ((afterHistory past).applyEdge change).1.witnessCount
        (reachabilityEvents ((afterHistory past).applyEdge change).2) := by
  have exact := exact_afterHistory past
  have partitioned := partitioned_afterHistory past
  have counted : (afterHistory past).Counted :=
    counted_foldl counted_empty exact_empty partitioned_empty past
  obtain ⟨kept, crossings⟩ := counted.applyEdge exact partitioned change
  have before : (afterHistory past).witnesses.count = (afterHistory past).witnessCount :=
    funext (counted.count_eq exact)
  have after := funext (kept.count_eq (exact.applyEdge change).1)
  rw [before, after] at crossings
  exact ⟨counted.describes exact partitioned, crossings⟩

end LiveQuery.Closure
