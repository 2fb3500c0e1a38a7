import LiveQuery.Proofs.Closure.Change
import LiveQuery.Proofs.Closure.Components
import LiveQuery.Proofs.Closure.Partition

/-!
# Partitions are the strongly connected components

`Closure.Partitioned` is the invariant: two known nodes have the same partition exactly if they are
the same or reach each other, and the two tables of partitions are consistent.  Nodes that become
known keep it, each in a partition of its own (`Partitioned.know`), and so does everything that
leaves the partitions and the set of edges as they are (`Partitioned.congr`).

`Renumbered` lists what one change can do to the partitions together with the events that announce
it: nothing, one merge, or one split.  From this list follows what is said of numbers in general: a
number in use was in use or is new (`Renumbered.live`), an event ends numbers that were in use and
are not any more (`Renumbered.ended`), and a node only leaves its partition if an event ends its
number (`Renumbered.ended_of_left`).
-/

namespace LiveQuery

/-- The numbers that an event takes out of use. -/
def PartitionEvent.ended : PartitionEvent → List PartitionId
  | .merged _ retired => retired
  | .split parent _ => [parent]

variable {α : Type} [DecidableEq α]

/-- What one change does to the partitions, and the events that announce it. -/
inductive Renumbered (before : Partitions α) : Partitions α → List PartitionEvent → Prop where
  | kept : Renumbered before before []
  | merged {after : Partitions α} {cycle : List α} {survivor : PartitionId}
      {retired : List PartitionId}
      (merged : Partitions.Merged before after cycle survivor retired) :
      Renumbered before after [.merged survivor retired]
  | split {after : Partitions α} {parent : PartitionId} {groups : List (List α)}
      {parts : List PartitionId} (divided : Partitions.Divided before after groups parts)
      (all : ∀ node, node ∈ groups.flatten ↔ before.of? node = some parent)
      (live : ∃ node, before.of? node = some parent) :
      Renumbered before after [.split parent parts]

namespace Renumbered

variable {before after : Partitions α} {events : List PartitionEvent} {nodes : List α}

theorem next_le (renumbered : Renumbered before after events) : before.next ≤ after.next := by
  cases renumbered with
  | kept => exact Nat.le_refl _
  | merged merged => exact Nat.le_of_eq merged.next.symm
  | split divided => exact divided.next

theorem live (renumbered : Renumbered before after events) {node : α} {id : PartitionId}
    (home : after.of? node = some id) :
    (∃ other, before.of? other = some id) ∨ before.next ≤ id.index := by
  cases renumbered with
  | kept => exact .inl ⟨node, home⟩
  | @merged _ _ survivor _ merged =>
    rw [merged.home] at home
    obtain ⟨old, oldHome, rfl⟩ := Option.map_eq_some_iff.mp home
    split
    next gone =>
      obtain ⟨other, _, home⟩ := (merged.involved survivor).mpr (.inl rfl)
      exact .inl ⟨other, home⟩
    next stays => exact .inl ⟨node, oldHome⟩
  | @split _ _ groups _ divided =>
    by_cases moved : node ∈ groups.flatten
    · obtain ⟨part, member, here⟩ := divided.exists_part moved
      obtain rfl := Option.some.inj (here.symm.trans home)
      exact .inr (divided.fresh _ member).1
    · exact .inl ⟨node, (divided.others node moved).symm.trans home⟩

/-- A number that an event takes out of use was in use before and is not any more. -/
theorem ended (renumbered : Renumbered before after events) (consistent : before.Consistent nodes [])
    {event : PartitionEvent} (member : event ∈ events) {id : PartitionId}
    (ended : id ∈ event.ended) :
    (∃ node, before.of? node = some id) ∧ ∀ node, after.of? node ≠ some id := by
  cases renumbered with
  | kept => cases member
  | @merged _ _ survivor retired merged =>
    obtain rfl := List.mem_singleton.mp member
    have ended : id ∈ retired := ended
    obtain ⟨other, _, home⟩ := (merged.involved id).mpr (.inr ended)
    refine ⟨⟨other, home⟩, fun node arrived => ?_⟩
    rw [merged.home] at arrived
    obtain ⟨old, _, same⟩ := Option.map_eq_some_iff.mp arrived
    split at same
    next => exact absurd (merged.oldest id ended) (same ▸ Nat.lt_irrefl _)
    next stays => exact stays (same ▸ ended)
  | @split _ _ groups _ divided all live =>
    obtain rfl := List.mem_singleton.mp member
    obtain rfl := List.mem_singleton.mp ended
    obtain ⟨old, oldHome⟩ := live
    refine ⟨⟨old, oldHome⟩, fun node arrived => ?_⟩
    by_cases moved : node ∈ groups.flatten
    · obtain ⟨part, partMember, here⟩ := divided.exists_part moved
      obtain rfl := Option.some.inj (here.symm.trans arrived)
      have issued := consistent.issued old _ oldHome
      have fresh := (divided.fresh _ partMember).1
      omega
    · exact moved ((all node).mpr ((divided.others node moved).symm.trans arrived))

/-- A node leaves its partition only if an event takes its number out of use. -/
theorem ended_of_left (renumbered : Renumbered before after events) {node : α} {id : PartitionId}
    (home : before.of? node = some id) (left : after.of? node ≠ some id) :
    ∃ event ∈ events, id ∈ event.ended := by
  cases renumbered with
  | kept => exact absurd home left
  | @merged _ _ survivor retired merged =>
    refine ⟨_, List.mem_singleton_self _, ?_⟩
    by_contra stays
    have stays : id ∉ retired := stays
    rw [merged.home, home, Option.map_some, if_neg stays] at left
    exact left rfl
  | @split _ parent groups _ divided all =>
    refine ⟨_, List.mem_singleton_self _, List.mem_singleton.mpr ?_⟩
    have moved : node ∈ groups.flatten := by
      by_contra outside
      exact left ((divided.others node outside).trans home)
    exact Option.some.inj (home.symm.trans ((all node).mp moved))

/-- Where nothing is merged, nodes only enter partitions whose numbers were not in use before. -/
theorem unused_of_entered (renumbered : Renumbered before after events)
    (consistent : before.Consistent nodes [])
    (unmerged : ∀ survivor retired, .merged survivor retired ∉ events) {node : α} {id : PartitionId}
    (home : after.of? node = some id) (entered : before.of? node ≠ some id) (other : α) :
    before.of? other ≠ some id := by
  cases renumbered with
  | kept => exact absurd home entered
  | merged => exact absurd (List.mem_singleton_self _) (unmerged _ _)
  | split divided => exact divided.unused_of_entered consistent home entered other

end Renumbered

namespace Closure

/-- The same node, or two nodes that reach each other. -/
def Together (closure : Closure α) (first second : α) : Prop :=
  Reach.Together closure.edges.occurrences first second

/-- The known nodes are partitioned into strongly connected components. -/
structure Partitioned (closure : Closure α) : Prop where
  consistent : closure.partitions.Consistent closure.nodes []
  together : ∀ first ∈ closure.nodes, ∀ second ∈ closure.nodes,
    (closure.partitionOf? first = closure.partitionOf? second ↔ closure.Together first second)

variable {closure : Closure α} {source target node other : α} {fresh : List (α × α)}

theorem partitioned_empty : (empty : Closure α).Partitioned where
  consistent := Partitions.consistent_empty
  together first member := by cases member

/-- Partitions only depend on the nodes and on the set of edges. -/
theorem Partitioned.congr {second : Closure α} (partitioned : closure.Partitioned)
    (nodes : second.nodes = closure.nodes) (partitions : second.partitions = closure.partitions)
    (together : ∀ first other, second.Together first other ↔ closure.Together first other) :
    second.Partitioned where
  consistent := by rw [nodes, partitions]; exact partitioned.consistent
  together first firstKnown other otherKnown := by
    rw [nodes] at firstKnown otherKnown
    rw [together, partitionOf?, partitionOf?, partitions]
    exact partitioned.together first firstKnown other otherKnown

theorem Partitioned.exists_home (partitioned : closure.Partitioned) (known : node ∈ closure.nodes) :
    ∃ id, closure.partitionOf? node = some id :=
  (partitioned.consistent.known node List.not_mem_nil).mpr known

theorem Partitioned.known_of_home (partitioned : closure.Partitioned) {id : PartitionId}
    (home : closure.partitionOf? node = some id) : node ∈ closure.nodes :=
  (partitioned.consistent.known node List.not_mem_nil).mp ⟨id, home⟩

theorem Together.known {first second : α} (exact : closure.Exact)
    (together : closure.Together first second) (known : first ∈ closure.nodes) :
    second ∈ closure.nodes := by
  rcases together with rfl | ⟨joined, _⟩
  · exact known
  · exact (exact.joined_known joined).2

/-! ## Getting to know nodes -/

theorem partitionOf?_know (closure : Closure α) (node other : α) :
    (closure.know node).partitionOf? other =
      if other = node ∧ node ∉ closure.nodes then some ⟨closure.partitions.next⟩
      else closure.partitionOf? other := by
  unfold know partitionOf?
  split
  next known => rw [if_neg fun new => new.2 (List.contains_iff_mem.mp known)]
  next unknown =>
    have unknown : node ∉ closure.nodes := fun member => unknown (List.contains_iff_mem.mpr member)
    refine (Partitions.of?_place ..).trans ?_
    simp only [List.mem_singleton, unknown, not_false_eq_true, and_true]

theorem partitionOf?_know_of_known (known : other ∈ closure.nodes) :
    (closure.know node).partitionOf? other = closure.partitionOf? other := by
  rw [partitionOf?_know, if_neg]
  exact fun new => new.2 (new.1 ▸ known)

theorem next_le_know (closure : Closure α) (node : α) :
    closure.partitions.next ≤ (closure.know node).partitions.next := by
  unfold know
  split
  · exact Nat.le_refl _
  · exact Nat.le_succ _

theorem Partitioned.know (partitioned : closure.Partitioned) (exact : closure.Exact) (node : α) :
    (closure.know node).Partitioned := by
  by_cases known : node ∈ closure.nodes
  · have same : closure.know node = closure := if_pos (List.contains_iff_mem.mpr known)
    rwa [same]
  have grown : (closure.know node).nodes = closure.nodes ++ [node] ∧
      (closure.know node).partitions = (closure.partitions.create [node]).1 := by
    unfold Closure.know
    rw [if_neg (by simpa using known)]
    exact ⟨rfl, rfl⟩
  have home := partitionOf?_know closure node
  simp only [known, not_false_eq_true, and_true] at home
  have different (other : α) (old : other ∈ closure.nodes) : other ≠ node :=
    fun same => known (same ▸ old)
  -- the new node is alone in its partition, and no edge mentions it
  have alone (other : α) (old : other ∈ closure.nodes) :
      ¬closure.partitionOf? other = some ⟨closure.partitions.next⟩ ∧
        ¬closure.Together other node :=
    ⟨fun issued => Nat.lt_irrefl _ (partitioned.consistent.issued _ _ issued),
      fun together => known (together.known exact old)⟩
  refine ⟨?_, fun first firstKnown second secondKnown => ?_⟩
  · rw [grown.1, grown.2]
    exact partitioned.consistent.create known
  · rw [Together, edges_know, ← Together, home, home]
    rw [grown.1, List.mem_append, List.mem_singleton] at firstKnown secondKnown
    rcases firstKnown with firstOld | rfl <;> rcases secondKnown with secondOld | rfl
    · rw [if_neg (different first firstOld), if_neg (different second secondOld)]
      exact partitioned.together first firstOld second secondOld
    · rw [if_neg (different first firstOld), if_pos rfl]
      exact iff_of_false (alone first firstOld).1 (alone first firstOld).2
    · rw [if_pos rfl, if_neg (different second secondOld)]
      exact iff_of_false (fun same => (alone second secondOld).1 same.symm)
        fun together => (alone second secondOld).2 (Reach.Together.symm together)
    · exact iff_of_true rfl (.refl _ _)

/-! ## What steps leave alone -/

omit [DecidableEq α] in
theorem kept_foldl {β γ : Type} {step : Closure α → β → Closure α} (field : Closure α → γ)
    (kept : ∀ closure item, field (step closure item) = field closure) (items : List β)
    (closure : Closure α) : field (items.foldl step closure) = field closure := by
  induction items generalizing closure with
  | nil => rfl
  | cons item rest ih => exact (ih _).trans (kept closure item)

/-- Counting witnesses anew changes nothing but the witnesses. -/
theorem eq_of_rekey {moved : List α} {previous : Table α PartitionId} {skip : List (α × α)}
    {rekeyed : Closure α} {events : List ReachabilityEvent}
    (recounted : closure.rekey moved previous skip = (rekeyed, events)) :
    ∃ witnesses, rekeyed = { closure with witnesses } := by
  cases recounted
  exact ⟨_, rfl⟩

end Closure
end LiveQuery
