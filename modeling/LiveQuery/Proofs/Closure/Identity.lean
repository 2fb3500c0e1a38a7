import Mathlib.SetTheory.Cardinal.Finite
import LiveQuery.Proofs.Closure.History
import LiveQuery.Proofs.Closure.Merging
import LiveQuery.Proofs.Closure.Splitting

/-!
# The numbers of partitions through histories

`DescribesComponents` says that every question about partitions is answered by the strongly
connected components, and `Announces` that nodes change their partition just as the events of a
change say.  A number that an event takes out of use is `Gone`.  `history_components` puts this
together for all histories.

* One state: the partition of a node only depends on its component, so numbers in use and components
  correspond one to one (`Partitioned.partitionCount_eq`).
* One change: it keeps the partitions in step with the components, and what it does to them is
  nothing, one merge or one split (`Renumbered`), each of which announces what it does
  (`announces_of_renumbered`).
* Numbers out of use: new numbers are above all that have been used, so that a number which is gone
  stays so (`Partitioned.gone_applyEdge`), and the numbers that an event ends are gone after the
  change (`Partitioned.gone_of_ended`).
-/

namespace LiveQuery.Closure

variable {α : Type} [DecidableEq α]

/-! ## What users see -/

/-- The strongly connected components of the known nodes. -/
def components (closure : Closure α) : Setoid { node // node ∈ closure.nodes } where
  r first second := closure.Together first second
  iseqv := ⟨fun _ => .refl _ _, .symm, .trans⟩

/-- Every question about partitions is answered by the strongly connected components. -/
structure DescribesComponents (closure : Closure α) : Prop where
  known : ∀ node, (∃ id, closure.partitionOf? node = some id) ↔ node ∈ closure.nodes
  together : ∀ first ∈ closure.nodes, ∀ second ∈ closure.nodes,
    (closure.partitionOf? first = closure.partitionOf? second ↔ closure.Together first second)
  members : ∀ id node, node ∈ closure.partitionMembers id ↔ closure.partitionOf? node = some id
  membersOnce : ∀ id, (closure.partitionMembers id).Nodup
  count : closure.partitionCount = Nat.card (Quotient closure.components)

/-- The partition events that a change reports. -/
def partitionEvents (answer : Option (ClosureDelta α)) : List PartitionEvent :=
  (answer.map ClosureDelta.partitions).getD []

/-- Nodes that were known before a change leave their partition only if an event takes its number
out of use: for the oldest of the merged partitions, or for one of the parts of a split one. -/
structure Announces (before after : Closure α) (events : List PartitionEvent) : Prop where
  atMostOne : events.length ≤ 1
  kept : ∀ node id, before.partitionOf? node = some id → (∀ event ∈ events, id ∉ event.ended) →
    after.partitionOf? node = some id
  merged : ∀ survivor retired, .merged survivor retired ∈ events →
    (∀ id ∈ retired, survivor.index < id.index) ∧
    (∀ id, id = survivor ∨ id ∈ retired → ∃ node, before.partitionOf? node = some id) ∧
    ∀ node, ∀ id ∈ retired, before.partitionOf? node = some id →
      after.partitionOf? node = some survivor
  split : ∀ parent parts, .split parent parts ∈ events →
    ∀ node, before.partitionOf? node = some parent →
      ∃ part ∈ parts, after.partitionOf? node = some part

/-- The number has been used, but does not name a partition. -/
def Gone (closure : Closure α) (id : PartitionId) : Prop :=
  id.index < closure.partitions.next ∧ ∀ node, closure.partitionOf? node ≠ some id

variable {closure : Closure α} {source target : α} {id : PartitionId}

/-! ## One state -/

/-- There are as many partitions as components. -/
theorem Partitioned.partitionCount_eq (partitioned : closure.Partitioned) :
    closure.partitionCount = Nat.card (Quotient closure.components) := by
  have home (node : { node // node ∈ closure.nodes }) :
      ∃ id : { id // id ∈ closure.partitions.members.keys },
        closure.partitionOf? node = some id.1 := by
    obtain ⟨id, home⟩ := partitioned.exists_home node.2
    exact ⟨⟨id, partitioned.consistent.mem_keys_iff.mpr ⟨_, home⟩⟩, home⟩
  choose number numbered using home
  have together (first second : { node // node ∈ closure.nodes }) :
      number first = number second ↔ closure.Together first second := by
    rw [← partitioned.together _ first.2 _ second.2, numbered, numbered, Option.some.injEq,
      Subtype.val_inj]
  let numberOf : Quotient closure.components → { id // id ∈ closure.partitions.members.keys } :=
    Quotient.lift number fun first second => (together first second).mpr
  have bijective : Function.Bijective numberOf := by
    constructor
    · intro first second
      induction first, second using Quotient.inductionOn₂ with
      | _ first second => exact fun same => Quotient.sound ((together first second).mp same)
    · intro id
      obtain ⟨node, found⟩ := partitioned.consistent.mem_keys_iff.mp id.2
      refine ⟨.mk _ ⟨node, partitioned.known_of_home found⟩, Subtype.ext ?_⟩
      exact Option.some.inj ((numbered ⟨node, _⟩).symm.trans found)
  calc
    closure.partitionCount = closure.partitions.members.keys.length := (List.length_map _).symm
    _ = closure.partitions.members.keys.toFinset.card :=
      (List.toFinset_card_of_nodup partitioned.consistent.keys).symm
    _ = Nat.card { id // id ∈ closure.partitions.members.keys } := by
      rw [Nat.card_eq_fintype_card, Fintype.card_of_subtype _ fun _ => List.mem_toFinset]
    _ = Nat.card (Quotient closure.components) := (Nat.card_eq_of_bijective _ bijective).symm

theorem Partitioned.describesComponents (partitioned : closure.Partitioned) (exact : closure.Exact) :
    closure.DescribesComponents where
  known node := partitioned.consistent.known node List.not_mem_nil
  together := partitioned.together
  members _ _ := mem_partitionMembers partitioned.consistent
  membersOnce _ := exact.nodup.filter _
  count := partitioned.partitionCount_eq

/-! ## One change -/

theorem know_of_known {node : α} (known : node ∈ closure.nodes) : closure.know node = closure :=
  if_pos (List.contains_iff_mem.mpr known)

theorem known_of_merged (exact : closure.Exact) {event : PartitionEvent}
    (member : event ∈ (closure.insertEdge source target).2.partitions) :
    source ∈ closure.nodes ∧ target ∈ closure.nodes := by
  rw [insertEdge_eq] at member
  dsimp only at member
  split at member
  · cases member
  next absent =>
    rcases mergeCycle_cases (closure.extended source target) source target
        (((closure.know source).know target).freshPairs source target) with
      ⟨unchanged, _⟩ | ⟨_, _, _, _, _, _, crossing, back, _⟩
    · rw [unchanged] at member
      cases member
    · have joined := (exact_extended exact source target).reaches_iff.mp back
      rw [joined_add (extended_kept closure source target).2.1] at joined
      have different : target ≠ source := fun same => crossing (same ▸ rfl)
      have old : closure.Joined target source :=
        joined.elim id fun through => through.1.resolve_left different
      exact (exact.joined_known old).symm

/-- Events announce what they do to nodes that were there before. -/
theorem announces_of_renumbered {after : Closure α} {start : Partitions α}
    {events : List PartitionEvent} (renumbered : Renumbered start after.partitions events)
    (same : ∀ node id, closure.partitionOf? node = some id → start.of? node = some id)
    (old : events ≠ [] → ∀ node id, start.of? node = some id → closure.partitionOf? node = some id) :
    Announces closure after events := by
  have stays (node : α) (id : PartitionId) (here : closure.partitionOf? node = some id)
      (lasts : ∀ event ∈ events, id ∉ event.ended) : after.partitionOf? node = some id := by
    by_contra left
    obtain ⟨event, member, ended⟩ := renumbered.ended_of_left (same node id here) left
    exact lasts event member ended
  generalize final : after.partitions = partitions at renumbered
  have home (node : α) : after.partitionOf? node = partitions.of? node := by
    rw [partitionOf?, final]
  cases renumbered with
  | kept => exact ⟨Nat.zero_le _, stays, by simp, by simp⟩
  | @merged _ _ survivor retired merged =>
    have old := old (List.cons_ne_nil _ _)
    refine ⟨Nat.le_refl _, stays, fun into gone member => ?_, by simp⟩
    cases List.mem_singleton.mp member
    refine ⟨merged.oldest, fun id involved => ?_, fun node id ended here => ?_⟩
    · obtain ⟨node, _, found⟩ := (merged.involved id).mpr involved
      exact ⟨node, old node id found⟩
    · rw [home, merged.home, same node id here, Option.map_some, if_pos ended]
  | @split _ parent groups parts divided all =>
    refine ⟨Nat.le_refl _, stays, by simp, fun whole pieces member node here => ?_⟩
    cases List.mem_singleton.mp member
    obtain ⟨part, listed, there⟩ := divided.exists_part ((all node).mpr (same node _ here))
    exact ⟨part, listed, (home node).trans there⟩

theorem Partitioned.partitionOf?_know_twice (partitioned : closure.Partitioned) {node : α}
    (here : closure.partitionOf? node = some id) :
    ((closure.know source).know target).partitionOf? node = some id := by
  have known := partitioned.known_of_home here
  rw [partitionOf?_know_of_known (mem_nodes_know.mpr (.inl known)),
    partitionOf?_know_of_known known, here]

/-- A change keeps the partitions in step with the components and announces what it does to them. -/
theorem Partitioned.applyEdge (partitioned : closure.Partitioned) (exact : closure.Exact)
    (change : EdgeChange α) :
    (closure.applyEdge change).1.Partitioned ∧
      Announces closure (closure.applyEdge change).1
        (partitionEvents (closure.applyEdge change).2) := by
  cases change with
  | insert source target =>
    obtain ⟨kept, renumbered⟩ := partitioned.insertEdge exact source target
    refine ⟨kept, announces_of_renumbered renumbered (fun _ _ => partitioned.partitionOf?_know_twice)
      fun some_ node id home => ?_⟩
    obtain ⟨event, member⟩ := List.exists_mem_of_ne_nil _ some_
    obtain ⟨sourceKnown, targetKnown⟩ := known_of_merged exact member
    rw [know_of_known sourceKnown, know_of_known targetKnown] at home
    exact home
  | delete source target =>
    cases deleted : closure.deleteEdge? source target with
    | none =>
      rw [applyEdge_delete_of_none deleted]
      exact ⟨partitioned, announces_of_renumbered .kept (fun _ _ => id) fun _ _ _ => id⟩
    | some answer =>
      obtain ⟨kept, renumbered⟩ := partitioned.deleteEdge exact deleted
      rw [applyEdge_delete_of_some deleted]
      exact ⟨kept, announces_of_renumbered renumbered (fun _ _ => id) fun _ _ _ => id⟩

/-! ## Numbers out of use -/

theorem Gone.know (gone : closure.Gone id) (node : α) : (closure.know node).Gone id := by
  refine ⟨gone.1.trans_le (next_le_know closure node), fun other home => ?_⟩
  rw [partitionOf?_know] at home
  split at home
  · cases home
    exact Nat.lt_irrefl _ gone.1
  · exact gone.2 other home

theorem Gone.renumbered {after : Closure α} {events : List PartitionEvent} (gone : closure.Gone id)
    (renumbered : Renumbered closure.partitions after.partitions events) : after.Gone id := by
  refine ⟨gone.1.trans_le renumbered.next_le, fun node home => ?_⟩
  rcases renumbered.live home with ⟨other, before⟩ | fresh
  · exact gone.2 other before
  · exact absurd gone.1 (Nat.not_lt.mpr fresh)

theorem Partitioned.gone_applyEdge (partitioned : closure.Partitioned) (exact : closure.Exact)
    (gone : closure.Gone id) (change : EdgeChange α) : (closure.applyEdge change).1.Gone id := by
  cases change with
  | insert source target =>
    exact ((gone.know source).know target).renumbered (partitioned.insertEdge exact _ _).2
  | delete source target =>
    cases deleted : closure.deleteEdge? source target with
    | none => rwa [applyEdge_delete_of_none deleted]
    | some answer =>
      rw [applyEdge_delete_of_some deleted]
      exact gone.renumbered (partitioned.deleteEdge exact deleted).2

/-- The numbers that the events of a change take out of use are out of use afterwards. -/
theorem Partitioned.gone_of_ended (partitioned : closure.Partitioned) (exact : closure.Exact)
    {change : EdgeChange α} {event : PartitionEvent}
    (member : event ∈ partitionEvents (closure.applyEdge change).2) (ended : id ∈ event.ended) :
    (closure.applyEdge change).1.Gone id := by
  have gone {start : Closure α} {after : Closure α} {events : List PartitionEvent}
      (partitioned : start.Partitioned)
      (renumbered : Renumbered start.partitions after.partitions events)
      (member : event ∈ events) : after.Gone id := by
    obtain ⟨⟨node, home⟩, free⟩ := renumbered.ended partitioned.consistent member ended
    exact ⟨(partitioned.consistent.issued node id home).trans_le renumbered.next_le, free⟩
  cases change with
  | insert source target =>
    have known := (partitioned.know exact source).know (exact.know source) target
    exact gone known (partitioned.insertEdge exact source target).2 member
  | delete source target =>
    cases deleted : closure.deleteEdge? source target with
    | none =>
      rw [applyEdge_delete_of_none deleted] at member
      cases member
    | some answer =>
      rw [applyEdge_delete_of_some deleted] at member ⊢
      exact gone partitioned (partitioned.deleteEdge exact deleted).2 member

/-! ## Histories -/

theorem partitioned_foldl (partitioned : closure.Partitioned) (exact : closure.Exact)
    (history : List (EdgeChange α)) :
    (history.foldl (fun closure change => (closure.applyEdge change).1) closure).Partitioned := by
  induction history generalizing closure with
  | nil => exact partitioned
  | cons change rest ih => exact ih (partitioned.applyEdge exact change).1 (exact.applyEdge change).1

theorem partitioned_afterHistory (history : List (EdgeChange α)) :
    (afterHistory history).Partitioned :=
  partitioned_foldl partitioned_empty exact_empty history

theorem gone_foldl (partitioned : closure.Partitioned) (exact : closure.Exact)
    (gone : closure.Gone id) (history : List (EdgeChange α)) :
    (history.foldl (fun closure change => (closure.applyEdge change).1) closure).Gone id := by
  induction history generalizing closure with
  | nil => exact gone
  | cons change rest ih =>
    exact ih (partitioned.applyEdge exact change).1 (exact.applyEdge change).1
      (partitioned.gone_applyEdge exact gone change)

/-- After any history, the partitions are the strongly connected components, each once.  Any further
change moves nodes to other partitions just as its events say, and a number that one of them takes
out of use names no partition however the history goes on. -/
theorem history_components (past : List (EdgeChange α)) (change : EdgeChange α) :
    (afterHistory past).DescribesComponents ∧
    Announces (afterHistory past) ((afterHistory past).applyEdge change).1
      (partitionEvents ((afterHistory past).applyEdge change).2) ∧
    ∀ event ∈ partitionEvents ((afterHistory past).applyEdge change).2, ∀ id ∈ event.ended,
      ∀ later : List (EdgeChange α),
        (afterHistory (past ++ change :: later)).partitionMembers id = [] ∧
        ∀ node, (afterHistory (past ++ change :: later)).partitionOf? node ≠ some id := by
  have exact := exact_afterHistory past
  have partitioned := partitioned_afterHistory past
  refine ⟨partitioned.describesComponents exact, (partitioned.applyEdge exact change).2,
    fun event member id ended later => ?_⟩
  have gone := partitioned.gone_of_ended exact member ended
  have stays := gone_foldl (partitioned.applyEdge exact change).1 (exact.applyEdge change).1 gone
    later
  have final : afterHistory (past ++ change :: later) =
      later.foldl (fun closure change => (closure.applyEdge change).1)
        ((afterHistory past).applyEdge change).1 := by
    rw [afterHistory, List.foldl_append, List.foldl_cons, ← afterHistory]
  rw [← final] at stays
  refine ⟨List.eq_nil_iff_forall_not_mem.mpr fun node listed => ?_, stays.2⟩
  rw [mem_partitionMembers (partitioned_afterHistory _).consistent] at listed
  exact stays.2 node listed

/-- Closing a cycle of three nodes retires the numbers of two of them for good. -/
theorem retired_of_cycle :
    let past : List (EdgeChange Nat) := [.insert 0 1, .insert 1 2]
    .merged ⟨0⟩ [⟨1⟩, ⟨2⟩] ∈ partitionEvents ((afterHistory past).applyEdge (.insert 2 0)).2 ∧
    ⟨2⟩ ∈ (PartitionEvent.merged ⟨0⟩ [⟨1⟩, ⟨2⟩]).ended ∧
    (afterHistory (past ++ .insert 2 0 :: [.delete 1 2])).partitionMembers ⟨2⟩ = [] := by
  intro past
  have reported : .merged ⟨0⟩ [⟨1⟩, ⟨2⟩] ∈
      partitionEvents ((afterHistory past).applyEdge (.insert 2 0)).2 := by decide +kernel
  have ended : ⟨2⟩ ∈ (PartitionEvent.merged ⟨0⟩ [⟨1⟩, ⟨2⟩]).ended := by decide
  exact ⟨reported, ended,
    ((history_components past (.insert 2 0)).2.2 _ reported _ ended [.delete 1 2]).1⟩

end LiveQuery.Closure
