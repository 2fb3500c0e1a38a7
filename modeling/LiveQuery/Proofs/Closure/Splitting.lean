import LiveQuery.Proofs.Closure.Renumbering

/-!
# Splitting partitions

An edge that is gone can only have held its own component together: seen from the edges that are
left, the old edges are those and one more (`together_shrunk`).

* Another occurrence of the edge is left, or its ends were in two partitions: nothing has fallen
  apart (`together_of_unsplit`).
* Otherwise the components of the graph that the members of the partition induce are computed.  A
  component stays one in that graph, so they are the components of all nodes
  (`components_of_partition`).  With one component nothing is split; with several of them, they
  become the parts (`together_of_split`).

Either way a deletion keeps partitions and components in step (`Partitioned.deleteEdge`).
-/

namespace LiveQuery.Closure

variable {α : Type} [DecidableEq α] {closure : Closure α} {source target node : α}

/-! ## Parts -/

theorem mem_partitionMembers (consistent : closure.partitions.Consistent closure.nodes [])
    {id : PartitionId} :
    node ∈ closure.partitionMembers id ↔ closure.partitionOf? node = some id := by
  simp only [partitionMembers, List.mem_filter, List.contains_iff_mem, consistent.listed,
    List.not_mem_nil, not_false_eq_true, and_true]
  exact and_iff_right_of_imp fun home => (consistent.known node List.not_mem_nil).mp ⟨id, home⟩

/-- A partition is split if the deleted edge ran inside it and it has fallen apart. -/
theorem splitApart_cases (closure : Closure α) (source target : α) :
    (closure.splitApart source target = (closure, [], []) ∧
      ∀ id, closure.partitionOf? source = some id → closure.partitionOf? target = some id →
        source = target ∨ ∀ groups,
          closure.edges.components? (closure.partitionMembers id) = some groups →
            groups.length ≤ 1) ∨
    ∃ id groups partitions parts rekeyed events, closure.partitionOf? source = some id ∧
      closure.edges.components? (closure.partitionMembers id) = some groups ∧
      closure.partitions.split id groups = (partitions, parts) ∧
      { closure with partitions }.rekey (closure.partitionMembers id)
        (.tabulate (fun _ => some id) (closure.partitionMembers id)) [] = (rekeyed, events) ∧
      closure.splitApart source target = (rekeyed, [.split id parts], events) := by
  unfold splitApart
  dsimp only
  split
  next homeless => exact .inl ⟨rfl, fun id home => by simp [homeless] at home⟩
  next id home =>
    split
    next inside =>
      split
      next first second rest found =>
        exact .inr ⟨id, _, _, _, _, _, home, found, rfl, rfl, rfl⟩
      next whole =>
        refine .inl ⟨rfl, fun other same _ => .inr fun groups found => ?_⟩
        obtain rfl := Option.some.inj (home.symm.trans same)
        rcases groups with _ | ⟨first, _ | ⟨second, rest⟩⟩
        · simp
        · simp
        · exact (whole first second rest found).elim
    next outside =>
      refine .inl ⟨rfl, fun other same there => .inl ?_⟩
      obtain rfl := Option.some.inj (home.symm.trans same)
      by_contra different
      simp [there, different] at outside

/-! ## Deletions -/

/-- The closure after the last occurrence of an edge has been deleted and the lost pairs have been
given up with their witnesses. -/
def shrunk (closure : Closure α) (source target : α) : Closure α :=
  { (closure.lostPairs source target).foldl unlinkBack (closure.recomputed source target) with
    witnesses := (closure.witnesses.lose
      ((closure.lostPairs source target).filterMap (witnessed closure.partitionOf?))).1 }

theorem shrunk_kept (closure : Closure α) (source target : α) :
    (closure.shrunk source target).nodes = closure.nodes ∧
      (closure.shrunk source target).edges = closure.edges.erase (source, target) ∧
      (closure.shrunk source target).partitions = closure.partitions := by
  refine ⟨(foldl_unlinkBack _ _).1.trans (foldl_recompute _ _).1,
    (foldl_unlinkBack _ _).2.1.trans (foldl_recompute _ _).2.1, ?_⟩
  refine (kept_foldl partitions ?_ _ _).trans (kept_foldl partitions ?_ _ _)
  · exact fun _ _ => rfl
  · exact fun _ _ => rfl

theorem exact_shrunk (exact : closure.Exact) (known : source ∈ closure.nodes) (target : α) :
    (closure.shrunk source target).Exact :=
  (exact.unlinkLost known).congr ⟨rfl, rfl, rfl, rfl⟩

/-- A deletion needs an edge, and only counts one of several.  Otherwise it shrinks the closure and
splits a partition. -/
theorem deleteEdge?_eq (closure : Closure α) (source target : α) :
    let lost := closure.lostPairs source target
    let given := closure.witnesses.lose (lost.filterMap (witnessed closure.partitionOf?))
    let split := (closure.shrunk source target).splitApart source target
    closure.deleteEdge? source target =
      if (source, target) ∉ closure.edges.occurrences then none
      else if (source, target) ∈ (closure.discounted source target).edges.occurrences then
        some (closure.discounted source target, {})
      else some (split.1,
        { disappeared := lost
          partitions := split.2.1
          reachability := given.2 ++ split.2.2 }) := by
  intro lost given split
  have present := @Bag.contains_iff _ _ closure.edges.toBag (source, target)
  have remains := @Bag.contains_iff _ _ (closure.edges.erase (source, target)).toBag (source, target)
  unfold deleteEdge?
  simp only [Bool.not_eq_true', ← Bool.not_eq_true, present, remains]
  split
  · rfl
  · by_cases more : (source, target) ∈ (closure.discounted source target).edges.occurrences
    · rw [if_pos more]
      exact if_pos more
    · rw [if_neg more]
      exact if_neg more

theorem together_shrunk (present : (source, target) ∈ closure.edges.occurrences)
    (first second : α) : closure.Together first second ↔
      Reach.Together ((source, target) :: (closure.shrunk source target).edges.occurrences)
        first second := by
  refine Reach.together_congr fun edge => ?_
  rw [(shrunk_kept closure source target).2.1, List.mem_cons]
  by_cases same : edge = (source, target)
  · simp [same, present]
  · simp [same, Bag.mem_erase_of_ne same]

/-- The groups of a partition that is to be split are the components that it consists of. -/
theorem components_of_partition (partitioned : closure.Partitioned) (exact : closure.Exact)
    (present : (source, target) ∈ closure.edges.occurrences) (id : PartitionId) :
    ∃ groups, (closure.shrunk source target).edges.components?
        ((closure.shrunk source target).partitionMembers id) = some groups ∧
      (∀ group ∈ groups, group ≠ []) ∧ groups.flatten.Nodup ∧
      (∀ node, node ∈ groups.flatten ↔ closure.partitionOf? node = some id) ∧
      ∀ group ∈ groups, ∀ first ∈ group, ∀ second,
        second ∈ group ↔ (closure.shrunk source target).Together first second := by
  obtain ⟨nodes, edges, partitions⟩ := shrunk_kept closure source target
  have members : (closure.shrunk source target).partitionMembers id =
      closure.partitionMembers id := by
    rw [partitionMembers, nodes, partitions, partitionMembers]
  have nodup : ((closure.shrunk source target).partitionMembers id).Nodup := by
    rw [members]
    exact exact.nodup.filter _
  -- a component of the fewer edges lies within a component of the many
  have closed : ∀ first ∈ (closure.shrunk source target).partitionMembers id, ∀ second,
      (closure.shrunk source target).Together first second →
        second ∈ (closure.shrunk source target).partitionMembers id := by
    intro first member second here
    rw [members, mem_partitionMembers partitioned.consistent] at member ⊢
    have before : closure.Together first second :=
      (together_shrunk present first second).mpr (here.mono fun _ => List.mem_cons_of_mem _)
    have firstKnown := partitioned.known_of_home member
    rw [← (partitioned.together _ firstKnown _ (before.known exact firstKnown)).mpr before]
    exact member
  have exactShrunk := exact_shrunk exact (exact.known _ present).1 target
  obtain ⟨groups, found, components⟩ := exactShrunk.indexed.exists_components nodup
  refine ⟨groups, found, components.inhabited, components.covers.nodup_iff.mpr nodup,
    fun node => ?_, fun group member first inside second => components.mem_iff closed member inside⟩
  rw [components.covers.mem_iff, members, mem_partitionMembers partitioned.consistent]

theorem together_of_unsplit (partitioned : closure.Partitioned) (exact : closure.Exact)
    (present : (source, target) ∈ closure.edges.occurrences)
    (unsplit : ∀ id, closure.partitionOf? source = some id → closure.partitionOf? target = some id →
      source = target ∨ ∀ groups, (closure.shrunk source target).edges.components?
        ((closure.shrunk source target).partitionMembers id) = some groups → groups.length ≤ 1)
    (first second : α) :
    (closure.shrunk source target).Together first second ↔ closure.Together first second := by
  obtain ⟨sourceKnown, targetKnown⟩ := exact.known _ present
  rw [together_shrunk present]
  by_cases ends : closure.Together source target
  · have stays : (closure.shrunk source target).Together source target := by
      obtain ⟨id, home⟩ := partitioned.exists_home sourceKnown
      have sameHome := (partitioned.together _ sourceKnown _ targetKnown).mpr ends
      rcases unsplit id home (sameHome ▸ home) with same | whole
      · exact .inl same
      · -- both ends are in the only group
        obtain ⟨groups, found, _, _, all, components⟩ :=
          components_of_partition partitioned exact present id
        obtain ⟨one, oneMember, sourceInside⟩ := List.mem_flatten.mp ((all source).mpr home)
        obtain ⟨other, otherMember, targetInside⟩ :=
          List.mem_flatten.mp ((all target).mpr (sameHome ▸ home))
        have single : one = other := by
          match groups, whole groups found with
          | [only], _ =>
            rw [List.mem_singleton] at oneMember otherMember
            exact oneMember.trans otherMember.symm
        exact (components one oneMember source sourceInside target).mp (single ▸ targetInside)
    exact (Reach.together_cons_of_together stays).symm
  · have apart := ends ∘ (together_shrunk present source target).mpr
    exact (Reach.together_cons_of_apart apart).symm

/-- Splitting a partition into its components separates the right nodes. -/
theorem together_of_split {partitions : Partitions α} {parts : List PartitionId} {id : PartitionId}
    {groups : List (List α)} (partitioned : closure.Partitioned) (exact : closure.Exact)
    (present : (source, target) ∈ closure.edges.occurrences)
    (home : closure.partitionOf? source = some id)
    (found : (closure.shrunk source target).edges.components?
      ((closure.shrunk source target).partitionMembers id) = some groups)
    (divided : Partitions.Divided closure.partitions partitions groups parts)
    {first second : α} (firstKnown : first ∈ closure.nodes) (secondKnown : second ∈ closure.nodes) :
    partitions.of? first = partitions.of? second ↔
      (closure.shrunk source target).Together first second := by
  obtain ⟨sourceKnown, _⟩ := exact.known _ present
  obtain ⟨_, same, _, _, all, components⟩ := components_of_partition partitioned exact present id
  obtain rfl := Option.some.inj (found.symm.trans same)
  have inGroup {one other : α} (inside : closure.partitionOf? one = some id) :
      partitions.of? other = partitions.of? one ↔
        (closure.shrunk source target).Together one other := by
    obtain ⟨group, member, here⟩ := List.mem_flatten.mp ((all one).mpr inside)
    exact (divided.same_iff member here).trans (components group member one here other)
  by_cases firstInside : closure.partitionOf? first = some id
  · rw [eq_comm]
    exact inGroup firstInside
  by_cases secondInside : closure.partitionOf? second = some id
  · exact (inGroup secondInside).trans ⟨Reach.Together.symm, Reach.Together.symm⟩
  -- elsewhere neither partitions nor components have changed
  rw [divided.others first (mt (all first).mp firstInside),
    divided.others second (mt (all second).mp secondInside)]
  refine (partitioned.together first firstKnown second secondKnown).trans ?_
  rw [together_shrunk present, Reach.together_cons, or_iff_left]
  · rfl
  rintro ⟨through, _⟩
  have together := (together_shrunk present first source).mpr (through.together List.mem_cons_self)
  exact firstInside (((partitioned.together _ firstKnown _ sourceKnown).mpr together).trans home)

theorem Partitioned.deleteEdge (partitioned : closure.Partitioned) (exact : closure.Exact)
    {after : Closure α} {delta : ClosureDelta α}
    (deleted : closure.deleteEdge? source target = some (after, delta)) :
    after.Partitioned ∧ Renumbered closure.partitions after.partitions delta.partitions := by
  rw [deleteEdge?_eq] at deleted
  split at deleted
  · cases deleted
  next present =>
    have present := not_not.mp present
    split at deleted
    next more =>
      cases deleted
      refine ⟨partitioned.congr rfl rfl fun first second => ?_, .kept⟩
      refine Reach.together_congr fun edge => ?_
      by_cases same : edge = (source, target)
      · exact same ▸ iff_of_true more present
      · exact Bag.mem_erase_of_ne same
    next last =>
      obtain ⟨nodes, edges, partitions⟩ := shrunk_kept closure source target
      have sameHome (node : α) : (closure.shrunk source target).partitionOf? node =
          closure.partitionOf? node := by
        rw [partitionOf?, partitions, partitionOf?]
      rcases splitApart_cases (closure.shrunk source target) source target with
        ⟨unchanged, unsplit⟩ |
        ⟨id, groups, divided, parts, rekeyed, _, home, found, split, recounted, changed⟩
      · simp only [sameHome] at unsplit
        have together := together_of_unsplit partitioned exact present unsplit
        rw [unchanged] at deleted
        cases deleted
        exact ⟨partitioned.congr nodes partitions together, partitions.symm ▸ .kept⟩
      · rw [changed] at deleted
        cases deleted
        rw [sameHome] at home
        obtain ⟨_, same, some_, once, all, _⟩ :=
          components_of_partition partitioned exact present id
        obtain rfl := Option.some.inj (found.symm.trans same)
        have spec := Partitions.split_spec partitioned.consistent some_ once all
        rw [partitions] at split
        rw [split] at spec
        obtain ⟨consistent, spec⟩ := spec
        obtain ⟨_, rfl⟩ := eq_of_rekey recounted
        refine ⟨⟨nodes.symm ▸ consistent, fun first firstKnown second secondKnown => ?_⟩,
          .split spec all ⟨source, home⟩⟩
        have firstKnown : first ∈ (closure.shrunk source target).nodes := firstKnown
        have secondKnown : second ∈ (closure.shrunk source target).nodes := secondKnown
        rw [nodes] at firstKnown secondKnown
        exact together_of_split partitioned exact present home found spec firstKnown secondKnown

end LiveQuery.Closure
