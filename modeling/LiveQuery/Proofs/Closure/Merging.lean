import LiveQuery.Proofs.Closure.Renumbering

/-!
# Merging partitions

An edge that is new brings the nodes on the cycles that it closes together, and no others
(`together_cons`).  An insertion extends the tables first, and then looks for these nodes among the
ancestors of the source and the descendants of the target (`Closure.cycle`).

* The ends were in one partition, or the target does not reach the source: nothing is merged, and
  nothing has come together (`together_of_unmerged`).
* Otherwise the partitions of the nodes on the cycles are merged.  They consist of such nodes only
  (`mem_cycle_of_same_home`), so the merge unites just the right nodes (`together_of_merged`).

Either way an insertion keeps partitions and components in step (`Partitioned.insertEdge`).
-/

namespace LiveQuery.Closure

variable {α : Type} [DecidableEq α] {closure : Closure α} {source target node : α}

/-! ## The cycles of an edge -/

/-- The nodes on the cycles through an edge. -/
def cycle (closure : Closure α) (source target : α) : List α :=
  (closure.descendants target).filter (closure.ancestors source).contains

theorem mem_cycle (exact : closure.Exact) (sourceKnown : source ∈ closure.nodes)
    (targetKnown : target ∈ closure.nodes) :
    node ∈ closure.cycle source target ↔
      Reach.ClosesThrough closure.edges.occurrences source target node := by
  simp only [cycle, List.mem_filter, List.contains_iff_mem, exact.mem_ancestors sourceKnown,
    exact.mem_descendants targetKnown]
  rfl

/-- A merge happens if the ends of an edge are in different partitions, its target reaches its
source, and the partitions agree that there is something to merge. -/
theorem mergeCycle_cases (closure : Closure α) (source target : α) (fresh : List (α × α)) :
    (closure.mergeCycle source target fresh = (closure, [], []) ∧
      (closure.partitionOf? source = closure.partitionOf? target ∨
        closure.reaches target source = false ∨
        closure.partitions.merge? (closure.cycle source target) = none)) ∨
    ∃ partitions survivor retired moved rekeyed events,
      closure.partitionOf? source ≠ closure.partitionOf? target ∧
      closure.reaches target source = true ∧
      closure.partitions.merge? (closure.cycle source target) =
        some (partitions, survivor, retired, moved) ∧
      { closure with partitions }.rekey moved
        (.tabulate closure.partitionOf? (closure.cycle source target)) fresh = (rekeyed, events) ∧
      closure.mergeCycle source target fresh =
        (rekeyed, [.merged survivor retired], events) := by
  unfold mergeCycle
  dsimp only
  split
  next closes =>
    obtain ⟨crossing, back⟩ := Bool.and_eq_true_iff.mp closes
    split
    next unmerged => exact .inl ⟨rfl, .inr (.inr unmerged)⟩
    next merged =>
      exact .inr ⟨_, _, _, _, _, _, of_decide_eq_true crossing, back, merged, rfl, rfl⟩
  next opens =>
    refine .inl ⟨rfl, ?_⟩
    by_contra other
    simp only [not_or, Bool.not_eq_false] at other
    exact opens (Bool.and_eq_true_iff.mpr ⟨decide_eq_true other.1, other.2.1⟩)

/-- The nodes on the cycles that an edge closes are whole partitions. -/
theorem mem_cycle_of_same_home {grown : Closure α} (partitioned : closure.Partitioned)
    (edges : grown.edges = closure.edges.add (source, target))
    (cycle : ∀ node, node ∈ grown.cycle source target ↔
      Reach.ClosesThrough grown.edges.occurrences source target node)
    {other : α} {id : PartitionId} (member : other ∈ grown.cycle source target)
    (otherHome : closure.partitionOf? other = some id) (home : closure.partitionOf? node = some id) :
    node ∈ grown.cycle source target := by
  have known := partitioned.known_of_home home
  have otherKnown := partitioned.known_of_home otherHome
  have together : closure.Together other node :=
    (partitioned.together other otherKnown node known).mp (otherHome.trans home.symm)
  refine (cycle node).mpr (((cycle other).mp member).congr (together.mono ?_))
  rw [edges]
  exact fun _ => List.mem_cons_of_mem _

theorem together_of_merged {grown : Closure α} {partitions : Partitions α} {survivor : PartitionId}
    {retired : List PartitionId} (partitioned : closure.Partitioned)
    (edges : grown.edges = closure.edges.add (source, target))
    (merged : Partitions.Merged closure.partitions partitions (grown.cycle source target) survivor
      retired)
    (cycle : ∀ node, node ∈ grown.cycle source target ↔
      Reach.ClosesThrough grown.edges.occurrences source target node)
    {first second : α} (firstKnown : first ∈ closure.nodes) (secondKnown : second ∈ closure.nodes) :
    partitions.of? first = partitions.of? second ↔ grown.Together first second := by
  -- the merged partitions are those of the nodes on the cycles
  have involved {node : α} {id : PartitionId} (home : closure.partitionOf? node = some id) :
      (id = survivor ∨ id ∈ retired) ↔
        Reach.ClosesThrough grown.edges.occurrences source target node := by
    rw [← merged.involved, ← cycle]
    constructor
    · rintro ⟨other, member, otherHome⟩
      exact mem_cycle_of_same_home partitioned edges cycle member otherHome home
    · exact fun member => ⟨node, member, home⟩
  obtain ⟨one, firstHome⟩ := partitioned.exists_home firstKnown
  obtain ⟨other, secondHome⟩ := partitioned.exists_home secondKnown
  have old := partitioned.together first firstKnown second secondKnown
  have new : grown.Together first second ↔ closure.Together first second ∨
      Reach.ClosesThrough grown.edges.occurrences source target first ∧
        Reach.ClosesThrough grown.edges.occurrences source target second := by
    rw [Together, edges]
    exact Reach.together_cons
  rw [new, ← old, ← involved firstHome, ← involved secondHome, merged.home, merged.home]
  rw [show closure.partitions.of? first = some one from firstHome,
    show closure.partitions.of? second = some other from secondHome, firstHome, secondHome]
  simp only [Option.map_some, Option.some.injEq]
  grind

/-- If no partitions are merged, the new edge unites no nodes. -/
theorem together_of_unmerged {grown : Closure α} (partitioned : closure.Partitioned)
    (grownExact : grown.Exact) (edges : grown.edges = closure.edges.add (source, target))
    (sourceKnown : source ∈ closure.nodes) (targetKnown : target ∈ closure.nodes)
    (nodes : grown.nodes = closure.nodes) (partitions : grown.partitions = closure.partitions)
    (unmerged : grown.partitionOf? source = grown.partitionOf? target ∨
      grown.reaches target source = false ∨
      grown.partitions.merge? (grown.cycle source target) = none)
    (first second : α) : grown.Together first second ↔ closure.Together first second := by
  have home (node : α) : grown.partitionOf? node = closure.partitionOf? node := by
    rw [partitionOf?, partitions, partitionOf?]
  simp only [Together, edges]
  by_cases ends : closure.Together source target
  · exact Reach.together_cons_of_together ends
  refine Reach.together_cons_of_apart fun together => ?_
  have apart : ¬grown.partitionOf? source = grown.partitionOf? target := by
    rw [home, home]
    exact fun same => ends ((partitioned.together _ sourceKnown _ targetKnown).mp same)
  have back : grown.Joined target source := by
    rcases together with same | ⟨_, back⟩
    · exact absurd (congrArg _ same) apart
    · rw [Joined, edges]
      exact back
  rcases unmerged with same | unreached | shared
  · exact apart same
  · rw [grownExact.reaches_iff.mpr back] at unreached
    cases unreached
  · -- both ends are on the cycle
    obtain ⟨one, sourceHome⟩ := partitioned.exists_home sourceKnown
    obtain ⟨other, targetHome⟩ := partitioned.exists_home targetKnown
    rw [← home] at sourceHome targetHome
    have member := @mem_cycle _ _ grown source target
    have same : one = other := Partitions.eq_of_merge?_eq_none shared
      ((member grownExact (nodes ▸ sourceKnown) (nodes ▸ targetKnown)).mpr ⟨.inr back, .inl rfl⟩)
      ((member grownExact (nodes ▸ sourceKnown) (nodes ▸ targetKnown)).mpr ⟨.inl rfl, .inr back⟩)
      sourceHome targetHome
    exact apart (by rw [sourceHome, targetHome, same])

/-! ## Insertions -/

/-- The closure after a new edge has been counted and the pairs that it joins have been linked. -/
def extended (closure : Closure α) (source target : α) : Closure α :=
  (((closure.know source).know target).freshPairs source target).foldl link
    (closure.counted source target)

theorem extended_kept (closure : Closure α) (source target : α) :
    (closure.extended source target).nodes = ((closure.know source).know target).nodes ∧
      (closure.extended source target).edges = closure.edges.add (source, target) ∧
      (closure.extended source target).partitions =
        ((closure.know source).know target).partitions ∧
      (closure.extended source target).witnesses =
        ((closure.know source).know target).witnesses := by
  refine ⟨(foldl_link _ _).1, (foldl_link _ _).2.1.trans ?_, kept_foldl partitions ?_ _ _,
    kept_foldl witnesses ?_ _ _⟩
  · simp [counted, edges_know]
  · exact fun _ _ => rfl
  · exact fun _ _ => rfl

theorem exact_extended (exact : closure.Exact) (source target : α) :
    (closure.extended source target).Exact :=
  ((exact.know source).know target).linkFresh (by simp [mem_nodes_know]) (by simp [mem_nodes_know])

theorem partitionOf?_extended (closure : Closure α) (source target : α) :
    (closure.extended source target).partitionOf? =
      ((closure.know source).know target).partitionOf? :=
  congrArg Partitions.of? (extended_kept closure source target).2.2.1

theorem mem_cycle_extended (exact : closure.Exact) :
    node ∈ (closure.extended source target).cycle source target ↔
      Reach.ClosesThrough (closure.extended source target).edges.occurrences source target node := by
  obtain ⟨nodes, _⟩ := extended_kept closure source target
  exact mem_cycle (exact_extended exact source target) (by simp [nodes, mem_nodes_know])
    (by simp [nodes, mem_nodes_know])

/-- An insertion only counts an edge that is there already.  Otherwise it extends the closure,
merges partitions, and counts the witnesses of the fresh pairs. -/
theorem insertEdge_eq (closure : Closure α) (source target : α) :
    let fresh := ((closure.know source).know target).freshPairs source target
    let merged := (closure.extended source target).mergeCycle source target fresh
    let gained := merged.1.witnesses.gain (fresh.filterMap (witnessed merged.1.partitionOf?))
    closure.insertEdge source target =
      if (source, target) ∈ closure.edges.occurrences then (closure.counted source target, {})
      else ({ merged.1 with witnesses := gained.1 },
        { appeared := fresh
          partitions := merged.2.1
          reachability := merged.2.2 ++ gained.2 }) := by
  intro fresh merged gained
  have present : ((closure.know source).know target).edges.contains (source, target) = true ↔
      (source, target) ∈ closure.edges.occurrences := by
    rw [Bag.contains_iff, edges_know, edges_know]
  unfold insertEdge
  dsimp only
  split
  next here => rw [if_pos (present.mp here)]; rfl
  next absent => rw [if_neg (absent ∘ present.mpr)]; rfl

theorem Partitioned.insertEdge (partitioned : closure.Partitioned) (exact : closure.Exact)
    (source target : α) :
    (closure.insertEdge source target).1.Partitioned ∧
      Renumbered ((closure.know source).know target).partitions
        (closure.insertEdge source target).1.partitions
        (closure.insertEdge source target).2.partitions := by
  have known := (partitioned.know exact source).know (exact.know source) target
  have sourceKnown : source ∈ ((closure.know source).know target).nodes := by
    simp [mem_nodes_know]
  have targetKnown : target ∈ ((closure.know source).know target).nodes := by
    simp [mem_nodes_know]
  have sameEdges : ((closure.know source).know target).edges = closure.edges := by
    simp [edges_know]
  rw [insertEdge_eq]
  dsimp only
  split
  next present =>
    refine ⟨known.congr rfl rfl fun first second => ?_, .kept⟩
    refine Reach.together_congr fun edge => ?_
    simp only [counted, sameEdges, EdgeGraph.toBag_add, Bag.add, List.mem_cons, or_iff_right_iff_imp]
    exact fun same => same ▸ present
  next absent =>
    obtain ⟨nodes, edges, partitions, _⟩ := extended_kept closure source target
    have grownExact := exact_extended exact source target
    rw [← sameEdges] at edges
    rcases mergeCycle_cases (closure.extended source target) source target
        (((closure.know source).know target).freshPairs source target) with
      ⟨unchanged, unmerged⟩ | ⟨united, _, _, _, rekeyed, _, _, _, merged, recounted, changed⟩
    · have together := together_of_unmerged known grownExact edges sourceKnown targetKnown nodes
        partitions unmerged
      rw [unchanged, ← partitions]
      exact ⟨known.congr nodes partitions together, .kept⟩
    · obtain ⟨consistent, spec, _⟩ :=
        Partitions.merge?_spec (nodes.symm ▸ partitions.symm ▸ known.consistent) merged
      rw [partitions] at spec
      rw [changed]
      obtain ⟨_, rfl⟩ := eq_of_rekey recounted
      refine ⟨⟨consistent, fun first firstKnown second secondKnown => ?_⟩, .merged spec⟩
      have firstKnown : first ∈ (closure.extended source target).nodes := firstKnown
      have secondKnown : second ∈ (closure.extended source target).nodes := secondKnown
      rw [nodes] at firstKnown secondKnown
      exact together_of_merged known edges spec (fun _ => mem_cycle_extended exact) firstKnown
        secondKnown

end LiveQuery.Closure
