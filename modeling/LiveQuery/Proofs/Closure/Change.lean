import Mathlib.Data.List.ProdSigma
import LiveQuery.Proofs.Closure.Exact

/-!
# Changes keep the closure exact

An insertion of a new edge links the pairs that become joined.  A path that is new runs through the
edge (`joined_add`), so these pairs lead from the ancestors of the source to the descendants of the
target, the ends included, as far as they were not joined before (`mem_freshPairs`,
`Exact.linkFresh`, `exact_insertEdge`).

A deletion of the last occurrence of an edge computes the rows of the ancestors of the source anew.
The row of any other node is still right, because its paths never came to the edge
(`joined_discounted_of_apart`).  What the new rows lack of the old ones is lost (`mem_lostPairs`),
and taking it out of the backward direction makes the two directions mirror each other again
(`Exact.unlinkLost`, `exact_deleteEdge`).

Either way the delta lists exactly the pairs that changed, each once.  Further occurrences of an
edge change nothing but its multiplicity.
-/

namespace LiveQuery.Closure

variable {α : Type} [DecidableEq α]

/-! ## Insertion -/

/-- The closure after two nodes have become known and an edge between them has been counted. -/
def counted (closure : Closure α) (source target : α) : Closure α :=
  let known := (closure.know source).know target
  { known with edges := known.edges.add (source, target) }

/-- The pairs from the ancestors of a source to the descendants of a target that are not joined
yet. -/
def freshPairs (closure : Closure α) (source target : α) : List (α × α) :=
  ((closure.ancestors source).flatMap fun first =>
    (closure.descendants target).map (first, ·)).filter fun pair =>
      !closure.reaches pair.1 pair.2

theorem mem_freshPairs {closure : Closure α} (exact : closure.Exact) {source target : α}
    (sourceKnown : source ∈ closure.nodes) (targetKnown : target ∈ closure.nodes) {first last : α} :
    (first, last) ∈ closure.freshPairs source target ↔
      ((first = source ∨ closure.Joined first source) ∧
        (last = target ∨ closure.Joined target last)) ∧ ¬closure.Joined first last := by
  simp only [freshPairs, List.mem_filter, List.mem_flatMap, List.mem_map, Prod.mk.injEq,
    exact.mem_ancestors sourceKnown, exact.mem_descendants targetKnown, Bool.not_eq_true',
    ← Bool.not_eq_true, exact.reaches_iff]
  constructor
  · intro found
    obtain ⟨⟨_, before, _, behind, rfl, rfl⟩, apart⟩ := found
    exact ⟨⟨before, behind⟩, apart⟩
  · intro found
    obtain ⟨⟨before, behind⟩, apart⟩ := found
    exact ⟨⟨first, before, last, behind, rfl, rfl⟩, apart⟩

theorem nodup_freshPairs {closure : Closure α} (exact : closure.Exact) (source target : α) :
    (closure.freshPairs source target).Nodup := by
  have product := (exact.nodup.filter fun other =>
    other = source || (closure.reaching source).contains other).product
      (exact.nodup.filter fun other => other = target || closure.reaches target other)
  exact product.filter _

theorem joined_add {closure grown : Closure α} {source target : α}
    (edges : grown.edges = closure.edges.add (source, target)) {first last : α} :
    grown.Joined first last ↔ closure.Joined first last ∨
      (first = source ∨ closure.Joined first source) ∧
        (last = target ∨ closure.Joined target last) := by
  rw [Joined, edges]
  exact Reach.path_cons

/-- Linking the fresh pairs makes the tables exact for one more edge. -/
theorem Exact.linkFresh {closure : Closure α} (exact : closure.Exact) {source target : α}
    (sourceKnown : source ∈ closure.nodes) (targetKnown : target ∈ closure.nodes) :
    ((closure.freshPairs source target).foldl link
      { closure with edges := closure.edges.add (source, target) }).Exact := by
  set counted : Closure α := { closure with edges := closure.edges.add (source, target) }
  obtain ⟨nodes, edges, tables⟩ := foldl_link (closure.freshPairs source target) counted
  have paths : ∀ first last, counted.Joined first last ↔
      closure.Joined first last ∨ (first, last) ∈ closure.freshPairs source target := by
    intro first last
    rw [mem_freshPairs exact sourceKnown targetKnown, joined_add (rfl : counted.edges = _)]
    by_cases joined : closure.Joined first last <;> simp [joined]
  refine ⟨nodes ▸ exact.nodup, ?_, ?_, fun first last => ?_, fun first last => ?_⟩
  · rw [edges]
    exact exact.indexed.add (source, target)
  · rw [nodes, edges]
    intro edge member
    rcases List.mem_cons.mp member with rfl | member
    · exact ⟨sourceKnown, targetKnown⟩
    · exact exact.known edge member
  · rw [(tables first last).1, Joined, edges, ← Joined, paths]
    exact or_congr (exact.forward first last) Iff.rfl
  · rw [(tables first last).2, Joined, edges, ← Joined, paths]
    exact or_congr (exact.backward first last) Iff.rfl

/-- What an insertion does to the tables: they stay if the edge was there, and otherwise the fresh
pairs are linked. -/
theorem insertEdge_paths (closure : Closure α) (source target : α) :
    let known := (closure.know source).know target
    let inserted := closure.insertEdge source target
    if (source, target) ∈ closure.edges.occurrences
    then inserted = (closure.counted source target, {})
    else SamePaths ((known.freshPairs source target).foldl link (closure.counted source target))
        inserted.1 ∧
      inserted.2.appeared = known.freshPairs source target ∧ inserted.2.disappeared = [] := by
  intro known inserted
  have edges : known.edges = closure.edges := by simp [known, edges_know]
  split
  next present =>
    have present : known.edges.contains (source, target) = true :=
      Bag.contains_iff.mpr (edges ▸ present)
    simp only [inserted, insertEdge, counted, known, present, if_true]
  next absent =>
    have absent : known.edges.contains (source, target) = false :=
      Bool.eq_false_iff.mpr fun present => absent (edges ▸ Bag.contains_iff.mp present)
    simp only [inserted, insertEdge, known, absent, Bool.false_eq_true, if_false]
    refine ⟨?_, rfl, trivial⟩
    -- the witnesses of the fresh pairs are counted after the partitions have been merged
    have merged := samePaths_mergeCycle ((known.freshPairs source target).foldl link
      (closure.counted source target)) source target (known.freshPairs source target)
    exact ⟨merged.1, merged.2.1, merged.2.2.1, merged.2.2.2⟩

theorem exact_insertEdge {closure : Closure α} (exact : closure.Exact) (source target : α) :
    (closure.insertEdge source target).1.Exact ∧
      (closure.insertEdge source target).1.edges = closure.edges.add (source, target) ∧
      Reports closure (closure.insertEdge source target).1
        (closure.insertEdge source target).2 := by
  have knownExact := (exact.know source).know target
  have sourceKnown : source ∈ ((closure.know source).know target).nodes := by
    simp [mem_nodes_know]
  have targetKnown : target ∈ ((closure.know source).know target).nodes := by
    simp [mem_nodes_know]
  have sameEdges : ((closure.know source).know target).edges = closure.edges := by
    simp [edges_know]
  have paths := insertEdge_paths closure source target
  set known := (closure.know source).know target with knownDef
  have countedEdges : (closure.counted source target).edges = closure.edges.add (source, target) :=
    congrArg (EdgeGraph.add · (source, target)) sameEdges
  split at paths
  next present =>
    have sameSet : ∀ edge, edge ∈ (closure.counted source target).edges.occurrences ↔
        edge ∈ closure.edges.occurrences := by
      intro edge
      rw [countedEdges]
      simp only [EdgeGraph.toBag_add, Bag.add, List.mem_cons, or_iff_right_iff_imp]
      exact fun same => same ▸ present
    rw [paths]
    have recounted : (closure.counted source target).Exact := by
      refine knownExact.recount (knownExact.indexed.add (source, target)) ?_
      intro edge
      rw [sameEdges, ← countedEdges]
      exact sameSet edge
    exact ⟨recounted, countedEdges, reports_nothing sameSet⟩
  next absent =>
    obtain ⟨same, appeared, disappeared⟩ := paths
    have linked := knownExact.linkFresh sourceKnown targetKnown
    have linkedEdges := (foldl_link (known.freshPairs source target)
      (closure.counted source target)).2.1
    have edges : (closure.insertEdge source target).1.edges = closure.edges.add (source, target) :=
      calc
        (closure.insertEdge source target).1.edges = _ := same.2.1.symm
        _ = (closure.counted source target).edges := linkedEdges
        _ = closure.edges.add (source, target) := countedEdges
    have before : ∀ first last, known.Joined first last ↔ closure.Joined first last := by
      intro first last
      rw [Joined, sameEdges, Joined]
    refine ⟨linked.congr same, edges, ⟨fun first last => ?_, fun first last => ?_, ?_, ?_⟩⟩
    · rw [appeared, mem_freshPairs knownExact sourceKnown targetKnown, joined_add edges]
      simp only [before]
      by_cases joined : closure.Joined first last <;> simp [joined]
    · rw [disappeared, joined_add edges]
      simp only [List.not_mem_nil, false_iff, not_and, not_not]
      exact .inl
    · exact appeared ▸ nodup_freshPairs knownExact source target
    · simp [disappeared]

/-! ## Deletion -/

/-- The closure with one occurrence of an edge less, before anything is computed anew. -/
def discounted (closure : Closure α) (source target : α) : Closure α :=
  { closure with edges := closure.edges.erase (source, target) }

/-- The closure after the rows of the ancestors of a node have been computed anew. -/
def recomputed (closure : Closure α) (source target : α) : Closure α :=
  (closure.ancestors source).foldl recompute (closure.discounted source target)

/-- The pairs that the rows of the ancestors have lost. -/
def lostPairs (closure : Closure α) (source target : α) : List (α × α) :=
  (closure.ancestors source).flatMap fun first =>
    ((closure.reachableFrom first).filter
      (!(closure.recomputed source target).reaches first ·)).map (first, ·)

/-- What a deletion does to the tables: nothing if the edge is not there, next to nothing if
occurrences of it remain, and otherwise the rows of the ancestors are computed anew and the lost
pairs are taken out of the other direction. -/
theorem deleteEdge_paths (closure : Closure α) (source target : α) :
    if (source, target) ∉ closure.edges.occurrences then
      closure.deleteEdge? source target = none
    else if (source, target) ∈ (closure.discounted source target).edges.occurrences then
      closure.deleteEdge? source target = some (closure.discounted source target, {})
    else ∃ after delta, closure.deleteEdge? source target = some (after, delta) ∧
      SamePaths ((closure.lostPairs source target).foldl unlinkBack
        (closure.recomputed source target)) after ∧
      delta.appeared = [] ∧ delta.disappeared = closure.lostPairs source target := by
  split
  next absent =>
    have absent : closure.edges.contains (source, target) = false :=
      Bool.eq_false_iff.mpr (absent ∘ Bag.contains_iff.mp)
    simp only [deleteEdge?, absent, Bool.not_false, if_true]
  next present =>
    have present : closure.edges.contains (source, target) = true :=
      Bag.contains_iff.mpr (not_not.mp present)
    split
    next remains =>
      have remains : (closure.edges.erase (source, target)).contains (source, target) = true :=
        Bag.contains_iff.mpr remains
      simp only [deleteEdge?, present, remains, Bool.not_true, Bool.false_eq_true, if_false,
        if_true, discounted]
    next gone =>
      have gone : (closure.edges.erase (source, target)).contains (source, target) = false :=
        Bool.eq_false_iff.mpr (gone ∘ Bag.contains_iff.mp)
      simp only [deleteEdge?, present, gone, Bool.not_true, Bool.false_eq_true, if_false]
      -- the witnesses of the lost pairs are given up before the partition is split
      refine ⟨_, _, rfl, ?_, rfl, rfl⟩
      refine SamePaths.trans ?_ (samePaths_splitApart _ source target)
      exact ⟨rfl, rfl, rfl, rfl⟩

/-- The row of a node that does not reach the deleted edge is still right. -/
theorem joined_discounted_of_apart {closure : Closure α} {source target first last : α}
    (apart : ¬(first = source ∨ closure.Joined first source)) :
    (closure.discounted source target).Joined first last ↔ closure.Joined first last := by
  constructor
  · exact Reach.Path.mono fun edge => Bag.mem_of_mem_erase
  · intro joined
    have kept : ∀ edge ∈ closure.edges.occurrences, edge ≠ (source, target) →
        edge ∈ (closure.discounted source target).edges.occurrences :=
      fun edge member different => (Bag.mem_erase_of_ne different).mpr member
    exact joined.avoids kept apart

theorem Exact.reached_recomputed {closure : Closure α} (exact : closure.Exact) {source target : α}
    (known : source ∈ closure.nodes) (first last : α) :
    last ∈ (closure.recomputed source target).reached first ↔
      (closure.discounted source target).Joined first last := by
  unfold recomputed
  rw [mem_reached_foldl_recompute _ (exact.indexed.erase (source, target))]
  split
  · rfl
  next apart =>
    rw [exact.mem_ancestors known] at apart
    rw [joined_discounted_of_apart apart]
    exact exact.forward first last

theorem mem_lostPairs {closure : Closure α} (exact : closure.Exact) {source target : α}
    (known : source ∈ closure.nodes) {first last : α} :
    (first, last) ∈ closure.lostPairs source target ↔
      closure.Joined first last ∧ ¬(closure.discounted source target).Joined first last := by
  simp only [lostPairs, List.mem_flatMap, List.mem_map, List.mem_filter, Prod.mk.injEq, reaches,
    Bool.not_eq_true', ← Bool.not_eq_true, List.contains_iff_mem, exact.mem_reachableFrom,
    exact.reached_recomputed known]
  constructor
  · intro found
    obtain ⟨_, _, _, lost, rfl, rfl⟩ := found
    exact lost
  · intro found
    obtain ⟨joined, broken⟩ := found
    have ancestor : first ∈ closure.ancestors source := by
      by_contra outside
      rw [exact.mem_ancestors known] at outside
      exact broken ((joined_discounted_of_apart outside).mpr joined)
    exact ⟨first, ancestor, last, ⟨joined, broken⟩, rfl, rfl⟩

theorem nodup_lostPairs {closure : Closure α} (exact : closure.Exact) (source target : α) :
    (closure.lostPairs source target).Nodup := by
  have once : (closure.ancestors source).Nodup := exact.nodup.filter _
  refine List.nodup_flatMap.mpr ⟨fun first _ => ?_, once.imp fun different => ?_⟩
  · exact ((exact.nodup_reachableFrom first).filter _).map fun _ _ same => (Prod.ext_iff.mp same).2
  · intro pair left right
    obtain ⟨_, _, rfl⟩ := List.mem_map.mp left
    obtain ⟨_, _, same⟩ := List.mem_map.mp right
    exact different (Prod.ext_iff.mp same).1.symm

/-- Unlinking the lost pairs makes the backward direction mirror the rows computed anew. -/
theorem Exact.unlinkLost {closure : Closure α} (exact : closure.Exact) {source target : α}
    (known : source ∈ closure.nodes) :
    ((closure.lostPairs source target).foldl unlinkBack
      (closure.recomputed source target)).Exact := by
  obtain ⟨nodes, edges, forward, backward⟩ :=
    foldl_unlinkBack (closure.lostPairs source target) (closure.recomputed source target)
  obtain ⟨oldNodes, oldEdges, oldBackward⟩ :=
    foldl_recompute (closure.ancestors source) (closure.discounted source target)
  have sameEdges : ((closure.lostPairs source target).foldl unlinkBack
      (closure.recomputed source target)).edges = (closure.discounted source target).edges :=
    edges.trans oldEdges
  have sameNodes := nodes.trans oldNodes
  refine ⟨sameNodes ▸ exact.nodup, ?_, ?_, fun first last => ?_, fun first last => ?_⟩
  · rw [sameEdges]
    exact exact.indexed.erase (source, target)
  · rw [sameEdges, sameNodes]
    exact fun edge member => exact.known edge (Bag.mem_of_mem_erase member)
  · rw [reached, forward, ← reached, exact.reached_recomputed known, Joined, Joined, sameEdges]
  · have before : first ∈ (closure.recomputed source target).reaching last ↔
        closure.Joined first last := by
      rw [reaching, recomputed, oldBackward]
      exact exact.backward first last
    have shrinks : (closure.discounted source target).Joined first last →
        closure.Joined first last := Reach.Path.mono fun edge => Bag.mem_of_mem_erase
    have after : Joined _ first last ↔ (closure.discounted source target).Joined first last :=
      Reach.path_congr fun _ => by rw [sameEdges]
    rw [backward, before, mem_lostPairs exact known, after, not_and, not_not]
    exact ⟨fun remains => remains.2 remains.1, fun joined => ⟨shrinks joined, fun _ => joined⟩⟩

/-- A deletion is refused exactly when the edge is not there. -/
theorem deleteEdge?_eq_none_iff (closure : Closure α) (source target : α) :
    closure.deleteEdge? source target = none ↔ (source, target) ∉ closure.edges.occurrences := by
  have paths := deleteEdge_paths closure source target
  split at paths
  next absent => simp [paths, absent]
  next present =>
    split at paths
    · simp [paths, present]
    · obtain ⟨after, delta, deleted, _⟩ := paths
      simp [deleted, present]

theorem exact_deleteEdge {closure after : Closure α} {delta : ClosureDelta α}
    (exact : closure.Exact) {source target : α}
    (deleted : closure.deleteEdge? source target = some (after, delta)) :
    after.Exact ∧ after.edges = closure.edges.erase (source, target) ∧
      Reports closure after delta := by
  have present : (source, target) ∈ closure.edges.occurrences := by
    by_contra absent
    rw [(deleteEdge?_eq_none_iff closure source target).mpr absent] at deleted
    cases deleted
  have known := (exact.known _ present).1
  have paths := deleteEdge_paths closure source target
  rw [if_neg (not_not.mpr present)] at paths
  split at paths
  next remains =>
    obtain ⟨rfl, rfl⟩ := Prod.ext_iff.mp (Option.some.inj (deleted.symm.trans paths))
    have sameSet : ∀ edge, edge ∈ (closure.discounted source target).edges.occurrences ↔
        edge ∈ closure.edges.occurrences := by
      intro edge
      by_cases same : edge = (source, target)
      · subst same
        exact iff_of_true remains present
      · exact Bag.mem_erase_of_ne same
    exact ⟨exact.recount (exact.indexed.erase (source, target)) sameSet, rfl, reports_nothing sameSet⟩
  next gone =>
    obtain ⟨_, _, found, same, appeared, disappeared⟩ := paths
    obtain ⟨rfl, rfl⟩ := Prod.ext_iff.mp (Option.some.inj (deleted.symm.trans found))
    have edges : after.edges = closure.edges.erase (source, target) :=
      calc
        after.edges = _ := same.2.1.symm
        _ = (closure.recomputed source target).edges := (foldl_unlinkBack _ _).2.1
        _ = (closure.discounted source target).edges := (foldl_recompute _ _).2.1
    have shrunk : ∀ first last, after.Joined first last ↔
        (closure.discounted source target).Joined first last := by
      intro first last
      rw [Joined, edges]
      exact Iff.rfl
    have shrinks : ∀ first last, (closure.discounted source target).Joined first last →
        closure.Joined first last :=
      fun _ _ => Reach.Path.mono fun edge => Bag.mem_of_mem_erase
    refine ⟨(exact.unlinkLost known).congr same, edges, ⟨fun first last => ?_, fun first last => ?_,
      ?_, ?_⟩⟩
    · rw [appeared, shrunk]
      simpa using shrinks first last
    · rw [disappeared, mem_lostPairs exact known, shrunk]
    · rw [appeared]
      exact List.nodup_nil
    · rw [disappeared]
      exact nodup_lostPairs exact source target

end LiveQuery.Closure
