import Mathlib.Data.List.Nodup
import LiveQuery.Closure.Basic
import LiveQuery.Proofs.Closure.Search

/-!
# Exact closures

`Closure.Exact` is the invariant: both directions of the reachability tables hold exactly the paths
of the edges, so they mirror each other, and the targets that the graph keeps are those of its
edges.

This file says what every observation of an exact closure answers, and what the small steps of a
change do to the tables.  Getting to know a node adds empty rows (`Exact.know`).  Linking pairs
enters them into both directions (`foldl_link`), and unlinking them takes them out of the backward
direction (`foldl_unlinkBack`).  Computing a row anew makes it hold the paths of the present edges,
whatever it held before (`mem_reached_foldl_recompute`).

Merging, splitting and counting witnesses leave the tables alone (`SamePaths`), and so does a change
of multiplicities that keeps the set of edges (`Exact.recount`).
-/

namespace LiveQuery

variable {α : Type} [DecidableEq α]

namespace Closure

/-- A path of at least one edge leads from one node to another. -/
def Joined (closure : Closure α) (source target : α) : Prop :=
  Reach.Path closure.edges.occurrences source target

/-- The nodes are listed once, edges join known nodes, and both tables hold the paths. -/
structure Exact (closure : Closure α) : Prop where
  nodup : closure.nodes.Nodup
  indexed : closure.edges.Indexed
  known : ∀ edge ∈ closure.edges.occurrences, edge.1 ∈ closure.nodes ∧ edge.2 ∈ closure.nodes
  forward : ∀ source target, target ∈ closure.reached source ↔ closure.Joined source target
  backward : ∀ source target, source ∈ closure.reaching target ↔ closure.Joined source target

theorem exact_empty : (empty : Closure α).Exact where
  nodup := List.nodup_nil
  indexed := EdgeGraph.indexed_empty
  known := by simp [empty, EdgeGraph.empty, Bag.empty]
  forward source target := by
    simp only [reached, empty, Table.get?_empty, Option.getD_none, List.not_mem_nil, false_iff]
    intro path
    simpa [EdgeGraph.empty, Bag.empty] using path.ends.1
  backward source target := by
    simp only [reaching, empty, Table.get?_empty, Option.getD_none, List.not_mem_nil, false_iff]
    intro path
    simpa [EdgeGraph.empty, Bag.empty] using path.ends.1

namespace Exact

variable {closure : Closure α} (exact : closure.Exact)

include exact

theorem reaches_iff {source target : α} :
    closure.reaches source target = true ↔ closure.Joined source target := by
  simp [reaches, exact.forward]

theorem joined_known {source target : α} (joined : closure.Joined source target) :
    source ∈ closure.nodes ∧ target ∈ closure.nodes := by
  obtain ⟨⟨_, first⟩, _, last⟩ := joined.ends
  exact ⟨(exact.known _ first).1, (exact.known _ last).2⟩

theorem mem_reachableFrom {source target : α} :
    target ∈ closure.reachableFrom source ↔ closure.Joined source target := by
  simp only [reachableFrom, List.mem_filter, exact.reaches_iff, and_iff_right_iff_imp]
  exact fun joined => (exact.joined_known joined).2

theorem nodup_reachableFrom (source : α) : (closure.reachableFrom source).Nodup :=
  exact.nodup.filter _

theorem mem_pairs {source target : α} :
    (source, target) ∈ closure.pairs ↔ closure.Joined source target := by
  simp only [pairs, List.mem_flatMap, List.mem_map, Prod.mk.injEq]
  constructor
  · intro found
    obtain ⟨_, _, _, member, rfl, rfl⟩ := found
    exact exact.mem_reachableFrom.mp member
  · intro joined
    exact ⟨source, (exact.joined_known joined).1, target, exact.mem_reachableFrom.mpr joined,
      rfl, rfl⟩

theorem nodup_pairs : closure.pairs.Nodup := by
  refine List.nodup_flatMap.mpr ⟨fun source _ => ?_, exact.nodup.imp fun different => ?_⟩
  · exact (exact.nodup_reachableFrom source).map fun _ _ same => (Prod.ext_iff.mp same).2
  · intro pair first second
    obtain ⟨_, _, rfl⟩ := List.mem_map.mp first
    obtain ⟨_, _, same⟩ := List.mem_map.mp second
    exact different (Prod.ext_iff.mp same).1.symm

theorem mem_ancestors {node other : α} (known : node ∈ closure.nodes) :
    other ∈ closure.ancestors node ↔ other = node ∨ closure.Joined other node := by
  simp only [ancestors, List.mem_filter, Bool.or_eq_true, decide_eq_true_eq, List.contains_iff_mem,
    exact.backward, and_iff_right_iff_imp]
  rintro (rfl | joined)
  · exact known
  · exact (exact.joined_known joined).1

theorem mem_descendants {node other : α} (known : node ∈ closure.nodes) :
    other ∈ closure.descendants node ↔ other = node ∨ closure.Joined node other := by
  simp only [descendants, List.mem_filter, Bool.or_eq_true, decide_eq_true_eq, exact.reaches_iff,
    and_iff_right_iff_imp]
  rintro (rfl | joined)
  · exact known
  · exact (exact.joined_known joined).2

end Exact

/-! ## Getting to know nodes -/

theorem mem_nodes_know {closure : Closure α} {node other : α} :
    other ∈ (closure.know node).nodes ↔ other ∈ closure.nodes ∨ other = node := by
  unfold know
  split
  next known =>
    have known : node ∈ closure.nodes := List.contains_iff_mem.mp known
    exact ⟨.inl, fun member => member.elim id fun same => same ▸ known⟩
  · simp

theorem edges_know (closure : Closure α) (node : α) :
    (closure.know node).edges = closure.edges := by
  unfold know
  split <;> rfl

theorem Exact.know {closure : Closure α} (exact : closure.Exact) (node : α) :
    (closure.know node).Exact := by
  have known : ∀ edge ∈ (closure.know node).edges.occurrences,
      edge.1 ∈ (closure.know node).nodes ∧ edge.2 ∈ (closure.know node).nodes := by
    intro edge member
    rw [edges_know] at member
    have ends := exact.known edge member
    exact ⟨mem_nodes_know.mpr (.inl ends.1), mem_nodes_know.mpr (.inl ends.2)⟩
  unfold Closure.know at known ⊢
  split at known
  · rwa [if_pos ‹_›]
  next unknown =>
    rw [if_neg unknown]
    refine ⟨?_, exact.indexed, known, exact.forward, exact.backward⟩
    have unknown : node ∉ closure.nodes := fun member => unknown (List.contains_iff_mem.mpr member)
    simpa [List.nodup_append] using ⟨exact.nodup, fun other member same => unknown (same ▸ member)⟩

/-! ## The tables of paths -/

@[simp] theorem reached_link (closure : Closure α) (pair : α × α) (source : α) :
    (closure.link pair).reached source =
      if source = pair.1 then pair.2 :: closure.reached source else closure.reached source := by
  simp only [link, reached, Table.get?_insert]
  split <;> simp_all

@[simp] theorem reaching_link (closure : Closure α) (pair : α × α) (target : α) :
    (closure.link pair).reaching target =
      if target = pair.2 then pair.1 :: closure.reaching target else closure.reaching target := by
  simp only [link, reaching, Table.get?_insert]
  split <;> simp_all

theorem foldl_link (pairs : List (α × α)) (closure : Closure α) :
    (pairs.foldl link closure).nodes = closure.nodes ∧
    (pairs.foldl link closure).edges = closure.edges ∧
    ∀ source target,
      (target ∈ (pairs.foldl link closure).reached source ↔
        target ∈ closure.reached source ∨ (source, target) ∈ pairs) ∧
      (source ∈ (pairs.foldl link closure).reaching target ↔
        source ∈ closure.reaching target ∨ (source, target) ∈ pairs) := by
  induction pairs generalizing closure with
  | nil => simp
  | cons pair rest ih =>
    obtain ⟨nodes, edges, tables⟩ := ih (closure.link pair)
    refine ⟨nodes, edges, ?_⟩
    intro source target
    obtain ⟨forward, backward⟩ := tables source target
    simp only [List.foldl_cons, List.mem_cons, forward, backward, reached_link, reaching_link,
      Prod.ext_iff]
    constructor
    · split <;> simp_all [or_assoc, or_left_comm]
    · split <;> simp_all [or_assoc, or_left_comm]

theorem reached_recompute (closure : Closure α) (node source : α) :
    (closure.recompute node).reached source =
      if source = node then closure.edges.reachable node else closure.reached source := by
  simp only [recompute, reached, Table.get?_insert]
  split <;> simp_all

/-- Recomputing rows touches nothing but the forward direction. -/
theorem foldl_recompute (nodes : List α) (closure : Closure α) :
    (nodes.foldl recompute closure).nodes = closure.nodes ∧
    (nodes.foldl recompute closure).edges = closure.edges ∧
    (nodes.foldl recompute closure).backward = closure.backward := by
  induction nodes generalizing closure with
  | nil => exact ⟨rfl, rfl, rfl⟩
  | cons node rest ih => exact ih (closure.recompute node)

/-- Recomputing nodes makes their rows hold the paths of the present edges, because the search runs
along the targets of these edges. -/
theorem mem_reached_foldl_recompute (nodes : List α) {closure : Closure α}
    (indexed : closure.edges.Indexed) (source target : α) :
    target ∈ (nodes.foldl recompute closure).reached source ↔
      if source ∈ nodes then closure.Joined source target else target ∈ closure.reached source := by
  induction nodes generalizing closure with
  | nil => simp
  | cons node rest ih =>
    have found : target ∈ closure.edges.reachable node ↔ closure.Joined node target :=
      indexed.mem_reachable
    have later : target ∈ (rest.foldl recompute (closure.recompute node)).reached source ↔
        if source ∈ rest then closure.Joined source target
        else target ∈ (closure.recompute node).reached source := ih indexed
    simp only [List.foldl_cons, later, reached_recompute, List.mem_cons]
    grind

theorem reaching_unlinkBack (closure : Closure α) (pair : α × α) (source target : α) :
    source ∈ (closure.unlinkBack pair).reaching target ↔
      source ∈ closure.reaching target ∧ (source, target) ≠ pair := by
  simp only [unlinkBack, reaching, Table.get?_insert, ne_eq, Prod.ext_iff]
  split
  next same => simp [same]
  next different => simp [different]

theorem foldl_unlinkBack (pairs : List (α × α)) (closure : Closure α) :
    (pairs.foldl unlinkBack closure).nodes = closure.nodes ∧
    (pairs.foldl unlinkBack closure).edges = closure.edges ∧
    (pairs.foldl unlinkBack closure).forward = closure.forward ∧
    ∀ source target, source ∈ (pairs.foldl unlinkBack closure).reaching target ↔
      source ∈ closure.reaching target ∧ (source, target) ∉ pairs := by
  induction pairs generalizing closure with
  | nil => simp
  | cons pair rest ih =>
    obtain ⟨nodes, edges, forward, backward⟩ := ih (closure.unlinkBack pair)
    refine ⟨nodes, edges, forward, ?_⟩
    intro source target
    simp only [List.foldl_cons, backward, reaching_unlinkBack, List.mem_cons, not_or, and_assoc,
      ne_eq]

/-! ## Partitions and witnesses

Both are kept beside the tables and never change them. -/

/-- Two closures with the same nodes, edges and tables. -/
def SamePaths (first second : Closure α) : Prop :=
  first.nodes = second.nodes ∧ first.edges = second.edges ∧ first.forward = second.forward ∧
    first.backward = second.backward

omit [DecidableEq α] in
theorem SamePaths.trans {first second third : Closure α} (left : SamePaths first second)
    (right : SamePaths second third) : SamePaths first third :=
  ⟨left.1.trans right.1, left.2.1.trans right.2.1, left.2.2.1.trans right.2.2.1,
    left.2.2.2.trans right.2.2.2⟩

theorem Exact.congr {first second : Closure α} (exact : first.Exact)
    (same : SamePaths first second) : second.Exact := by
  obtain ⟨nodes, edges, forward, backward⟩ := same
  refine ⟨nodes ▸ exact.nodup, edges ▸ exact.indexed, nodes ▸ edges ▸ exact.known, ?_, ?_⟩
  · simpa only [reached, Joined, forward, edges] using exact.forward
  · simpa only [reaching, Joined, backward, edges] using exact.backward

theorem samePaths_mergeCycle (closure : Closure α) (source target : α) (fresh : List (α × α)) :
    SamePaths closure (closure.mergeCycle source target fresh).1 := by
  unfold mergeCycle
  dsimp only
  split
  · split
    · exact ⟨rfl, rfl, rfl, rfl⟩
    · exact ⟨rfl, rfl, rfl, rfl⟩
  · exact ⟨rfl, rfl, rfl, rfl⟩

theorem samePaths_splitApart (closure : Closure α) (source target : α) :
    SamePaths closure (closure.splitApart source target).1 := by
  unfold splitApart
  dsimp only
  split
  · exact ⟨rfl, rfl, rfl, rfl⟩
  · split
    · split
      · exact ⟨rfl, rfl, rfl, rfl⟩
      · exact ⟨rfl, rfl, rfl, rfl⟩
    · exact ⟨rfl, rfl, rfl, rfl⟩

/-- Counting edges differently is of no consequence as long as the same edges are there. -/
theorem Exact.recount {closure : Closure α} (exact : closure.Exact) {edges : EdgeGraph α}
    (indexed : edges.Indexed)
    (same : ∀ edge, edge ∈ edges.occurrences ↔ edge ∈ closure.edges.occurrences) :
    Exact { closure with edges } where
  nodup := exact.nodup
  indexed := indexed
  known edge member := exact.known edge ((same edge).mp member)
  forward source target :=
    calc
      target ∈ closure.reached source ↔ closure.Joined source target :=
        exact.forward source target
      _ ↔ Joined { closure with edges } source target := (Reach.path_congr same).symm
  backward source target :=
    calc
      source ∈ closure.reaching target ↔ closure.Joined source target :=
        exact.backward source target
      _ ↔ Joined { closure with edges } source target := (Reach.path_congr same).symm

/-- Closures of the same edges report the same pairs, in whatever order they know the nodes. -/
theorem Exact.perm_pairs {first second : Closure α} (firstExact : first.Exact)
    (secondExact : second.Exact)
    (same : ∀ edge, edge ∈ first.edges.occurrences ↔ edge ∈ second.edges.occurrences) :
    first.pairs.Perm second.pairs := by
  rw [List.perm_ext_iff_of_nodup firstExact.nodup_pairs secondExact.nodup_pairs]
  rintro ⟨source, target⟩
  calc
    (source, target) ∈ first.pairs ↔ first.Joined source target := firstExact.mem_pairs
    _ ↔ second.Joined source target := Reach.path_congr same
    _ ↔ (source, target) ∈ second.pairs := secondExact.mem_pairs.symm

/-! ## Deltas -/

/-- A delta lists every pair that became joined and every pair that ceased to be joined, once. -/
structure Reports (before after : Closure α) (delta : ClosureDelta α) : Prop where
  appeared : ∀ source target, (source, target) ∈ delta.appeared ↔
    after.Joined source target ∧ ¬before.Joined source target
  disappeared : ∀ source target, (source, target) ∈ delta.disappeared ↔
    before.Joined source target ∧ ¬after.Joined source target
  appearedOnce : delta.appeared.Nodup
  disappearedOnce : delta.disappeared.Nodup

omit [DecidableEq α] in
/-- A change of multiplicities that keeps the set of edges is rightly reported as nothing. -/
theorem reports_nothing {before after : Closure α}
    (same : ∀ edge, edge ∈ after.edges.occurrences ↔ edge ∈ before.edges.occurrences) :
    Reports before after {} := by
  have joined : ∀ source target, after.Joined source target ↔ before.Joined source target :=
    fun _ _ => Reach.path_congr same
  constructor <;> simp [joined]

end Closure
end LiveQuery
