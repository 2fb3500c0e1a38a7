import LiveQuery.Proofs.Closure.Components
import LiveQuery.Proofs.Closure.Visits

/-!
# What a counted graph finds

A counted graph keeps the targets of every node next to the counts of its edges.
`EdgeGraph.Indexed` says that the two agree; it holds whatever edges come and go
(`EdgeGraph.Reachable.indexed`), because targets are entered with the first occurrence of an edge
and left out with the last one.

Two searches go along these targets.  The breadth-first one finds where paths lead to
(`EdgeGraph.Indexed.mem_reachable`): whatever can be reached from the seen nodes is seen, or is
reached from the queue without meeting a seen node again (`mem_search`).

The depth-first one looks for components.  A search that starts with no node on the stack enters
everything that its root leads to and ends with an empty stack (`exists_explore`), so after all
roots every node is in one complete component (`exists_search`).  The components are then listed by
the places of their first nodes, which is the order of their smallest members (`exists_sorted`).  As
the induced graph has the edges among the members (`EdgeGraph.Indexed.walk_iff`), they are the
strongly connected components of that graph (`EdgeGraph.Indexed.exists_components`).
-/

namespace LiveQuery

/-! ## Runs of the search -/

namespace DepthSearch

variable {ν : Type} [DecidableEq ν] {successors : ν → List ν} {nodes : List ν}

/-- The search never lacks a number.  When all visits have ended, nothing is left on the stack, and
what has been entered stays entered. -/
theorem exists_explore (all : ∀ node, node ∈ nodes) (visits : List (Visit ν))
    (search : DepthSearch ν) (coherent : Coherent successors search)
    (stacked : Stacked successors search visits search.stack) :
    ∃ final, explore all successors visits search = some final ∧ Coherent successors final ∧
      final.stack = [] ∧
      ∀ node, search.index.contains node = true → final.index.contains node = true := by
  fun_induction explore all successors visits search with
  | case1 search => exact ⟨search, rfl, coherent, stacked, fun _ entered => entered⟩
  | case2 node target waiting callers search number known ih =>
    obtain ⟨final, explored, rest⟩ :=
      ih (coherent.revisit node target number) (stacked.revisit coherent known)
    rw [index_revisit] at rest
    exact ⟨final, explored, rest⟩
  | case3 node target waiting callers search fresh ih =>
    obtain ⟨final, explored, ended, empty, entered⟩ :=
      ih (coherent.enter fresh) (stacked.enter coherent fresh)
    refine ⟨final, explored, ended, empty, fun other before => entered other ?_⟩
    rw [contains_enter, before, Bool.or_true]
  | case4 node callers search left found ih =>
    obtain ⟨same, leaving, coherentLeft, stackedLeft⟩ := stacked.leave coherent
    obtain rfl := Option.some.inj (found.symm.trans leaving)
    obtain ⟨final, explored, rest⟩ := ih coherentLeft stackedLeft
    rw [index_leave? found] at rest
    exact ⟨final, explored, rest⟩
  | case5 node callers search stuck =>
    obtain ⟨left, leaving, _⟩ := stacked.leave coherent
    rw [stuck] at leaving
    cases leaving

theorem exists_visitRoot (all : ∀ node, node ∈ nodes) {search : DepthSearch ν} (root : ν)
    (coherent : Coherent successors search) (empty : search.stack = []) :
    ∃ final, visitRoot all successors search root = some final ∧ Coherent successors final ∧
      final.stack = [] ∧ final.index.contains root = true ∧
      ∀ node, search.index.contains node = true → final.index.contains node = true := by
  unfold visitRoot
  split
  next known => exact ⟨search, rfl, coherent, empty, known, fun _ entered => entered⟩
  next unknown =>
    have fresh : search.index.get? root = none := by simpa [Table.contains] using unknown
    have stacked : Stacked successors (search.enter root) [⟨root, successors root⟩]
        (search.enter root).stack :=
      ⟨[], [], search.next, by simp [enter, empty], segment_enter successors search root [],
        by simp, rfl⟩
    obtain ⟨final, explored, ended, emptied, entered⟩ :=
      exists_explore all _ _ (coherent.enter fresh) stacked
    refine ⟨final, explored, ended, emptied, entered root ?_, fun node before => entered node ?_⟩
    · simp [contains_enter]
    · simp [contains_enter, before]

theorem exists_visitRoots (all : ∀ node, node ∈ nodes) (roots : List ν) {search : DepthSearch ν}
    (coherent : Coherent successors search) (empty : search.stack = []) :
    ∃ final, roots.foldlM (visitRoot all successors) search = some final ∧
      Coherent successors final ∧ final.stack = [] ∧
      (∀ root ∈ roots, final.index.contains root = true) ∧
      ∀ node, search.index.contains node = true → final.index.contains node = true := by
  induction roots generalizing search with
  | nil => exact ⟨search, rfl, coherent, empty, by simp, fun _ entered => entered⟩
  | cons root rest ih =>
    obtain ⟨first, visited, ended, emptied, here, before⟩ :=
      exists_visitRoot all root coherent empty
    obtain ⟨final, run, endedAll, emptiedAll, there, after⟩ := ih ended emptied
    refine ⟨final, ?_, endedAll, emptiedAll, ?_, ?_⟩
    · simp [visited, run]
    · rintro other (_ | ⟨_, later⟩)
      · exact after root here
      · exact there other later
    · exact fun node entered => after node (before node entered)

theorem coherent_start (successors : ν → List ν) : Coherent successors (start : DepthSearch ν) where
  below _ _ found := by cases found
  entered node := by simp [start, Table.contains]
  newestFirst := .nil
  once := .nil
  onStack node := by simp [start]
  closed _ member := by cases member
  components _ member := by cases member

theorem exists_search (all : ∀ node, node ∈ nodes) (successors : ν → List ν) :
    ∃ final, nodes.foldlM (visitRoot all successors) .start = some final ∧
      final.found.flatten.Nodup ∧ (∀ node, node ∈ final.found.flatten) ∧
      ∀ component ∈ final.found, component ≠ [] ∧
        ∀ first ∈ component, ∀ second, second ∈ component ↔ Mutual successors first second := by
  obtain ⟨final, run, coherent, empty, entered, _⟩ :=
    exists_visitRoots all nodes (coherent_start successors) rfl
  refine ⟨final, run, ?_, fun node => ?_, coherent.components⟩
  · simpa [empty] using coherent.once
  · simpa [empty] using (coherent.entered node).mp (entered node (all node))

end DepthSearch

namespace EdgeGraph

variable {α : Type} [DecidableEq α] {graph : EdgeGraph α} {members : List α}

/-! ## The index of a counted graph -/

/-- The successors that the graph keeps are the targets of its edges. -/
def Indexed (graph : EdgeGraph α) : Prop :=
  ∀ source target, target ∈ graph.successors source ↔ (source, target) ∈ graph.occurrences

theorem indexed_empty : (empty : EdgeGraph α).Indexed := fun source target => by
  simp [empty, successors, Bag.empty]

theorem Indexed.add (indexed : graph.Indexed) (edge : α × α) : (graph.add edge).Indexed := by
  intro source target
  have grown : (source, target) ∈ (graph.add edge).occurrences ↔
      (source, target) = edge ∨ target ∈ graph.successors source := by
    rw [indexed, toBag_add, Bag.add, List.mem_cons]
  rw [grown, successors_add]
  split
  next new =>
    obtain ⟨rfl, _⟩ := new
    simp [Prod.ext_iff]
  next old =>
    refine (or_iff_right_of_imp ?_).symm
    -- an edge that is not new has been there before
    rintro rfl
    rw [indexed, ← Bag.contains_iff]
    simpa using old

theorem Indexed.erase (indexed : graph.Indexed) (edge : α × α) : (graph.erase edge).Indexed := by
  intro source target
  have counted : (source, target) ∈ (graph.erase edge).occurrences ↔
      0 < graph.count (source, target) - if (source, target) = edge then 1 else 0 := by
    rw [toBag_erase, ← Bag.count_pos_iff, Bag.count_erase]
  have kept : target ∈ graph.successors source ↔ 0 < graph.count (source, target) := by
    rw [indexed, Bag.count_pos_iff]
  rw [counted, successors_erase]
  by_cases same : (source, target) = edge
  · subst same
    by_cases last : graph.count (source, target) = 1
    · simp [last]
    · simp only [last, and_false, if_false, if_true, kept]
      omega
  · rw [if_neg same, Nat.sub_zero, ← kept]
    split
    next last =>
      obtain ⟨rfl, _⟩ := last
      have different : target ≠ edge.2 := fun equal => same (Prod.ext rfl equal)
      simp [different]
    next => rfl

/-- The graphs that occurrences of edges lead to which come and go. -/
inductive Reachable : EdgeGraph α → Prop
  | empty : Reachable .empty
  | add {graph : EdgeGraph α} (edge : α × α) (before : Reachable graph) :
    Reachable (graph.add edge)
  | erase {graph : EdgeGraph α} (edge : α × α) (before : Reachable graph) :
    Reachable (graph.erase edge)

theorem Reachable.indexed (reachable : graph.Reachable) : graph.Indexed := by
  induction reachable with
  | empty => exact indexed_empty
  | add edge _ ih => exact ih.add edge
  | erase edge _ ih => exact ih.erase edge

/-! ## What a node leads to -/

/-- If the successors of the seen nodes have been seen or wait in the queue, the search adds what
the queue leads to. -/
theorem mem_search {seen queue : List α} {target : α}
    (closed : ∀ node ∈ seen, ∀ next ∈ graph.successors node, next ∈ seen ∨ next ∈ queue) :
    target ∈ graph.search seen queue ↔
      target ∈ seen ∨ ∃ node ∈ queue, Walk graph.successors node target := by
  fun_induction search graph seen queue with
  | case1 seen => simp
  | case2 seen node queue known ih =>
    have known : node ∈ seen := List.contains_iff_mem.mp known
    have less : ∀ other ∈ seen, ∀ next ∈ graph.successors other, next ∈ seen ∨ next ∈ queue := by
      intro other member next edge
      rcases closed other member next edge with inside | waiting
      · exact .inl inside
      · rcases List.mem_cons.mp waiting with rfl | later
        · exact .inl known
        · exact .inr later
    rw [ih less]
    constructor
    · rintro (inside | ⟨other, member, walk⟩)
      · exact .inl inside
      · exact .inr ⟨other, List.mem_cons_of_mem _ member, walk⟩
    · rintro (inside | ⟨other, member, walk⟩)
      · exact .inl inside
      · rcases List.mem_cons.mp member with rfl | later
        · exact walk.leaves less known
        · exact .inr ⟨other, later, walk⟩
  | case3 seen node queue fresh ih =>
    have more : ∀ other ∈ node :: seen, ∀ next ∈ graph.successors other, next ∈ node :: seen ∨
        next ∈ queue ++ (graph.successors node).filter fun next => !(node :: seen).contains next := by
      intro other member next edge
      by_cases inside : next ∈ node :: seen
      · exact .inl inside
      rw [List.mem_append, List.mem_filter, Bool.not_eq_true', ← Bool.not_eq_true,
        List.contains_iff_mem]
      rcases List.mem_cons.mp member with rfl | old
      · exact .inr (.inr ⟨edge, inside⟩)
      · have waits := (closed other old next edge).resolve_left (inside ∘ List.mem_cons_of_mem _)
        exact .inr (.inl ((List.mem_cons.mp waits).resolve_left fun same =>
          inside (same ▸ List.mem_cons_self)))
    rw [ih more]
    constructor
    · rintro (inside | ⟨other, member, walk⟩)
      · rcases List.mem_cons.mp inside with rfl | old
        · exact .inr ⟨target, List.mem_cons_self, .refl⟩
        · exact .inl old
      · rcases List.mem_append.mp member with waiting | sent
        · exact .inr ⟨other, List.mem_cons_of_mem _ waiting, walk⟩
        · exact .inr ⟨node, List.mem_cons_self, .head (List.mem_filter.mp sent).1 walk⟩
    · rintro (inside | ⟨other, member, walk⟩)
      · exact .inl (List.mem_cons_of_mem _ inside)
      · rcases List.mem_cons.mp member with rfl | later
        · exact walk.leaves more List.mem_cons_self
        · exact .inr ⟨other, List.mem_append_left _ later, walk⟩

/-- The search along the targets that the graph keeps finds the ends of the paths of its edges. -/
theorem Indexed.mem_reachable (indexed : graph.Indexed) {start target : α} :
    target ∈ graph.reachable start ↔ Reach.Path graph.occurrences start target := by
  have step : (fun source target => target ∈ graph.successors source) =
      Reach.Step graph.occurrences := by
    funext source target
    exact propext (indexed source target)
  have searched : target ∈ graph.reachable start ↔
      ∃ next ∈ graph.successors start, Walk graph.successors next target :=
    (mem_search fun _ => nofun).trans (or_iff_right List.not_mem_nil)
  rw [searched, Reach.Path, Relation.TransGen.head'_iff, Walk, step]
  exact exists_congr fun next => and_congr_left' (indexed start next)

/-! ## Induced graphs -/

open Reach in
theorem Indexed.walk_iff (indexed : graph.Indexed) {first second : { node // node ∈ members }} :
    Walk (graph.successorsWithin members) first second ↔
      Relation.ReflTransGen (Step (within graph.occurrences members)) first.val second.val := by
  have edge_iff (source target : { node // node ∈ members }) :
      target ∈ graph.successorsWithin members source ↔
        Step (within graph.occurrences members) source.val target.val := by
    simp [successorsWithin, Step, mem_within, indexed source.val target.val, source.property,
      target.property]
  constructor
  · exact fun walk => Relation.ReflTransGen.lift Subtype.val
      (fun source target => (edge_iff source target).mp) _ _ walk
  · intro walk
    have reached {last : α}
        (walk : Relation.ReflTransGen (Step (within graph.occurrences members)) first.val last) :
        ∀ listed, Walk (graph.successorsWithin members) first ⟨last, listed⟩ := by
      induction walk with
      | refl => exact fun _ => .refl
      | tail _ edge ih =>
        obtain ⟨_, listedMiddle, _⟩ := mem_within.mp edge
        exact fun listed => (ih listedMiddle).tail ((edge_iff _ ⟨_, listed⟩).mpr edge)
    exact reached walk second.property

open Reach in
theorem Indexed.mutual_iff (indexed : graph.Indexed) {first second : { node // node ∈ members }} :
    Mutual (graph.successorsWithin members) first second ↔
      Together (within graph.occurrences members) first.val second.val := by
  rw [Mutual, indexed.walk_iff, indexed.walk_iff, Relation.reflTransGen_iff_eq_or_transGen,
    Relation.reflTransGen_iff_eq_or_transGen, Together, Reach.Path]
  constructor
  · rintro ⟨same | there, again | back⟩
    · exact .inl again
    · exact .inl same.symm
    · exact .inl again
    · exact .inr ⟨there, back⟩
  · rintro (same | ⟨there, back⟩)
    · exact ⟨.inl same.symm, .inl same⟩
    · exact ⟨.inr there, .inr back⟩

/-! ## The order of the components -/

/-- The place of a group is that of its first node. -/
theorem placeOf_eq {group : List α} {first : α} (once : members.Nodup)
    (listed : group.Sublist members) (head : group.head? = some first) :
    placeOf members group = members.idxOf first := by
  induction listed with
  | slnil => cases head
  | @cons group rest node listed ih =>
    obtain ⟨absent, once⟩ := List.nodup_cons.mp once
    have inside : first ∈ group := List.mem_of_mem_head? head
    have outside : node ∉ group := fun member => absent (listed.subset member)
    have different : node ≠ first := fun same => outside (same ▸ inside)
    have place := ih once head
    rw [List.idxOf_cons_ne _ different, ← place]
    simp [placeOf, List.findIdx_cons, outside]
  | @cons_cons group rest node listed ih =>
    cases head
    simp [placeOf, List.findIdx_cons]

theorem sublist_of_increasing {heads : List α} (once : members.Nodup)
    (listed : ∀ node ∈ heads, node ∈ members)
    (increasing : heads.Pairwise fun first second => members.idxOf first < members.idxOf second) :
    heads.Sublist members := by
  have ascending : members.Pairwise fun first second =>
      members.idxOf first < members.idxOf second := by
    refine List.pairwise_iff_getElem.mpr fun low high lowLess highLess less => ?_
    rw [once.idxOf_getElem, once.idxOf_getElem]
    exact less
  have distinct : heads.Nodup := increasing.imp fun {first second} less same => by
    rw [same] at less
    exact Nat.lt_irrefl _ less
  have same : members.filter heads.contains = heads := by
    refine List.Perm.eq_of_pairwise (fun _ _ _ _ less more => absurd less (Nat.lt_asymm more))
      (ascending.filter _) increasing ?_
    refine (List.perm_ext_iff_of_nodup (once.filter _) distinct).mpr fun node => ?_
    simpa using listed node
  rw [← same]
  exact List.filter_sublist

/-- The first nodes of groups that are listed by their places are in the order of the members. -/
theorem heads_sublist {groups : List (List α)} (once : members.Nodup)
    (distinct : groups.flatten.Nodup) (listed : ∀ group ∈ groups, group.Sublist members)
    (sorted : groups.Pairwise fun first second => placeOf members first ≤ placeOf members second) :
    (groups.filterMap List.head?).Sublist members := by
  refine sublist_of_increasing once ?_ ?_
  · intro node member
    obtain ⟨group, inside, head⟩ := List.mem_filterMap.mp member
    exact (listed group inside).subset (List.mem_of_mem_head? head)
  · refine List.pairwise_filterMap.mpr ?_
    refine (sorted.and (List.nodup_flatten.mp distinct).2).imp_of_mem ?_
    intro first second one two ⟨ordered, apart⟩ head headFirst other headSecond
    rw [placeOf_eq once (listed first one) headFirst,
      placeOf_eq once (listed second two) headSecond] at ordered
    refine Nat.lt_of_le_of_ne ordered fun same => ?_
    have inside := List.mem_of_mem_head? headFirst
    rw [(List.idxOf_inj ((listed first one).subset inside)).mp same] at inside
    exact apart inside (List.mem_of_mem_head? headSecond)

/-! ## All components -/

theorem mem_listing {component : List { node // node ∈ members }} {node : α} :
    node ∈ listing members component ↔ ∃ listed, ⟨node, listed⟩ ∈ component := by
  simp [listing]

theorem listings_perm {components : List (List { node // node ∈ members })} (once : members.Nodup)
    (distinct : components.flatten.Nodup) (whole : ∀ node, node ∈ components.flatten) :
    (components.map (listing members)).flatten.Perm members := by
  obtain ⟨_, apart⟩ := List.nodup_flatten.mp distinct
  have distinctListings : (components.map (listing members)).flatten.Nodup := by
    refine List.nodup_flatten.mpr ⟨?_, List.pairwise_map.mpr (apart.imp ?_)⟩
    · rintro _ member
      obtain ⟨component, _, rfl⟩ := List.mem_map.mp member
      exact once.filter _
    · intro first second disjoint node one two
      obtain ⟨_, one⟩ := mem_listing.mp one
      obtain ⟨_, two⟩ := mem_listing.mp two
      exact disjoint one two
  refine (List.perm_ext_iff_of_nodup distinctListings once).mpr fun node => ?_
  constructor
  · intro member
    obtain ⟨_, inside, member⟩ := List.mem_flatten.mp member
    obtain ⟨_, _, rfl⟩ := List.mem_map.mp inside
    exact (mem_listing.mp member).1
  · intro listed
    obtain ⟨component, inside, member⟩ := List.mem_flatten.mp (whole ⟨node, listed⟩)
    exact List.mem_flatten.mpr ⟨_, List.mem_map_of_mem inside, mem_listing.mpr ⟨listed, member⟩⟩

/-- What is listed are the components that the search has found, sorted by their places. -/
theorem exists_sorted {final : DepthSearch { node // node ∈ members }}
    (run : members.attach.foldlM
      (DepthSearch.visitRoot members.mem_attach (graph.successorsWithin members)) .start =
        some final) :
    ∃ groups, graph.components? members = some groups ∧
      groups.Perm (final.found.map (listing members)) ∧
      groups.Pairwise fun first second => placeOf members first ≤ placeOf members second := by
  refine ⟨_, by rw [components?, run]; rfl, List.mergeSort_perm _ _, ?_⟩
  refine (List.pairwise_mergeSort ?_ ?_ _).imp fun ordered => of_decide_eq_true ordered
  · intro first second third one two
    simp only [decide_eq_true_eq] at one two ⊢
    exact Nat.le_trans one two
  · intro first second
    simp only [Bool.or_eq_true, decide_eq_true_eq]
    exact Nat.le_total _ _

/-- The components of an indexed graph are found for any members. -/
theorem Indexed.exists_components (indexed : graph.Indexed) (once : members.Nodup) :
    ∃ groups, graph.components? members = some groups ∧
      Reach.Components graph.occurrences members groups := by
  obtain ⟨final, run, distinct, whole, components⟩ :=
    DepthSearch.exists_search members.mem_attach (graph.successorsWithin members)
  obtain ⟨groups, sorted, same, ordered⟩ := exists_sorted run
  have found (group : List α) (inside : group ∈ groups) :
      ∃ component ∈ final.found, listing members component = group :=
    List.mem_map.mp (same.mem_iff.mp inside)
  have covers : groups.flatten.Perm members :=
    same.flatten.trans (listings_perm once distinct whole)
  have listed : ∀ group ∈ groups, group.Sublist members := fun group inside => by
    obtain ⟨component, _, rfl⟩ := found group inside
    exact List.filter_sublist
  have ordered := heads_sublist once (covers.nodup_iff.mpr once) listed ordered
  refine ⟨groups, sorted, covers, ?_, ?_, listed, ordered⟩
  · intro group inside
    obtain ⟨component, member, rfl⟩ := found group inside
    obtain ⟨node, one⟩ := List.exists_mem_of_ne_nil _ (components component member).1
    exact List.ne_nil_of_mem (mem_listing.mpr ⟨node.property, one⟩)
  · intro group inside first one second
    obtain ⟨component, member, rfl⟩ := found group inside
    obtain ⟨_, one⟩ := mem_listing.mp one
    rw [mem_listing, ← exists_prop]
    refine exists_congr fun _ => ?_
    rw [(components component member).2 _ one, indexed.mutual_iff]

/-- Whatever edges have come and gone, the search ends with the strongly connected components of the
graph that the members induce. -/
theorem Reachable.finds_components (reachable : graph.Reachable) (once : members.Nodup) :
    ∃ groups, graph.components? members = some groups ∧
      Reach.Components graph.occurrences members groups :=
  reachable.indexed.exists_components once

/-- Two cycles with an edge from one to the other and an edge that leaves both; the edge that closed
a larger cycle has gone. -/
def twoCycles : EdgeGraph Nat :=
  (((((((empty.add (0, 1)).add (1, 0)).add (1, 2)).add (2, 3)).add (3, 2)).add (3, 0)).add
    (3, 4)).erase (3, 0)

theorem finds_components_twoCycles : ∃ groups, twoCycles.components? [0, 1, 2, 3] = some groups ∧
    Reach.Components twoCycles.occurrences [0, 1, 2, 3] groups := by
  have reachable : twoCycles.Reachable := .erase _ (.add _ (.add _ (.add _ (.add _ (.add _ (.add _
    (.add _ .empty)))))))
  exact Reachable.finds_components reachable (by decide)

example : twoCycles.components? [0, 1, 2, 3] = some [[0, 1], [2, 3]] := by cbv

end EdgeGraph
end LiveQuery
