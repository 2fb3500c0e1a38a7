import Mathlib.Logic.Relation
import LiveQuery.Closure.Reach

/-!
# Paths

A path of at least one edge, and what the search of `Reach` finds: `mem_after` says that it finds
exactly the ends of the paths that leave a node.  One more edge adds the paths that run through it
(`path_cons`); paths from a node that did not reach an edge are still there when that edge is gone
(`Path.avoids`).
-/

namespace LiveQuery.Reach

variable {α : Type}

/-- There is an edge from one node to another. -/
def Step (edges : List (α × α)) (source target : α) : Prop := (source, target) ∈ edges

/-- A path of at least one edge leads from one node to another. -/
def Path (edges : List (α × α)) : α → α → Prop := Relation.TransGen (Step edges)

theorem Path.mono {edges more : List (α × α)} (subset : ∀ edge ∈ edges, edge ∈ more)
    {source target : α} (path : Path edges source target) : Path more source target :=
  Relation.TransGen.mono (fun _ _ edge => subset _ edge) _ _ path

theorem path_congr {edges others : List (α × α)} (same : ∀ edge, edge ∈ edges ↔ edge ∈ others)
    {source target : α} : Path edges source target ↔ Path others source target :=
  ⟨Path.mono fun edge => (same edge).mp, Path.mono fun edge => (same edge).mpr⟩

theorem Path.ends {edges : List (α × α)} {source target : α} (path : Path edges source target) :
    (∃ next, (source, next) ∈ edges) ∧ ∃ previous, (previous, target) ∈ edges := by
  constructor
  · obtain ⟨next, edge, _⟩ := Relation.TransGen.head'_iff.mp path
    exact ⟨next, edge⟩
  · obtain ⟨previous, _, edge⟩ := Relation.TransGen.tail'_iff.mp path
    exact ⟨previous, edge⟩

/-! ## The search -/

variable [DecidableEq α]

@[simp] theorem mem_elsewhere {edges : List (α × α)} {node : α} {edge : α × α} :
    edge ∈ elsewhere edges node ↔ edge ∈ edges ∧ edge.1 ≠ node := by
  simp [elsewhere]

@[simp] theorem mem_leaving_targets {edges : List (α × α)} {node target : α} :
    target ∈ (leaving edges node).map Prod.snd ↔ (node, target) ∈ edges := by
  simp [leaving]

/-- A walk either avoids the edges that leave a node, or it can be cut off before the last of
them. -/
theorem walk_elsewhere {edges : List (α × α)} (node : α) {source target : α}
    (walk : Relation.ReflTransGen (Step edges) source target) :
    Relation.ReflTransGen (Step (elsewhere edges node)) source target ∨
      ∃ next, (node, next) ∈ edges ∧
        Relation.ReflTransGen (Step (elsewhere edges node)) next target := by
  induction walk with
  | refl => exact .inl .refl
  | @tail previous target _ edge ih =>
    by_cases leaves : previous = node
    · subst leaves
      exact .inr ⟨target, edge, .refl⟩
    · have kept : Step (elsewhere edges node) previous target := mem_elsewhere.mpr ⟨edge, leaves⟩
      rcases ih with walk | ⟨next, first, walk⟩
      · exact .inl (walk.tail kept)
      · exact .inr ⟨next, first, walk.tail kept⟩

theorem walk_of_elsewhere {edges : List (α × α)} {node source target : α}
    (walk : Relation.ReflTransGen (Step (elsewhere edges node)) source target) :
    Relation.ReflTransGen (Step edges) source target :=
  Relation.ReflTransGen.mono (fun _ _ edge => (mem_elsewhere.mp edge).1) _ _ walk

/-- The search finds the nodes that a walk from a waiting node leads to. -/
theorem mem_search {edges : List (α × α)} {waiting : List α} {target : α} :
    target ∈ search edges waiting ↔
      ∃ source ∈ waiting, Relation.ReflTransGen (Step edges) source target := by
  fun_induction search edges waiting with
  | case1 => simp
  | case2 edges node waiting ih =>
    simp only [List.mem_cons, List.mem_append, mem_leaving_targets, ih]
    constructor
    · rintro (rfl | ⟨source, member | edge, walk⟩)
      · exact ⟨target, .inl rfl, .refl⟩
      · exact ⟨source, .inr member, walk_of_elsewhere walk⟩
      · exact ⟨node, .inl rfl, .head edge (walk_of_elsewhere walk)⟩
    · intro found
      obtain ⟨source, rfl | member, walk⟩ := found
      · rcases walk_elsewhere source walk with walk | ⟨next, edge, walk⟩
        · -- a walk without edges that leave its start stays there
          rcases Relation.ReflTransGen.cases_head walk with same | ⟨_, edge, _⟩
          · exact .inl same.symm
          · exact absurd rfl (mem_elsewhere.mp edge).2
        · exact .inr ⟨next, .inr edge, walk⟩
      · rcases walk_elsewhere node walk with walk | ⟨next, edge, walk⟩
        · exact .inr ⟨source, .inl member, walk⟩
        · exact .inr ⟨next, .inr edge, walk⟩

/-- The search from a node finds exactly the ends of the paths that leave it. -/
theorem mem_after {edges : List (α × α)} {source target : α} :
    target ∈ after edges source ↔ Path edges source target := by
  have tail : after edges source = search (elsewhere edges source)
      ((leaving edges source).map Prod.snd) := by
    simp [after, search]
  rw [tail, mem_search, Path, Relation.TransGen.head'_iff]
  simp only [mem_leaving_targets]
  constructor
  · intro found
    obtain ⟨next, edge, walk⟩ := found
    exact ⟨next, edge, walk_of_elsewhere walk⟩
  · intro found
    obtain ⟨next, edge, walk⟩ := found
    rcases walk_elsewhere source walk with walk | other
    · exact ⟨next, edge, walk⟩
    · exact other

/-! ## One edge more or less -/

omit [DecidableEq α] in
theorem path_cons {edges : List (α × α)} {first second source target : α} :
    Path ((first, second) :: edges) source target ↔ Path edges source target ∨
      (source = first ∨ Path edges source first) ∧
        (target = second ∨ Path edges second target) := by
  have widen : ∀ {source target}, Path edges source target →
      Path ((first, second) :: edges) source target :=
    Path.mono fun _ => List.mem_cons_of_mem _
  have through : Path ((first, second) :: edges) first second := .single List.mem_cons_self
  constructor
  · intro path
    induction path with
    | single edge =>
      rcases List.mem_cons.mp edge with same | old
      · obtain ⟨rfl, rfl⟩ := Prod.ext_iff.mp same
        exact .inr ⟨.inl rfl, .inl rfl⟩
      · exact .inl (.single old)
    | @tail middle target _ edge ih =>
      rcases List.mem_cons.mp edge with same | old
      · obtain ⟨rfl, rfl⟩ := Prod.ext_iff.mp same
        rcases ih with path | ⟨start, _⟩
        · exact .inr ⟨.inr path, .inl rfl⟩
        · exact .inr ⟨start, .inl rfl⟩
      · rcases ih with path | ⟨start, rfl | path⟩
        · exact .inl (path.tail old)
        · exact .inr ⟨start, .inr (.single old)⟩
        · exact .inr ⟨start, .inr (path.tail old)⟩
  · rintro (path | ⟨rfl | before, rfl | behind⟩)
    · exact widen path
    · exact through
    · exact through.trans (widen behind)
    · exact (widen before).trans through
    · exact ((widen before).trans through).trans (widen behind)

omit [DecidableEq α] in
/-- Paths from a node that did not reach an edge do not need that edge. -/
theorem Path.avoids {edges rest : List (α × α)} {first second : α}
    (kept : ∀ edge ∈ edges, edge ≠ (first, second) → edge ∈ rest) {source target : α}
    (path : Path edges source target) (apart : ¬(source = first ∨ Path edges source first)) :
    Path rest source target := by
  induction path with
  | @single target edge =>
    refine .single (kept _ edge fun same => apart (.inl ?_))
    exact (Prod.ext_iff.mp same).1
  | @tail middle target before edge ih =>
    refine ih.tail (kept _ edge fun same => apart (.inr ?_))
    obtain ⟨rfl, rfl⟩ := Prod.ext_iff.mp same
    exact before

end LiveQuery.Reach
