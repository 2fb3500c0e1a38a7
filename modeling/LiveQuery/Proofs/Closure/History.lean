import LiveQuery.Proofs.Closure.Change

/-!
# Histories of edges

What a closure answers after any history of insertions and deletions, whether or not the edges are
there: `history_exact`.

Users see a closure through its questions.  `DescribesPaths` says that each of them is answered by
the paths of the present edges, and that listings name every answer once; in any state it follows
from the invariant `Exact` (`Exact.describesPaths`).  A change keeps the invariant, and what it
reports is the difference between the pairs before and after it (`Exact.applyEdge`).  A history is
one change after another, so the invariant holds at its end (`exact_afterHistory`).

How often an edge is there can be told from the history alone: a change adds one to its multiplicity
or takes one away (`Exact.edgeMultiplicity_applyEdge`), and only the deletion of an edge that is not
there is refused (`applyEdge_refused_iff`).
-/

namespace LiveQuery

/-- One more or one less occurrence of an edge. -/
inductive EdgeChange (α : Type) where
  | insert (source target : α)
  | delete (source target : α)
  deriving DecidableEq

namespace Closure

variable {α : Type} [DecidableEq α]

/-- The closure after a change, and the delta that the change reports; a deletion of an edge that is
not there reports none. -/
def applyEdge (closure : Closure α) : EdgeChange α → Closure α × Option (ClosureDelta α)
  | .insert source target =>
    let (changed, delta) := closure.insertEdge source target
    (changed, some delta)
  | .delete source target =>
    match closure.deleteEdge? source target with
    | some (changed, delta) => (changed, some delta)
    | none => (closure, none)

/-- The closure after a history of changes, oldest first. -/
def afterHistory (history : List (EdgeChange α)) : Closure α :=
  history.foldl (fun closure change => (closure.applyEdge change).1) .empty

/-- How often an edge is inserted in a history. -/
def insertions (history : List (EdgeChange α)) (source target : α) : Nat :=
  history.count (.insert source target)

/-- How often an edge is deleted successfully when a history runs from a closure. -/
def deletionsFrom (source target : α) : Closure α → List (EdgeChange α) → Nat
  | _, [] => 0
  | closure, change :: rest =>
    (if change = .delete source target ∧ (closure.applyEdge change).2.isSome then 1 else 0) +
      deletionsFrom source target (closure.applyEdge change).1 rest

/-- How often an edge is deleted successfully in a history. -/
def deletions (history : List (EdgeChange α)) (source target : α) : Nat :=
  deletionsFrom source target .empty history

/-- Every question about reachability is answered by the paths of the present edges, and listings
name every answer once. -/
structure DescribesPaths (closure : Closure α) : Prop where
  reaches : ∀ source target,
    closure.reaches source target = true ↔ closure.Joined source target
  reachableFrom : ∀ source target,
    target ∈ closure.reachableFrom source ↔ closure.Joined source target
  pairs : ∀ source target, (source, target) ∈ closure.pairs ↔ closure.Joined source target
  reachableFromOnce : ∀ source, (closure.reachableFrom source).Nodup
  pairsOnce : closure.pairs.Nodup

theorem Exact.describesPaths {closure : Closure α} (exact : closure.Exact) :
    closure.DescribesPaths where
  reaches _ _ := exact.reaches_iff
  reachableFrom _ _ := exact.mem_reachableFrom
  pairs _ _ := exact.mem_pairs
  reachableFromOnce := exact.nodup_reachableFrom
  pairsOnce := exact.nodup_pairs

/-! ## One change -/

theorem applyEdge_delete_of_some {closure after : Closure α} {delta : ClosureDelta α}
    {source target : α} (deleted : closure.deleteEdge? source target = some (after, delta)) :
    closure.applyEdge (.delete source target) = (after, some delta) := by
  simp only [applyEdge, deleted]

theorem applyEdge_delete_of_none {closure : Closure α} {source target : α}
    (refused : closure.deleteEdge? source target = none) :
    closure.applyEdge (.delete source target) = (closure, none) := by
  simp only [applyEdge, refused]

theorem applyEdge_delete_refused_iff (closure : Closure α) (source target : α) :
    closure.applyEdge (.delete source target) = (closure, none) ↔
      closure.edgeMultiplicity source target = 0 := by
  rw [edgeMultiplicity, ← Nat.le_zero, ← Nat.not_lt, Bag.count_pos_iff, ← deleteEdge?_eq_none_iff]
  constructor
  · intro refused
    cases deleted : closure.deleteEdge? source target with
    | none => rfl
    | some answer =>
      rw [applyEdge_delete_of_some deleted] at refused
      cases refused
  · exact applyEdge_delete_of_none

/-- An exact closure stays exact, and its delta reports exactly what changed. -/
theorem Exact.applyEdge {closure : Closure α} (exact : closure.Exact) (change : EdgeChange α) :
    (closure.applyEdge change).1.Exact ∧ ∀ delta, (closure.applyEdge change).2 = some delta →
      Reports closure (closure.applyEdge change).1 delta := by
  cases change with
  | insert source target =>
    obtain ⟨kept, _, reports⟩ := exact_insertEdge exact source target
    refine ⟨kept, ?_⟩
    intro delta found
    cases found
    exact reports
  | delete source target =>
    cases deleted : closure.deleteEdge? source target with
    | none =>
      rw [applyEdge_delete_of_none deleted]
      exact ⟨exact, fun _ found => by cases found⟩
    | some answer =>
      obtain ⟨kept, _, reports⟩ := exact_deleteEdge exact deleted
      rw [applyEdge_delete_of_some deleted]
      refine ⟨kept, ?_⟩
      intro delta found
      cases found
      exact reports

theorem Exact.edgeMultiplicity_applyEdge {closure : Closure α} (exact : closure.Exact)
    (change : EdgeChange α) (source target : α) :
    (closure.applyEdge change).1.edgeMultiplicity source target +
        (if change = .delete source target ∧ (closure.applyEdge change).2.isSome then 1 else 0) =
      closure.edgeMultiplicity source target + if change = .insert source target then 1 else 0 := by
  cases change with
  | insert first last =>
    have edges := (exact_insertEdge exact first last).2.1
    simp only [Closure.applyEdge, edgeMultiplicity, edges, EdgeGraph.toBag_add, Bag.count_add,
      reduceCtorEq, false_and, if_false, Nat.add_zero, EdgeChange.insert.injEq, Prod.mk.injEq]
  | delete first last =>
    cases deleted : closure.deleteEdge? first last with
    | none => simp [applyEdge_delete_of_none deleted]
    | some answer =>
      have edges := (exact_deleteEdge exact deleted).2.1
      have present : 0 < closure.edges.count (first, last) := by
        rw [Bag.count_pos_iff]
        by_contra absent
        rw [(deleteEdge?_eq_none_iff closure first last).mpr absent] at deleted
        cases deleted
      simp only [applyEdge_delete_of_some deleted, edgeMultiplicity, edges, EdgeGraph.toBag_erase,
        Bag.count_erase, Option.isSome_some, and_true, EdgeChange.delete.injEq, reduceCtorEq,
        if_false, Prod.mk.injEq]
      by_cases same : first = source ∧ last = target
      · obtain ⟨rfl, rfl⟩ := same
        simp only [and_self, if_true]
        omega
      · rw [if_neg same, if_neg fun other => same ⟨other.1.symm, other.2.symm⟩]
        omega

/-! ## Histories -/

theorem exact_foldl {closure : Closure α} (exact : closure.Exact) (history : List (EdgeChange α)) :
    (history.foldl (fun closure change => (closure.applyEdge change).1) closure).Exact := by
  induction history generalizing closure with
  | nil => exact exact
  | cons change rest ih => exact ih (exact.applyEdge change).1

theorem exact_afterHistory (history : List (EdgeChange α)) : (afterHistory history).Exact :=
  exact_foldl exact_empty history

theorem edgeMultiplicity_foldl {closure : Closure α} (exact : closure.Exact)
    (history : List (EdgeChange α)) (source target : α) :
    (history.foldl (fun closure change => (closure.applyEdge change).1) closure).edgeMultiplicity
        source target + deletionsFrom source target closure history =
      closure.edgeMultiplicity source target + insertions history source target := by
  induction history generalizing closure with
  | nil => rfl
  | cons change rest ih =>
    have step := exact.edgeMultiplicity_applyEdge change source target
    have later := ih (exact.applyEdge change).1
    simp only [List.foldl_cons, deletionsFrom, insertions, List.count_cons, beq_iff_eq] at later ⊢
    omega

/-- A change is refused exactly when it deletes an edge that is not there. -/
theorem applyEdge_refused_iff (closure : Closure α) (change : EdgeChange α) :
    (closure.applyEdge change).2 = none ↔ ∃ source target,
      change = .delete source target ∧ closure.edgeMultiplicity source target = 0 := by
  cases change with
  | insert source target => simp [applyEdge]
  | delete source target =>
    simp only [EdgeChange.delete.injEq]
    rw [show (∃ first last, (source = first ∧ target = last) ∧
        closure.edgeMultiplicity first last = 0) ↔ closure.edgeMultiplicity source target = 0 by
      grind, ← applyEdge_delete_refused_iff]
    cases deleted : closure.deleteEdge? source target with
    | none => simp [applyEdge_delete_of_none deleted]
    | some answer => simp [applyEdge_delete_of_some deleted]

/-- After any history, questions about reachability are answered by the paths of the present edges,
and an edge is there as often as it was inserted and successfully deleted.  The next change,
whichever it is, is refused exactly when it deletes an edge that is not there; if it is refused, it
changes nothing, and otherwise it reports exactly the pairs that it joins and separates, each once.
-/
theorem history_exact (history : List (EdgeChange α)) :
    (afterHistory history).DescribesPaths ∧
    (∀ source target, (afterHistory history).edgeMultiplicity source target +
      deletions history source target = insertions history source target) ∧
    ∀ change,
      (((afterHistory history).applyEdge change).2 = none ↔ ∃ source target,
        change = .delete source target ∧
          (afterHistory history).edgeMultiplicity source target = 0) ∧
      ((afterHistory history).applyEdge change = (afterHistory history, none) ∨
        ∃ delta, ((afterHistory history).applyEdge change).2 = some delta ∧
          Reports (afterHistory history) ((afterHistory history).applyEdge change).1 delta) := by
  have exact := exact_afterHistory history
  refine ⟨exact.describesPaths, fun source target => ?_,
    fun change => ⟨applyEdge_refused_iff _ change, ?_⟩⟩
  · have total := edgeMultiplicity_foldl exact_empty history source target
    have unborn : (empty : Closure α).edgeMultiplicity source target = 0 := Bag.count_empty _
    rwa [unborn, Nat.zero_add] at total
  · cases answer : ((afterHistory history).applyEdge change).2 with
    | some delta => exact .inr ⟨delta, rfl, (exact.applyEdge change).2 delta answer⟩
    | none =>
      obtain ⟨source, target, rfl, absent⟩ := (applyEdge_refused_iff _ change).mp answer
      exact .inl ((applyEdge_delete_refused_iff _ source target).mpr absent)

end Closure
end LiveQuery
