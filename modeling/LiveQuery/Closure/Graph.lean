import LiveQuery.Bag
import LiveQuery.Table

/-!
# Counted edges

A directed graph in which an edge may occur several times.  Beside the occurrences the graph keeps,
for every node, the targets of the edges that leave it; only the first occurrence of an edge and the
last one change these.

What a node leads to is found along these targets, by a breadth-first search
(`EdgeGraph.reachable`).  The search ends because a node enters its successors into the queue only
once: what the queue gains then, the rows of the nodes that have not been seen lose.
-/

namespace LiveQuery

/-- The occurrences of edges, and the targets of the edges that leave each node. -/
structure EdgeGraph (α : Type) extends Bag (α × α) where
  forward : Table α (List α)

namespace EdgeGraph

variable {α : Type}

/-- The graph without edges. -/
def empty : EdgeGraph α := ⟨.empty, .empty⟩

variable [DecidableEq α]

/-- The targets of the edges that leave a node, in no particular order. -/
def successors (graph : EdgeGraph α) (source : α) : List α :=
  (graph.forward.get? source).getD []

/-- One more occurrence of an edge. -/
def add (graph : EdgeGraph α) (edge : α × α) : EdgeGraph α where
  toBag := graph.toBag.add edge
  forward :=
    if graph.contains edge then graph.forward
    else graph.forward.insert edge.1 (edge.2 :: graph.successors edge.1)

/-- One occurrence of an edge less; nothing changes when there is none. -/
def erase (graph : EdgeGraph α) (edge : α × α) : EdgeGraph α where
  toBag := graph.toBag.erase edge
  forward :=
    if graph.count edge = 1 then
      graph.forward.insert edge.1 ((graph.successors edge.1).filter fun target => target ≠ edge.2)
    else graph.forward

@[simp] theorem toBag_add (graph : EdgeGraph α) (edge : α × α) :
    (graph.add edge).toBag = graph.toBag.add edge := rfl

@[simp] theorem toBag_erase (graph : EdgeGraph α) (edge : α × α) :
    (graph.erase edge).toBag = graph.toBag.erase edge := rfl

@[simp] theorem successors_add (graph : EdgeGraph α) (edge : α × α) (source : α) :
    (graph.add edge).successors source =
      if source = edge.1 ∧ graph.contains edge = false then edge.2 :: graph.successors source
      else graph.successors source := by
  unfold successors add
  cases graph.contains edge with
  | true => simp
  | false =>
    by_cases leaves : source = edge.1
    · simp [leaves, successors]
    · simp [leaves]

@[simp] theorem successors_erase (graph : EdgeGraph α) (edge : α × α) (source : α) :
    (graph.erase edge).successors source =
      if source = edge.1 ∧ graph.count edge = 1 then
        (graph.successors source).filter fun target => target ≠ edge.2
      else graph.successors source := by
  unfold successors erase
  by_cases last : graph.count edge = 1
  · by_cases leaves : source = edge.1
    · simp [last, leaves, successors]
    · simp [last, leaves]
  · simp [last]

/-! ## Searching -/

/-- The number of targets in the rows of those nodes that have not been seen. -/
def unseenTargets (seen : List α) : List (α × List α) → Nat
  | [] => 0
  | (node, targets) :: rest =>
    (if seen.contains node then 0 else targets.length) + unseenTargets seen rest

theorem unseenTargets_cons_le (node : α) (seen : List α) (rows : List (α × List α)) :
    unseenTargets (node :: seen) rows ≤ unseenTargets seen rows := by
  induction rows with
  | nil => exact Nat.le_refl _
  | cons row rest ih =>
    refine Nat.add_le_add ?_ ih
    by_cases known : seen.contains row.1 = true
    · simp_all
    · rw [if_neg known]
      split <;> simp

theorem unseenTargets_cons_add_length (graph : EdgeGraph α) {node : α} {seen : List α}
    (fresh : ¬seen.contains node = true) :
    unseenTargets (node :: seen) graph.forward.entries + (graph.successors node).length ≤
      unseenTargets seen graph.forward.entries := by
  unfold successors Table.get?
  generalize graph.forward.entries = rows
  induction rows with
  | nil => exact Nat.le_refl _
  | cons row rest ih =>
    by_cases here : row.1 = node
    · -- its own row counts no more
      have later := unseenTargets_cons_le node seen rest
      simp only [unseenTargets, here, List.contains_cons, beq_self_eq_true, Bool.true_or, if_true,
        List.find?_cons, decide_true, Option.map_some, Option.getD_some, fresh,
        Bool.false_eq_true, if_false]
      omega
    · simp only [unseenTargets, List.contains_cons, beq_eq_false_iff_ne.mpr here, Bool.false_or,
        List.find?_cons, here, decide_false]
      omega

/-- Takes one node after another from the front of the queue.  A node that has not been seen before
sends those of its successors that have not been seen either to the end of the queue. -/
def search (graph : EdgeGraph α) (seen : List α) : List α → List α
  | [] => seen
  | node :: queue =>
    if seen.contains node then graph.search seen queue
    else
      graph.search (node :: seen)
        (queue ++ (graph.successors node).filter fun next => !(node :: seen).contains next)
termination_by queue => unseenTargets seen graph.forward.entries + queue.length
decreasing_by
  · simp only [List.length_cons]
    omega
  · rename_i fresh
    have taken := unseenTargets_cons_add_length graph fresh
    have few := List.length_filter_le (fun next => !(node :: seen).contains next)
      (graph.successors node)
    simp only [List.length_append, List.length_cons]
    omega

/-- The nodes that a path of at least one edge leads to. -/
def reachable (graph : EdgeGraph α) (start : α) : List α :=
  graph.search [] (graph.successors start)

end EdgeGraph
end LiveQuery
