/-!
# Reachability

Paths in a finite directed graph given by its list of edges.  The search uses up every edge that
it follows, so it ends without counting steps, and cycles cannot keep it going.
-/

namespace LiveQuery.Reach

variable {α : Type} [DecidableEq α]

/-- The edges that leave a node. -/
def leaving (edges : List (α × α)) (node : α) : List (α × α) :=
  edges.filter fun edge => edge.1 = node

/-- The edges that leave other nodes. -/
def elsewhere (edges : List (α × α)) (node : α) : List (α × α) :=
  edges.filter fun edge => edge.1 ≠ node

theorem length_leaving_add_length_elsewhere (edges : List (α × α)) (node : α) :
    (leaving edges node).length + (elsewhere edges node).length = edges.length := by
  induction edges with
  | nil => rfl
  | cons edge rest ih => grind [leaving, elsewhere]

/-- The waiting nodes and everything that the remaining edges lead to from them, in the order of a
breadth-first search; nodes may be listed several times. -/
def search (edges : List (α × α)) : List α → List α
  | [] => []
  | node :: waiting =>
    node :: search (elsewhere edges node) (waiting ++ (leaving edges node).map Prod.snd)
termination_by waiting => edges.length + waiting.length
decreasing_by
  have := length_leaving_add_length_elsewhere edges node
  simp only [List.length_append, List.length_map, List.length_cons]
  omega

/-- The nodes at the end of a path of at least one edge. -/
def after (edges : List (α × α)) (start : α) : List α :=
  (search edges [start]).tail

end LiveQuery.Reach
