import LiveQuery.Proofs.Closure.Path

/-!
# Strongly connected components

Two nodes are `Together` if they are the same or each reaches the other.  One more edge only unites
the nodes on the cycles that it closes (`together_cons`), and none at all if its ends were together
before (`together_cons_of_together`).  A component stays one in the graph that it induces
(`together_within`), so whoever lists the components among some nodes may forget every other node
(`Components.mem_iff`).
-/

namespace LiveQuery.Reach

variable {α : Type}

/-- The same node, or two nodes that reach each other. -/
def Together (edges : List (α × α)) (first second : α) : Prop :=
  first = second ∨ Path edges first second ∧ Path edges second first

namespace Together

variable {edges more : List (α × α)} {first second third : α}

theorem refl (edges : List (α × α)) (node : α) : Together edges node node := .inl rfl

theorem symm (together : Together edges first second) : Together edges second first :=
  together.imp Eq.symm And.symm

theorem trans (left : Together edges first second) (right : Together edges second third) :
    Together edges first third := by
  rcases left with rfl | ⟨there, back⟩
  · exact right
  · rcases right with rfl | ⟨onward, home⟩
    · exact .inr ⟨there, back⟩
    · exact .inr ⟨there.trans onward, home.trans back⟩

theorem mono (subset : ∀ edge ∈ edges, edge ∈ more) (together : Together edges first second) :
    Together more first second :=
  together.imp id (And.imp (Path.mono subset) (Path.mono subset))

end Together

theorem together_congr {edges others : List (α × α)} (same : ∀ edge, edge ∈ edges ↔ edge ∈ others)
    {first second : α} : Together edges first second ↔ Together others first second :=
  ⟨.mono fun edge => (same edge).mp, .mono fun edge => (same edge).mpr⟩

/-! ## One edge more -/

/-- The node lies on a walk from the target of an edge back to its source. -/
def ClosesThrough (edges : List (α × α)) (source target node : α) : Prop :=
  (node = target ∨ Path edges target node) ∧ (node = source ∨ Path edges node source)

variable {edges : List (α × α)} {source target first second node : α}

/-- A node through which an edge closes a cycle is together with the ends of that edge. -/
theorem ClosesThrough.together (through : ClosesThrough edges source target node)
    (edge : (source, target) ∈ edges) : Together edges node source := by
  obtain ⟨after, rfl | before⟩ := through
  · exact .refl _ _
  · refine .inr ⟨before, ?_⟩
    have start : Path edges source target := .single edge
    rcases after with rfl | after
    · exact start
    · exact start.trans after

theorem ClosesThrough.congr (through : ClosesThrough edges source target first)
    (together : Together edges first second) : ClosesThrough edges source target second := by
  rcases together with rfl | ⟨there, back⟩
  · exact through
  · refine ⟨.inr ?_, .inr ?_⟩
    · rcases through.1 with rfl | after
      · exact there
      · exact after.trans there
    · rcases through.2 with rfl | before
      · exact back
      · exact back.trans before

/-- With one more edge, the nodes on the cycles that it closes come together, and no others. -/
theorem together_cons :
    Together ((source, target) :: edges) first second ↔ Together edges first second ∨
      ClosesThrough ((source, target) :: edges) source target first ∧
        ClosesThrough ((source, target) :: edges) source target second := by
  have widen {one other : α} (path : Path edges one other) :
      Path ((source, target) :: edges) one other := path.mono fun _ => List.mem_cons_of_mem _
  -- a path back closes the cycle through the edge
  have closes {one other : α} (before : one = source ∨ Path edges one source)
      (after : other = target ∨ Path edges target other)
      (back : Path ((source, target) :: edges) other one) :
      ClosesThrough ((source, target) :: edges) source target one := by
    refine ⟨.inr ?_, before.imp_right widen⟩
    rcases after with rfl | after
    · exact back
    · exact (widen after).trans back
  constructor
  · intro together
    rcases together with same | ⟨there, back⟩
    · exact .inl (.inl same)
    · rcases path_cons.mp there with oldThere | ⟨before, after⟩
      · rcases path_cons.mp back with oldBack | ⟨before, after⟩
        · exact .inl (.inr ⟨oldThere, oldBack⟩)
        · have through := closes before after there
          exact .inr ⟨through.congr (.inr ⟨back, there⟩), through⟩
      · have through := closes before after back
        exact .inr ⟨through, through.congr (.inr ⟨there, back⟩)⟩
  · rintro (together | ⟨one, other⟩)
    · exact together.mono fun _ => List.mem_cons_of_mem _
    · exact (one.together List.mem_cons_self).trans (other.together List.mem_cons_self).symm

/-- An edge between nodes that are together brings no others together. -/
theorem together_cons_of_together (ends : Together edges source target) :
    Together ((source, target) :: edges) first second ↔ Together edges first second := by
  have shorten {one other : α} (path : Path ((source, target) :: edges) one other) :
      one = other ∨ Path edges one other := by
    rcases path_cons.mp path with old | ⟨before, after⟩
    · exact .inr old
    · -- the edge can be replaced by the path between its ends
      rcases ends with rfl | ⟨through, _⟩
      · rcases before with rfl | before
        · exact after.imp_left Eq.symm
        · rcases after with rfl | after
          · exact .inr before
          · exact .inr (before.trans after)
      · refine .inr ?_
        have start : Path edges one target := by
          rcases before with rfl | before
          · exact through
          · exact before.trans through
        rcases after with rfl | after
        · exact start
        · exact start.trans after
  constructor
  · rintro (same | ⟨there, back⟩)
    · exact .inl same
    · rcases shorten there with same | there
      · exact .inl same
      · rcases shorten back with same | back
        · exact .inl same.symm
        · exact .inr ⟨there, back⟩
  · exact .mono fun _ => List.mem_cons_of_mem _

theorem together_cons_of_apart (apart : ¬Together ((source, target) :: edges) source target) :
    Together ((source, target) :: edges) first second ↔ Together edges first second := by
  rw [together_cons, or_iff_left]
  intro through
  have closed : Path ((source, target) :: edges) target source ∨ source = target := by
    obtain ⟨⟨rfl | after, rfl | before⟩, _⟩ := through
    · exact .inr rfl
    · exact .inl before
    · exact .inl after
    · exact .inl (after.trans before)
  have edge : Path ((source, target) :: edges) source target := .single List.mem_cons_self
  exact apart (closed.elim (fun back => .inr ⟨edge, back⟩) .inl)

/-! ## Induced graphs -/

variable [DecidableEq α] {members : List α}

/-- The edges between nodes of a list. -/
def within (edges : List (α × α)) (members : List α) : List (α × α) :=
  edges.filter fun edge => members.contains edge.1 && members.contains edge.2

theorem mem_within {edge : α × α} :
    edge ∈ within edges members ↔ edge ∈ edges ∧ edge.1 ∈ members ∧ edge.2 ∈ members := by
  simp [within]

/-- A path within the component of its start stays among nodes that include the component. -/
theorem path_within (closed : ∀ node, Together edges first node → node ∈ members)
    (path : Path edges first second) (back : Path edges second first) :
    Path (within edges members) first second := by
  induction path with
  | single edge =>
    exact .single (mem_within.mpr
      ⟨edge, closed first (.refl _ _), closed _ (.inr ⟨.single edge, back⟩)⟩)
  | @tail middle last before edge ih =>
    have return_ : Path edges middle first := .head edge back
    refine (ih return_).tail (mem_within.mpr ⟨edge, ?_, ?_⟩)
    · exact closed middle (.inr ⟨before, return_⟩)
    · exact closed last (.inr ⟨before.tail edge, back⟩)

theorem together_within (closed : ∀ node, Together edges first node → node ∈ members) :
    Together (within edges members) first second ↔ Together edges first second := by
  constructor
  · exact .mono fun edge member => (mem_within.mp member).1
  · rintro (same | ⟨there, back⟩)
    · exact .inl same
    · have closedThere : ∀ node, Together edges second node → node ∈ members :=
        fun node together => closed node (.trans (.inr ⟨there, back⟩) together)
      exact .inr ⟨path_within closed there back, path_within closedThere back there⟩

/-! ## Lists of components -/

/-- The groups are the strongly connected components of the graph that the members induce.  Every
member is in one group and once there; groups and their nodes are listed in the order of the
members, groups by their first nodes. -/
structure Components (edges : List (α × α)) (members : List α) (groups : List (List α)) : Prop where
  covers : groups.flatten.Perm members
  inhabited : ∀ group ∈ groups, group ≠ []
  together : ∀ group ∈ groups, ∀ first ∈ group, ∀ second,
    second ∈ group ↔ second ∈ members ∧ Together (within edges members) first second
  listed : ∀ group ∈ groups, group.Sublist members
  ordered : (groups.filterMap List.head?).Sublist members

/-- A component of a list that is closed under being together consists of the nodes that are
together with any of its nodes. -/
theorem Components.mem_iff {groups : List (List α)} (components : Components edges members groups)
    (closed : ∀ one ∈ members, ∀ other, Together edges one other → other ∈ members)
    {nodes : List α} (member : nodes ∈ groups) (inside : first ∈ nodes) :
    second ∈ nodes ↔ Together edges first second := by
  have listed : first ∈ members :=
    components.covers.mem_iff.mp (List.mem_flatten.mpr ⟨nodes, member, inside⟩)
  rw [components.together nodes member first inside, together_within (closed first listed)]
  exact and_iff_right_of_imp (closed first listed second)

end LiveQuery.Reach
