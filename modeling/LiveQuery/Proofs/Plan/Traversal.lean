import Mathlib.Algebra.GroupWithZero.Nat
import LiveQuery.Plan.Basic

/-!
# Traversing an arena

A traversal goes through an arena with a stack, without recursion.  What it has listed, followed by
what is going to be listed for every visit on its stack, stays the same from turn to turn
(`expected_turn?`), so in the end it has listed the tree below its root (`postOrder_eq_unfolded`),
after two turns for every sub-plan of that tree (`ends_postOrder`).  In this tree every sub-plan
comes after its earlier children, as often as it is there (`childrenFirst_postOrder`).

All of this holds of every arena: only children with a smaller number are followed, whatever else
the sub-plans refer to.  The same tree is written by rendering a plan, which has a line for every
sub-plan in it and one for every reference that is not followed (`Plan.inLines_renderFrom`).
-/

namespace LiveQuery
namespace Arena

variable {arena : Arena} {traversal next : Traversal} {root : SubPlanId}

/-- What a visit adds to the listing. -/
def addedBy (arena : Arena) (visit : Visit) : List SubPlanId :=
  if visit.expanded then [visit.id] else arena.unfolded visit.id

/-- What will have been listed when nothing is left to visit. -/
def expected (arena : Arena) (traversal : Traversal) : List SubPlanId :=
  traversal.listed ++ traversal.stack.flatMap arena.addedBy

/-- A turn moves nothing in the expected listing. -/
theorem expected_turn? (turned : arena.turn? traversal = some next) :
    arena.expected next = arena.expected traversal := by
  obtain ⟨stack, listed⟩ := traversal
  unfold turn? at turned
  dsimp only at turned
  split at turned
  · cases turned
  next id rest =>
    cases turned
    simp [expected, addedBy]
  next id rest =>
    cases turned
    simp [expected, addedBy, arena.unfolded_eq id, List.flatMap_map]

theorem turn?_eq_none : arena.turn? traversal = none ↔ traversal.stack = [] := by
  unfold turn?
  split <;> simp [*]

theorem traverse_eq_expected (arena : Arena) (traversal : Traversal) :
    arena.traverse traversal = arena.expected traversal := by
  fun_induction traverse arena traversal with
  | case1 traversal finished => simp [expected, turn?_eq_none.mp finished]
  | case2 traversal next turned ih => rw [ih, expected_turn? turned]

theorem postOrder_eq_unfolded (arena : Arena) (root : SubPlanId) :
    arena.postOrder root = arena.unfolded root := by
  rw [postOrder, traverse_eq_expected]
  simp [expected, addedBy]

/-- The listing follows the children of the root, as far as they are earlier, and ends with the
root. -/
theorem postOrder_unfold (arena : Arena) (root : SubPlanId) :
    arena.postOrder root = match arena.get? root with
      | none => [root]
      | some subPlan => (subPlan.operation.children.flatMap fun child =>
          if child.index < root.index then arena.postOrder child else []) ++ [root] := by
  rw [postOrder_eq_unfolded, unfolded_eq, earlierChildren]
  cases arena.get? root with
  | none => rfl
  | some subPlan =>
    refine congrArg (· ++ [root]) ?_
    dsimp only
    induction subPlan.operation.children with
    | nil => rfl
    | cons child rest ih =>
      rw [List.flatMap_cons, ← ih, postOrder_eq_unfolded]
      by_cases earlier : child.index < root.index <;> simp [earlier]

theorem self_mem_unfolded (arena : Arena) (id : SubPlanId) : id ∈ arena.unfolded id := by
  rw [unfolded_eq]
  exact List.mem_append_right _ (List.mem_singleton_self id)

/-! ## Turns -/

/-- A traversal ends after a number of turns with a listing. -/
inductive Ends (arena : Arena) : Traversal → Nat → List SubPlanId → Prop where
  | finished {traversal : Traversal} (empty : arena.turn? traversal = none) :
      Ends arena traversal 0 traversal.listed
  | turn {traversal next : Traversal} {turns : Nat} {listing : List SubPlanId}
      (turned : arena.turn? traversal = some next) (later : Ends arena next turns listing) :
      Ends arena traversal (turns + 1) listing

theorem ends_traverse (arena : Arena) (traversal : Traversal) :
    arena.Ends traversal (arena.turnsLeft traversal) (arena.traverse traversal) := by
  fun_induction traverse arena traversal with
  | case1 traversal finished =>
    have none_left : arena.turnsLeft traversal = 0 := by
      simp [turnsLeft, turn?_eq_none.mp finished]
    exact none_left ▸ .finished finished
  | case2 traversal next turned ih => exact turnsLeft_turn? turned ▸ .turn turned ih

/-- Every sub-plan that is listed takes two turns: one for its children and one for itself. -/
theorem ends_postOrder (arena : Arena) (root : SubPlanId) :
    arena.Ends ⟨[⟨root, false⟩], []⟩ (2 * (arena.postOrder root).length)
      (arena.postOrder root) := by
  have ends := arena.ends_traverse ⟨[⟨root, false⟩], []⟩
  have turns : arena.turnsLeft ⟨[⟨root, false⟩], []⟩ = 2 * (arena.postOrder root).length := by
    rw [postOrder_eq_unfolded]
    simp [turnsLeft, turnsOf]
  rwa [turns] at ends

/-! ## Order -/

/-- Wherever a sub-plan is listed, its earlier children are listed before. -/
def ChildrenFirst (arena : Arena) (listing : List SubPlanId) : Prop :=
  ∀ before id after, listing = before ++ id :: after →
    ∀ child ∈ arena.earlierChildren id, child ∈ before

/-- What is listed later may rely on all that has been listed. -/
theorem ChildrenFirst.append {first second : List SubPlanId} (ordered : arena.ChildrenFirst first)
    (later : ∀ before id after, second = before ++ id :: after →
      ∀ child ∈ arena.earlierChildren id, child ∈ first ++ before) :
    arena.ChildrenFirst (first ++ second) := by
  intro before id after parts
  rcases List.append_eq_append_iff.mp parts with ⟨middle, rfl, rest⟩ | ⟨middle, inFirst, rest⟩
  · exact later middle id after rest
  · cases middle with
    | nil =>
      obtain rfl : first = before := inFirst.trans (List.append_nil before)
      have whole := later [] id after rest.symm
      rwa [List.append_nil] at whole
    | cons head others =>
      obtain ⟨rfl, _⟩ := List.cons.inj rest
      exact ordered before id others inFirst

theorem ChildrenFirst.flatMap {ids : List SubPlanId} {list : SubPlanId → List SubPlanId}
    (each : ∀ id ∈ ids, arena.ChildrenFirst (list id)) :
    arena.ChildrenFirst (ids.flatMap list) := by
  induction ids with
  | nil => exact fun before id after parts => by simp at parts
  | cons id rest ih =>
    have others := ih fun other member => each other (List.mem_cons_of_mem _ member)
    exact (each id List.mem_cons_self).append fun before other after parts child member =>
      List.mem_append_right _ (others before other after parts child member)

theorem childrenFirst_postOrder (arena : Arena) (root : SubPlanId) :
    arena.ChildrenFirst (arena.postOrder root) := by
  induction place : root.index using Nat.strongRecOn generalizing root with
  | _ place ih =>
    rw [postOrder_eq_unfolded, unfolded_eq]
    refine ChildrenFirst.append (.flatMap fun child member => ?_) fun before id after parts => ?_
    · rw [← postOrder_eq_unfolded]
      exact ih child.index (place ▸ lt_of_mem_earlierChildren member) child rfl
    · obtain ⟨rfl, rfl⟩ : before = [] ∧ id = root := by
        cases before <;> simp_all
      intro child member
      rw [List.append_nil]
      exact List.mem_flatMap.mpr ⟨child, member, self_mem_unfolded arena child⟩

/-! ## Rendering -/

/-- The children of a sub-plan that are not followed. -/
def laterChildren (arena : Arena) (id : SubPlanId) : List SubPlanId :=
  match arena.get? id with
  | none => []
  | some subPlan => subPlan.operation.children.filter (id.index ≤ ·.index)

/-- How many lines the tree below a sub-plan takes: one for every sub-plan that is listed and one
for every reference of it that is not followed. -/
def linesBelow (arena : Arena) (id : SubPlanId) : Nat :=
  ((arena.postOrder id).map fun step => (arena.laterChildren step).length + 1).sum

theorem linesBelow_eq (arena : Arena) (id : SubPlanId) : arena.linesBelow id =
    1 + (((arena.earlierChildren id).map arena.linesBelow).sum +
      (arena.laterChildren id).length) := by
  have below (children : List SubPlanId) : ((children.flatMap arena.unfolded).map fun step =>
      (arena.laterChildren step).length + 1).sum = (children.map arena.linesBelow).sum := by
    induction children with
    | nil => rfl
    | cons child rest ih =>
      rw [List.flatMap_cons, List.map_append, List.sum_append, ih, List.map_cons, List.sum_cons,
        linesBelow, postOrder_eq_unfolded]
  rw [linesBelow, postOrder_eq_unfolded, unfolded_eq, List.map_append, List.sum_append, below]
  simp only [List.map_cons, List.map_nil, List.sum_cons, List.sum_nil]
  omega

end Arena

namespace Plan

/-- The text is made of a number of lines. -/
def InLines (text : String) (count : Nat) : Prop :=
  ∃ lines : List String, text = String.join lines ∧ lines.length = count ∧
    ∀ written ∈ lines, ∃ level detail, written = line level detail

theorem inLines_line (level : Nat) (detail : String) : InLines (line level detail) 1 :=
  ⟨[line level detail], by simp, rfl, List.forall_mem_singleton.mpr ⟨level, detail, rfl⟩⟩

theorem InLines.append {first second : String} {some more : Nat} (here : InLines first some)
    (there : InLines second more) : InLines (first ++ second) (some + more) := by
  obtain ⟨lines, rfl, rfl, formed⟩ := here
  obtain ⟨others, rfl, rfl, alike⟩ := there
  exact ⟨lines ++ others, String.join_append.symm, List.length_append,
    List.forall_mem_append.mpr ⟨formed, alike⟩⟩

variable {plan : Plan} {id : SubPlanId} {depth : Nat}

/-- The children of a sub-plan are written one after another: an earlier one with the tree below it,
any other one as a reference. -/
theorem inLines_children (earlier : ∀ child : SubPlanId, child.index < id.index →
      InLines (plan.renderFrom child depth) (plan.arena.linesBelow child))
    (children : List SubPlanId) :
    InLines (String.join (children.map fun child =>
        if child.index < id.index then plan.renderFrom child depth
        else line depth (child.literal ++ "?")))
      (((children.filter (·.index < id.index)).map plan.arena.linesBelow).sum +
        (children.filter (id.index ≤ ·.index)).length) := by
  induction children with
  | nil => exact ⟨[], rfl, rfl, nofun⟩
  | cons child rest ih =>
    rw [List.map_cons, String.join_cons]
    by_cases before : child.index < id.index
    · rw [if_pos before]
      have both := (earlier child before).append ih
      simpa [before, Nat.add_assoc] using both
    · rw [if_neg before]
      have both := (inLines_line depth (child.literal ++ "?")).append ih
      simpa [before, Nat.not_lt.mp before, Nat.add_assoc, Nat.add_comm, Nat.add_left_comm] using both

/-- Rendering comes to an end in every arena. -/
theorem inLines_renderFrom (plan : Plan) (id : SubPlanId) (depth : Nat) :
    InLines (plan.renderFrom id depth) (plan.arena.linesBelow id) := by
  induction place : id.index using Nat.strongRecOn generalizing id depth with
  | _ place ih =>
    have earlier : ∀ child : SubPlanId, child.index < id.index →
        InLines (plan.renderFrom child (depth + 1)) (plan.arena.linesBelow child) :=
      fun child before => ih child.index (place ▸ before) child (depth + 1) rfl
    rw [renderFrom, Arena.linesBelow_eq]
    unfold Arena.earlierChildren Arena.laterChildren get?
    cases plan.arena.get? id with
    | none => exact inLines_line depth (id.literal ++ "?")
    | some subPlan =>
      exact (inLines_line depth (plan.label subPlan.operation)).append
        (inLines_children earlier subPlan.operation.children)

end Plan
end LiveQuery
