import LiveQuery.Pattern.Body

/-!
# Sub-plans and their arena

A plan is a tree of sub-plans.  Sub-plans are kept in an arena, where each is built on earlier
ones and carries its bookkeeping: the constraints that it enforces and the variables that its rows
show.
-/

namespace LiveQuery

/-- The outermost step of a sub-plan. -/
inductive Operation where
  /-- One row without variables. -/
  | start
  /-- One row with the values supplied for some parameters. -/
  | input (subjects : List VarId)
  /-- The rows that satisfy an enumerable or constant constraint. -/
  | enumerate (constraint : ConstraintId)
  /-- The rows of the child that satisfy a constraint. -/
  | apply (child : SubPlanId) (constraint : ConstraintId)
  /-- The pairs of rows that agree on the common variables. -/
  | join (primary secondary : SubPlanId)
  /-- The rows of the child, restricted to some of its variables. -/
  | trim (child : SubPlanId) (kept : OrderedSet VarId)
  /-- The rows of the child, restricted to the parameters in their order. -/
  | project (child : SubPlanId) (parameters : List VarId)
  deriving DecidableEq

namespace Operation

/-- The sub-plans whose rows the operation reads. -/
def children : Operation → List SubPlanId
  | .start | .input _ | .enumerate _ => []
  | .apply child _ | .trim child _ | .project child _ => [child]
  | .join primary secondary => [primary, secondary]

/-- The constraint that the operation introduces. -/
def constraint? : Operation → Option ConstraintId
  | .enumerate constraint | .apply _ constraint => some constraint
  | _ => none

/-- The variables that the operation lists itself. -/
def listed : Operation → List VarId
  | .input subjects => subjects
  | .trim _ kept => kept.toList
  | .project _ parameters => parameters
  | _ => []

/-- Whether the operation may hide variables of its child. -/
def narrows : Operation → Bool
  | .trim .. | .project .. => true
  | _ => false

end Operation

/-- A step with its bookkeeping. -/
structure SubPlan where
  operation : Operation
  enforced : OrderedSet ConstraintId
  visible : OrderedSet VarId
  deriving DecidableEq

/-- The sub-plans built so far; the number of a sub-plan is its place. -/
structure Arena where
  subPlans : List SubPlan
  deriving DecidableEq

namespace Arena

def empty : Arena := ⟨[]⟩

def size (arena : Arena) : Nat := arena.subPlans.length

def get? (arena : Arena) (id : SubPlanId) : Option SubPlan := arena.subPlans[id.index]?

/-- The constraints that a sub-plan enforces; a number without a sub-plan enforces none. -/
def enforced (arena : Arena) (id : SubPlanId) : OrderedSet ConstraintId :=
  ((arena.get? id).map SubPlan.enforced).getD .empty

/-- The variables that the rows of a sub-plan show; a number without a sub-plan shows none. -/
def visible (arena : Arena) (id : SubPlanId) : OrderedSet VarId :=
  ((arena.get? id).map SubPlan.visible).getD .empty

/-- The bookkeeping of an operation over the sub-plans built so far. -/
def describe (arena : Arena) (body : Body) (operation : Operation) : SubPlan :=
  match operation with
  | .start => ⟨operation, .empty, .empty⟩
  | .input subjects => ⟨operation, .empty, .ofList subjects⟩
  | .enumerate constraint => ⟨operation, .singleton constraint, body.variablesOf constraint⟩
  | .apply child constraint =>
    ⟨operation, (arena.enforced child).insert constraint, arena.visible child⟩
  | .join primary secondary =>
    ⟨operation, (arena.enforced primary).union (arena.enforced secondary),
      (arena.visible primary).union (arena.visible secondary)⟩
  | .trim child kept => ⟨operation, arena.enforced child, kept⟩
  | .project child parameters => ⟨operation, arena.enforced child, .ofList parameters⟩

/-- The arena with one more sub-plan, and the number of that sub-plan. -/
def push (arena : Arena) (body : Body) (operation : Operation) : Arena × SubPlanId :=
  (⟨arena.subPlans ++ [arena.describe body operation]⟩, ⟨arena.size⟩)

/-! ## Listing the steps -/

/-- The children that were built before the sub-plan that reads them; no others are followed. -/
def earlierChildren (arena : Arena) (id : SubPlanId) : List SubPlanId :=
  match arena.get? id with
  | none => []
  | some subPlan => subPlan.operation.children.filter (·.index < id.index)

theorem lt_of_mem_earlierChildren {arena : Arena} {id child : SubPlanId}
    (member : child ∈ arena.earlierChildren id) : child.index < id.index := by
  unfold earlierChildren at member
  split at member
  · cases member
  · exact of_decide_eq_true (List.mem_filter.mp member).2

/-- A sub-plan on the stack of a traversal.  When it is met first it makes room for its children;
when it is met again, these are listed. -/
structure Visit where
  id : SubPlanId
  expanded : Bool
  deriving DecidableEq

/-- What a traversal has still to visit, the next one first, and what it has listed. -/
structure Traversal where
  stack : List Visit
  listed : List SubPlanId
  deriving DecidableEq

/-- One turn of a traversal, unless nothing is left to visit. -/
def turn? (arena : Arena) (traversal : Traversal) : Option Traversal :=
  match traversal.stack with
  | [] => none
  | ⟨id, true⟩ :: rest => some ⟨rest, traversal.listed ++ [id]⟩
  | ⟨id, false⟩ :: rest =>
    some ⟨(arena.earlierChildren id).map (⟨·, false⟩) ++ ⟨id, true⟩ :: rest, traversal.listed⟩

/-- The tree that unfolds below a sub-plan, children first.  A sub-plan that is read more than once
is there for every way that leads to it. -/
def unfolded (arena : Arena) (id : SubPlanId) : List SubPlanId :=
  ((arena.earlierChildren id).attach.flatMap fun child => arena.unfolded child.1) ++ [id]
termination_by id.index
decreasing_by exact lt_of_mem_earlierChildren child.2

theorem unfolded_eq (arena : Arena) (id : SubPlanId) :
    arena.unfolded id = (arena.earlierChildren id).flatMap arena.unfolded ++ [id] := by
  rw [unfolded, List.flatMap_def, List.flatMap_def, List.attach_map_val]

/-- The number of turns that a visit takes, with those for the sub-plans below. -/
def turnsOf (arena : Arena) (visit : Visit) : Nat :=
  if visit.expanded then 1 else 2 * (arena.unfolded visit.id).length

/-- The number of turns that are left. -/
def turnsLeft (arena : Arena) (traversal : Traversal) : Nat :=
  traversal.stack.foldr (arena.turnsOf · + ·) 0

/-- Every turn is one of those that were left: a sub-plan leaves one turn for itself and those for
its children. -/
theorem turnsLeft_turn? {arena : Arena} {traversal next : Traversal}
    (turned : arena.turn? traversal = some next) :
    arena.turnsLeft traversal = arena.turnsLeft next + 1 := by
  obtain ⟨stack, listed⟩ := traversal
  unfold turn? at turned
  dsimp only at turned
  split at turned
  · cases turned
  next id rest =>
    cases turned
    simp [turnsLeft, turnsOf, Nat.add_comm]
  next id rest =>
    cases turned
    have below (some : List SubPlanId) (later : Nat) :
        (some.map (⟨·, false⟩)).foldr (arena.turnsOf · + ·) later =
          2 * (some.flatMap arena.unfolded).length + later := by
      induction some with
      | nil => simp
      | cons child rest ih =>
        rw [List.map_cons, List.foldr_cons, ih, List.flatMap_cons, List.length_append, turnsOf]
        simp only [Bool.false_eq_true, if_false]
        omega
    simp only [turnsLeft, List.foldr_append, below, List.foldr_cons]
    simp only [turnsOf, arena.unfolded_eq id, List.length_append, List.length_singleton, if_true,
      Bool.false_eq_true, if_false]
    omega

/-- What has been listed when nothing is left to visit. -/
def traverse (arena : Arena) (traversal : Traversal) : List SubPlanId :=
  match _turned : arena.turn? traversal with
  | none => traversal.listed
  | some next => arena.traverse next
termination_by arena.turnsLeft traversal
decreasing_by exact turnsLeft_turn? _turned ▸ Nat.lt_succ_self _

/-- The sub-plans below a root, each after its children; a sub-plan is listed once for every way
that leads to it.  Only children built before their parent are followed. -/
def postOrder (arena : Arena) (root : SubPlanId) : List SubPlanId :=
  arena.traverse ⟨[⟨root, false⟩], []⟩

end Arena
end LiveQuery
