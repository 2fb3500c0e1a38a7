import LiveQuery.Plan.Basic
import LiveQuery.Row.Operator
import LiveQuery.Table

/-!
# From plan steps to operators

The columns of a row follow the visible variables of its step in ascending order; a projection uses
the order of its parameters instead.  With these layouts every step becomes an operator on column
positions.
-/

namespace LiveQuery

/-- What keeps a step from becoming an operator. -/
inductive LoweringDefect where
  | unbound (subject : VarId)
  | enumeratesDeferred (constraint : ConstraintId)
  | appliesEnumerable (constraint : ConstraintId)
  deriving DecidableEq, Repr

/-- The wording of a defect of a step. -/
def LoweringDefect.error (body : Body) : LoweringDefect → Error
  | .unbound subject =>
    let name := body.variableName subject
    .malformedPlan s!"variable {name} is not bound where {body.query} uses it"
  | .enumeratesDeferred constraint =>
    let label := body.describe constraint
    .malformedPlan s!"deferred constraint {label} cannot be enumerated"
  | .appliesEnumerable constraint =>
    let label := body.describe constraint
    .malformedPlan s!"enumerable constraint {label} cannot be applied as a filter"

/-- An operator with the label under which its faults are reported. -/
structure Lowered where
  operator : Operator
  label : String
  deriving DecidableEq, Repr

/-- The position of a variable in a layout. -/
def position (layout : List VarId) (subject : VarId) : Except LoweringDefect Nat :=
  match layout.idxOf? subject with
  | some place => .ok place
  | none => .error (.unbound subject)

/-- The positions of variables in a layout. -/
def positions (layout subjects : List VarId) : Except LoweringDefect (List Nat) :=
  subjects.mapM (position layout)

/-- The places of an argument list that repeat an earlier argument, each with the first place of
that argument. -/
def repetitions (arguments : List VarId) : List (Nat × Nat) :=
  arguments.zipIdx.filterMap fun (argument, place) =>
    match arguments.idxOf? argument with
    | some first => if first = place then none else some (first, place)
    | none => none

/-- Where a join takes a column from: from the left side whenever it is there. -/
def joinColumn (left right : List VarId) (subject : VarId) : Except LoweringDefect (Side × Nat) :=
  match left.idxOf? subject with
  | some place => .ok (.left, place)
  | none => (position right subject).map (.right, ·)

namespace Constraint

/-- The operator that lists the rows of a constraint. -/
def enumerator (id : ConstraintId) (layout : List VarId) :
    Constraint → Except LoweringDefect Operator
  | .relation name arguments _ => do
    return .source name arguments.length (← positions arguments layout) (repetitions arguments)
  | .closure name source target =>
    .ok (.closure name (source = target) (compare source target = .gt))
  | .constant _ value => .ok (.unit [value])
  | .equal .. | .different .. | .absent .. | .check .. => .error (.enumeratesDeferred id)

/-- The operator that keeps the rows of a layout which satisfy a constraint. -/
def selector (id : ConstraintId) (layout : List VarId) :
    Constraint → Except LoweringDefect Operator
  | .constant subject value => do return .filter (.constant (← position layout subject) value)
  | .equal left right => do
    return .filter (.equal (← position layout left) (← position layout right))
  | .different left right => do
    return .filter (.different (← position layout left) (← position layout right))
  | .check _ test arguments => do return .filter (.check test (← positions layout arguments))
  | .absent name arguments => do return .antiJoin name (← positions layout arguments)
  | .relation .. | .closure .. => .error (.appliesEnumerable id)

end Constraint

namespace Plan

/-- The variables that the columns of a step's rows stand for. -/
def columns (plan : Plan) (id : SubPlanId) : List VarId :=
  match plan.operation? id with
  | some (.project _ parameters) => parameters
  | _ => (plan.arena.visible id).toList

/-- The operator of a step; constraints that do not exist are out of range. -/
def operator (plan : Plan) (id : SubPlanId) (operation : Operation) : Except Error Operator := do
  let constraint (constraint : ConstraintId) : Except Error Constraint :=
    match plan.body.constraint? constraint with
    | some known => .ok known
    | none => .error .outOfRange
  let layout := plan.columns id
  let defect := LoweringDefect.error plan.body
  match operation with
  | .start => return .unit []
  | .input subjects => return .input (← (positions subjects layout).mapError defect)
  | .enumerate c => ((← constraint c).enumerator c layout).mapError defect
  | .apply child c => ((← constraint c).selector c (plan.columns child)).mapError defect
  | .join primary secondary =>
    let left := plan.columns primary
    let right := plan.columns secondary
    let shared := left.filter right.contains
    let joined : Except LoweringDefect Operator := do
      let output ← layout.mapM (joinColumn left right)
      return .join (← positions left shared) (← positions right shared) output
    joined.mapError defect
  | .trim child kept =>
    return .project (← (positions (plan.columns child) kept.toList).mapError defect)
  | .project child parameters =>
    return .project (← (positions (plan.columns child) parameters).mapError defect)

/-- The name under which faults of a step are reported. -/
def stepLabel (plan : Plan) : Operation → String
  | .start => "start"
  | .input _ => "input"
  | .enumerate constraint | .apply _ constraint => plan.body.describe constraint
  | .join .. => "join"
  | .trim .. => "trim"
  | .project .. => "project"

/-- The operator of a step with its label. -/
def lower (plan : Plan) (id : SubPlanId) : Except Error Lowered := do
  let some operation := plan.operation? id | throw .outOfRange
  return { operator := ← plan.operator id operation, label := plan.stepLabel operation }

/-- The sub-plans whose rows a step reads. -/
def childrenOf (plan : Plan) (id : SubPlanId) : List SubPlanId :=
  ((plan.operation? id).map Operation.children).getD []

/-- What is known about the sub-plans whose rows a step reads, each of which has to come before the
step. -/
def inputsOf {β : Type} (plan : Plan) (known : Table SubPlanId β) (id : SubPlanId) :
    Except Error (List β) :=
  (plan.childrenOf id).mapM fun child =>
    match known.get? child with
    | some answer => .ok answer
    | none => .error (.malformedPlan s!"{id.literal} precedes its input {child.literal}")

end Plan
end LiveQuery
