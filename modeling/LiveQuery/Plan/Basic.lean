import LiveQuery.Plan.Arena

/-!
# Plans

A plan names the sub-plan at its root, the parameter positions that are supplied from outside, and
the hints it was made under.  Plans can be built by hand, so `verify` checks that every step
refers to known things and that the bookkeeping of the steps fits together.
-/

namespace LiveQuery

/-- A way to compute the matches of a body. -/
structure Plan where
  body : Body
  arena : Arena
  root : SubPlanId
  /-- The parameter positions whose values are supplied from outside. -/
  adornment : OrderedSet Nat
  hints : Hints
  deriving DecidableEq

/-- The written form of a sub-plan number. -/
def SubPlanId.literal (id : SubPlanId) : String := "SubPlanId(" ++ toString id.index ++ ")"

/-- What is wrong with a plan. -/
inductive PlanDefect where
  | unknownSubPlan (step : SubPlanId)
  | childNotEarlier (step child : SubPlanId)
  | unknownConstraint (step : SubPlanId) (constraint : ConstraintId)
  | unknownVariable (step : SubPlanId) (subject : VarId)
  | unboundVariable (step : SubPlanId) (subject : VarId)
  | dropsConstraints (step child : SubPlanId)
  | hidesVariables (step child : SubPlanId)
  | exposesVariables (step child : SubPlanId)
  | rootNotProjection
  deriving DecidableEq, Repr

namespace PlanDefect

/-- Dangling references make a plan malformed; the other defects make it inconsistent. -/
def error (body : Body) : PlanDefect → Error
  | .unknownSubPlan step => malformed s!"{step.literal} is not in the plan arena"
  | .childNotEarlier step child =>
    malformed s!"child {child.literal} of {step.literal} was not allocated before its parent"
  | .unknownConstraint step constraint =>
    let known := body.constraints.length
    malformed s!"{step.literal} refers to constraint {constraint.index} but the body has {known}"
  | .unknownVariable step subject =>
    let known := body.names.length
    malformed s!"{step.literal} refers to variable {subject.index} but the body has {known}"
  | .unboundVariable step subject =>
    let name := body.variableName subject
    inconsistent s!"variable {name} is visible on {step.literal} but bound by no enforced constraint"
  | .dropsConstraints step child =>
    inconsistent s!"{step.literal} does not enforce every constraint of its child {child.literal}"
  | .hidesVariables step child =>
    inconsistent s!"{step.literal} hides variables of its child {child.literal}"
  | .exposesVariables step child =>
    inconsistent s!"{step.literal} exposes variables its child {child.literal} does not bind"
  | .rootNotProjection => inconsistent "root is not a projection onto the parameters"
where
  malformed (detail : String) : Error := .malformedPlan s!"{body.query}: {detail}"
  inconsistent (detail : String) : Error := .inconsistentPlan body.query detail

end PlanDefect

namespace Plan

/-- The steps of the plan, each after its children. -/
def steps (plan : Plan) : List SubPlanId := plan.arena.postOrder plan.root

def get? (plan : Plan) (id : SubPlanId) : Option SubPlan := plan.arena.get? id

def operation? (plan : Plan) (id : SubPlanId) : Option Operation :=
  (plan.get? id).map SubPlan.operation

def isAdorned (plan : Plan) : Bool := !plan.adornment.isEmpty

/-! ## Verification -/

/-- The first dangling reference of a step. -/
def referenceDefect? (plan : Plan) (step : SubPlanId) : Option PlanDefect :=
  match plan.get? step with
  | none => some (.unknownSubPlan step)
  | some subPlan =>
    let constraints := subPlan.operation.constraint?.toList ++ subPlan.enforced.toList
    let mentioned := subPlan.operation.listed ++ subPlan.visible.toList
    ((subPlan.operation.children.find? (step.index ≤ ·.index)).map (.childNotEarlier step)).or <|
    ((constraints.find? (plan.body.constraints.length ≤ ·.index)).map
      (.unknownConstraint step)).or <|
    (mentioned.find? (plan.body.names.length ≤ ·.index)).map (.unknownVariable step)

/-- The variables that the input steps of the plan supply. -/
def supplied (plan : Plan) : OrderedSet VarId :=
  .ofList <| plan.steps.flatMap fun step =>
    match plan.operation? step with
    | some (.input subjects) => subjects
    | _ => []

/-- The variables that the constraints enforced by a step speak about, and the supplied ones. -/
def bound (plan : Plan) (step : SubPlanId) : OrderedSet VarId :=
  (plan.arena.enforced step).toList.foldl
    (fun known constraint => known.union (plan.body.variablesOf constraint)) plan.supplied

/-- How the bookkeeping of a step contradicts that of a child. -/
def childDefect? (plan : Plan) (step : SubPlanId) (narrows : Bool) (child : SubPlanId) :
    Option PlanDefect :=
  let arena := plan.arena
  if !(arena.enforced child).isSubset (arena.enforced step) then
    some (.dropsConstraints step child)
  else if narrows then
    if (arena.visible step).isSubset (arena.visible child) then none
    else some (.exposesVariables step child)
  else if (arena.visible child).isSubset (arena.visible step) then none
  else some (.hidesVariables step child)

/-- The first contradiction in the bookkeeping of a step. -/
def bookkeepingDefect? (plan : Plan) (step : SubPlanId) : Option PlanDefect :=
  let bound := plan.bound step
  (((plan.arena.visible step).toList.find? (!bound.contains ·)).map (.unboundVariable step)).or <|
    (plan.operation? step).bind fun operation =>
      operation.children.findSome? (plan.childDefect? step operation.narrows)

/-- The root has to be the projection onto the parameters. -/
def rootDefect? (plan : Plan) : Option PlanDefect :=
  match plan.operation? plan.root with
  | some (.project _ parameters) =>
    if parameters = plan.body.parameters then none else some .rootNotProjection
  | _ => some .rootNotProjection

/-- The first defect: dangling references of all steps, then their bookkeeping, then the root. -/
def defect? (plan : Plan) : Option PlanDefect :=
  (plan.steps.findSome? plan.referenceDefect?).or <|
  (plan.steps.findSome? plan.bookkeepingDefect?).or plan.rootDefect?

/-- Accepts the plans without defects. -/
def verify (plan : Plan) : Except Error Unit :=
  match plan.defect? with
  | none => .ok ()
  | some defect => .error (defect.error plan.body)

/-! ## Overviews -/

/-- How often each constraint is introduced by the steps. -/
def introductions (plan : Plan) : List Nat :=
  let introduced := plan.steps.filterMap fun step =>
    (plan.operation? step).bind Operation.constraint?
  plan.body.numbered.map fun (id, _) => introduced.count id

/-- The written form of an operation, without its children. -/
def label (plan : Plan) : Operation → String
  | .start => "start"
  | .input subjects => "input [" ++ plan.body.listNames subjects ++ "]"
  | .enumerate constraint => "enumerate " ++ plan.body.describe constraint
  | .apply _ constraint => "apply " ++ plan.body.describe constraint
  | .join .. => "join"
  | .trim _ kept => "trim [" ++ plan.body.listNames kept.toList ++ "]"
  | .project _ parameters => "project [" ++ plan.body.listNames parameters ++ "]"

/-- One line of the tree, two columns further in for every level. -/
def line (depth : Nat) (text : String) : String :=
  String.ofList (List.replicate (2 * depth) ' ') ++ text ++ "\n"

/-- The tree below a sub-plan, one line for every step.  References that lead nowhere, or to a
child that was not built before its parent, are marked by a question mark. -/
def renderFrom (plan : Plan) (id : SubPlanId) (depth : Nat) : String :=
  match plan.get? id with
  | none => line depth (id.literal ++ "?")
  | some subPlan =>
    line depth (plan.label subPlan.operation) ++
      String.join (subPlan.operation.children.map fun child =>
        if child.index < id.index then plan.renderFrom child (depth + 1)
        else line (depth + 1) (child.literal ++ "?"))
termination_by id.index

/-- The plan as an indented tree. -/
def render (plan : Plan) : String := plan.renderFrom plan.root 0

end Plan
end LiveQuery
