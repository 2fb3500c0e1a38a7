import LiveQuery.Plan.Basic
import LiveQuery.Plan.Join

/-!
# The planner

Planning keeps a *forefront* of sub-plans that still have to be joined.  A sub-plan is accepted into
the forefront after constant filters have been applied to it, variables that nothing needs have
been trimmed, and deferred constraints have been applied for as long as one is ready.  The
forefront is then collapsed by joining its best pair until one sub-plan is left, which is projected
onto the parameters.
-/

namespace LiveQuery

/-- A body with the hints it is planned under and the parameters supplied from outside. -/
structure PlanningTask where
  body : Body
  hints : Hints
  inputs : List VarId

namespace PlanningTask

variable (task : PlanningTask)

/-! ## The parts that constraints play -/

/-- The variables that inputs and enumerable constraints bind. -/
def covered : OrderedSet VarId :=
  task.body.constraints.foldl (fun known constraint =>
    if constraint.role = .enumerable then known.union constraint.subjects else known)
    (.ofList task.inputs)

/-- Whether a constant constraint only filters values that other constraints bind. -/
def isFilter : Constraint → Bool
  | .constant subject _ => task.hints.filterConstants && task.covered.contains subject
  | _ => false

/-- Whether a constraint supplies rows of its own. -/
def isSource (constraint : Constraint) : Bool :=
  constraint.role ≠ .deferred && !task.isFilter constraint

/-- The numbers of the constraints that pass a test, in order. -/
def select (test : Constraint → Bool) : List ConstraintId :=
  (task.body.numbered.filter fun (_, constraint) => test constraint).map Prod.fst

def sources : OrderedSet ConstraintId := .ofList (task.select task.isSource)

def filters : List ConstraintId := task.select task.isFilter

def deferred : List ConstraintId := task.select (·.role = .deferred)

end PlanningTask

/-- The sub-plans built so far, those that wait to be joined, and the filters and deferred
constraints that no sub-plan applies yet. -/
structure Forefront where
  arena : Arena
  members : OrderedSet SubPlanId
  filters : List ConstraintId
  deferred : List ConstraintId

namespace Forefront

variable (task : PlanningTask)

/-- Nothing is built yet. -/
def initial : Forefront where
  arena := .empty
  members := .empty
  filters := task.filters
  deferred := task.deferred

/-- The forefront with one more sub-plan in its arena, and the number of that sub-plan. -/
def push (operation : Operation) (forefront : Forefront) : Forefront × SubPlanId :=
  let (arena, id) := forefront.arena.push task.body operation
  ({ forefront with arena }, id)

/-- Whether the rows of a sub-plan show all variables of a constraint. -/
def isReady (forefront : Forefront) (plan : SubPlanId) (constraint : ConstraintId) : Bool :=
  (task.body.variablesOf constraint).isSubset (forefront.arena.visible plan)

/-- Applies every filter that is ready. -/
def applyFilters (forefront : Forefront) (plan : SubPlanId) : Forefront × SubPlanId :=
  let (ready, waiting) := forefront.filters.partition (isReady task forefront plan)
  ready.foldl (fun (forefront, plan) constraint => push task (.apply plan constraint) forefront)
    ({ forefront with filters := waiting }, plan)

/-- The variables that the parameters or a constraint not yet enforced by a sub-plan need. -/
def needed (forefront : Forefront) (plan : SubPlanId) : OrderedSet VarId :=
  let enforced := forefront.arena.enforced plan
  task.body.numbered.foldl (fun known (id, constraint) =>
    if enforced.contains id then known else known.union constraint.subjects)
    (.ofList task.body.parameters)

/-- Drops the variables that nothing needs, as long as there are sources left to join with. -/
def trim (forefront : Forefront) (plan : SubPlanId) : Forefront × SubPlanId :=
  let visible := forefront.arena.visible plan
  let kept := visible.inter (needed task forefront plan)
  if task.hints.trimVariables && !task.sources.isSubset (forefront.arena.enforced plan) &&
      kept.size < visible.size then
    push task (.trim plan kept) forefront
  else (forefront, plan)

@[simp] theorem deferred_push (operation : Operation) (forefront : Forefront) :
    (push task operation forefront).1.deferred = forefront.deferred := rfl

@[simp] theorem deferred_applyFilters (forefront : Forefront) (plan : SubPlanId) :
    (applyFilters task forefront plan).1.deferred = forefront.deferred := by
  unfold applyFilters
  generalize List.partition _ _ = parts
  obtain ⟨ready, waiting⟩ := parts
  suffices general : ∀ start : Forefront × SubPlanId, (ready.foldl (fun (forefront, plan)
      constraint => push task (.apply plan constraint) forefront) start).1.deferred =
        start.1.deferred from general _
  induction ready with
  | nil => intro start; rfl
  | cons constraint rest ih => intro start; exact ih _

@[simp] theorem deferred_trim (forefront : Forefront) (plan : SubPlanId) :
    (trim task forefront plan).1.deferred = forefront.deferred := by
  simp only [trim]
  split <;> rfl

/-- Accepts a sub-plan: filters, trims and applies deferred constraints one at a time, starting
over after each, until none is ready. -/
def accept (forefront : Forefront) (plan : SubPlanId) : Forefront :=
  let filtered := applyFilters task forefront plan
  let trimmed := trim task filtered.1 filtered.2
  match _found : trimmed.1.deferred.find? (isReady task trimmed.1 trimmed.2) with
  | none => { trimmed.1 with members := trimmed.1.members.insert trimmed.2 }
  | some constraint =>
    let applied := push task (.apply trimmed.2 constraint)
      { trimmed.1 with deferred := trimmed.1.deferred.erase constraint }
    accept applied.1 applied.2
termination_by forefront.deferred.length
decreasing_by
  have member := List.mem_of_find?_eq_some _found
  have := List.length_pos_of_mem member
  simp only [trimmed, filtered, deferred_push, deferred_trim, deferred_applyFilters] at *
  rw [List.length_erase_of_mem member]
  omega

/-- The first sub-plans: the supplied row if there is one, then every source; a body without
either starts from the row without variables. -/
def seedOperations : List Operation :=
  let supplied := if task.inputs.isEmpty then [] else [.input task.inputs]
  match supplied ++ task.sources.toList.map .enumerate with
  | [] => [.start]
  | operations => operations

/-- The forefront after all first sub-plans have been built and accepted. -/
def seed : Forefront :=
  let (forefront, plans) := (seedOperations task).foldl (fun (forefront, plans) operation =>
    let (forefront, plan) := push task operation forefront
    (forefront, plans ++ [plan])) (initial task, [])
  plans.foldl (accept task) forefront

/-- All pairs of waiting sub-plans, older ones first. -/
def candidates (forefront : Forefront) : List JoinCandidate :=
  go forefront.members.toList
where
  /-- The pairs of a list, each member with those after it. -/
  go : List SubPlanId → List JoinCandidate
    | [] => []
    | first :: rest =>
      rest.map (JoinCandidate.classify forefront.arena task.body first) ++ go rest

/-- Joins the best pair and accepts the result, a given number of times. -/
def collapse : Nat → Forefront → Forefront
  | 0, forefront => forefront
  | joins + 1, forefront =>
    match JoinCandidate.best? (candidates task forefront) with
    | none => forefront
    | some { primary, secondary, .. } =>
      let rest := (forefront.members.erase primary).erase secondary
      let (joined, plan) := push task (.join primary secondary) { forefront with members := rest }
      collapse joins (accept task joined plan)

/-- The finished arena and its root: the last sub-plan, projected onto the parameters.  It has to
leave no deferred constraint, show every parameter and enforce every constraint. -/
def finish (forefront : Forefront) : Except Error (Arena × SubPlanId) := do
  let body := task.body
  let some last := forefront.members.toList.head?
    | throw (.internal s!"planning {body.query} left no plan")
  if let some constraint := forefront.deferred.head? then
    throw (.unsatisfiableDeferred body.query (body.describe constraint))
  let visible := forefront.arena.visible last
  if let some parameter := body.parameters.find? (!visible.contains ·) then
    throw (.unboundParameter body.query (body.variableName parameter))
  let enforced := forefront.arena.enforced last
  if let some constraint := body.constraintIds.toList.find? (!enforced.contains ·) then
    throw (.unenforcedConstraint body.query (body.describe constraint))
  return forefront.arena.push body (.project last body.parameters)

end Forefront

namespace Plan

/-- The plan of a body when values are supplied for some of its parameter positions. -/
def ofBodyAdorned (hints : Hints) (body : Body) (adornment : OrderedSet Nat) :
    Except Error Plan := do
  let effective := hints.merge body.hints
  if let some position := adornment.toList.find? (body.parameters.length ≤ ·) then
    throw (.invalidBody s!"adornment position {position} of {body.query} is not a parameter")
  let inputs := adornment.toList.filterMap (body.parameters[·]?)
  let task : PlanningTask := { body, hints := effective, inputs }
  let forefront := Forefront.seed task
  let collapsed := Forefront.collapse task (forefront.members.size - 1) forefront
  let (arena, root) ← Forefront.finish task collapsed
  let plan : Plan := { body, arena, root, adornment, hints := effective }
  plan.verify
  return plan

/-- The plan of a body on its own. -/
def ofBody (hints : Hints) (body : Body) : Except Error Plan :=
  ofBodyAdorned hints body .empty

/-- The plans of the bodies of one query, which have to agree on its name and on the number of its
parameters. -/
def ofBodies (hints : Hints) (bodies : List Body) : Except Error (List Plan) := do
  let some first := bodies.head? | throw (.invalidBody "a query needs at least one body")
  for body in bodies.tail do
    if body.query ≠ first.query then
      throw (.invalidBody s!"body of {body.query} planned together with {first.query}")
    if body.parameters.length ≠ first.parameters.length then
      throw (.arityMismatch first.parameters.length body.parameters.length)
  bodies.mapM (ofBody hints)

end Plan
end LiveQuery
