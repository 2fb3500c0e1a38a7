import LiveQuery.Batch
import LiveQuery.Network.Basic

/-!
# Installing queries

A query is installed from one plan for each of its bodies.  Every step of a plan becomes a node,
unless the plan allows sharing and an equal node can be used; the production of the query reads the
root of every plan.  An install that fails takes back what it has added.
-/

namespace LiveQuery.Network

/-- A node that later queries may use, with the given operator and inputs. -/
def findShared? (network : Network) (operator : Operator) (inputs : List (NodeInput × Inlet)) :
    Option NodeId :=
  (network.nodes.findIdx? fun node =>
    node.isShared && node.cell.operator? = some operator && node.inputs = inputs).map Id.mk

/-- The node of a step: one that is there already, if sharing is allowed, or a new one. -/
def nodeFor (checks : Checks) (step : Lowered) (children : List NodeId) (share : Bool) :
    Building NodeId := do
  let network ← get
  let (cell, inputs) ← liftExcept (Node.ofOperator step.operator children)
  let existing := if share then network.findShared? step.operator inputs else none
  match existing with
  | some node => return node
  | none => addNode checks ⟨cell, step.label, inputs, share⟩

/-- The node of one more step of a plan, given those of the steps before it. -/
def placeStep (checks : Checks) (plan : Plan) (placed : Table SubPlanId NodeId)
    (step : SubPlanId) : Building (Table SubPlanId NodeId) := do
  let lowered ← liftExcept (plan.lower step)
  let children ← liftExcept (plan.inputsOf placed step)
  let node ← nodeFor checks lowered children plan.hints.shareNodes
  return placed.insert step node

/-- The node of the root of a plan. -/
def placePlan (checks : Checks) (plan : Plan) : Building NodeId := do
  let placed ← plan.steps.foldlM (placeStep checks plan) .empty
  match placed.get? plan.root with
  | some top => return top
  | none => throw (Error.malformedPlan "plan root was never placed")

/-- The nodes of all plans, the tops of the plans, and the production that reads them. -/
def build (checks : Checks) (name : String) (arity : Nat) (plans : List Plan) :
    Building QueryId := do
  let tops ← plans.mapM (placePlan checks)
  let inputs := tops.map fun top => (NodeInput.node top, Inlet.single)
  let production ← addNode checks ⟨.production .empty, "production " ++ name, inputs, false⟩
  let network ← get
  set { network with queries := network.queries ++ [(⟨name, production, arity⟩ : InstalledQuery)] }
  return ⟨network.queries.length⟩

/-- The network without the nodes from a place on. -/
def rollback (network : Network) (mark : Nat) : Network :=
  { network with nodes := network.nodes.take mark }

/-- The plans of a query agree on its name and on the number of its parameters, leave no parameter
to be supplied from outside, and are sound. -/
def demandInstallable (name : String) (arity : Nat) (plan : Plan) : Except Error Unit := do
  if plan.body.query ≠ name then
    throw (.malformedPlan s!"plan of {plan.body.query} installed as part of {name}")
  if plan.body.parameters.length ≠ arity then
    throw (.arityMismatch arity plan.body.parameters.length)
  if plan.isAdorned then
    throw (.malformedPlan s!"adorned plan of {name} can only be evaluated in batch")
  plan.demandSound

/-- What has to hold before a query can be installed: the network is usable and the plans fit
together.  The answer is the name and the number of parameters of the query. -/
def demandInstall (network : Network) (plans : List Plan) : Except Error (String × Nat) := do
  network.demandUsable
  let some first := plans.head? | throw (.malformedPlan "a query needs at least one plan")
  let name := first.body.query
  let arity := first.body.parameters.length
  plans.forM (demandInstallable name arity)
  return (name, arity)

/-- Installs a query given one plan for each of its bodies.  Its matches are those over the facts
that are there already; no events are reported for them.  When building fails, the nodes that were
added on the way are taken away again. -/
def install (checks : Checks) (network : Network) (plans : List Plan) :
    Network × Except Error QueryId :=
  match network.demandInstall plans with
  | .error error => (network, .error error)
  | .ok (name, arity) =>
    match (build checks name arity plans).run network with
    | .ok query built => (built, .ok query)
    | .error error unfinished => (unfinished.rollback network.nodes.length, .error error)

end LiveQuery.Network
