import LiveQuery.Closure.Reach
import LiveQuery.Row.Lowering

/-!
# One-shot evaluation

Computes the matches of a plan over a fact store step by step, without keeping any state.  Only
this evaluation takes plans whose parameters are supplied from outside.
-/

namespace LiveQuery

namespace FactStore

/-- The edges of a binary relation. -/
def edgesOf (facts : FactStore) (relation : RelationId) : List (Value × Value) :=
  (facts.tuplesOf relation).toList.filterMap Operator.edge?

/-- The pairs joined by a path of at least one edge of a binary relation. -/
def reachablePairs (facts : FactStore) (relation : RelationId) : List (Value × Value) :=
  let edges := facts.edgesOf relation
  (edges.map Prod.fst).eraseDups.flatMap fun source =>
    (Reach.after edges source).eraseDups.map (source, ·)

end FactStore

namespace Lowered

/-- The rows of a step, given those of its children. -/
def evaluate (checks : Checks) (facts : FactStore) (input : Tuple) (step : Lowered)
    (children : List (OrderedSet Tuple)) : Except Error (OrderedSet Tuple) :=
  match step.operator, children with
  | .unit row, _ => .ok (.singleton row)
  | .input columns, _ =>
    match input.project? columns with
    | some row => .ok (.singleton row)
    | none => .error .outOfRange
  | .source relation arity columns equal, _ =>
    .ok (.ofList ((facts.tuplesOf relation).toList.filterMap
      (Operator.sourceRow? arity columns equal)))
  | .closure relation single swap, _ =>
    .ok (.ofList ((facts.reachablePairs relation).filterMap (Operator.closureRow? single swap)))
  | .filter test, [rows] => (test.select checks step.label rows.toList).map .ofList
  | .antiJoin relation key, [rows] =>
    .ok (rows.filter fun row => !facts.contains ⟨relation, row.project key⟩)
  | .join leftKey rightKey output, [left, right] =>
    .ok (.ofList (left.toList.flatMap fun first =>
      let key := first.project leftKey
      (right.toList.filter fun second => second.project rightKey = key).map
        (Operator.joinRow output first)))
  | .project columns, [rows] => .ok (.ofList (rows.toList.map (Tuple.project · columns)))
  | _, _ => .error (.malformedPlan s!"{step.label} is missing its input")

end Lowered

namespace Plan

/-- The rows of one more step, given those of the steps before it. -/
def evaluateStep (checks : Checks) (facts : FactStore) (input : Tuple) (plan : Plan)
    (results : Table SubPlanId (OrderedSet Tuple)) (step : SubPlanId) :
    Except Error (Table SubPlanId (OrderedSet Tuple)) := do
  let lowered ← plan.lower step
  let children ← plan.inputsOf results step
  return results.insert step (← lowered.evaluate checks facts input children)

/-- A plan that is installed or evaluated has to be sound. -/
def demandSound (plan : Plan) : Except Error Unit :=
  plan.verify.mapError fun error => .malformedPlan error.message

/-- The matches of a plan over a fact store, with the values of the supplied parameters. -/
def evaluate (checks : Checks) (plan : Plan) (facts : FactStore) (input : Tuple) :
    Except Error (OrderedSet Tuple) := do
  plan.demandSound
  if input.length ≠ plan.adornment.size then
    throw (.arityMismatch plan.adornment.size input.length)
  let results ← plan.steps.foldlM (plan.evaluateStep checks facts input) .empty
  return (results.get? plan.root).getD .empty

/-- The matches of any of several plans. -/
def evaluateAll (checks : Checks) (plans : List Plan) (facts : FactStore) (input : Tuple) :
    Except Error (OrderedSet Tuple) :=
  plans.foldlM (fun found plan => return found.union (← plan.evaluate checks facts input))
    .empty

end Plan
end LiveQuery
