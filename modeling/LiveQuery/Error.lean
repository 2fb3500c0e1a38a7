/-!
# Errors

The ways in which an operation is refused or fails, each with its wording.  A failure that
belongs to a place in the program carries that place as a context.
-/

namespace LiveQuery

/-- Why an operation did not succeed. -/
inductive Error where
  /-- No plan can ever check this deferred constraint. -/
  | unsatisfiableDeferred (query constraint : String)
  /-- No constraint binds this parameter. -/
  | unboundParameter (query parameter : String)
  /-- The finished plan leaves out a constraint. -/
  | unenforcedConstraint (query constraint : String)
  /-- The finished plan contradicts its own bookkeeping. -/
  | inconsistentPlan (query detail : String)
  /-- A check could not be answered. -/
  | evaluationFault (constraint detail : String)
  /-- An earlier fault left the network without reliable matches. -/
  | networkPoisoned
  | malformedPlan (detail : String)
  /-- The lifecycle has no way on from this state. -/
  | noTransition (state event : String)
  | jobFailed (detail : String)
  | invalidLifecycle (detail : String)
  | unknownQuery (query : String)
  | unknownRule (rule : String)
  | factNotFound (relation tuple : String)
  | arityMismatch (expected actual : Nat)
  | invalidBody (detail : String)
  | internal (detail : String)
  /-- A number that names no part of the object, or a position past its end. -/
  | outOfRange
  deriving DecidableEq, Repr, Inhabited

namespace Error

/-- The wording of a planning failure, after its common opening. -/
private def planning (detail : String) : String := "planning failed: " ++ detail

/-- The wording of an error. -/
def message : Error → String
  | .unsatisfiableDeferred query constraint =>
    planning s!"deferred constraint {constraint} of {query} can never be checked"
  | .unboundParameter query parameter =>
    planning s!"parameter {parameter} of {query} is not bound by any constraint"
  | .unenforcedConstraint query constraint =>
    planning s!"constraint {constraint} of {query} is not enforced by the final plan"
  | .inconsistentPlan query detail => planning s!"inconsistent plan for {query}: {detail}"
  | .evaluationFault constraint detail => s!"evaluation fault in {constraint}: {detail}"
  | .networkPoisoned => "network is poisoned by an earlier evaluation fault; reset it first"
  | .malformedPlan detail => s!"malformed plan: {detail}"
  | .noTransition state event => s!"no transition from state {state} on {event}"
  | .jobFailed detail => s!"job failed: {detail}"
  | .invalidLifecycle detail => s!"invalid lifecycle: {detail}"
  | .unknownQuery query => s!"unknown query: {query}"
  | .unknownRule rule => s!"unknown rule: {rule}"
  | .factNotFound relation tuple => s!"fact not found: {relation}{tuple}"
  | .arityMismatch expected actual => s!"arity mismatch: expected {expected}, got {actual}"
  | .invalidBody detail => s!"invalid pattern body: {detail}"
  | .internal detail => s!"internal error: {detail}"
  | .outOfRange => "index out of range"

/-- Whether the error is an evaluation fault or follows from one. -/
def isFault : Error → Bool
  | .evaluationFault .. | .networkPoisoned => true
  | _ => false

/-- Where a failure happened: a source, and the frames that led to it. -/
structure Context where
  source : Option String
  frames : List String
  deriving DecidableEq, Repr, Inhabited

/-- The source on the first line, if there is one, and each frame on an indented line. -/
def Context.render (context : Context) : String :=
  let source := match context.source with
    | some source => "at " ++ source
    | none => ""
  let frames := match context.frames with
    | [] => ""
    | frames => "\n" ++ String.join (frames.map fun frame => "  in " ++ frame ++ "\n")
  source ++ frames

end Error
end LiveQuery
