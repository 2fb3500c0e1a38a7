import LiveQuery.Id
import LiveQuery.Schedule.Lifecycle
import LiveQuery.Tuple

/-!
# Activations

An activation is a match of a rule's query on its way through the rule's lifecycle.
-/

namespace LiveQuery

/-- The form of a rule number that shows its kind. -/
def RuleId.literal (id : RuleId) : String := "RuleId(" ++ toString id.index ++ ")"

/-- The form of an activation number that shows its kind. -/
def ActivationId.literal (id : ActivationId) : String := "A" ++ toString id.index

/-- A rule with a tuple, the state they are in, and the event that led there. -/
structure Activation where
  id : ActivationId
  rule : RuleId
  tuple : Tuple
  state : ActivationState
  lastEvent : EventKind
  deriving DecidableEq, Repr

/-- The rule and the tuple, with the state in brackets. -/
def Activation.render (activation : Activation) : String :=
  activation.rule.literal ++ activation.tuple.render ++ " [" ++ activation.state ++ "]"

end LiveQuery
