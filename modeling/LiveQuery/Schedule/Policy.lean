import LiveQuery.Schedule.Activation

/-!
# Policies

A policy gives every activation a priority, from the priority of its rule and from what happened
to it.  Lower numbers are more urgent.  Among activations of one priority the order of filing
decides, or a draw.
-/

namespace LiveQuery

/-- How the priority of an activation follows from that of its rule. -/
inductive Policy where
  /-- Every activation has the priority of its rule. -/
  | fixed
  /-- The priority changes its sign when the activation was last moved by a disappearance, so that
  positive priorities become the most urgent ones. -/
  | invertedDisappearance
  | custom (priority : Activation → Int32 → Int32)

/-- Which activation of the most urgent priority comes first. -/
inductive BucketOrder where
  | fifo
  | lifo
  | random (seed : UInt64)
  deriving DecidableEq, Repr

/-- The number with the opposite sign; the lowest number has none and becomes the highest. -/
def oppositePriority (priority : Int32) : Int32 :=
  if priority = Int32.minValue then Int32.maxValue else -priority

namespace Policy

/-- The priority of an activation whose rule has the given priority. -/
def priority (policy : Policy) (activation : Activation) (rulePriority : Int32) : Int32 :=
  match policy with
  | .fixed => rulePriority
  | .invertedDisappearance =>
    if activation.lastEvent = .disappeared then oppositePriority rulePriority else rulePriority
  | .custom choose => choose activation rulePriority

/-- The name of a policy. -/
def name : Policy → String
  | .fixed => "Fixed"
  | .invertedDisappearance => "InvertedDisappearance"
  | .custom _ => "Custom(..)"

end Policy
end LiveQuery
