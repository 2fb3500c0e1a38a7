import LiveQuery.Schedule.ConflictSet
import LiveQuery.Schedule.Rule

/-!
# The scheduler

A scheduler owns rules and their activations.  Events move activations through the lifecycles of
their rules; those that reach a state in which they may fire are filed in the conflict set.
-/

namespace LiveQuery

/-- The state of a scheduler whose jobs have a host of type `σ`. -/
structure Scheduler (σ : Type) where
  rules : List (Rule σ)
  activations : Table ActivationId Activation
  /-- The live activation of every rule and tuple that has one. -/
  index : Table (RuleId × Tuple) ActivationId
  conflicts : ConflictSet
  policy : Policy
  /-- How many activations there have been so far. -/
  issued : Nat
  failures : List JobFailure
  /-- Told of every failure before it is recorded. -/
  handler : Option (JobFailure → σ → σ)
  /-- Whether activations are being fired until none is left. -/
  isRunning : Bool
  host : σ

namespace Scheduler

variable {σ : Type}

/-- A scheduler without rules. -/
def new [Draw.Generator] (policy : Policy) (order : BucketOrder) (host : σ) : Scheduler σ where
  rules := []
  activations := .empty
  index := .empty
  conflicts := .new order
  policy := policy
  issued := 0
  failures := []
  handler := none
  isRunning := false
  host := host

/-! ## Rules -/

/-- The scheduler with one more rule. -/
def addRule (scheduler : Scheduler σ) (rule : Rule σ) : Scheduler σ × RuleId :=
  ({ scheduler with rules := scheduler.rules ++ [rule] }, ⟨scheduler.rules.length⟩)

def rule? (scheduler : Scheduler σ) (id : RuleId) : Option (Rule σ) := scheduler.rules[id.index]?

/-- The first rule with a name. -/
def findRule? (scheduler : Scheduler σ) (name : String) : Option RuleId :=
  (scheduler.rules.findIdx? (·.name = name)).map Id.mk

/-! ## Observation -/

/-- The live activation of a rule for a tuple. -/
def activation? (scheduler : Scheduler σ) (rule : RuleId) (tuple : Tuple) : Option Activation :=
  (scheduler.index.get? (rule, tuple)).bind scheduler.activations.get?

/-- The live activations in the order of their creation. -/
def live (scheduler : Scheduler σ) : List Activation := scheduler.activations.entries.map Prod.snd

/-- The recorded failures, which are forgotten. -/
def takeFailures (scheduler : Scheduler σ) : Scheduler σ × List JobFailure :=
  ({ scheduler with failures := [] }, scheduler.failures)

/-- The sizes of the parts of a scheduler, and its policy. -/
def render (scheduler : Scheduler σ) : String :=
  let count (name : String) (number : Nat) : String := name ++ ": " ++ toString number
  "Scheduler \x7b " ++ ", ".intercalate [
    count "rules" scheduler.rules.length,
    count "activations" scheduler.activations.size,
    count "fireable" scheduler.conflicts.size,
    "policy: " ++ scheduler.policy.name,
    count "failures" scheduler.failures.length,
    ".."] ++ " \x7d"

/-! ## Events -/

/-- Ends an activation. -/
def drop (scheduler : Scheduler σ) (rule : RuleId) (tuple : Tuple) (id : ActivationId) :
    Scheduler σ :=
  { scheduler with
    activations := scheduler.activations.erase id
    conflicts := scheduler.conflicts.remove id
    index := scheduler.index.erase (rule, tuple) }

/-- Stores an activation in its present state, and files it if it may fire in that state. -/
def place (scheduler : Scheduler σ) (rule : Rule σ) (activation : Activation) : Scheduler σ :=
  let conflicts :=
    if rule.lifecycle.isFireable activation.state then
      scheduler.conflicts.insert activation.id (scheduler.policy.priority activation rule.priority)
    else scheduler.conflicts.remove activation.id
  { scheduler with
    conflicts := conflicts
    activations := scheduler.activations.insert activation.id activation
    index := scheduler.index.insert (activation.rule, activation.tuple) activation.id }

/-- The number for an activation that has no number yet. -/
def fresh (scheduler : Scheduler σ) : Scheduler σ × ActivationId :=
  ({ scheduler with issued := scheduler.issued + 1 }, ⟨scheduler.issued + 1⟩)

/-- Moves the activation of a rule for a tuple by an event.  A tuple without an activation is in the
initial state.  An event that leads nowhere from the present state is dropped. -/
def move (scheduler : Scheduler σ) (id : RuleId) (rule : Rule σ) (tuple : Tuple)
    (event : EventKind) : Scheduler σ :=
  let known := scheduler.index.get? (id, tuple)
  let state := ((scheduler.activation? id tuple).map Activation.state).getD rule.lifecycle.initial
  match rule.lifecycle.next? state event, known with
  | none, _ => scheduler
  | some next, some activation =>
    if rule.lifecycle.isTerminal next then scheduler.drop id tuple activation
    else scheduler.place rule ⟨activation, id, tuple, next, event⟩
  | some next, none =>
    if rule.lifecycle.isTerminal next then scheduler
    else
      let (scheduler, activation) := scheduler.fresh
      scheduler.place rule ⟨activation, id, tuple, next, event⟩

/-- Reports an event for a tuple to a rule. -/
def notify (scheduler : Scheduler σ) (id : RuleId) (tuple : Tuple) (event : EventKind) :
    Except Error (Scheduler σ) :=
  match scheduler.rule? id with
  | some rule => .ok (scheduler.move id rule tuple event)
  | none => .error (.unknownRule id.literal)

end Scheduler
end LiveQuery
