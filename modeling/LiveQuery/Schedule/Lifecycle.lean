import LiveQuery.Error
import LiveQuery.OrderedSet
import LiveQuery.Table

/-!
# Lifecycles

A lifecycle says through which states an activation passes.  It is a table from a state and an
event to the next state, with an initial state, in which there is no activation, and the states in
which an activation may fire.  A lifecycle is drafted step by step and then built, which checks
that nothing fires in the initial state and that firing leads on from every state in which it is
allowed.
-/

namespace LiveQuery

/-- What can happen to an activation. -/
inductive EventKind where
  | appeared
  | disappeared
  | updated
  | fired
  deriving DecidableEq, Repr

/-- The name of an event. -/
def EventKind.name : EventKind → String
  | .appeared => "appeared"
  | .disappeared => "disappeared"
  | .updated => "updated"
  | .fired => "fired"

/-- A state of a lifecycle, known by its name. -/
abbrev ActivationState := String

/-! ## Drafts -/

/-- A lifecycle under construction. -/
structure LifecycleDraft where
  initial : ActivationState
  transitions : Table (ActivationState × EventKind) ActivationState := .empty
  fireable : OrderedSet ActivationState := .empty
  deriving DecidableEq

/-- What keeps a draft from being a lifecycle. -/
inductive LifecycleDefect where
  | fireableInitial (state : ActivationState)
  | stuckFireable (state : ActivationState)
  deriving DecidableEq, Repr

/-- The wording of a defect of a draft. -/
def LifecycleDefect.message : LifecycleDefect → String
  | .fireableInitial state => s!"initial state {state} cannot be fireable"
  | .stuckFireable state => s!"fireable state {state} has no fired transition"

namespace LifecycleDraft

/-- The draft in which an event leads from one state to another; it replaces what was said about
that event in the first state. -/
def lead (draft : LifecycleDraft) (source : ActivationState) (event : EventKind)
    (target : ActivationState) : LifecycleDraft :=
  { draft with transitions := draft.transitions.insert (source, event) target }

/-- The draft in which activations may fire in one more state. -/
def allow (draft : LifecycleDraft) (state : ActivationState) : LifecycleDraft :=
  { draft with fireable := draft.fireable.insert state }

/-- Firing leads nowhere from this state. -/
def isStuck (draft : LifecycleDraft) (state : ActivationState) : Bool :=
  !draft.transitions.contains (state, .fired)

end LifecycleDraft

/-! ## Lifecycles -/

/-- A draft in which firing is only allowed where it leads on, and not in the initial state. -/
structure Lifecycle extends LifecycleDraft where
  initial_waits : initial ∉ fireable
  fires_on : ∀ state ∈ fireable, toLifecycleDraft.isStuck state = false
  deriving DecidableEq

namespace Lifecycle

/-- The lifecycle of a draft, unless firing is allowed in its initial state or leads nowhere from
some state in which it is allowed; the first such state by name is reported. -/
def build (draft : LifecycleDraft) : Except Error Lifecycle :=
  if waits : draft.initial ∈ draft.fireable then
    .error (.invalidLifecycle (LifecycleDefect.fireableInitial draft.initial).message)
  else
    match found : draft.fireable.toList.find? draft.isStuck with
    | some state => .error (.invalidLifecycle (LifecycleDefect.stuckFireable state).message)
    | none => .ok ⟨draft, waits, fun state member => by
        simpa using List.find?_eq_none.mp found state member⟩

/-- An activation fires once for each time its match is present. -/
def simple : Lifecycle where
  initial := "inactive"
  transitions := ⟨[
    (("inactive", .appeared), "active"),
    (("active", .fired), "inactive"),
    (("active", .disappeared), "inactive")]⟩
  fireable := .singleton "active"
  initial_waits := by decide
  fires_on := by decide

/-- An activation stays while its match is present.  It fires when the match has appeared, when it
has been updated, and once more when a match that has fired disappears. -/
def default : Lifecycle where
  initial := "inactive"
  transitions := ⟨[
    (("inactive", .appeared), "appeared"),
    (("appeared", .disappeared), "inactive"),
    (("appeared", .fired), "fired"),
    (("fired", .updated), "updated"),
    (("fired", .disappeared), "disappeared"),
    (("updated", .fired), "fired"),
    (("updated", .disappeared), "disappeared"),
    (("disappeared", .appeared), "fired"),
    (("disappeared", .fired), "inactive")]⟩
  fireable := .ofList ["appeared", "updated", "disappeared"]
  initial_waits := by decide
  fires_on := by decide

/-- The state that an event leads to, if it leads anywhere. -/
def next? (lifecycle : Lifecycle) (state : ActivationState) (event : EventKind) :
    Option ActivationState :=
  lifecycle.transitions.get? (state, event)

/-- The state that an event has to lead to. -/
def transition (lifecycle : Lifecycle) (state : ActivationState) (event : EventKind) :
    Except Error ActivationState :=
  match lifecycle.next? state event with
  | some next => .ok next
  | none => .error (.noTransition state event.name)

def isFireable (lifecycle : Lifecycle) (state : ActivationState) : Bool :=
  lifecycle.fireable.contains state

/-- Reaching this state ends an activation. -/
def isTerminal (lifecycle : Lifecycle) (state : ActivationState) : Bool :=
  state = lifecycle.initial

/-- Whether two lifecycles have the same initial state, the same fireable states and the same
transitions, whatever the order in which the transitions were drafted. -/
def agrees (first second : Lifecycle) : Bool :=
  first.initial = second.initial && first.fireable = second.fireable &&
    first.transitions.size = second.transitions.size &&
    first.transitions.entries.all fun (key, target) => second.transitions.get? key = some target

end Lifecycle
end LiveQuery
