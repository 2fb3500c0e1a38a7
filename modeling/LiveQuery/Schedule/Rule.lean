import LiveQuery.Fact
import LiveQuery.Schedule.Activation

/-!
# Rules and jobs

A rule says what to do with the matches of a query: through which lifecycle its activations go, how
urgent they are, and which job runs when one fires.  A job does not touch the network or the
scheduler.  It writes an agenda, which is carried out after it has finished, and it may change its
host, which is whatever surrounds the jobs of a scheduler.
-/

namespace LiveQuery

/-- An event that a job wants to be reported to a rule. -/
structure Notification where
  rule : RuleId
  tuple : Tuple
  event : EventKind
  deriving DecidableEq, Repr

/-- What a job asks for: changes of facts, notifications, and the event that completes its
activation. -/
structure Agenda where
  changes : List FactChange := []
  notifications : List Notification := []
  /-- The activation does not move on without a completing event. -/
  completion : Option EventKind := some .fired
  deriving DecidableEq, Repr

namespace Agenda

/-- The agenda with one more change of a fact. -/
def change (agenda : Agenda) (change : FactChange) : Agenda :=
  { agenda with changes := agenda.changes ++ [change] }

def insert (agenda : Agenda) (fact : Fact) : Agenda := agenda.change ⟨.insert, fact⟩

def delete (agenda : Agenda) (fact : Fact) : Agenda := agenda.change ⟨.delete, fact⟩

/-- The agenda with one more notification. -/
def notify (agenda : Agenda) (rule : RuleId) (tuple : Tuple) (event : EventKind) : Agenda :=
  { agenda with notifications := agenda.notifications ++ [⟨rule, tuple, event⟩] }

/-- The agenda with another completing event. -/
def completeWith (agenda : Agenda) (event : EventKind) : Agenda :=
  { agenda with completion := some event }

/-- The agenda without a completing event. -/
def suppressCompletion (agenda : Agenda) : Agenda := { agenda with completion := none }

end Agenda

/-- How a job ended.  The agenda of a job that failed is carried out like any other. -/
structure JobResult (σ : Type) where
  agenda : Agenda
  failure : Option Error
  host : σ

/-- What to do when an activation fires. -/
abbrev Job (σ : Type) := Activation → σ → JobResult σ

/-- An error of a job, or of a notification that a job asked for. -/
structure JobFailure where
  activation : Activation
  error : Error
  context : Option Error.Context
  deriving DecidableEq, Repr

/-- What to do with the matches of a query. -/
structure Rule (σ : Type) where
  name : String
  query : String
  lifecycle : Lifecycle
  priority : Int32 := 0
  jobs : Table ActivationState (Job σ) := .empty

namespace Rule

variable {σ : Type}

/-- The rule with a job for activations that fire in a state. -/
def withJob (rule : Rule σ) (state : ActivationState) (job : Job σ) : Rule σ :=
  { rule with jobs := rule.jobs.insert state job }

/-- Runs the job for the state of an activation; without a job nothing happens. -/
def work (rule : Rule σ) (activation : Activation) (host : σ) : JobResult σ :=
  match rule.jobs.get? activation.state with
  | some job => job activation host
  | none => ⟨{}, none, host⟩

/-- The place in which a job fails. -/
def jobContext (rule : Rule σ) (activation : Activation) : Error.Context where
  source := some rule.name
  frames := ["job for " ++ activation.state]

end Rule
end LiveQuery
