import LiveQuery.Schedule.Scheduler

/-!
# Firing

Firing an activation runs the job of its rule, moves the activation on and carries out what the
job asked for.  A run fires the most urgent activation again and again until none is left.  A job
that fails is recorded and does not stop the run.

A rule whose jobs keep causing new activations can run for ever, so a run is given a number of
turns and says when they did not suffice.
-/

namespace LiveQuery

/-- What a finished run has done. -/
structure RunSummary where
  fired : Nat
  failed : Nat
  changes : List FactChange
  deriving DecidableEq, Repr

/-- How a run ended. -/
inductive RunOutcome where
  | finished (summary : RunSummary)
  | failed (error : Error)
  /-- Activations were left when the turns were used up. -/
  | unsettled
  deriving DecidableEq, Repr

namespace Scheduler

variable {σ τ : Type}

/-! ## One activation -/

/-- The activation that is next to fire. -/
def selectNext (scheduler : Scheduler σ) : Scheduler σ × Option Activation :=
  let (conflicts, chosen) := scheduler.conflicts.next
  ({ scheduler with conflicts }, chosen.bind scheduler.activations.get?)

/-- Records a failure after the handler has been told. -/
def record (scheduler : Scheduler σ) (failure : JobFailure) : Scheduler σ :=
  let host := match scheduler.handler with
    | some handler => handler failure scheduler.host
    | none => scheduler.host
  { scheduler with host, failures := scheduler.failures ++ [failure] }

/-- Runs the job for an activation and records its failure. -/
def work (scheduler : Scheduler σ) (rule : Rule σ) (activation : Activation) :
    Scheduler σ × Agenda :=
  let result := rule.work activation scheduler.host
  let worked := { scheduler with host := result.host }
  match result.failure with
  | none => (worked, result.agenda)
  | some error =>
    (worked.record ⟨activation, error, some (rule.jobContext activation)⟩, result.agenda)

/-- Moves an activation on by its completing event.  An event that leads nowhere is replaced by
the firing itself. -/
def complete (scheduler : Scheduler σ) (rule : Rule σ) (activation : Activation) :
    Option EventKind → Except Error (Scheduler σ)
  | none => .ok scheduler
  | some event =>
    let leads := (rule.lifecycle.next? activation.state event).isSome
    scheduler.notify activation.rule activation.tuple (if leads then event else .fired)

/-- Reports the notifications of a job, and records those that are refused. -/
def passOn (scheduler : Scheduler σ) (activation : Activation)
    (notifications : List Notification) : Scheduler σ :=
  notifications.foldl (fun scheduler notification =>
    match scheduler.notify notification.rule notification.tuple notification.event with
    | .ok notified => notified
    | .error error => scheduler.record ⟨activation, error, none⟩) scheduler

/-- Fires an activation, which has to be in the conflict set, and answers with the changes of facts
that its job asked for. -/
def fire (scheduler : Scheduler σ) (id : ActivationId) :
    Scheduler σ × Except Error (List FactChange) :=
  match (scheduler.activations.get? id).filter fun _ => scheduler.conflicts.contains id with
  | none => (scheduler, .error (.internal (id.literal ++ " is not fireable")))
  | some activation =>
    match scheduler.rule? activation.rule with
    | none => (scheduler, .error (.internal (id.literal ++ " refers to a missing rule")))
    | some rule =>
      let (worked, agenda) := scheduler.work rule activation
      match worked.complete rule activation agenda.completion with
      | .error error => (worked, .error error)
      | .ok completed => (completed.passOn activation agenda.notifications, .ok agenda.changes)

/-! ## Runs -/

/-- What to do in a run with the changes that a job asked for: it may change a state of its own
and the scheduler. -/
abbrev Applier (τ σ : Type) :=
  τ → Scheduler σ → List FactChange → τ × Scheduler σ × Except Error Unit

/-- How far a run has come. -/
structure Progress (τ σ : Type) where
  state : τ
  scheduler : Scheduler σ
  fired : Nat

/-- Why a run does not go on. -/
inductive Halt where
  | settled
  | failed (error : Error)
  | unsettled
  deriving DecidableEq, Repr

/-- Fires one activation and applies its changes, if there are any. -/
def turn (apply : Applier τ σ) (progress : Progress τ σ) : Progress τ σ × Option Halt :=
  match progress.scheduler.selectNext with
  | (scheduler, none) => ({ progress with scheduler }, some .settled)
  | (scheduler, some activation) =>
    match scheduler.fire activation.id with
    | (scheduler, .error error) => ({ progress with scheduler }, some (.failed error))
    | (scheduler, .ok changes) =>
      if changes.isEmpty then (⟨progress.state, scheduler, progress.fired + 1⟩, none)
      else
        let (state, scheduler, applied) := apply progress.state scheduler changes
        let advanced : Progress τ σ := ⟨state, scheduler, progress.fired + 1⟩
        match applied with
        | .ok () => (advanced, none)
        | .error error => (advanced, some (.failed error))

/-- Takes turns until the run halts. -/
def loop (apply : Applier τ σ) : Nat → Progress τ σ → Progress τ σ × Halt
  | 0, progress => (progress, .unsettled)
  | turns + 1, progress =>
    match turn apply progress with
    | (progress, some halt) => (progress, halt)
    | (progress, none) => loop apply turns progress

/-- Fires activations until none is left, and applies the changes of each job right after it.  A
run cannot be started inside another one. -/
def runWith (turns : Nat) (apply : Applier τ σ) (state : τ) (scheduler : Scheduler σ) :
    τ × Scheduler σ × RunOutcome :=
  if scheduler.isRunning then
    (state, scheduler, .failed
      (.internal "scheduler loop is not reentrant; queue work through the job context"))
  else
    let (progress, halt) := loop apply turns ⟨state, { scheduler with isRunning := true }, 0⟩
    let final := { progress.scheduler with isRunning := false }
    let failed := final.failures.length - scheduler.failures.length
    (progress.state, final, match halt with
      | .settled => .finished ⟨progress.fired, failed, []⟩
      | .failed error => .failed error
      | .unsettled => .unsettled)

/-- Collects changes instead of applying them. -/
def collect : Applier (List FactChange) σ := fun collected scheduler changes =>
  (collected ++ changes, scheduler, .ok ())

/-- Fires activations until none is left, and collects the changes that their jobs asked for. -/
def run (turns : Nat) (scheduler : Scheduler σ) : Scheduler σ × RunOutcome :=
  let (changes, final, outcome) := runWith turns collect [] scheduler
  (final, match outcome with
    | .finished summary => .finished { summary with changes }
    | other => other)

end Scheduler
end LiveQuery
