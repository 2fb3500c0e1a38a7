import LiveQuery.Proofs.Schedule.Isolation

/-!
# What a run counts as failed

A run counts as failed whatever its scheduler has recorded since it was started.  Two things are
recorded when an activation fires: the error that its job returns, and every notification of the job
that names no rule (`failures_fire`).  The firings of a run, each with these two, are its history;
`failures_loop` says that the record grows by exactly what the firings of the history leave in it.

So the number of a run that ends is that of its failing jobs and of the notifications that they or
other jobs sent nowhere.  It is the number of failing jobs if no notification is refused, and then
no larger than the number of firings; a single refused notification spoils both.
-/

namespace LiveQuery

/-- One firing of a run, with what may go wrong in it. -/
structure Firing where
  activation : Activation
  /-- The error that the job returned. -/
  failure : Option Error
  /-- The place in which the job fails. -/
  context : Error.Context
  /-- The notifications that name no rule. -/
  refused : List Notification
  deriving DecidableEq, Repr

/-- What is recorded for a firing: the failure of its job, and then every refused notification. -/
def Firing.recorded (firing : Firing) : List JobFailure :=
  firing.failure.toList.map (⟨firing.activation, ·, some firing.context⟩) ++
    firing.refused.map (⟨firing.activation, .unknownRule ·.rule.literal, none⟩)

theorem Firing.length_recorded (firing : Firing) : firing.recorded.length =
    (if firing.failure.isSome then 1 else 0) + firing.refused.length := by
  unfold recorded
  rw [List.length_append, List.length_map, List.length_map]
  cases firing.failure <;> rfl

/-- As many failures are recorded as jobs fail and notifications are refused. -/
theorem Firing.length_flatMap_recorded (history : List Firing) :
    (history.flatMap Firing.recorded).length = history.countP (·.failure.isSome) +
      (history.flatMap Firing.refused).length := by
  induction history with
  | nil => rfl
  | cons firing rest ih =>
    rw [List.flatMap_cons, List.length_append, ih, firing.length_recorded, List.countP_cons,
      List.flatMap_cons, List.length_append]
    omega

namespace Scheduler

variable {σ τ : Type} {scheduler : Scheduler σ}

/-- The notifications that name no rule of the scheduler. -/
def refused (scheduler : Scheduler σ) (notifications : List Notification) : List Notification :=
  notifications.filter fun notification => (scheduler.rule? notification.rule).isNone

/-- Firing an activation of a rule now. -/
def firingOf (scheduler : Scheduler σ) (rule : Rule σ) (activation : Activation) : Firing :=
  let result := rule.work activation scheduler.host
  ⟨activation, result.failure, rule.jobContext activation,
    scheduler.refused result.agenda.notifications⟩

/-- Firing what is stored under a number now. -/
def firingAt? (scheduler : Scheduler σ) (id : ActivationId) : Option Firing := do
  let activation ← scheduler.activations.get? id
  let rule ← scheduler.rule? activation.rule
  return scheduler.firingOf rule activation

/-- The firing of the next turn, if it fires anything. -/
def nextFiring? (scheduler : Scheduler σ) : Option Firing :=
  scheduler.firing?.bind fun activation => scheduler.selectNext.1.firingAt? activation.id

/-- The firings of a run until it halts, in order. -/
def course (apply : Applier τ σ) : Nat → Progress τ σ → List Firing
  | 0, _ => []
  | turns + 1, progress =>
    progress.scheduler.nextFiring?.toList ++
      match turn apply progress with
      | (_, some _) => []
      | (progress, none) => course apply turns progress

/-- The firings of a run that collects changes, in order. -/
def history (turns : Nat) (scheduler : Scheduler σ) : List Firing :=
  course collect turns scheduler.started

/-! ## What a firing records -/

theorem failures_work (scheduler : Scheduler σ) (rule : Rule σ) (activation : Activation) :
    (scheduler.work rule activation).1.failures = scheduler.failures ++
      (rule.work activation scheduler.host).failure.toList.map
        (⟨activation, ·, some (rule.jobContext activation)⟩) := by
  unfold work
  dsimp only
  split
  next calm => rw [calm]; exact (List.append_nil _).symm
  next error failed => rw [failed]; rfl

theorem rules_work (scheduler : Scheduler σ) (rule : Rule σ) (activation : Activation) :
    (scheduler.work rule activation).1.rules = scheduler.rules := by
  obtain ⟨_, _, worked⟩ := work_eq_aside scheduler rule activation
  rw [worked]
  rfl

theorem Moves.failures {after : Scheduler σ} {number : RuleId} {rule : Rule σ} {tuple : Tuple}
    {event : EventKind} {state : Option ActivationState}
    (moves : scheduler.Moves number rule tuple event after state) :
    after.failures = scheduler.failures := by
  cases moves <;> rfl

@[simp] theorem failures_move (scheduler : Scheduler σ) (number : RuleId) (rule : Rule σ)
    (tuple : Tuple) (event : EventKind) :
    (scheduler.move number rule tuple event).failures = scheduler.failures :=
  (scheduler.moves number rule tuple event).failures

theorem kept_of_notify {after : Scheduler σ} {number : RuleId} {tuple : Tuple} {event : EventKind}
    (notified : scheduler.notify number tuple event = .ok after) :
    after.rules = scheduler.rules ∧ after.failures = scheduler.failures := by
  refine notify_induction
    (P := fun after => after.rules = scheduler.rules ∧ after.failures = scheduler.failures)
    (fun before number rule tuple event kept _ => ?_) ⟨rfl, rfl⟩ notified
  rw [rules_move, failures_move]
  exact kept

theorem kept_of_complete {after : Scheduler σ} {rule : Rule σ} {activation : Activation}
    {completion : Option EventKind}
    (completed : scheduler.complete rule activation completion = .ok after) :
    after.rules = scheduler.rules ∧ after.failures = scheduler.failures := by
  cases completion with
  | none =>
    cases completed
    exact ⟨rfl, rfl⟩
  | some event => exact kept_of_notify completed

theorem failures_passOn (scheduler : Scheduler σ) (activation : Activation)
    (notifications : List Notification) :
    (scheduler.passOn activation notifications).failures = scheduler.failures ++
      (scheduler.refused notifications).map
        (⟨activation, .unknownRule ·.rule.literal, none⟩) := by
  unfold passOn
  induction notifications generalizing scheduler with
  | nil => exact (List.append_nil _).symm
  | cons notification rest ih =>
    have alike {after : Scheduler σ} (rules : after.rules = scheduler.rules) :
        after.refused rest = scheduler.refused rest := by
      unfold refused rule?
      rw [rules]
    rw [List.foldl_cons, ih]
    cases known : scheduler.rule? notification.rule with
    | none =>
      have sent : scheduler.notify notification.rule notification.tuple notification.event =
          .error (.unknownRule notification.rule.literal) := by
        rw [notify, known]
      have first : scheduler.refused (notification :: rest) =
          notification :: scheduler.refused rest :=
        List.filter_cons_of_pos (by rw [known]; rfl)
      rw [sent, first]
      dsimp only
      rw [alike (by rfl), record]
      exact (List.append_assoc ..)
    | some rule =>
      have sent : scheduler.notify notification.rule notification.tuple notification.event =
          .ok (scheduler.move notification.rule rule notification.tuple notification.event) := by
        rw [notify, known]
      have first : scheduler.refused (notification :: rest) = scheduler.refused rest :=
        List.filter_cons_of_neg (by rw [known]; exact Bool.false_ne_true)
      rw [sent, first]
      dsimp only
      rw [alike (rules_move ..), failures_move]

/-- A firing that is accepted records the failure of its job and the notifications that are refused,
and nothing else. -/
theorem failures_fire {id : ActivationId} {changes : List FactChange}
    (accepted : (scheduler.fire id).2 = .ok changes) :
    ∃ firing, scheduler.firingAt? id = some firing ∧
      (scheduler.fire id).1.failures = scheduler.failures ++ firing.recorded := by
  unfold fire at accepted ⊢
  unfold firingAt?
  cases stored : scheduler.activations.get? id with
  | none =>
    rw [stored] at accepted
    cases accepted
  | some activation =>
    rw [stored] at accepted
    cases filed : scheduler.conflicts.contains id with
    | false =>
      rw [filed] at accepted
      cases accepted
    | true =>
      simp only [filed, Option.filter_some, if_true] at accepted ⊢
      cases known : scheduler.rule? activation.rule with
      | none =>
        rw [known] at accepted
        cases accepted
      | some rule =>
        rw [known] at accepted
        refine ⟨scheduler.firingOf rule activation, by simp [known], ?_⟩
        dsimp only at accepted ⊢
        cases completed : (scheduler.work rule activation).1.complete rule activation
            (scheduler.work rule activation).2.completion with
        | error error =>
          rw [completed] at accepted
          cases accepted
        | ok after =>
          obtain ⟨rules, failures⟩ := kept_of_complete completed
          have refuses : after.refused (scheduler.work rule activation).2.notifications =
              scheduler.refused (rule.work activation scheduler.host).agenda.notifications := by
            unfold refused rule?
            rw [rules, rules_work, agenda_work]
          dsimp only
          rw [failures_passOn, failures, failures_work, refuses, List.append_assoc]
          rfl

/-! ## What a run records -/

theorem isSome_nextFiring? (scheduler : Scheduler σ) :
    scheduler.nextFiring?.isSome = scheduler.firing?.isSome := by
  unfold nextFiring?
  cases fires : scheduler.firing? with
  | none => rfl
  | some activation =>
    have accepted := (Option.filter_eq_some_iff.mp fires).2
    cases outcome : (scheduler.selectNext.1.fire activation.id).2 with
    | error error =>
      rw [outcome] at accepted
      cases accepted
    | ok changes =>
      obtain ⟨firing, there, _⟩ := failures_fire outcome
      exact congrArg Option.isSome there

theorem length_course (apply : Applier τ σ) (turns : Nat) (progress : Progress τ σ) :
    (course apply turns progress).length = (firings apply turns progress).length := by
  induction turns generalizing progress with
  | zero => rfl
  | succ turns ih =>
    have once : progress.scheduler.nextFiring?.toList.length =
        progress.scheduler.firing?.toList.length := by
      have alike := isSome_nextFiring? progress.scheduler
      cases first : progress.scheduler.nextFiring? <;>
        cases second : progress.scheduler.firing? <;> simp_all
    unfold course firings
    rw [List.length_append, List.length_append, once]
    cases turned : turn apply progress with
    | mk after halt =>
      cases halt with
      | some halt => rfl
      | none => exact congrArg _ (ih after)

section Loop

variable {apply : Applier τ σ}
  (spares : ∀ state scheduler changes,
    (apply state scheduler changes).2.1.failures = scheduler.failures)

include spares in
theorem failures_turn {progress : Progress τ σ}
    (goesOn : ∀ error, (turn apply progress).2 ≠ some (.failed error)) :
    (turn apply progress).1.scheduler.failures = progress.scheduler.failures ++
      progress.scheduler.nextFiring?.toList.flatMap Firing.recorded := by
  have untouched : progress.scheduler.selectNext.1.failures = progress.scheduler.failures := rfl
  unfold turn at goesOn ⊢
  unfold nextFiring? firing?
  cases selection : progress.scheduler.selectNext with
  | mk chosen activation =>
    rw [selection] at goesOn untouched
    cases activation with
    | none => simpa using untouched
    | some activation =>
      dsimp only at goesOn untouched ⊢
      cases outcome : chosen.fire activation.id with
      | mk after answer =>
        rw [outcome] at goesOn
        cases answer with
        | error error => exact absurd rfl (goesOn error)
        | ok changes =>
          obtain ⟨firing, there, grown⟩ := failures_fire (congrArg Prod.snd outcome)
          rw [outcome, untouched] at grown
          have called : (Option.filter (fun activation : Activation =>
              (chosen.fire activation.id).2.isOk) (some activation)).bind
              (fun activation => chosen.firingAt? activation.id) = some firing := by
            rw [Option.filter_some, if_pos (by rw [outcome]; rfl)]
            exact there
          rw [called, Option.toList_some, List.flatMap_singleton, ← grown]
          dsimp only
          split
          · rfl
          · split <;> exact spares ..

include spares in
/-- A run that settles records what the firings of its course leave, in their order. -/
theorem failures_loop (turns : Nat) {progress : Progress τ σ}
    (settles : (loop apply turns progress).2 = .settled) :
    (loop apply turns progress).1.scheduler.failures = progress.scheduler.failures ++
      (course apply turns progress).flatMap Firing.recorded := by
  induction turns generalizing progress with
  | zero => cases settles
  | succ turns ih =>
    have once := @failures_turn _ _ apply spares progress
    unfold loop at settles ⊢
    unfold course
    cases turned : turn apply progress with
    | mk after halt =>
      rw [turned] at settles once
      cases halt with
      | some halt =>
        obtain rfl : halt = .settled := settles
        rw [List.append_nil]
        exact once (by simp)
      | none =>
        have rest := ih settles
        dsimp only at rest once ⊢
        rw [rest, once (by simp), List.flatMap_append, List.append_assoc]

end Loop

/-- A run that finishes has settled, and tells what it has counted. -/
theorem finished_iff {turns : Nat} {summary : RunSummary} :
    (scheduler.run turns).2 = .finished summary ↔ scheduler.isRunning = false ∧
      (loop collect turns scheduler.started).2 = .settled ∧
      summary = ⟨(scheduler.fired turns).length,
        (scheduler.run turns).1.failures.length - scheduler.failures.length,
        (loop collect turns scheduler.started).1.state⟩ := by
  have counted : (loop collect turns scheduler.started).1.fired = (scheduler.fired turns).length :=
    (fired_loop collect turns scheduler.started).trans (Nat.zero_add _)
  cases running : scheduler.isRunning with
  | true => simp [run, runWith, running]
  | false =>
    rw [run_eq running, ← counted]
    cases halts : (loop collect turns scheduler.started).2 with
    | settled => simp [eq_comm]
    | failed error => simp
    | unsettled => simp

/-- A run that finishes records for each of its firings the failure of the job and every refused
notification.  Its number of failures counts both; it is the number of failing jobs exactly if no
notification was refused, and then it does not exceed the number of firings. -/
theorem failed_eq {turns : Nat} {summary : RunSummary}
    (finished : (scheduler.run turns).2 = .finished summary) :
    summary.fired = (scheduler.history turns).length ∧
    (scheduler.run turns).1.failures = scheduler.failures ++
      (scheduler.history turns).flatMap Firing.recorded ∧
    summary.failed = (scheduler.history turns).countP (·.failure.isSome) +
      ((scheduler.history turns).flatMap Firing.refused).length ∧
    (summary.failed = (scheduler.history turns).countP (·.failure.isSome) ↔
      ∀ firing ∈ scheduler.history turns, firing.refused = []) ∧
    ((∀ firing ∈ scheduler.history turns, firing.refused = []) → summary.failed ≤ summary.fired) := by
  obtain ⟨idle, settles, rfl⟩ := finished_iff.mp finished
  have recorded : (scheduler.run turns).1.failures = scheduler.failures ++
      (scheduler.history turns).flatMap Firing.recorded := by
    rw [run_eq idle]
    exact failures_loop (fun _ _ _ => rfl) turns settles
  have fires : (scheduler.fired turns).length = (scheduler.history turns).length :=
    (length_course collect turns scheduler.started).symm
  have failed : (scheduler.run turns).1.failures.length - scheduler.failures.length =
      (scheduler.history turns).countP (·.failure.isSome) +
        ((scheduler.history turns).flatMap Firing.refused).length := by
    rw [recorded, List.length_append, Nat.add_sub_cancel_left, Firing.length_flatMap_recorded]
  have none_refused : ((scheduler.history turns).flatMap Firing.refused).length = 0 ↔
      ∀ firing ∈ scheduler.history turns, firing.refused = [] := by
    rw [List.length_eq_zero_iff, List.flatMap_eq_nil_iff]
  dsimp only
  rw [failed, fires]
  refine ⟨rfl, recorded, rfl, ?_, fun accepted => ?_⟩
  · rw [← none_refused]
    omega
  · rw [none_refused.mpr accepted]
    exact List.countP_le_length

/-- Two matches of a rule whose job reports both to some rules and fails on the one that is fired
first. -/
def reporting (rules : List RuleId) : Scheduler Unit :=
  performAll (new .fixed .lifo ()) [
    .notify ⟨0⟩ [.int 7] .appeared, .notify ⟨0⟩ [.int 8] .appeared,
    .addRule <| Rule.withJob { name := "watch", query := "edges", lifecycle := .default } "appeared"
      fun activation host => ⟨{ notifications := rules.map (⟨·, activation.tuple, .appeared⟩) },
        if activation.tuple = [.int 7] then some (.jobFailed "refused") else none, host⟩]

/-- Of the reports to a rule that is there none is refused, of those to one that is not each is. -/
theorem failed_reporting :
    ((reporting [⟨0⟩]).run 3).2 = .finished ⟨2, 1, []⟩ ∧
    (((reporting [⟨0⟩]).history 3).countP (·.failure.isSome) = 1 ∧
      ∀ firing ∈ (reporting [⟨0⟩]).history 3, firing.refused = []) ∧
    ((reporting [⟨9⟩]).run 3).2 = .finished ⟨2, 3, []⟩ ∧
    3 = ((reporting [⟨9⟩]).history 3).countP (·.failure.isSome) +
      (((reporting [⟨9⟩]).history 3).flatMap Firing.refused).length := by
  have heard : ((reporting [⟨0⟩]).run 3).2 = .finished ⟨2, 1, []⟩ := by decide +kernel
  have unheard : ((reporting [⟨9⟩]).run 3).2 = .finished ⟨2, 3, []⟩ := by decide +kernel
  have failing : ((reporting [⟨0⟩]).history 3).countP (·.failure.isSome) = 1 := by decide +kernel
  have counts := failed_eq heard
  exact ⟨heard, ⟨failing, counts.2.2.2.1.mp failing.symm⟩, unheard, (failed_eq unheard).2.2.1⟩

/-- A run whose only job succeeds, and sends two reports to a rule that is not there, counts two
failures and one firing. -/
theorem failed_unheard :
    let calm : Rule Unit := Rule.withJob { name := "watch", query := "edges", lifecycle := .default }
      "appeared" fun activation host =>
        ⟨{ notifications := List.replicate 2 ⟨⟨9⟩, activation.tuple, .appeared⟩ }, none, host⟩
    let now : Scheduler Unit :=
      performAll (new .fixed .lifo ()) [.notify ⟨0⟩ [.int 7] .appeared, .addRule calm]
    (now.run 2).2 = .finished ⟨1, 2, []⟩ ∧
      (now.history 2).countP (·.failure.isSome) = 0 ∧ (now.history 2).length = 1 := by
  decide +kernel

end Scheduler
end LiveQuery
