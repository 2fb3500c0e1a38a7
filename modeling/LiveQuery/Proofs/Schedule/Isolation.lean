import LiveQuery.Proofs.Schedule.Selection

/-!
# Jobs that fail

A failing job stops nothing.  In a coherent scheduler whatever is selected can be fired
(`Coherent.fire_selected`), so a run without a callback that refuses something only ends where
nothing is left to fire.

Nor does a failure change the course of a run.  `Scheduler.withoutJobs` is a scheduler without
whatever belongs to its jobs: the jobs themselves, their host, the handler and the recorded
failures.  One event does the same with or without these, so two schedulers that are the same
without their jobs stay so for as long as their jobs ask for the same (`fire_congr`, `turn_congr`,
`loop_congr`), whichever of these jobs fail.
-/

namespace LiveQuery

/-- The rule without its jobs. -/
def Rule.withoutJobs {σ : Type} (rule : Rule σ) : Rule Unit where
  name := rule.name
  query := rule.query
  lifecycle := rule.lifecycle
  priority := rule.priority

namespace Scheduler

variable {σ ρ τ : Type} {scheduler first : Scheduler σ} {second : Scheduler ρ}

/-- The scheduler without its jobs and what only they and their failures touch. -/
def withoutJobs (scheduler : Scheduler σ) : Scheduler Unit where
  rules := scheduler.rules.map Rule.withoutJobs
  activations := scheduler.activations
  index := scheduler.index
  conflicts := scheduler.conflicts
  policy := scheduler.policy
  issued := scheduler.issued
  failures := []
  handler := none
  isRunning := scheduler.isRunning
  host := ()

/-- What the job for an activation asks for if it is called now. -/
def agendaOf? (scheduler : Scheduler σ) (id : ActivationId) : Option Agenda := do
  let activation ← scheduler.activations.get? id
  let rule ← scheduler.rule? activation.rule
  return (rule.work activation scheduler.host).agenda

/-! ## What a run fires -/

/-- The activation that a turn fires, if there is one. -/
def firing? (scheduler : Scheduler σ) : Option Activation :=
  scheduler.selectNext.2.filter fun activation =>
    (scheduler.selectNext.1.fire activation.id).2.isOk

/-- The activations that are fired until the run halts, in order. -/
def firings (apply : Applier τ σ) : Nat → Progress τ σ → List Activation
  | 0, _ => []
  | turns + 1, progress =>
    progress.scheduler.firing?.toList ++
      match turn apply progress with
      | (_, some _) => []
      | (progress, none) => firings apply turns progress

/-- A run that has just been started. -/
def started (scheduler : Scheduler σ) : Progress (List FactChange) σ :=
  ⟨[], { scheduler with isRunning := true }, 0⟩

/-- The scheduler in the middle of a run. -/
def midRun (turns : Nat) (scheduler : Scheduler σ) : Scheduler σ :=
  (loop collect turns scheduler.started).1.scheduler

/-- The activations that a run fires, in order. -/
def fired (turns : Nat) (scheduler : Scheduler σ) : List Activation :=
  firings collect turns scheduler.started

theorem fired_turn (apply : Applier τ σ) (progress : Progress τ σ) :
    (turn apply progress).1.fired = progress.fired + progress.scheduler.firing?.toList.length := by
  unfold turn firing?
  cases selection : progress.scheduler.selectNext with
  | mk chosen activation =>
    cases activation with
    | none => rfl
    | some activation =>
      dsimp only
      cases outcome : chosen.fire activation.id with
      | mk after answer =>
        cases answer with
        | error error => simp [outcome, Except.isOk, Except.toBool]
        | ok changes =>
          simp only [outcome, Except.isOk, Except.toBool, Option.filter_some, if_true,
            Option.toList_some, List.length_singleton]
          split
          · rfl
          · split <;> rfl

/-- The number that a run counts is that of the activations it fires. -/
theorem fired_loop (apply : Applier τ σ) (turns : Nat) (progress : Progress τ σ) :
    (loop apply turns progress).1.fired =
      progress.fired + (firings apply turns progress).length := by
  induction turns generalizing progress with
  | zero => rfl
  | succ turns ih =>
    have once := fired_turn apply progress
    unfold loop firings
    cases turned : turn apply progress with
    | mk after halt =>
      rw [turned] at once
      cases halt with
      | some halt => simpa using once
      | none =>
        dsimp only at once ⊢
        rw [ih, once, List.length_append, Nat.add_assoc]

/-! ## Nothing selected is refused -/

theorem Coherent.isEmpty_of_selectNext (coherent : scheduler.Coherent)
    (nothing : scheduler.selectNext.2 = none) :
    scheduler.selectNext.1.conflicts.isEmpty = true := by
  have kept : scheduler.selectNext.1.conflicts.isEmpty = scheduler.conflicts.isEmpty := by
    show scheduler.conflicts.next.1.isEmpty = _
    unfold ConflictSet.next
    split
    · rfl
    · split <;> rfl
  rw [kept]
  rcases coherent.selectNext_cases with ⟨_, none_⟩ | ⟨chosen, _, _, chose, _, _⟩
  · have unfiled (id : ActivationId) : scheduler.conflicts.filed.get? id = none :=
      (coherent.urgency?_eq id).symm.trans (none_ id)
    unfold ConflictSet.isEmpty Table.isEmpty
    cases entries : scheduler.conflicts.filed.entries with
    | nil => rfl
    | cons entry rest =>
      have there := unfiled entry.1
      simp [Table.get?, entries] at there
  · cases nothing.symm.trans chose

theorem exists_complete {rule : Rule σ} {activation : Activation}
    (known : scheduler.rule? activation.rule = some rule) (completion : Option EventKind) :
    ∃ after, scheduler.complete rule activation completion = .ok after := by
  cases completion with
  | none => exact ⟨_, rfl⟩
  | some event =>
    unfold complete notify
    rw [known]
    exact ⟨_, rfl⟩

/-- An activation that may fire does its work, is completed, and has its notifications passed on. -/
theorem Coherent.fire_eq (coherent : scheduler.Coherent) {activation : Activation} {rule : Rule σ}
    (mayFire : scheduler.MayFire activation rule) {after : Scheduler σ}
    (completed : (scheduler.work rule activation).1.complete rule activation
      (scheduler.work rule activation).2.completion = .ok after) :
    scheduler.fire activation.id =
      (after.passOn activation (scheduler.work rule activation).2.notifications,
        .ok (scheduler.work rule activation).2.changes) := by
  have stored := (mem_live_iff coherent).mp mayFire.live
  have urgent := coherent.urgency?_eq_some_iff.mpr ⟨activation, rule, mayFire, rfl, rfl⟩
  rw [coherent.urgency?_eq] at urgent
  have filed : scheduler.conflicts.contains activation.id = true :=
    Table.contains_iff.mpr ⟨_, urgent⟩
  unfold fire
  rw [stored, Option.filter_some, if_pos filed]
  dsimp only
  rw [mayFire.known]
  dsimp only
  rw [completed]

theorem MayFire.selectNext {activation : Activation} {rule : Rule σ}
    (mayFire : scheduler.MayFire activation rule) :
    scheduler.selectNext.1.MayFire activation rule :=
  ⟨mayFire.live, mayFire.known, mayFire.fireable⟩

/-- Whatever is selected in a coherent scheduler can be fired. -/
theorem Coherent.fire_selected (coherent : scheduler.Coherent) {activation : Activation}
    (chosen : scheduler.selectNext.2 = some activation) :
    ∃ changes, (scheduler.selectNext.1.fire activation.id).2 = .ok changes := by
  rcases coherent.selectNext_cases with ⟨nothing, _⟩ | ⟨selected, rule, mayFire, chose, _, _⟩
  · cases nothing.symm.trans chosen
  obtain rfl : selected = activation := Option.some.inj (chose.symm.trans chosen)
  obtain ⟨failures, host, worked⟩ := work_eq_aside scheduler.selectNext.1 rule selected
  have still : (scheduler.selectNext.1.work rule selected).1.rule? selected.rule = some rule :=
    worked ▸ mayFire.known
  obtain ⟨after, completed⟩ :=
    exists_complete still (scheduler.selectNext.1.work rule selected).2.completion
  refine ⟨(scheduler.selectNext.1.work rule selected).2.changes, ?_⟩
  rw [coherent.selectNext.fire_eq mayFire.selectNext completed]

section Turn

variable {progress : Progress (List FactChange) σ}

theorem turn_of_nothing (nothing : progress.scheduler.selectNext.2 = none) :
    turn collect progress = ({ progress with scheduler := progress.scheduler.selectNext.1 },
      some .settled) ∧ progress.scheduler.firing? = none := by
  unfold turn firing?
  cases selection : progress.scheduler.selectNext with
  | mk chosen activation =>
    rw [selection] at nothing
    cases nothing
    exact ⟨rfl, rfl⟩

theorem Coherent.turn_selected (coherent : progress.scheduler.Coherent) {activation : Activation}
    (selected : progress.scheduler.selectNext.2 = some activation) :
    (turn collect progress).1.scheduler =
        (progress.scheduler.selectNext.1.fire activation.id).1 ∧
      (turn collect progress).2 = none ∧ progress.scheduler.firing? = some activation := by
  obtain ⟨changes, accepted⟩ := coherent.fire_selected selected
  unfold turn firing?
  cases selection : progress.scheduler.selectNext with
  | mk chosen next =>
    rw [selection] at selected accepted
    cases selected
    dsimp only at accepted ⊢
    cases outcome : chosen.fire activation.id with
    | mk fired answer =>
      rw [outcome] at accepted
      cases accepted
      refine ⟨?_, ?_, by simp [outcome, Except.isOk, Except.toBool]⟩ <;> dsimp only <;> split <;> rfl

theorem Coherent.turn_collect (coherent : progress.scheduler.Coherent) :
    (turn collect progress).1.scheduler.Coherent ∧
      ((turn collect progress).2 = none ∨ (turn collect progress).2 = some .settled ∧
        (turn collect progress).1.scheduler.conflicts.isEmpty = true) := by
  cases selected : progress.scheduler.selectNext.2 with
  | none =>
    rw [(turn_of_nothing selected).1]
    exact ⟨coherent.selectNext, .inr ⟨rfl, coherent.isEmpty_of_selectNext selected⟩⟩
  | some activation =>
    obtain ⟨fired, continues, -⟩ := coherent.turn_selected selected
    rw [fired]
    exact ⟨(coherent.selectNext.follows_fire activation.id).coherent, .inl continues⟩

end Turn

/-- A run that only collects changes either goes on or has left nothing to fire. -/
theorem Coherent.loop_collect (turns : Nat) {progress : Progress (List FactChange) σ}
    (coherent : progress.scheduler.Coherent) :
    (loop collect turns progress).2 = .unsettled ∨ (loop collect turns progress).2 = .settled ∧
      (loop collect turns progress).1.scheduler.conflicts.isEmpty = true := by
  induction turns generalizing progress with
  | zero => exact .inl rfl
  | succ turns ih =>
    obtain ⟨kept, ends⟩ := coherent.turn_collect
    unfold loop
    cases turned : turn collect progress with
    | mk after halt =>
      rw [turned] at kept ends
      rcases ends with rfl | ⟨rfl, empty⟩
      · exact ih kept
      · exact .inr ⟨rfl, empty⟩

/-! ## The same without jobs -/

theorem rule?_withoutJobs (scheduler : Scheduler σ) (id : RuleId) :
    scheduler.withoutJobs.rule? id = (scheduler.rule? id).map Rule.withoutJobs :=
  List.getElem?_map ..

theorem work_withoutJobs (scheduler : Scheduler σ) (rule : Rule σ) (activation : Activation) :
    (scheduler.work rule activation).1.withoutJobs = scheduler.withoutJobs := by
  obtain ⟨_, _, worked⟩ := work_eq_aside scheduler rule activation
  rw [worked]
  rfl

theorem agenda_work (scheduler : Scheduler σ) (rule : Rule σ) (activation : Activation) :
    (scheduler.work rule activation).2 = (rule.work activation scheduler.host).agenda := by
  unfold work
  dsimp only
  split <;> rfl

theorem move_withoutJobs (scheduler : Scheduler σ) (id : RuleId) (rule : Rule σ) (tuple : Tuple)
    (event : EventKind) : (scheduler.move id rule tuple event).withoutJobs =
      scheduler.withoutJobs.move id rule.withoutJobs tuple event := by
  unfold move
  simp only [show scheduler.withoutJobs.activation? id tuple = scheduler.activation? id tuple from rfl,
    show scheduler.withoutJobs.index = scheduler.index from rfl,
    show rule.withoutJobs.lifecycle = rule.lifecycle from rfl]
  split
  · rfl
  · split <;> rfl
  · split <;> rfl

theorem notify_withoutJobs (scheduler : Scheduler σ) (id : RuleId) (tuple : Tuple)
    (event : EventKind) : (scheduler.notify id tuple event).map withoutJobs =
      scheduler.withoutJobs.notify id tuple event := by
  unfold notify
  rw [rule?_withoutJobs]
  cases scheduler.rule? id with
  | none => rfl
  | some rule => exact congrArg Except.ok (move_withoutJobs ..)

theorem complete_withoutJobs (scheduler : Scheduler σ) (rule : Rule σ) (activation : Activation)
    (completion : Option EventKind) :
    (scheduler.complete rule activation completion).map withoutJobs =
      scheduler.withoutJobs.complete rule.withoutJobs activation completion := by
  cases completion with
  | none => rfl
  | some event => exact notify_withoutJobs ..

/-- Two answers that are the same but for what is left out are both refusals or both granted. -/
theorem cases_of_map_eq {ε α β γ : Type} {forget : α → γ} {drop : β → γ} {one : Except ε α}
    {other : Except ε β} (same : one.map forget = other.map drop) :
    (∃ error, one = .error error ∧ other = .error error) ∨
      ∃ answer twin, one = .ok answer ∧ other = .ok twin ∧ forget answer = drop twin := by
  cases one with
  | error error =>
    cases other with
    | error => exact .inl ⟨error, rfl, congrArg Except.error (Except.error.inj same).symm⟩
    | ok => cases same
  | ok answer =>
    cases other with
    | error => cases same
    | ok twin => exact .inr ⟨answer, twin, rfl, rfl, Except.ok.inj same⟩

section Same

variable (same : first.withoutJobs = second.withoutJobs)

include same in
theorem passOn_congr (activation : Activation) (notifications : List Notification) :
    (first.passOn activation notifications).withoutJobs =
      (second.passOn activation notifications).withoutJobs := by
  unfold passOn
  induction notifications generalizing first second with
  | nil => exact same
  | cons notification rest ih =>
    have notified : (first.notify notification.rule notification.tuple notification.event).map
        withoutJobs = (second.notify notification.rule notification.tuple notification.event).map
        withoutJobs := by rw [notify_withoutJobs, notify_withoutJobs, same]
    rw [List.foldl_cons, List.foldl_cons]
    apply ih
    rcases cases_of_map_eq notified with ⟨error, one, other⟩ | ⟨_, _, one, other, alike⟩
    · rw [one, other]
      exact same
    · rw [one, other]
      exact alike

include same in
/-- Firing goes the same way in two schedulers whose jobs ask for the same. -/
theorem fire_congr (id : ActivationId) (agendas : first.agendaOf? id = second.agendaOf? id) :
    (first.fire id).1.withoutJobs = (second.fire id).1.withoutJobs ∧
      (first.fire id).2 = (second.fire id).2 := by
  have activations : first.activations = second.activations := congrArg activations same
  have conflicts : first.conflicts = second.conflicts := congrArg conflicts same
  unfold agendaOf? at agendas
  unfold fire
  rw [activations] at agendas ⊢
  rw [conflicts]
  cases stored : second.activations.get? id with
  | none => exact ⟨same, rfl⟩
  | some activation =>
    rw [stored] at agendas
    cases filed : second.conflicts.contains id with
    | false => exact ⟨same, rfl⟩
    | true =>
      have rules : (first.rule? activation.rule).map Rule.withoutJobs =
          (second.rule? activation.rule).map Rule.withoutJobs := by
        rw [← rule?_withoutJobs, ← rule?_withoutJobs, same]
      dsimp only [Option.filter_some, if_true, Option.bind_eq_bind, Option.bind_some] at agendas ⊢
      simp only [reduceIte]
      cases known : first.rule? activation.rule with
      | none =>
        rw [known] at rules
        rw [Option.map_eq_none_iff.mp rules.symm]
        exact ⟨same, rfl⟩
      | some rule =>
        rw [known] at rules agendas
        obtain ⟨twin, there, alike⟩ := Option.map_eq_some_iff.mp rules.symm
        rw [there] at agendas
        rw [there]
        dsimp only
        have asks : (first.work rule activation).2 = (second.work twin activation).2 := by
          rw [agenda_work, agenda_work]
          exact Option.some.inj agendas
        have completed : ((first.work rule activation).1.complete rule activation
              (first.work rule activation).2.completion).map withoutJobs =
            ((second.work twin activation).1.complete twin activation
              (second.work twin activation).2.completion).map withoutJobs := by
          rw [complete_withoutJobs, complete_withoutJobs, work_withoutJobs, work_withoutJobs, same,
            asks, alike]
        rcases cases_of_map_eq completed with ⟨error, one, other⟩ | ⟨_, _, one, other, after⟩
        · rw [one, other]
          exact ⟨by rw [work_withoutJobs, work_withoutJobs, same], rfl⟩
        · rw [one, other, asks]
          exact ⟨passOn_congr after activation _, rfl⟩

end Same

/-! ## Two runs -/

/-- How far a run has come, without the jobs of its scheduler. -/
def Progress.withoutJobs (progress : Progress τ σ) : Progress τ Unit :=
  ⟨progress.state, progress.scheduler.withoutJobs, progress.fired⟩

/-- What the job asks for that is called next, if the run goes on. -/
def nextAgenda? (scheduler : Scheduler σ) : Option Agenda :=
  scheduler.selectNext.2.bind fun activation => scheduler.selectNext.1.agendaOf? activation.id

/-- If both runs are about to fire the same activation, its two jobs ask for the same. -/
def AsksAlike (first : Scheduler σ) (second : Scheduler ρ) : Prop :=
  first.selectNext.2 = second.selectNext.2 → first.nextAgenda? = second.nextAgenda?

instance : Decidable (AsksAlike first second) := inferInstanceAs (Decidable (_ → _))

section Turns

variable {one : Progress (List FactChange) σ} {other : Progress (List FactChange) ρ}

theorem turn_congr (same : one.withoutJobs = other.withoutJobs)
    (alike : AsksAlike one.scheduler other.scheduler) :
    one.scheduler.firing? = other.scheduler.firing? ∧
      (turn collect one).1.withoutJobs = (turn collect other).1.withoutJobs ∧
      (turn collect one).2 = (turn collect other).2 := by
  obtain ⟨state, first, count⟩ := one
  obtain ⟨_, second, _⟩ := other
  obtain ⟨rfl, schedulers, rfl⟩ := Progress.mk.inj same
  have chosen : first.selectNext.2 = second.selectNext.2 :=
    congrArg (fun scheduler : Scheduler Unit => scheduler.selectNext.2) schedulers
  have after : first.selectNext.1.withoutJobs = second.selectNext.1.withoutJobs :=
    congrArg (fun scheduler : Scheduler Unit => scheduler.selectNext.1) schedulers
  have asks := alike chosen
  unfold nextAgenda? at asks
  unfold turn firing?
  dsimp only at asks ⊢
  cases selection : first.selectNext with
  | mk firstChosen activation =>
    cases twinSelection : second.selectNext with
    | mk secondChosen twin =>
      rw [selection, twinSelection] at chosen after asks
      cases chosen
      cases activation with
      | none =>
        refine ⟨rfl, ?_, rfl⟩
        exact congrArg (fun scheduler => (⟨state, scheduler, count⟩ : Progress _ Unit)) after
      | some activation =>
        obtain ⟨fires, answers⟩ := fire_congr after activation.id asks
        dsimp only at answers ⊢
        rw [Option.filter_some, Option.filter_some, answers]
        refine ⟨rfl, ?_⟩
        cases outcome : firstChosen.fire activation.id with
        | mk firstFired answer =>
          cases twinOutcome : secondChosen.fire activation.id with
          | mk secondFired twinAnswer =>
            rw [outcome, twinOutcome] at fires answers
            obtain rfl : answer = twinAnswer := answers
            cases answer with
            | error error =>
              refine ⟨?_, rfl⟩
              exact congrArg (fun scheduler => (⟨state, scheduler, count⟩ : Progress _ Unit)) fires
            | ok changes =>
              have grown (state : List FactChange) :
                  (⟨state, firstFired.withoutJobs, count + 1⟩ : Progress _ Unit) =
                    ⟨state, secondFired.withoutJobs, count + 1⟩ :=
                congrArg (fun scheduler => (⟨state, scheduler, count + 1⟩ : Progress _ Unit)) fires
              dsimp only
              split
              · exact ⟨grown state, rfl⟩
              · exact ⟨grown (state ++ changes), rfl⟩

/-- As long as the jobs of two runs ask for the same, turn by turn, the runs go the same way. -/
theorem loop_congr (turns : Nat) (same : one.withoutJobs = other.withoutJobs)
    (alike : ∀ earlier < turns, AsksAlike (loop collect earlier one).1.scheduler
      (loop collect earlier other).1.scheduler) :
    firings collect turns one = firings collect turns other ∧
      (loop collect turns one).1.withoutJobs = (loop collect turns other).1.withoutJobs ∧
      (loop collect turns one).2 = (loop collect turns other).2 := by
  induction turns generalizing one other with
  | zero => exact ⟨rfl, same, rfl⟩
  | succ turns ih =>
    obtain ⟨fires, after, halts⟩ := turn_congr same (alike 0 (Nat.succ_pos turns))
    have later (earlier : Nat) := alike (earlier + 1)
    unfold firings loop
    unfold loop at later
    rw [fires]
    cases turned : turn collect one with
    | mk next halt =>
      cases twinTurned : turn collect other with
      | mk twin twinHalt =>
        rw [turned, twinTurned] at after halts later
        obtain rfl : halt = twinHalt := halts
        cases halt with
        | some halt => exact ⟨rfl, after, rfl⟩
        | none =>
          have rest := ih after fun earlier less => later earlier (Nat.succ_lt_succ less)
          exact ⟨congrArg _ rest.1, rest.2⟩

end Turns

/-! ## Runs -/

theorem run_eq (idle : scheduler.isRunning = false) (turns : Nat) :
    scheduler.run turns =
      ({ (loop collect turns scheduler.started).1.scheduler with isRunning := false },
        match (loop collect turns scheduler.started).2 with
        | .settled => .finished ⟨(loop collect turns scheduler.started).1.fired,
            (loop collect turns scheduler.started).1.scheduler.failures.length -
              scheduler.failures.length, (loop collect turns scheduler.started).1.state⟩
        | .failed error => .failed error
        | .unsettled => .unsettled) := by
  unfold run runWith started
  rw [if_neg (by rw [idle]; exact Bool.false_ne_true)]
  generalize loop collect turns _ = ended
  obtain ⟨progress, halt⟩ := ended
  cases halt <;> rfl

/-- Whatever jobs return and ask for, what is selected can be fired, and a run that stops has left
nothing to fire.  Two schedulers that are the same without their jobs fire the same activations in
the same order and end with the same tables and collected changes, as long as the jobs that they
call ask for the same; which of these jobs fail only shows in the recorded failures. -/
theorem failures_isolated [Draw.Generator] {policy : Policy} {order : BucketOrder} {host : σ}
    {now : Scheduler σ} (past : Evolves (new policy order host) now) (idle : now.isRunning = false) :
    (∀ activation, now.selectNext.2 = some activation →
      ∃ changes, (now.selectNext.1.fire activation.id).2 = .ok changes) ∧
    (∀ turns, (now.run turns).2 = .unsettled ∨ ∃ summary, (now.run turns).2 = .finished summary ∧
      (now.run turns).1.conflicts.isEmpty = true) ∧
    ∀ {ρ : Type} (twin : Scheduler ρ) (turns : Nat), now.withoutJobs = twin.withoutJobs →
      (∀ earlier < turns, AsksAlike (now.midRun earlier) (twin.midRun earlier)) →
      now.fired turns = twin.fired turns ∧
      (now.run turns).1.withoutJobs = (twin.run turns).1.withoutJobs ∧
      ((now.run turns).2 = .unsettled ∧ (twin.run turns).2 = .unsettled ∨
        ∃ summary failed, (now.run turns).2 = .finished summary ∧
          summary.fired = (now.fired turns).length ∧
          (twin.run turns).2 = .finished { summary with failed }) := by
  have coherent := (past.follows (coherent_new policy order host)).coherent
  have begun : now.started.scheduler.Coherent :=
    coherent.aside now.failures now.handler true now.host
  refine ⟨fun _ => coherent.fire_selected, fun turns => ?_, fun {ρ} twin turns same alike => ?_⟩
  · rw [run_eq idle]
    rcases begun.loop_collect turns with unsettled | ⟨settled, empty⟩
    · exact .inl (by rw [unsettled])
    · exact .inr ⟨_, by rw [settled], empty⟩
  · have twinIdle : twin.isRunning = false :=
      (congrArg Scheduler.isRunning same).symm.trans idle
    have startedSame : now.started.withoutJobs = twin.started.withoutJobs :=
      congrArg (fun scheduler : Scheduler Unit =>
        (⟨[], { scheduler with isRunning := true }, 0⟩ : Progress (List FactChange) Unit)) same
    obtain ⟨fires, after, halts⟩ := loop_congr turns startedSame alike
    obtain ⟨changes, tables, counts⟩ := Progress.mk.inj after
    refine ⟨fires, ?_, ?_⟩
    · rw [run_eq idle, run_eq twinIdle]
      exact congrArg (fun scheduler : Scheduler Unit => { scheduler with isRunning := false }) tables
    · rw [run_eq idle, run_eq twinIdle, ← halts, ← changes, ← counts]
      rcases begun.loop_collect turns with unsettled | ⟨settled, _⟩
      · exact .inl (by simp [unsettled])
      · refine .inr ⟨_, (twin.run turns).1.failures.length - twin.failures.length,
          by rw [settled], ?_, by rw [run_eq twinIdle]; simp [settled]⟩
        exact (fired_loop collect turns now.started).trans (Nat.zero_add _)

/-- Two matches of a rule whose job reports to a rule that is not there, and fails on the first of
them.  Its twin does the same without failing, and keeps no count of failures. -/
theorem failure_isolated_once :
    let asks (activation : Activation) : Agenda :=
      { changes := [⟨.insert, ⟨⟨1⟩, activation.tuple⟩⟩],
        notifications := [⟨⟨9⟩, activation.tuple, .appeared⟩] }
    let failing : Rule Nat := Rule.withJob { name := "watch", query := "edges", lifecycle := .default }
      "appeared" fun activation host =>
        ⟨asks activation, if activation.tuple = [.int 7] then some (.jobFailed "refused") else none, host⟩
    let calm : Rule Unit := Rule.withJob { name := "watch", query := "edges", lifecycle := .default }
      "appeared" fun activation host => ⟨asks activation, none, host⟩
    let now : Scheduler Nat := performAll (new .fixed .lifo 0) [
      .notify ⟨0⟩ [.int 7] .appeared, .notify ⟨0⟩ [.int 8] .appeared, .addRule failing,
      .aside [] (some fun _ count => count + 1) false 0]
    let twin : Scheduler Unit := performAll (new .fixed .lifo ()) [
      .notify ⟨0⟩ [.int 7] .appeared, .notify ⟨0⟩ [.int 8] .appeared, .addRule calm]
    now.isRunning = false ∧ now.withoutJobs = twin.withoutJobs ∧
    (∀ earlier < 3, AsksAlike (now.midRun earlier) (twin.midRun earlier)) ∧
    (now.run 3).2 = .finished ⟨2, 3, (asks ⟨⟨2⟩, ⟨0⟩, [.int 7], "appeared", .appeared⟩).changes ++
      (asks ⟨⟨1⟩, ⟨0⟩, [.int 8], "appeared", .appeared⟩).changes⟩ ∧
    now.fired 3 = twin.fired 3 ∧ (now.run 3).1.withoutJobs = (twin.run 3).1.withoutJobs ∧
    (now.run 3).1.host = 3 := by
  intro asks failing calm now twin
  have past : Evolves (new .fixed .lifo 0) now := evolves_performAll _ _
  have idle : now.isRunning = false := by decide +kernel
  have same : now.withoutJobs = twin.withoutJobs := by
    rfl
  have alike : ∀ earlier < 3, AsksAlike (now.midRun earlier) (twin.midRun earlier) := by
    decide +kernel
  have isolated := (failures_isolated past idle).2.2 twin 3 same alike
  exact ⟨idle, same, alike, by decide +kernel, isolated.1, isolated.2.1, by decide +kernel⟩

end Scheduler
end LiveQuery
