import LiveQuery.Proofs.Schedule.Coherent

/-!
# Induction over firing and runs

Firing an activation changes the tables only by events: the firing event of the activation itself
and the notifications that its job asks for.  Besides, it records failures and replaces the host
(`fire_induction`).  A run changes a scheduler only by choosing, firing and whatever is done with
the changes that jobs ask for (`runWith_induction`).  What each of these preserves is preserved by a
whole run, however many turns it takes and whether it ends, is stopped by an error or uses up its
turns; if it ends by itself, nothing was left to choose in its last turn.

A run is told what to do with changes by what is called back.  One that keeps a record of more than
another goes the same way (`loop_map`, `runWith_map`).
-/

namespace LiveQuery.Scheduler

variable {σ τ : Type} {scheduler : Scheduler σ}

/-! ## Firing -/

theorem record_eq_aside (scheduler : Scheduler σ) (failure : JobFailure) :
    ∃ failures host, scheduler.record failure =
      scheduler.aside failures scheduler.handler scheduler.isRunning host :=
  ⟨_, _, rfl⟩

theorem work_eq_aside (scheduler : Scheduler σ) (rule : Rule σ) (activation : Activation) :
    ∃ failures host, (scheduler.work rule activation).1 =
      scheduler.aside failures scheduler.handler scheduler.isRunning host := by
  unfold work
  dsimp only
  split <;> exact ⟨_, _, rfl⟩

section Fire

variable {P : Scheduler σ → Prop}
  (besides : ∀ scheduler failures handler isRunning host, P scheduler →
    P (scheduler.aside failures handler isRunning host))
  (moves : ∀ scheduler number rule tuple event, P scheduler →
    scheduler.rule? number = some rule → P (scheduler.move number rule tuple event))

include moves in
theorem notify_induction {after : Scheduler σ} {number : RuleId} {tuple : Tuple} {event : EventKind}
    (before : P scheduler) (notified : scheduler.notify number tuple event = .ok after) :
    P after := by
  unfold notify at notified
  split at notified
  next rule known =>
    cases notified
    exact moves _ _ _ _ _ before known
  next => cases notified

include besides moves in
theorem passOn_induction {activation : Activation} (notifications : List Notification)
    (before : P scheduler) : P (scheduler.passOn activation notifications) := by
  unfold passOn
  induction notifications generalizing scheduler with
  | nil => exact before
  | cons first rest ih =>
    rw [List.foldl_cons]
    split
    next notified accepted => exact ih (notify_induction moves before accepted)
    next error refused =>
      obtain ⟨failures, host, recorded⟩ := record_eq_aside scheduler ⟨activation, error, none⟩
      rw [recorded]
      exact ih (besides _ _ _ _ _ before)

include besides moves in
/-- What is preserved beside the tables and by events is preserved when an activation fires. -/
theorem fire_induction (id : ActivationId) (before : P scheduler) : P (scheduler.fire id).1 := by
  unfold fire
  split
  · exact before
  next activation _ =>
    split
    · exact before
    next rule known =>
      obtain ⟨failures, host, worked⟩ := work_eq_aside scheduler rule activation
      have worked : P (scheduler.work rule activation).1 :=
        worked ▸ besides _ _ _ _ _ before
      dsimp only
      split
      · exact worked
      next completed completion =>
        refine passOn_induction besides moves _ ?_
        unfold complete at completion
        split at completion
        · cases completion
          exact worked
        · exact notify_induction moves worked completion

end Fire

/-! ## Runs -/

section Run

variable {apply : Applier τ σ} {P : τ → Scheduler σ → Prop} {Q : τ → Scheduler σ → Prop}
  (choose : ∀ state scheduler, P state scheduler → P state scheduler.selectNext.1)
  (fire : ∀ state scheduler activation, P state scheduler →
    scheduler.selectNext.2 = some activation → P state (scheduler.selectNext.1.fire activation.id).1)
  (applies : ∀ state scheduler changes, P state scheduler →
    P (apply state scheduler changes).1 (apply state scheduler changes).2.1)
  (settles : ∀ state scheduler, P state scheduler → scheduler.selectNext.2 = none →
    Q state scheduler.selectNext.1)

include choose fire applies settles in
/-- One turn, and what is known when nothing was left to fire. -/
theorem turn_induction {progress : Progress τ σ} (before : P progress.state progress.scheduler) :
    P (turn apply progress).1.state (turn apply progress).1.scheduler ∧
      ((turn apply progress).2 = some .settled →
        Q (turn apply progress).1.state (turn apply progress).1.scheduler) := by
  have chosen := choose _ _ before
  have fired := fire progress.state progress.scheduler
  have settled := settles progress.state progress.scheduler before
  unfold turn
  split
  next scheduler selection =>
    rw [selection] at chosen settled
    exact ⟨chosen, fun _ => settled rfl⟩
  next scheduler activation selection =>
    rw [selection] at fired
    have fired := fired activation before rfl
    dsimp only at fired
    split
    next after error outcome =>
      rw [outcome] at fired
      exact ⟨fired, nofun⟩
    next after changes outcome =>
      rw [outcome] at fired
      have applied := applies progress.state after changes fired
      split
      · exact ⟨fired, nofun⟩
      · dsimp only
        split <;> exact ⟨applied, nofun⟩

include choose fire applies settles in
theorem loop_induction (turns : Nat) {progress : Progress τ σ}
    (before : P progress.state progress.scheduler) :
    P (loop apply turns progress).1.state (loop apply turns progress).1.scheduler ∧
      ((loop apply turns progress).2 = .settled →
        Q (loop apply turns progress).1.state (loop apply turns progress).1.scheduler) := by
  induction turns generalizing progress with
  | zero => exact ⟨before, nofun⟩
  | succ turns ih =>
    have turned := turn_induction choose fire applies settles before
    unfold loop
    split
    next after halt outcome =>
      rw [outcome] at turned
      exact ⟨turned.1, fun settled => turned.2 (congrArg some settled)⟩
    next after outcome =>
      rw [outcome] at turned
      exact ih turned.1

include choose fire applies settles in
/-- What is preserved by choosing, by firing and by what is done with the changes of jobs is
preserved by a run, and a run that finishes ends where nothing was left to choose. -/
theorem runWith_induction (turns : Nat) {state : τ}
    (besides : ∀ state scheduler isRunning, P state scheduler →
      P state (scheduler.aside scheduler.failures scheduler.handler isRunning scheduler.host))
    (rests : ∀ state scheduler, Q state scheduler →
      Q state (scheduler.aside scheduler.failures scheduler.handler false scheduler.host))
    (before : P state scheduler) :
    P (runWith turns apply state scheduler).1 (runWith turns apply state scheduler).2.1 ∧
      ∀ summary, (runWith turns apply state scheduler).2.2 = .finished summary →
        Q (runWith turns apply state scheduler).1 (runWith turns apply state scheduler).2.1 := by
  unfold runWith
  split
  · exact ⟨before, nofun⟩
  next =>
    let started : Progress τ σ := ⟨state, { scheduler with isRunning := true }, 0⟩
    have begun : P started.state started.scheduler := besides _ _ true before
    have looped := loop_induction choose fire applies settles turns begun
    dsimp only
    refine ⟨besides _ _ false looped.1, fun summary finished => ?_⟩
    split at finished
    next settled => exact rests _ _ (looped.2 settled)
    next => cases finished
    next => cases finished

end Run

/-! ## Two runs -/

/-- A run whose callback keeps a record of more than another one's goes the same way. -/
theorem loop_map {ρ : Type} {rich : Applier ρ σ} {apply : Applier τ σ} (forget : ρ → τ)
    (same : ∀ state scheduler changes, apply (forget state) scheduler changes =
      (forget (rich state scheduler changes).1, (rich state scheduler changes).2))
    (turns : Nat) (progress : Progress ρ σ) :
    loop apply turns ⟨forget progress.state, progress.scheduler, progress.fired⟩ =
      (⟨forget (loop rich turns progress).1.state, (loop rich turns progress).1.scheduler,
        (loop rich turns progress).1.fired⟩, (loop rich turns progress).2) := by
  induction turns generalizing progress with
  | zero => rfl
  | succ turns ih =>
    have turned : turn apply ⟨forget progress.state, progress.scheduler, progress.fired⟩ =
        (⟨forget (turn rich progress).1.state, (turn rich progress).1.scheduler,
          (turn rich progress).1.fired⟩, (turn rich progress).2) := by
      unfold turn
      dsimp only
      split
      · rfl
      · split
        · rfl
        · split
          · rfl
          next after changes _ _ =>
            rw [same]
            obtain ⟨state, applied, _ | _⟩ := rich progress.state after changes <;> rfl
    unfold loop
    rw [turned]
    cases outcome : turn rich progress with
    | mk after halt =>
      cases halt with
      | some halt => rfl
      | none => exact ih after

theorem runWith_map {ρ : Type} {rich : Applier ρ σ} {apply : Applier τ σ} (forget : ρ → τ)
    (same : ∀ state scheduler changes, apply (forget state) scheduler changes =
      (forget (rich state scheduler changes).1, (rich state scheduler changes).2))
    (turns : Nat) (state : ρ) (scheduler : Scheduler σ) :
    runWith turns apply (forget state) scheduler =
      (forget (runWith turns rich state scheduler).1, (runWith turns rich state scheduler).2) := by
  unfold runWith
  split
  · rfl
  · have looped := loop_map forget same turns ⟨state, { scheduler with isRunning := true }, 0⟩
    dsimp only at looped ⊢
    rw [looped]

end LiveQuery.Scheduler
