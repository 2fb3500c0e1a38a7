import LiveQuery.Proofs.Schedule.Evolution

/-!
# Schedulers deed by deed

Whatever happens to a scheduler is made of single deeds: a rule is added, an event is reported, an
activation is selected, or something beside the tables changes.  `evolves_iff` says that a state can
be reached at all exactly if it can be reached by deeds, which gives statements about the whole past
of a scheduler a list to go by.
-/

namespace LiveQuery

/-- A single step in the life of a scheduler. -/
inductive Deed (σ : Type) where
  | addRule (rule : Rule σ)
  | notify (number : RuleId) (tuple : Tuple) (event : EventKind)
  | selectNext
  /-- Failures, handler, run flag or host change. -/
  | aside (failures : List JobFailure) (handler : Option (JobFailure → σ → σ)) (isRunning : Bool)
      (host : σ)

namespace Scheduler

variable {σ : Type} {before after : Scheduler σ}

/-- The scheduler after a deed.  A notification for a rule that is not there changes nothing. -/
def perform (scheduler : Scheduler σ) : Deed σ → Scheduler σ
  | .addRule rule => (scheduler.addRule rule).1
  | .notify number tuple event =>
    match scheduler.rule? number with
    | some rule => scheduler.move number rule tuple event
    | none => scheduler
  | .selectNext => scheduler.selectNext.1
  | .aside failures handler isRunning host => scheduler.aside failures handler isRunning host

/-- The scheduler after some deeds, of which the latest is listed first. -/
def performAll (scheduler : Scheduler σ) (deeds : List (Deed σ)) : Scheduler σ :=
  deeds.foldr (fun deed before => before.perform deed) scheduler

theorem evolves_perform (scheduler : Scheduler σ) (deed : Deed σ) :
    Evolves scheduler (scheduler.perform deed) := by
  cases deed with
  | addRule rule => exact .addRule scheduler rule
  | notify number tuple event =>
    unfold perform
    dsimp only
    split
    next rule known => exact .notify (by rw [notify, known])
    next => exact .refl scheduler
  | selectNext => exact .selectNext scheduler
  | aside failures handler isRunning host => exact .aside scheduler failures handler isRunning host

@[simp] theorem rules_perform_notify (scheduler : Scheduler σ) (number : RuleId) (tuple : Tuple)
    (event : EventKind) : (scheduler.perform (.notify number tuple event)).rules = scheduler.rules := by
  unfold perform
  dsimp only
  split
  · exact rules_move ..
  · rfl

theorem evolves_performAll (scheduler : Scheduler σ) (deeds : List (Deed σ)) :
    Evolves scheduler (scheduler.performAll deeds) := by
  induction deeds with
  | nil => exact .refl scheduler
  | cons deed earlier ih => exact .trans ih (evolves_perform _ deed)

/-! ## Everything is made of deeds -/

/-- There are deeds that lead from one scheduler to the other. -/
def Reaches (before after : Scheduler σ) : Prop := ∃ deeds, before.performAll deeds = after

theorem Reaches.refl (scheduler : Scheduler σ) : Reaches scheduler scheduler := ⟨[], rfl⟩

theorem Reaches.perform (reaches : Reaches before after) (deed : Deed σ) :
    Reaches before (after.perform deed) := by
  obtain ⟨deeds, rfl⟩ := reaches
  exact ⟨deed :: deeds, rfl⟩

theorem Reaches.trans {later : Scheduler σ} (first : Reaches before after)
    (second : Reaches after later) : Reaches before later := by
  obtain ⟨earlier, rfl⟩ := first
  obtain ⟨deeds, rfl⟩ := second
  exact ⟨deeds ++ earlier, List.foldr_append⟩

theorem Reaches.aside (reaches : Reaches before after) (failures : List JobFailure)
    (handler : Option (JobFailure → σ → σ)) (isRunning : Bool) (host : σ) :
    Reaches before (after.aside failures handler isRunning host) :=
  reaches.perform (.aside failures handler isRunning host)

theorem Reaches.move (reaches : Reaches before after) {number : RuleId} {rule : Rule σ}
    (known : after.rule? number = some rule) (tuple : Tuple) (event : EventKind) :
    Reaches before (after.move number rule tuple event) := by
  have performed : after.perform (.notify number tuple event) =
      after.move number rule tuple event := by
    rw [Scheduler.perform, known]
  exact performed ▸ reaches.perform (.notify number tuple event)

theorem Reaches.fire (reaches : Reaches before after) (id : ActivationId) :
    Reaches before (after.fire id).1 :=
  fire_induction (P := Reaches before)
    (fun _ failures handler isRunning host reached => reached.aside failures handler isRunning host)
    (fun _ _ _ tuple event reached known => reached.move known tuple event) id reaches

/-- The turns of a run select and fire, and in between what is called back does its deeds. -/
theorem reaches_runWith {τ : Type} {apply : Applier τ σ}
    (lawful : ∀ state scheduler changes, Reaches scheduler (apply state scheduler changes).2.1)
    (turns : Nat) (state : τ) (scheduler : Scheduler σ) :
    Reaches scheduler (runWith turns apply state scheduler).2.1 :=
  (runWith_induction (P := fun _ => Reaches scheduler) (Q := fun _ _ => True)
    (fun _ _ reached => reached.perform .selectNext)
    (fun _ _ activation reached _ => (reached.perform .selectNext).fire activation.id)
    (fun state before changes reached => reached.trans (lawful state before changes))
    (fun _ _ _ _ => trivial) turns
    (fun _ _ isRunning reached => reached.aside _ _ isRunning _)
    (fun _ _ _ => trivial) (Reaches.refl scheduler)).1

/-- What can happen to a scheduler at all can happen deed by deed. -/
theorem evolves_iff : Evolves before after ↔ Reaches before after := by
  constructor
  · intro evolves
    induction evolves with
    | refl scheduler => exact .refl scheduler
    | trans _ _ first second => exact first.trans second
    | addRule scheduler rule => exact (Reaches.refl scheduler).perform (.addRule rule)
    | @notify scheduler _ _ _ _ notified =>
      exact notify_induction (P := Reaches scheduler)
        (fun _ _ _ tuple event reached known => reached.move known tuple event)
        (Reaches.refl scheduler) notified
    | selectNext scheduler => exact (Reaches.refl scheduler).perform .selectNext
    | fire scheduler id => exact (Reaches.refl scheduler).fire id
    | run turns scheduler =>
      exact reaches_runWith (fun _ scheduler _ => Reaches.refl scheduler) turns [] scheduler
    | runWith _ turns state scheduler ih => exact reaches_runWith ih turns state scheduler
    | aside scheduler failures handler isRunning host =>
      exact (Reaches.refl scheduler).aside failures handler isRunning host
  · rintro ⟨deeds, rfl⟩
    exact evolves_performAll before deeds

end Scheduler
end LiveQuery
