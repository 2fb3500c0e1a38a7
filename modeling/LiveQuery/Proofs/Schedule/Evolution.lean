import LiveQuery.Draw.ChaCha
import LiveQuery.Proofs.Schedule.Runs

/-!
# Schedulers through time

`Scheduler.Evolves` is everything that users, jobs and what is called back in a run can do to a
scheduler, in any order: adding rules, reporting events, choosing, firing and running.  What this
means for users is said by `InOrder` and `evolves_inOrder`.

Each of these keeps the tables coherent and the rules where they are, and every activation that is
new has a number that was never issued before (`Follows`).  An event brings at most one number into
use (`Coherent.follows_moves`); adding a rule, choosing and everything beside the tables bring none.
A firing and a run are made of these, whatever is called back (`Coherent.follows_fire`,
`Coherent.follows_runWith`).

So an activation that has been in a scheduler either is still there, for the same rule and tuple, or
its number is never used again.
-/

namespace LiveQuery.Scheduler

variable {σ : Type} {scheduler first second third : Scheduler σ}

/-! ## What users see -/

/-- The live activations, the index and the conflict set describe the same. -/
structure InOrder (scheduler : Scheduler σ) : Prop where
  /-- There is at most one live activation of a rule for a tuple, and numbers are not shared. -/
  single : scheduler.live.Pairwise fun first second =>
    (first.rule, first.tuple) ≠ (second.rule, second.tuple) ∧ first.id ≠ second.id
  found : ∀ number tuple activation, scheduler.activation? number tuple = some activation ↔
    activation ∈ scheduler.live ∧ activation.rule = number ∧ activation.tuple = tuple
  indexed : ∀ number tuple id, scheduler.index.get? (number, tuple) = some id ↔
    ∃ activation ∈ scheduler.live,
      activation.id = id ∧ activation.rule = number ∧ activation.tuple = tuple
  begun : ∀ activation ∈ scheduler.live, ∃ rule, scheduler.rule? activation.rule = some rule ∧
    activation.state ≠ rule.lifecycle.initial
  fireable : ∀ id, scheduler.conflicts.contains id = true ↔
    ∃ activation ∈ scheduler.live, activation.id = id ∧
      ∃ rule, scheduler.rule? activation.rule = some rule ∧
        rule.lifecycle.isFireable activation.state = true
  filed : ∀ id priority, id ∈ scheduler.conflicts.bucket priority ↔
    ∃ activation ∈ scheduler.live, activation.id = id ∧
      ∃ rule, scheduler.rule? activation.rule = some rule ∧
        rule.lifecycle.isFireable activation.state = true ∧
        scheduler.policy.priority activation rule.priority = priority
  filedOnce : ∀ priority, (scheduler.conflicts.bucket priority).Nodup

/-- What can happen to a scheduler.  What is called back in a run may do to it what anybody else
may. -/
inductive Evolves : Scheduler σ → Scheduler σ → Prop where
  | refl (scheduler : Scheduler σ) : Evolves scheduler scheduler
  | trans {first second third : Scheduler σ} :
      Evolves first second → Evolves second third → Evolves first third
  | addRule (scheduler : Scheduler σ) (rule : Rule σ) : Evolves scheduler (scheduler.addRule rule).1
  | notify {scheduler after : Scheduler σ} {number : RuleId} {tuple : Tuple} {event : EventKind}
      (notified : scheduler.notify number tuple event = .ok after) : Evolves scheduler after
  | selectNext (scheduler : Scheduler σ) : Evolves scheduler scheduler.selectNext.1
  | fire (scheduler : Scheduler σ) (id : ActivationId) : Evolves scheduler (scheduler.fire id).1
  | run (turns : Nat) (scheduler : Scheduler σ) : Evolves scheduler (scheduler.run turns).1
  | runWith {τ : Type} {apply : Applier τ σ}
      (lawful : ∀ state scheduler changes, Evolves scheduler (apply state scheduler changes).2.1)
      (turns : Nat) (state : τ) (scheduler : Scheduler σ) :
      Evolves scheduler (runWith turns apply state scheduler).2.1
  /-- Failures are taken, another handler is set, the surroundings of the jobs change, or the
  scheduler is looked at in the middle of a run. -/
  | aside (scheduler : Scheduler σ) (failures : List JobFailure)
      (handler : Option (JobFailure → σ → σ)) (isRunning : Bool) (host : σ) :
      Evolves scheduler (scheduler.aside failures handler isRunning host)

/-! ## One state -/

/-- An activation is filed under the priority that it has now, if it may fire. -/
theorem priorityOf?_eq_some_iff (coherent : scheduler.Coherent) {id : ActivationId}
    {priority : Int32} : scheduler.conflicts.priorityOf? id = some priority ↔
      ∃ activation ∈ scheduler.live, activation.id = id ∧
        ∃ rule, scheduler.rule? activation.rule = some rule ∧
          rule.lifecycle.isFireable activation.state = true ∧
          scheduler.policy.priority activation rule.priority = priority := by
  constructor
  · intro filed
    obtain ⟨activation, stored⟩ := coherent.filed id priority filed
    obtain ⟨named, _, _, rule, known, _, governed⟩ := coherent.entered id activation stored
    rw [governed] at filed
    split at filed
    next fireable =>
      exact ⟨activation, (mem_live_iff coherent).mpr (named ▸ stored), named, rule, known, fireable,
        Option.some.inj filed⟩
    next => cases filed
  · rintro ⟨activation, member, rfl, rule, known, fireable, rfl⟩
    have stored := (mem_live_iff coherent).mp member
    obtain ⟨_, _, _, governor, governs, _, governed⟩ := coherent.entered _ activation stored
    obtain rfl := Option.some.inj (known.symm.trans governs)
    rw [governed, if_pos fireable]

theorem Coherent.inOrder (coherent : scheduler.Coherent) : scheduler.InOrder where
  single := coherent.pairwise_live
  found _ _ _ := activation?_eq_some_iff coherent
  indexed _ _ _ := index_eq_some_iff coherent
  begun activation member := by
    obtain ⟨_, _, _, rule, known, waits, _⟩ :=
      coherent.entered _ activation ((mem_live_iff coherent).mp member)
    exact ⟨rule, known, waits⟩
  fireable id := by
    have filed := @priorityOf?_eq_some_iff _ _ coherent id
    rw [ConflictSet.contains, Table.contains_iff]
    simp only [show ∀ priority, scheduler.conflicts.filed.get? id = some priority ↔ _ from
      fun _ => filed]
    grind
  filed _ _ := (coherent.conflicts.filed _ _).trans (priorityOf?_eq_some_iff coherent)
  filedOnce := coherent.conflicts.once

/-! ## One step -/

/-- The second scheduler is a later state of the first: rules stay, and activations that are new
have numbers that are new. -/
structure Follows (before after : Scheduler σ) : Prop where
  coherent : after.Coherent
  rules : ∀ number rule, before.rule? number = some rule → after.rule? number = some rule
  policy : after.policy = before.policy
  issued : before.issued ≤ after.issued
  fresh : ∀ id activation, after.activations.get? id = some activation →
    before.activations.get? id = none → before.issued < id.index

theorem Coherent.follows (coherent : scheduler.Coherent) : Follows scheduler scheduler :=
  ⟨coherent, fun _ _ => id, rfl, Nat.le_refl _,
    fun _ _ found absent => by cases found.symm.trans absent⟩

theorem Follows.trans (earlier : Follows first second) (later : Follows second third) :
    Follows first third where
  coherent := later.coherent
  rules number rule := later.rules number rule ∘ earlier.rules number rule
  policy := later.policy.trans earlier.policy
  issued := Nat.le_trans earlier.issued later.issued
  fresh id activation found absent := by
    cases between : second.activations.get? id with
    | none => exact Nat.lt_of_le_of_lt earlier.issued (later.fresh id activation found between)
    | some old => exact earlier.fresh id old between absent

/-- Of the steps that events make, only the start of an activation brings a number into use, and
that number is new. -/
theorem Coherent.follows_moves {after : Scheduler σ} {number : RuleId} {rule : Rule σ} {tuple : Tuple}
    {event : EventKind} {state : Option ActivationState} (coherent : scheduler.Coherent)
    (known : scheduler.rule? number = some rule)
    (moves : scheduler.Moves number rule tuple event after state) : Follows scheduler after := by
  have kept := coherent.moves known moves
  cases moves with
  | nowhere => exact coherent.follows
  | nothing => exact coherent.follows
  | ended =>
    refine ⟨kept, fun _ _ => id, rfl, Nat.le_refl _, fun id activation found absent => ?_⟩
    simp only [Scheduler.drop, Table.get?_erase, absent, ite_self] at found
    cases found
  | moved indexed =>
    refine ⟨kept, fun _ _ => id, rfl, Nat.le_refl _, fun id activation found absent => ?_⟩
    obtain ⟨old, stored, _⟩ := coherent.indexed _ _ indexed
    simp only [Scheduler.place, Table.get?_insert, absent] at found
    split at found
    next same => cases (same ▸ absent).symm.trans stored
    next => cases found
  | started =>
    refine ⟨kept, fun _ _ => id, rfl, Nat.le_succ _, fun id activation found absent => ?_⟩
    simp only [Scheduler.place, Table.get?_insert] at found
    split at found
    next same => exact same ▸ Nat.lt_succ_self _
    next => cases absent.symm.trans found

theorem Coherent.follows_aside (coherent : scheduler.Coherent) (failures : List JobFailure)
    (handler : Option (JobFailure → σ → σ)) (isRunning : Bool) (host : σ) :
    Follows scheduler (scheduler.aside failures handler isRunning host) :=
  ⟨coherent.aside .., fun _ _ => id, rfl, Nat.le_refl _,
    fun _ _ found absent => by cases absent.symm.trans found⟩

theorem Coherent.follows_addRule (coherent : scheduler.Coherent) (rule : Rule σ) :
    Follows scheduler (scheduler.addRule rule).1 :=
  ⟨coherent.addRule rule, fun _ _ known => rule?_addRule known rule, rfl, Nat.le_refl _,
    fun _ _ found absent => by cases absent.symm.trans found⟩

theorem Coherent.follows_selectNext (coherent : scheduler.Coherent) :
    Follows scheduler scheduler.selectNext.1 :=
  ⟨coherent.selectNext, fun _ _ => id, rfl, Nat.le_refl _,
    fun _ _ found absent => by cases absent.symm.trans found⟩

theorem Follows.moves (follows : Follows first second) {number : RuleId} {rule : Rule σ}
    (known : second.rule? number = some rule) (tuple : Tuple) (event : EventKind) :
    Follows first (second.move number rule tuple event) :=
  follows.trans (follows.coherent.follows_moves known (second.moves number rule tuple event))

theorem Coherent.follows_fire (coherent : scheduler.Coherent) (id : ActivationId) :
    Follows scheduler (scheduler.fire id).1 :=
  fire_induction (P := Follows scheduler)
    (fun _ failures handler isRunning host follows =>
      follows.trans (follows.coherent.follows_aside failures handler isRunning host))
    (fun _ _ _ tuple event follows known => follows.moves known tuple event) id coherent.follows

/-- A run only leads to later states if what is called back does. -/
theorem Coherent.follows_runWith {τ : Type} {apply : Applier τ σ} (coherent : scheduler.Coherent)
    (lawful : ∀ state (before : Scheduler σ) changes, before.Coherent →
      Follows before (apply state before changes).2.1) (turns : Nat) (state : τ) :
    Follows scheduler (runWith turns apply state scheduler).2.1 :=
  (runWith_induction (P := fun _ => Follows scheduler) (Q := fun _ _ => True)
    (fun _ _ follows => follows.trans follows.coherent.follows_selectNext)
    (fun _ _ activation follows _ =>
      (follows.trans follows.coherent.follows_selectNext).trans
        (follows.coherent.selectNext.follows_fire activation.id))
    (fun state before changes follows => follows.trans (lawful state before changes follows.coherent))
    (fun _ _ _ _ => trivial) turns
    (fun _ _ isRunning follows => follows.trans (follows.coherent.follows_aside _ _ isRunning _))
    (fun _ _ _ => trivial) coherent.follows).1

/-! ## All of time -/

theorem Evolves.follows {before after : Scheduler σ} (evolves : Evolves before after)
    (coherent : before.Coherent) : Follows before after := by
  induction evolves with
  | refl => exact coherent.follows
  | trans _ _ earlier later =>
    have follows := earlier coherent
    exact follows.trans (later follows.coherent)
  | addRule _ rule => exact coherent.follows_addRule rule
  | notify notified =>
    exact notify_induction (P := Follows _)
      (fun _ _ _ tuple event follows known => follows.moves known tuple event)
      coherent.follows notified
  | selectNext => exact coherent.follows_selectNext
  | fire _ id => exact coherent.follows_fire id
  | run turns scheduler =>
    exact coherent.follows_runWith (fun _ _ _ before => before.follows) turns []
  | runWith lawful turns state scheduler ih =>
    exact coherent.follows_runWith (fun state before changes => ih state before changes) turns state
  | aside _ failures handler isRunning host =>
    exact coherent.follows_aside failures handler isRunning host

/-- Whatever happens to a scheduler, its tables are in order under the policy that it started with,
and a number whose activation is gone is never seen again. -/
theorem evolves_inOrder [Draw.Generator] {policy : Policy} {order : BucketOrder} {host : σ}
    {earlier now later : Scheduler σ} (start : Evolves (new policy order host) earlier)
    (past : Evolves earlier now) (future : Evolves now later) :
    now.policy = policy ∧ now.InOrder ∧
      ∀ gone ∈ earlier.live, (∀ present ∈ now.live, present.id ≠ gone.id) →
        ∀ activation ∈ later.live, activation.id ≠ gone.id := by
  have begun := start.follows (coherent_new policy order host)
  have reached := past.follows begun.coherent
  have follows := future.follows reached.coherent
  refine ⟨reached.policy.trans begun.policy, reached.coherent.inOrder, ?_⟩
  rintro gone goneMember absent activation member same
  rw [mem_live_iff follows.coherent] at member
  rw [mem_live_iff begun.coherent] at goneMember
  have issued := (begun.coherent.entered _ gone goneMember).issued
  have free : now.activations.get? activation.id = none := by
    rw [Option.eq_none_iff_forall_ne_some]
    intro present stored
    have named := (reached.coherent.entered _ present stored).named
    refine absent present ((mem_live_iff reached.coherent).mpr (named ▸ stored)) ?_
    exact named.trans same
  have new := follows.fresh _ activation member free
  have order := reached.issued
  rw [same] at new
  omega

/-- A match that comes back gets a new number. -/
theorem renumbered_on_return :
    let rule : Rule Unit := { name := "watch", query := "edges", lifecycle := .default }
    let tuple : Tuple := [.int 7]
    let earlier := ((new .fixed .fifo ()).addRule rule).1.move ⟨0⟩ rule tuple .appeared
    let now := earlier.move ⟨0⟩ rule tuple .disappeared
    let later := now.move ⟨0⟩ rule tuple .appeared
    earlier.live.map Activation.id = [⟨1⟩] ∧ now.live = [] ∧ later.live.map Activation.id = [⟨2⟩] ∧
      now.InOrder ∧ ∀ activation ∈ later.live, activation.id ≠ ⟨1⟩ := by
  intro rule tuple earlier now later
  have notified (scheduler : Scheduler Unit) (known : scheduler.rule? ⟨0⟩ = some rule)
      (event : EventKind) : Evolves scheduler (scheduler.move ⟨0⟩ rule tuple event) :=
    .notify (by rw [notify, known])
  have start : Evolves (new .fixed .fifo ()) earlier := .trans (.addRule _ rule) (notified _ rfl _)
  have past : Evolves earlier now := notified _ (by simp [earlier, rule?, addRule, new]) _
  have future : Evolves now later := notified _ (by simp [now, earlier, rule?, addRule, new]) _
  have before : earlier.live = [⟨⟨1⟩, ⟨0⟩, tuple, "appeared", .appeared⟩] := by decide +kernel
  have between : now.live = [] := by decide +kernel
  have known := evolves_inOrder start past future
  refine ⟨by rw [before]; rfl, between, by decide +kernel, known.2.1, ?_⟩
  refine known.2.2 ⟨⟨1⟩, ⟨0⟩, tuple, "appeared", .appeared⟩ ?_ ?_
  · rw [before]
    exact List.mem_singleton_self _
  · rw [between]
    exact fun _ member => by cases member

end LiveQuery.Scheduler
