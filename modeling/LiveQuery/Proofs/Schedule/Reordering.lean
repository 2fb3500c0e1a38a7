import Mathlib.Data.List.Nodup
import Mathlib.Logic.Equiv.Basic
import LiveQuery.Proofs.Schedule.States

/-!
# Events in another order

The events of one change are about different matches, and they are reported in no particular order.
Reporting them in another order leads to the same scheduler, up to the numbers of the activations
that are new and the order in which activations are listed and filed.

`Scheduler.Renumbered` compares two schedulers up to a renaming of the numbers.  Two events on
different rules or tuples can be exchanged (`Coherent.exists_exchange`): each decides about its own
activation only, and if both start one, their numbers are swapped.  Further events keep what has
been renamed (`Renumbered.move`), so a renaming is carried along from each exchange to the end of
the list (`Coherent.sameOutcome_perm`).
-/

namespace LiveQuery

/-- The policy does not look at the numbers of activations. -/
def Policy.IgnoresNumbers (policy : Policy) : Prop :=
  ∀ activation id rulePriority,
    policy.priority { activation with id } rulePriority = policy.priority activation rulePriority

theorem Policy.ignoresNumbers_invertedDisappearance :
    Policy.invertedDisappearance.IgnoresNumbers := fun _ _ _ => rfl

/-- The activation under another number. -/
def Activation.renumber (rename : Equiv.Perm ActivationId) (activation : Activation) : Activation :=
  { activation with id := rename activation.id }

/-! ## One activation -/

namespace Lifecycle

variable {lifecycle : Lifecycle} {number : RuleId} {tuple : Tuple} {event : EventKind}
  {present : Option Activation}

/-- Renaming before an event or after it makes no difference. -/
theorem renumber_proceed (rename : Equiv.Perm ActivationId) (fresh : ActivationId) :
    (lifecycle.proceed number tuple event fresh present).map (Activation.renumber rename) =
      lifecycle.proceed number tuple event (rename fresh)
        (present.map (Activation.renumber rename)) := by
  have state : (present.map (Activation.renumber rename)).map Activation.state =
      present.map Activation.state := by cases present <;> rfl
  have id : ((present.map (Activation.renumber rename)).map Activation.id).getD (rename fresh) =
      rename ((present.map Activation.id).getD fresh) := by cases present <;> rfl
  unfold proceed
  rw [state, id]
  cases lifecycle.next? ((present.map Activation.state).getD lifecycle.initial) event with
  | none => rfl
  | some next => exact apply_ite (Option.map (Activation.renumber rename)) ..

/-- Whether the event starts an activation where there was none. -/
def starts (lifecycle : Lifecycle) (event : EventKind) (present : Option Activation) : Bool :=
  present.isNone && (lifecycle.next? lifecycle.initial event).any fun next =>
    !lifecycle.isTerminal next

/-- The fresh number only matters to an activation that is started. -/
theorem proceed_eq_of_not_starts (old : lifecycle.starts event present = false)
    (fresh other : ActivationId) : lifecycle.proceed number tuple event fresh present =
      lifecycle.proceed number tuple event other present := by
  cases present with
  | some activation => rfl
  | none =>
    unfold proceed
    cases leads : lifecycle.next? lifecycle.initial event with
    | none => simp [leads]
    | some next =>
      have terminal : lifecycle.isTerminal next = true := by simpa [starts, leads] using old
      simp [leads, terminal]

/-- A renaming moves the fresh number along, if it leaves the activation that there was. -/
theorem renumber_proceed_of_fixed {rename : Equiv.Perm ActivationId} {fresh other : ActivationId}
    (fixed : ∀ activation, present = some activation → rename activation.id = activation.id)
    (moves : lifecycle.starts event present = true → rename fresh = other) :
    lifecycle.proceed number tuple event other present =
      (lifecycle.proceed number tuple event fresh present).map (Activation.renumber rename) := by
  have kept : present.map (Activation.renumber rename) = present := by
    cases present with
    | none => rfl
    | some activation => simp [Activation.renumber, fixed activation rfl]
  rw [renumber_proceed, kept]
  cases starts : lifecycle.starts event present with
  | true => rw [moves starts]
  | false => exact proceed_eq_of_not_starts starts ..

end Lifecycle

namespace Scheduler

variable {σ : Type} {scheduler first second third : Scheduler σ} {rule otherRule : Rule σ}
  {number other : RuleId} {tuple otherTuple : Tuple} {event otherEvent : EventKind}
  {rename again : Equiv.Perm ActivationId}

/-! ## What is left apart from activations -/

/-- The scheduler without any activations. -/
def cleared (scheduler : Scheduler σ) : Scheduler σ :=
  { scheduler with
    activations := .empty
    index := .empty
    conflicts := scheduler.conflicts.clear }

theorem clear_remove (set : ConflictSet) (id : ActivationId) : (set.remove id).clear = set.clear := by
  unfold ConflictSet.remove
  split <;> rfl

theorem clear_insert (set : ConflictSet) (id : ActivationId) (priority : Int32) :
    (set.insert id priority).clear = set.clear := by
  unfold ConflictSet.insert
  split
  · rfl
  · exact clear_remove set id

theorem cleared_place (scheduler : Scheduler σ) (rule : Rule σ) (activation : Activation) :
    (scheduler.place rule activation).cleared = scheduler.cleared := by
  unfold place cleared
  dsimp only
  split
  · rw [clear_insert]
  · rw [clear_remove]

/-- Apart from activations, an event only changes how many there have been. -/
theorem cleared_move (scheduler : Scheduler σ) (number : RuleId) (rule : Rule σ) (tuple : Tuple)
    (event : EventKind) : (scheduler.move number rule tuple event).cleared =
      { scheduler.cleared with issued := (scheduler.move number rule tuple event).issued } := by
  have moves := scheduler.moves number rule tuple event
  generalize scheduler.move number rule tuple event = after,
    rule.lifecycle.advance (scheduler.stateOf? number tuple) event = state at moves ⊢
  cases moves with
  | nowhere => rfl
  | nothing => rfl
  | ended => exact congrArg (fun conflicts => { scheduler.cleared with conflicts }) (clear_remove ..)
  | moved => exact cleared_place ..
  | started => exact cleared_place ..

/-- An event brings a number into use exactly if it starts an activation. -/
theorem Coherent.issued_move (coherent : scheduler.Coherent) (number : RuleId) (rule : Rule σ)
    (tuple : Tuple) (event : EventKind) :
    (scheduler.move number rule tuple event).issued =
      scheduler.issued + (rule.lifecycle.starts event (scheduler.activation? number tuple)).toNat := by
  have known := coherent.index_eq number tuple
  have state (absent : scheduler.activation? number tuple = none) :
      (scheduler.stateOf? number tuple).getD rule.lifecycle.initial = rule.lifecycle.initial := by
    simp [stateOf?, absent]
  unfold Lifecycle.starts
  cases leads : rule.lifecycle.next?
      ((scheduler.stateOf? number tuple).getD rule.lifecycle.initial) event with
  | none =>
    rw [move_eq_self leads]
    cases present : scheduler.activation? number tuple with
    | none => simp [state present ▸ leads]
    | some activation => simp
  | some next =>
    rw [move_eq_of_leads leads, known]
    cases present : scheduler.activation? number tuple with
    | none =>
      simp only [state present ▸ leads, Option.map_none, Option.isNone_none, Option.any_some,
        Bool.true_and]
      cases rule.lifecycle.isTerminal next <;> rfl
    | some activation =>
      dsimp only [Option.map_some]
      split <;> rfl

theorem Coherent.issued_le_move (coherent : scheduler.Coherent) :
    scheduler.issued ≤ (scheduler.move number rule tuple event).issued := by
  rw [coherent.issued_move]
  exact Nat.le_add_right ..

/-! ## Renumbered schedulers -/

/-- The second scheduler is the first one with other numbers of activations, which may also be
listed and filed in another order.  Numbers that are still to come are not renamed. -/
structure Renumbered (rename : Equiv.Perm ActivationId) (first second : Scheduler σ) : Prop where
  cleared : second.cleared = first.cleared
  found : ∀ number tuple, second.activation? number tuple =
    (first.activation? number tuple).map (Activation.renumber rename)
  later : ∀ id : ActivationId, first.issued < id.index → rename id = id

namespace Renumbered

theorem refl (scheduler : Scheduler σ) : Renumbered (Equiv.refl _) scheduler scheduler where
  cleared := rfl
  found _ _ := Option.map_id'.symm
  later _ _ := rfl

theorem issued (renumbered : Renumbered rename first second) : second.issued = first.issued := by
  show second.cleared.issued = first.cleared.issued
  rw [renumbered.cleared]

theorem trans (one : Renumbered rename first second) (next : Renumbered again second third) :
    Renumbered (rename.trans again) first third where
  cleared := next.cleared.trans one.cleared
  found number tuple := by
    rw [next.found, one.found, Option.map_map]
    rfl
  later id new := by
    rw [Equiv.trans_apply, one.later id new]
    exact next.later id (one.issued ▸ new)

theorem rule? (renumbered : Renumbered rename first second) (number : RuleId) :
    second.rule? number = first.rule? number := by
  show second.cleared.rule? number = first.cleared.rule? number
  rw [renumbered.cleared]

theorem move (renumbered : Renumbered rename first second) (firstCoherent : first.Coherent)
    (secondCoherent : second.Coherent) :
    Renumbered rename (first.move number rule tuple event)
      (second.move number rule tuple event) := by
  have fresh : rename first.fresh.2 = second.fresh.2 := by
    rw [renumbered.later first.fresh.2 (Nat.lt_succ_self _), Scheduler.fresh, Scheduler.fresh,
      renumbered.issued]
  have starts : rule.lifecycle.starts event (second.activation? number tuple) =
      rule.lifecycle.starts event (first.activation? number tuple) := by
    unfold Lifecycle.starts
    rw [renumbered.found, Option.isNone_map]
  refine ⟨?_, fun other otherTuple => ?_, fun id new => ?_⟩
  · rw [cleared_move, cleared_move, renumbered.cleared, secondCoherent.issued_move,
      firstCoherent.issued_move, renumbered.issued, starts]
  · rw [secondCoherent.activation?_move, firstCoherent.activation?_move, renumbered.found,
      renumbered.found, ← fresh, ← Lifecycle.renumber_proceed]
    exact (apply_ite (Option.map (Activation.renumber rename)) ..).symm
  · exact renumbered.later id (Nat.lt_of_le_of_lt firstCoherent.issued_le_move new)

end Renumbered

/-! ## Two events -/

theorem Coherent.id_le_issued (coherent : scheduler.Coherent) {activation : Activation}
    (found : scheduler.activation? number tuple = some activation) :
    activation.id.index ≤ scheduler.issued := by
  obtain ⟨live, -, -⟩ := (activation?_eq_some_iff coherent).mp found
  exact (coherent.entered _ activation ((mem_live_iff coherent).mp live)).issued

/-- Swaps the next two numbers if both of them will be used. -/
def exchange (one two : Bool) (issued : Nat) : Equiv.Perm ActivationId :=
  if one && two then Equiv.swap ⟨issued + 1⟩ ⟨issued + 2⟩ else Equiv.refl _

section Exchange

variable {one two : Bool} {issued : Nat} {id : ActivationId}

theorem exchange_old (old : id.index ≤ issued) : exchange one two issued id = id := by
  unfold exchange
  split
  · refine Equiv.swap_apply_of_ne_of_ne ?_ ?_ <;> rintro rfl <;> dsimp only at old <;> omega
  · rfl

theorem exchange_new (new : issued + one.toNat + two.toNat < id.index) :
    exchange one two issued id = id := by
  unfold exchange
  split
  next both =>
    obtain ⟨rfl, rfl⟩ := Bool.and_eq_true_iff.mp both
    dsimp only [Bool.toNat_true] at new
    refine Equiv.swap_apply_of_ne_of_ne ?_ ?_ <;> rintro rfl <;> dsimp only at new <;> omega
  · rfl

theorem exchange_first (two : Bool) (issued : Nat) :
    exchange true two issued ⟨issued + 1⟩ = ⟨issued + two.toNat + 1⟩ := by
  cases two with
  | false => rfl
  | true => exact Equiv.swap_apply_left ..

theorem exchange_second (one : Bool) (issued : Nat) :
    exchange one true issued ⟨issued + one.toNat + 1⟩ = ⟨issued + 1⟩ := by
  cases one with
  | false => rfl
  | true => exact Equiv.swap_apply_right ..

end Exchange

/-- Two events on different rules or tuples can be exchanged.  If both start an activation, these
swap their numbers. -/
theorem Coherent.exists_exchange (coherent : scheduler.Coherent)
    (known : scheduler.rule? number = some rule) (otherKnown : scheduler.rule? other = some otherRule)
    (apart : ¬(number = other ∧ tuple = otherTuple)) (event otherEvent : EventKind) :
    ∃ rename, (∀ id : ActivationId, id.index ≤ scheduler.issued → rename id = id) ∧
      Renumbered rename
        ((scheduler.move number rule tuple event).move other otherRule otherTuple otherEvent)
        ((scheduler.move other otherRule otherTuple otherEvent).move number rule tuple event) := by
  have coherentOne := coherent.move known tuple event
  have coherentOther := coherent.move otherKnown otherTuple otherEvent
  have apart' : ¬(other = number ∧ otherTuple = tuple) :=
    fun same => apart ⟨same.1.symm, same.2.symm⟩
  -- neither event looks at the activation of the other
  have stays := coherent.activation?_move number rule tuple event other otherTuple
  have otherStays := coherent.activation?_move other otherRule otherTuple otherEvent number tuple
  rw [if_neg apart'] at stays
  rw [if_neg apart] at otherStays
  have issued := coherent.issued_move number rule tuple event
  have otherIssued := coherent.issued_move other otherRule otherTuple otherEvent
  have bothIssued := coherentOne.issued_move other otherRule otherTuple otherEvent
  have bothIssued' := coherentOther.issued_move number rule tuple event
  rw [stays, issued] at bothIssued
  rw [otherStays, otherIssued] at bothIssued'
  generalize oneStarts : rule.lifecycle.starts event (scheduler.activation? number tuple) = one
    at issued bothIssued bothIssued'
  generalize otherStarts : otherRule.lifecycle.starts otherEvent
    (scheduler.activation? other otherTuple) = two at otherIssued bothIssued bothIssued'
  have kept {number : RuleId} {tuple : Tuple} (activation : Activation)
      (found : scheduler.activation? number tuple = some activation) :
      exchange one two scheduler.issued activation.id = activation.id :=
    exchange_old (coherent.id_le_issued found)
  refine ⟨exchange one two scheduler.issued, fun id => exchange_old, ?_,
    fun third thirdTuple => ?_, fun id new => exchange_new (bothIssued ▸ new)⟩
  · rw [cleared_move, cleared_move, cleared_move, cleared_move, bothIssued, bothIssued',
      Nat.add_right_comm]
  · rw [coherentOther.activation?_move, coherentOne.activation?_move, stays, otherStays,
      coherent.activation?_move, coherent.activation?_move]
    by_cases here : third = number ∧ thirdTuple = tuple
    · obtain ⟨rfl, rfl⟩ := here
      rw [if_pos ⟨rfl, rfl⟩, if_neg apart, if_pos ⟨rfl, rfl⟩]
      refine Lifecycle.renumber_proceed_of_fixed (fun activation => kept activation) fun starts => ?_
      obtain rfl := oneStarts.symm.trans starts
      rw [Scheduler.fresh, Scheduler.fresh, otherIssued]
      exact exchange_first ..
    · by_cases there : third = other ∧ thirdTuple = otherTuple
      · obtain ⟨rfl, rfl⟩ := there
        rw [if_neg here, if_pos ⟨rfl, rfl⟩, if_pos ⟨rfl, rfl⟩]
        refine Lifecycle.renumber_proceed_of_fixed (fun activation => kept activation) fun starts => ?_
        obtain rfl := otherStarts.symm.trans starts
        rw [Scheduler.fresh, Scheduler.fresh, issued]
        exact exchange_second ..
      · rw [if_neg here, if_neg there, if_neg there, if_neg here]
        cases found : scheduler.activation? third thirdTuple with
        | none => rfl
        | some activation => simp [Activation.renumber, kept activation found]

/-! ## Lists of events -/

/-- Both lists of notifications reach the rules, and lead to the same up to numbers that are new. -/
def SameOutcome (scheduler : Scheduler σ) (first second : List Notification) : Prop :=
  ∃ one other rename, scheduler.notifyEach first = .ok one ∧ scheduler.notifyEach second = .ok other ∧
    Renumbered rename one other ∧ ∀ id : ActivationId, id.index ≤ scheduler.issued → rename id = id

section Lists

variable {notifications : List Notification}

theorem Renumbered.notifyEach (renumbered : Renumbered rename first second)
    (firstCoherent : first.Coherent) (secondCoherent : second.Coherent)
    (known : ∀ notification ∈ notifications, ∃ rule, first.rule? notification.rule = some rule) :
    ∃ one other, first.notifyEach notifications = .ok one ∧
      second.notifyEach notifications = .ok other ∧ Renumbered rename one other := by
  induction notifications generalizing first second with
  | nil => exact ⟨first, second, rfl, rfl, renumbered⟩
  | cons notification rest ih =>
    obtain ⟨⟨rule, here⟩, later⟩ := List.forall_mem_cons.mp known
    have there := (renumbered.rule? notification.rule).trans here
    rw [notifyEach_cons here, notifyEach_cons there]
    refine ih (renumbered.move firstCoherent secondCoherent) (firstCoherent.move here ..)
      (secondCoherent.move there ..) fun other member => ?_
    rw [rule?_move]
    exact later other member

theorem Coherent.sameOutcome_refl (coherent : scheduler.Coherent)
    (known : ∀ notification ∈ notifications, ∃ rule, scheduler.rule? notification.rule = some rule) :
    scheduler.SameOutcome notifications notifications := by
  obtain ⟨one, other, reached, otherReached, renumbered⟩ :=
    (Renumbered.refl scheduler).notifyEach coherent coherent known
  exact ⟨one, other, _, reached, otherReached, renumbered, fun _ _ => rfl⟩

end Lists

section Outcomes

variable {one two three : List Notification}

/-- After an event that has been reported first, the outcome stays the same. -/
theorem Coherent.sameOutcome_cons (coherent : scheduler.Coherent) {notification : Notification}
    (known : scheduler.rule? notification.rule = some rule)
    (rest : (scheduler.move notification.rule rule notification.tuple
      notification.event).SameOutcome one two) :
    scheduler.SameOutcome (notification :: one) (notification :: two) := by
  obtain ⟨after, other, rename, reached, otherReached, renumbered, fixed⟩ := rest
  refine ⟨after, other, rename, (notifyEach_cons known one).trans reached,
    (notifyEach_cons known two).trans otherReached, renumbered, ?_⟩
  exact fun id old => fixed id (Nat.le_trans old coherent.issued_le_move)

/-- Two events on different rules or tuples may come in either order, whatever comes after them. -/
theorem Coherent.sameOutcome_swap (coherent : scheduler.Coherent) {early late : Notification}
    (apart : ¬(early.rule = late.rule ∧ early.tuple = late.tuple))
    (known : ∀ notification ∈ early :: late :: one,
      ∃ rule, scheduler.rule? notification.rule = some rule) :
    scheduler.SameOutcome (early :: late :: one) (late :: early :: one) := by
  obtain ⟨⟨rule, earlyKnown⟩, ⟨otherRule, lateKnown⟩, restKnown⟩ :=
    List.forall_mem_cons.mp known |>.imp_right List.forall_mem_cons.mp
  have lateStill := (scheduler.rule?_move early.rule rule early.tuple early.event _).trans lateKnown
  have earlyStill :=
    (scheduler.rule?_move late.rule otherRule late.tuple late.event _).trans earlyKnown
  obtain ⟨rename, fixed, exchanged⟩ :=
    coherent.exists_exchange earlyKnown lateKnown apart early.event late.event
  obtain ⟨after, other, reached, otherReached, renumbered⟩ :=
    exchanged.notifyEach ((coherent.move earlyKnown ..).move lateStill ..)
      ((coherent.move lateKnown ..).move earlyStill ..)
      fun notification member => by
        rw [rule?_move, rule?_move]
        exact restKnown notification member
  refine ⟨after, other, rename, ?_, ?_, renumbered, fixed⟩
  · rw [notifyEach_cons earlyKnown, notifyEach_cons lateStill, reached]
  · rw [notifyEach_cons lateKnown, notifyEach_cons earlyStill, otherReached]

theorem SameOutcome.trans (early : scheduler.SameOutcome one two)
    (late : scheduler.SameOutcome two three) : scheduler.SameOutcome one three := by
  obtain ⟨first, middle, rename, firstReached, middleReached, before, fixed⟩ := early
  obtain ⟨middle', last, again, middleReached', lastReached, after, fixedAgain⟩ := late
  obtain rfl : middle = middle' := Except.ok.inj (middleReached.symm.trans middleReached')
  refine ⟨first, last, rename.trans again, firstReached, lastReached, before.trans after,
    fun id old => ?_⟩
  rw [Equiv.trans_apply, fixed id old, fixedAgain id old]

/-- Events on different rules or tuples may come in any order. -/
theorem Coherent.sameOutcome_perm (reordered : one.Perm two) (coherent : scheduler.Coherent)
    (apart : one.Pairwise fun early late => ¬(early.rule = late.rule ∧ early.tuple = late.tuple))
    (known : ∀ notification ∈ one, ∃ rule, scheduler.rule? notification.rule = some rule) :
    scheduler.SameOutcome one two := by
  induction reordered generalizing scheduler with
  | nil => exact coherent.sameOutcome_refl known
  | cons notification _ ih =>
    obtain ⟨⟨rule, here⟩, later⟩ := List.forall_mem_cons.mp known
    have apartLater := (List.pairwise_cons.mp apart).2
    refine coherent.sameOutcome_cons here (ih (coherent.move here ..) apartLater ?_)
    exact fun other member => (rule?_move ..).symm ▸ later other member
  | swap late early rest =>
    exact coherent.sameOutcome_swap ((List.pairwise_cons.mp apart).1 late List.mem_cons_self) known
  | trans before _ ih ihAfter =>
    refine (ih coherent apart known).trans (ihAfter coherent ?_ ?_)
    · refine (before.pairwise_iff fun apart same => apart ?_).mp apart
      exact ⟨same.1.symm, same.2.symm⟩
    · exact fun notification member => known notification (before.mem_iff.mpr member)

end Outcomes

/-! ## What users see -/

/-- The state of the live activation of a rule for a tuple, and the event that has led there. -/
def standing? (scheduler : Scheduler σ) (number : RuleId) (tuple : Tuple) :
    Option (ActivationState × EventKind) :=
  (scheduler.activation? number tuple).map fun activation => (activation.state, activation.lastEvent)

/-- The priority under which the activation of a rule for a tuple is filed, if it is. -/
def filedAt? (scheduler : Scheduler σ) (number : RuleId) (tuple : Tuple) : Option Int32 :=
  (scheduler.index.get? (number, tuple)).bind scheduler.conflicts.priorityOf?

/-- The second scheduler lists and files the renamed activations of the first one, in some order.
It has the same rules, failures and draws. -/
structure Rearranged (rename : Equiv.Perm ActivationId) (first second : Scheduler σ) : Prop where
  cleared : second.cleared = first.cleared
  live : second.live.Perm (first.live.map (Activation.renumber rename))
  index : ∀ number tuple,
    second.index.get? (number, tuple) = (first.index.get? (number, tuple)).map rename
  buckets : ∀ priority,
    (second.conflicts.bucket priority).Perm ((first.conflicts.bucket priority).map rename)

theorem Coherent.nodup_live (coherent : scheduler.Coherent) : scheduler.live.Nodup :=
  coherent.pairwise_live.imp fun apart same => apart.2 (congrArg Activation.id same)

namespace Renumbered

theorem standing? (renumbered : Renumbered rename first second) (number : RuleId) (tuple : Tuple) :
    second.standing? number tuple = first.standing? number tuple := by
  unfold Scheduler.standing?
  rw [renumbered.found, Option.map_map]
  rfl

section Policy

variable (renumbered : Renumbered rename first second) (firstCoherent : first.Coherent)
  (secondCoherent : second.Coherent)

include renumbered firstCoherent secondCoherent

theorem mem_live_iff {activation : Activation} : activation ∈ second.live ↔
    ∃ old ∈ first.live, old.renumber rename = activation := by
  have here : activation ∈ second.live ↔
      second.activation? activation.rule activation.tuple = some activation := by
    simp [activation?_eq_some_iff secondCoherent]
  rw [here, renumbered.found, Option.map_eq_some_iff]
  simp only [activation?_eq_some_iff firstCoherent]
  constructor
  · rintro ⟨old, ⟨member, -⟩, same⟩
    exact ⟨old, member, same⟩
  · rintro ⟨old, member, rfl⟩
    exact ⟨old, ⟨member, rfl, rfl⟩, rfl⟩

theorem priorityOf? (ignores : first.policy.IgnoresNumbers) (id : ActivationId) :
    second.conflicts.priorityOf? (rename id) = first.conflicts.priorityOf? id := by
  have policy : second.policy = first.policy := by
    show second.cleared.policy = first.cleared.policy
    rw [renumbered.cleared]
  refine Option.ext fun priority => ?_
  rw [priorityOf?_eq_some_iff secondCoherent, priorityOf?_eq_some_iff firstCoherent]
  simp only [renumbered.mem_live_iff firstCoherent secondCoherent, renumbered.rule?, policy]
  constructor
  · rintro ⟨_, ⟨old, member, rfl⟩, same, rule, known, fireable, filed⟩
    exact ⟨old, member, rename.injective same, rule, known, fireable, (ignores ..).symm.trans filed⟩
  · rintro ⟨old, member, rfl, rule, known, fireable, filed⟩
    exact ⟨_, ⟨old, member, rfl⟩, rfl, rule, known, fireable, (ignores ..).trans filed⟩

theorem filedAt? (ignores : first.policy.IgnoresNumbers) (number : RuleId) (tuple : Tuple) :
    second.filedAt? number tuple = first.filedAt? number tuple := by
  unfold Scheduler.filedAt?
  rw [secondCoherent.index_eq, firstCoherent.index_eq, renumbered.found]
  cases first.activation? number tuple with
  | none => rfl
  | some activation =>
    exact renumbered.priorityOf? firstCoherent secondCoherent ignores activation.id

theorem rearranged (ignores : first.policy.IgnoresNumbers) : Rearranged rename first second where
  cleared := renumbered.cleared
  live := by
    have injective : Function.Injective (Activation.renumber rename) := by
      rintro ⟨id, rule, tuple, state, event⟩ ⟨other, _, _, _, _⟩ same
      injection same with sameId
      obtain rfl := rename.injective sameId
      simp_all
    refine (List.perm_ext_iff_of_nodup secondCoherent.nodup_live
      (firstCoherent.nodup_live.map injective)).mpr fun activation => ?_
    rw [List.mem_map]
    exact renumbered.mem_live_iff firstCoherent secondCoherent
  index number tuple := by
    rw [secondCoherent.index_eq, firstCoherent.index_eq, renumbered.found, Option.map_map,
      Option.map_map]
    rfl
  buckets priority := by
    refine (List.perm_ext_iff_of_nodup (secondCoherent.conflicts.once priority)
      ((firstCoherent.conflicts.once priority).map rename.injective)).mpr fun id => ?_
    obtain ⟨old, rfl⟩ := rename.surjective id
    rw [List.mem_map_of_injective rename.injective, secondCoherent.conflicts.filed,
      firstCoherent.conflicts.filed, renumbered.priorityOf? firstCoherent secondCoherent ignores]

end Policy
end Renumbered

/-- Whatever has happened to a scheduler whose policy ignores numbers, notifications of different
rules and tuples may come in any order.  The order shows neither in the state and the last event of
any rule and tuple nor in what is filed for them.  Only activations that are new may get each
other's numbers, and activations may be listed and filed in another order. -/
theorem notifyEach_perm [Draw.Generator] {policy : Policy} {order : BucketOrder} {host : σ}
    {now : Scheduler σ} {early late : List Notification} (past : Evolves (new policy order host) now)
    (ignores : policy.IgnoresNumbers)
    (known : ∀ notification ∈ early, ∃ rule, now.rule? notification.rule = some rule)
    (apart : early.Pairwise fun one other => ¬(one.rule = other.rule ∧ one.tuple = other.tuple))
    (reordered : early.Perm late) :
    ∃ one other, now.notifyEach early = .ok one ∧ now.notifyEach late = .ok other ∧
      (∀ number tuple, other.standing? number tuple = one.standing? number tuple ∧
        other.filedAt? number tuple = one.filedAt? number tuple) ∧
      ∃ rename : Equiv.Perm ActivationId,
        (∀ id : ActivationId, id.index ≤ now.issued → rename id = id) ∧
          Rearranged rename one other := by
  have follows := past.follows (coherent_new policy order host)
  obtain ⟨one, other, rename, reached, otherReached, renumbered, fixed⟩ :=
    follows.coherent.sameOutcome_perm reordered apart known
  have oneFollows := follows.trans ((evolves_notifyEach reached).follows follows.coherent)
  have coherent := oneFollows.coherent
  have otherCoherent := ((evolves_notifyEach otherReached).follows follows.coherent).coherent
  have kept : one.policy.IgnoresNumbers := oneFollows.policy ▸ ignores
  refine ⟨one, other, reached, otherReached, fun number tuple => ⟨?_, ?_⟩, rename, fixed, ?_⟩
  · exact renumbered.standing? number tuple
  · exact renumbered.filedAt? coherent otherCoherent kept number tuple
  · exact renumbered.rearranged coherent otherCoherent kept

/-- One match is gone and two are new.  If the third event comes first, the new activations have
each other's numbers. -/
theorem notifyEach_perm_swaps :
    let rule : Rule Unit := { name := "watch", query := "edges", lifecycle := .default, priority := 5 }
    let now : Scheduler Unit := performAll (new .invertedDisappearance .fifo ()) [
      .notify ⟨0⟩ [.int 1] .fired, .notify ⟨0⟩ [.int 1] .appeared, .addRule rule]
    let gone : Notification := ⟨⟨0⟩, [.int 1], .disappeared⟩
    let added (value : Int64) : Notification := ⟨⟨0⟩, [.int value], .appeared⟩
    now.rule? ⟨0⟩ = some rule ∧
    ∃ one other, now.notifyEach [gone, added 2, added 3] = .ok one ∧
      now.notifyEach [added 3, gone, added 2] = .ok other ∧
      one.live.map Activation.id = [⟨1⟩, ⟨2⟩, ⟨3⟩] ∧
      one.activation? ⟨0⟩ [.int 2] = some ⟨⟨2⟩, ⟨0⟩, [.int 2], "appeared", .appeared⟩ ∧
      other.activation? ⟨0⟩ [.int 2] = some ⟨⟨3⟩, ⟨0⟩, [.int 2], "appeared", .appeared⟩ ∧
      (∀ number tuple, other.standing? number tuple = one.standing? number tuple ∧
        other.filedAt? number tuple = one.filedAt? number tuple) ∧
      ∃ rename : Equiv.Perm ActivationId,
        (∀ id : ActivationId, id.index ≤ now.issued → rename id = id) ∧
          Rearranged rename one other := by
  intro rule now gone added
  have past : Evolves (new .invertedDisappearance .fifo ()) now := evolves_performAll _ _
  have rules : now.rules = [rule] := by
    simp only [now, performAll, List.foldr_cons, List.foldr_nil, rules_perform_notify]
    rfl
  have known : now.rule? ⟨0⟩ = some rule := by rw [rule?, rules]; rfl
  have reordered : [gone, added 2, added 3].Perm [added 3, gone, added 2] := by decide
  obtain ⟨one, other, reached, otherReached, outcome⟩ := notifyEach_perm past
    Policy.ignoresNumbers_invertedDisappearance (by simp [gone, added, known]) (by decide) reordered
  have seen : (now.notifyEach [gone, added 2, added 3]).toOption.map (fun one =>
      (one.live.map Activation.id, one.activation? ⟨0⟩ [.int 2])) = some
        ([⟨1⟩, ⟨2⟩, ⟨3⟩], some ⟨⟨2⟩, ⟨0⟩, [.int 2], "appeared", .appeared⟩) := by decide +kernel
  have otherSeen : (now.notifyEach [added 3, gone, added 2]).toOption.map
      (·.activation? ⟨0⟩ [.int 2]) =
        some (some ⟨⟨3⟩, ⟨0⟩, [.int 2], "appeared", .appeared⟩) := by decide +kernel
  rw [reached] at seen
  rw [otherReached] at otherSeen
  obtain ⟨ids, activation⟩ := Prod.ext_iff.mp (Option.some.inj seen)
  exact ⟨known, one, other, reached, otherReached, ids, activation, Option.some.inj otherSeen, outcome⟩

end Scheduler
end LiveQuery
