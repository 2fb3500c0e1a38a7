import LiveQuery.Proofs.Schedule.Selection

/-!
# States of rules and tuples

To its users a scheduler is a state for every rule and tuple, where there is none without a live
activation.  An event moves just the state of its rule and tuple, as the lifecycle says
(`Coherent.stateOf?_move`).  Firing moves a state by the firing event, or not at all, if the jobs of
the rules ask for nothing else (`Rule.Plain`, `fire_cases`).

A lifecycle mirrors the presence of a match (`Lifecycle.Mirrors`) if its states tell whether the
match is there, as long as it is told when the match appears and disappears, however often the
activation fires in between.  The default lifecycle tells both; the simple one only tells that a
match is there, since it forgets one that has fired.
-/

namespace LiveQuery

variable {σ : Type}

/-! ## Lifecycles and presence -/

namespace Lifecycle

/-- The states of an activation while its match is there and while it is not; none stands for no
activation. -/
structure Mirrors (lifecycle : Lifecycle) (present absent : List (Option ActivationState)) :
    Prop where
  starts : none ∈ absent
  appears : ∀ state ∈ absent, lifecycle.advance state .appeared ∈ present
  disappears : ∀ state ∈ present, lifecycle.advance state .disappeared ∈ absent
  firesPresent : ∀ state ∈ present, lifecycle.advance state .fired ∈ present
  firesAbsent : ∀ state ∈ absent, lifecycle.advance state .fired ∈ absent

theorem mirrors_default : Lifecycle.default.Mirrors
    [some "appeared", some "fired", some "updated"] [none, some "disappeared"] where
  starts := by decide
  appears := by decide
  disappears := by decide
  firesPresent := by decide
  firesAbsent := by decide

theorem mirrors_simple : simple.Mirrors [none, some "active"] [none] where
  starts := by decide
  appears := by decide
  disappears := by decide
  firesPresent := by decide
  firesAbsent := by decide

/-- The activation of a rule for a tuple after an event, if there is one then.  If there was none
before, it gets the fresh number. -/
def proceed (lifecycle : Lifecycle) (number : RuleId) (tuple : Tuple) (event : EventKind)
    (fresh : ActivationId) (present : Option Activation) : Option Activation :=
  match lifecycle.next? ((present.map Activation.state).getD lifecycle.initial) event with
  | none => present
  | some next =>
    if lifecycle.isTerminal next then none
    else some ⟨(present.map Activation.id).getD fresh, number, tuple, next, event⟩

theorem state_proceed (lifecycle : Lifecycle) (number : RuleId) (tuple : Tuple) (event : EventKind)
    (fresh : ActivationId) (present : Option Activation) :
    (lifecycle.proceed number tuple event fresh present).map Activation.state =
      lifecycle.advance (present.map Activation.state) event := by
  unfold proceed advance
  cases lifecycle.next? ((present.map Activation.state).getD lifecycle.initial) event with
  | none => rfl
  | some next => exact apply_ite (Option.map Activation.state) ..

end Lifecycle

/-! ## Jobs -/

/-- The jobs of the rule report nothing to rules, and complete by firing or not at all. -/
def Rule.Plain (rule : Rule σ) : Prop :=
  ∀ state job, rule.jobs.get? state = some job → ∀ activation host,
    (job activation host).agenda.notifications = [] ∧
      ((job activation host).agenda.completion = some .fired ∨
        (job activation host).agenda.completion = none)

theorem Rule.Plain.withJob {rule : Rule σ} (plain : rule.Plain) {job : Job σ}
    (asks : ∀ activation host, (job activation host).agenda.notifications = [] ∧
      ((job activation host).agenda.completion = some .fired ∨
        (job activation host).agenda.completion = none))
    (state : ActivationState) : (rule.withJob state job).Plain := by
  intro other found stored
  rw [Rule.withJob, Table.get?_insert] at stored
  split at stored
  · cases stored
    exact asks
  · exact plain other found stored

theorem Rule.Plain.work {rule : Rule σ} (plain : rule.Plain) (activation : Activation) (host : σ) :
    (rule.work activation host).agenda.notifications = [] ∧
      ((rule.work activation host).agenda.completion = some .fired ∨
        (rule.work activation host).agenda.completion = none) := by
  unfold Rule.work
  split
  next job found => exact plain _ job found activation host
  next => exact ⟨rfl, .inl rfl⟩

namespace Scheduler

variable {scheduler after : Scheduler σ} {rule : Rule σ} {activation : Activation}
  {id : ActivationId} {number other : RuleId} {tuple otherTuple : Tuple} {event : EventKind}
  {state : Option ActivationState}

theorem stateOf?_addRule (scheduler : Scheduler σ) (rule : Rule σ) (number : RuleId) (tuple : Tuple) :
    (scheduler.addRule rule).1.stateOf? number tuple = scheduler.stateOf? number tuple := rfl

theorem Coherent.activation?_drop (coherent : scheduler.Coherent)
    (indexed : scheduler.index.get? (number, tuple) = some id) (other : RuleId)
    (otherTuple : Tuple) :
    (scheduler.drop number tuple id).activation? other otherTuple =
      if other = number ∧ otherTuple = tuple then none
      else scheduler.activation? other otherTuple := by
  simp only [activation?, Scheduler.drop, Table.get?_erase, Prod.mk.injEq]
  split
  · rfl
  next elsewhere =>
    cases found : scheduler.index.get? (other, otherTuple) with
    | none => rfl
    | some live =>
      -- no other key leads to the activation that is dropped
      have different : live ≠ id := by
        rintro rfl
        obtain ⟨one, oneStored, oneKey⟩ := coherent.indexed _ _ indexed
        obtain ⟨two, twoStored, twoKey⟩ := coherent.indexed _ _ found
        cases oneStored.symm.trans twoStored
        exact elsewhere (Prod.ext_iff.mp (twoKey.symm.trans oneKey))
      simp [different]

/-- An activation that is placed is that of its rule and its tuple; the others stay. -/
theorem Coherent.activation?_place (coherent : scheduler.Coherent)
    (unused : ∀ old, scheduler.activations.get? activation.id = some old →
      (old.rule, old.tuple) = (activation.rule, activation.tuple)) (other : RuleId)
    (otherTuple : Tuple) :
    (scheduler.place rule activation).activation? other otherTuple =
      if other = activation.rule ∧ otherTuple = activation.tuple then some activation
      else scheduler.activation? other otherTuple := by
  simp only [activation?, Scheduler.place, Table.get?_insert, Prod.mk.injEq]
  split
  · simp
  next elsewhere =>
    cases found : scheduler.index.get? (other, otherTuple) with
    | none => rfl
    | some live =>
      have different : live ≠ activation.id := by
        rintro rfl
        obtain ⟨old, stored, key⟩ := coherent.indexed _ _ found
        exact elsewhere (Prod.ext_iff.mp (key.symm.trans (unused old stored)))
      simp [different]

theorem Coherent.index_eq (coherent : scheduler.Coherent) (number : RuleId) (tuple : Tuple) :
    scheduler.index.get? (number, tuple) =
      (scheduler.activation? number tuple).map Activation.id := by
  unfold activation?
  cases indexed : scheduler.index.get? (number, tuple) with
  | none => rfl
  | some id =>
    obtain ⟨activation, stored, _⟩ := coherent.indexed _ _ indexed
    simp [stored, (coherent.entered id activation stored).named]

/-- An event decides about the activation of its rule and tuple, and leaves the others. -/
theorem Coherent.activation?_move (coherent : scheduler.Coherent) (number : RuleId) (rule : Rule σ)
    (tuple : Tuple) (event : EventKind) (other : RuleId) (otherTuple : Tuple) :
    (scheduler.move number rule tuple event).activation? other otherTuple =
      if other = number ∧ otherTuple = tuple then
        rule.lifecycle.proceed number tuple event scheduler.fresh.2
          (scheduler.activation? number tuple)
      else scheduler.activation? other otherTuple := by
  have known := coherent.index_eq number tuple
  unfold Lifecycle.proceed
  rw [← stateOf?, ← known]
  cases leads : rule.lifecycle.next?
      ((scheduler.stateOf? number tuple).getD rule.lifecycle.initial) event with
  | none =>
    rw [move_eq_self leads]
    grind
  | some next =>
    rw [move_eq_of_leads leads]
    cases indexed : scheduler.index.get? (number, tuple) with
    | none =>
      have absent : scheduler.activation? number tuple = none :=
        Option.map_eq_none_iff.mp (known.symm.trans indexed)
      dsimp only
      split
      · grind
      · refine coherent.fresh.activation?_place (fun old stored => ?_) other otherTuple
        cases coherent.fresh_free.symm.trans stored
    | some id =>
      dsimp only
      split
      · exact coherent.activation?_drop indexed other otherTuple
      · refine coherent.activation?_place (fun old stored => ?_) other otherTuple
        obtain ⟨present, here, key⟩ := coherent.indexed _ _ indexed
        cases here.symm.trans stored
        exact key

/-- An event moves the state of its rule and tuple, and no other. -/
theorem Coherent.stateOf?_move (coherent : scheduler.Coherent) (other : RuleId) (otherTuple : Tuple) :
    (scheduler.move number rule tuple event).stateOf? other otherTuple =
      if other = number ∧ otherTuple = tuple then
        rule.lifecycle.advance (scheduler.stateOf? number tuple) event
      else scheduler.stateOf? other otherTuple := by
  unfold stateOf?
  rw [coherent.activation?_move, ← Lifecycle.state_proceed]
  exact apply_ite (Option.map Activation.state) ..

theorem stateOf?_eq_some_iff (coherent : scheduler.Coherent) {name : ActivationState} :
    scheduler.stateOf? number tuple = some name ↔
      ∃ activation ∈ scheduler.live,
        activation.rule = number ∧ activation.tuple = tuple ∧ activation.state = name := by
  rw [stateOf?, Option.map_eq_some_iff]
  simp only [activation?_eq_some_iff coherent, and_assoc]

/-! ## Firing -/

/-- If the jobs of the rules ask for nothing else, then firing changes nothing but what is beside
the tables, or moves an activation by the firing event, too. -/
theorem fire_cases (plain : ∀ number rule, scheduler.rule? number = some rule → rule.Plain)
    (id : ActivationId) :
    ∃ failures host, let aside := scheduler.aside failures scheduler.handler scheduler.isRunning host
      (scheduler.fire id).1 = aside ∨
      ∃ number rule tuple, scheduler.rule? number = some rule ∧
        (scheduler.fire id).1 = aside.move number rule tuple .fired := by
  unfold fire
  split
  · exact ⟨_, _, .inl rfl⟩
  next activation _ =>
    split
    · exact ⟨_, _, .inl rfl⟩
    next rule known =>
      obtain ⟨failures, host, worked⟩ := work_eq_aside scheduler rule activation
      have agenda : (scheduler.work rule activation).2 =
          (rule.work activation scheduler.host).agenda := by
        unfold work
        dsimp only
        split <;> rfl
      obtain ⟨silent, completion⟩ := (plain _ rule known).work activation scheduler.host
      have known' : (scheduler.aside failures scheduler.handler scheduler.isRunning host).rule?
          activation.rule = some rule := known
      refine ⟨failures, host, ?_⟩
      dsimp only
      rw [worked, agenda, silent]
      rcases completion with fired | suppressed
      · refine .inr ⟨activation.rule, rule, activation.tuple, known, ?_⟩
        simp [fired, complete, notify, known', passOn]
      · exact .inl (by simp [suppressed, complete, passOn])

/-- No live activation may fire. -/
def Quiet (scheduler : Scheduler σ) : Prop :=
  ∀ activation ∈ scheduler.live, ∀ rule, scheduler.rule? activation.rule = some rule →
    rule.lifecycle.isFireable activation.state = false

/-- Nothing is left to choose only if no live activation may fire. -/
theorem Coherent.quiet (coherent : scheduler.Coherent)
    (nothing : scheduler.selectNext.2 = none) : scheduler.selectNext.1.Quiet := by
  intro activation live rule known
  rw [Bool.eq_false_iff]
  intro fireable
  exact coherent.selectNext_eq_none_iff.mp nothing activation rule ⟨live, known, fireable⟩

/-! ## Notifications -/

/-- Reports notifications in order. -/
def notifyEach (scheduler : Scheduler σ) (notifications : List Notification) :
    Except Error (Scheduler σ) :=
  notifications.foldlM (fun scheduler notification =>
    scheduler.notify notification.rule notification.tuple notification.event) scheduler

theorem notifyEach_cons {first : Notification} (known : scheduler.rule? first.rule = some rule)
    (rest : List Notification) : scheduler.notifyEach (first :: rest) =
      (scheduler.move first.rule rule first.tuple first.event).notifyEach rest := by
  rw [notifyEach, List.foldlM_cons, notify, known]
  rfl

theorem evolves_notifyEach {notifications : List Notification}
    (reached : scheduler.notifyEach notifications = .ok after) : Evolves scheduler after := by
  induction notifications generalizing scheduler with
  | nil =>
    cases reached
    exact .refl _
  | cons first rest ih =>
    cases known : scheduler.rule? first.rule with
    | none =>
      rw [notifyEach, List.foldlM_cons, notify, known] at reached
      cases reached
    | some rule =>
      rw [notifyEach_cons known] at reached
      exact .trans (.notify (by rw [notify, known])) (ih reached)

/-- What notifications do that are about different rules and tuples: each moves its own state. -/
structure Notified (before after : Scheduler σ) (notifications : List Notification) : Prop where
  coherent : after.Coherent
  rules : after.rules = before.rules
  moved : ∀ notification ∈ notifications, ∀ rule, before.rule? notification.rule = some rule →
    after.stateOf? notification.rule notification.tuple = rule.lifecycle.advance
      (before.stateOf? notification.rule notification.tuple) notification.event
  others : ∀ number tuple,
    (∀ notification ∈ notifications, ¬(number = notification.rule ∧ tuple = notification.tuple)) →
    after.stateOf? number tuple = before.stateOf? number tuple

theorem Coherent.exists_notifyEach (coherent : scheduler.Coherent)
    {notifications : List Notification}
    (apart : notifications.Pairwise fun first second =>
      ¬(first.rule = second.rule ∧ first.tuple = second.tuple))
    (known : ∀ notification ∈ notifications,
      ∃ rule, scheduler.rule? notification.rule = some rule) :
    ∃ after, scheduler.notifyEach notifications = .ok after ∧
      Notified scheduler after notifications := by
  induction notifications generalizing scheduler with
  | nil => exact ⟨scheduler, rfl, coherent, rfl, by simp, fun _ _ _ => rfl⟩
  | cons first rest ih =>
    obtain ⟨alone, apart⟩ := List.pairwise_cons.mp apart
    obtain ⟨rule, firstKnown⟩ := known first List.mem_cons_self
    have state := @Coherent.stateOf?_move _ _ rule first.rule first.tuple first.event coherent
    obtain ⟨after, reached, notifiedRest⟩ := ih (coherent.move firstKnown ..) apart
      fun other member => (rule?_move ..).symm ▸ known other (List.mem_cons_of_mem _ member)
    refine ⟨after, (notifyEach_cons firstKnown rest).trans reached, notifiedRest.coherent,
      notifiedRest.rules.trans (rules_move ..), ?_, ?_⟩
    · intro notification member other otherKnown
      rcases List.mem_cons.mp member with rfl | later
      · -- the rest is about other rules and tuples
        rw [notifiedRest.others _ _ alone, state, if_pos ⟨rfl, rfl⟩]
        cases firstKnown.symm.trans otherKnown
        rfl
      · have different := alone notification later
        rw [notifiedRest.moved notification later other ((rule?_move ..).trans otherKnown),
          state, if_neg fun same => different ⟨same.1.symm, same.2.symm⟩]
    · intro number tuple elsewhere
      obtain ⟨here, later⟩ := List.forall_mem_cons.mp elsewhere
      rw [notifiedRest.others number tuple later, state, if_neg here]

end Scheduler
end LiveQuery
