import LiveQuery.Proofs.Schedule.Buckets
import LiveQuery.Schedule.Firing

/-!
# Activations, index and conflict set agree

A scheduler keeps three tables: the activations by number, their numbers by rule and tuple, and the
conflict set.  `Scheduler.Coherent` says that they describe the same activations and that exactly
those are filed that may fire, under the priority that the policy gives them now.

Every change of the tables is a `drop`, which forgets an activation everywhere, or a `place`, which
enters one everywhere; `Moves` lists when an event makes which of them.
-/

namespace LiveQuery

namespace Scheduler

variable {σ : Type} {scheduler after : Scheduler σ} {rule : Rule σ} {activation : Activation}
  {id : ActivationId}

/-- A live activation is entered under its number and its key, and filed if it may fire. -/
structure Entered (scheduler : Scheduler σ) (id : ActivationId) (activation : Activation) :
    Prop where
  named : activation.id = id
  issued : id.index ≤ scheduler.issued
  indexed : scheduler.index.get? (activation.rule, activation.tuple) = some id
  governed : ∃ rule, scheduler.rule? activation.rule = some rule ∧
    activation.state ≠ rule.lifecycle.initial ∧
    scheduler.conflicts.priorityOf? id =
      if rule.lifecycle.isFireable activation.state then
        some (scheduler.policy.priority activation rule.priority)
      else none

/-- The three tables describe the same activations. -/
structure Coherent (scheduler : Scheduler σ) : Prop where
  activationsOnce : scheduler.activations.keys.Nodup
  indexOnce : scheduler.index.keys.Nodup
  conflicts : scheduler.conflicts.Coherent
  entered : ∀ id activation, scheduler.activations.get? id = some activation →
    scheduler.Entered id activation
  indexed : ∀ key id, scheduler.index.get? key = some id → ∃ activation,
    scheduler.activations.get? id = some activation ∧ (activation.rule, activation.tuple) = key
  filed : ∀ id priority, scheduler.conflicts.priorityOf? id = some priority →
    ∃ activation, scheduler.activations.get? id = some activation

theorem coherent_new [Draw.Generator] (policy : Policy) (order : BucketOrder) (host : σ) :
    (new policy order host).Coherent where
  activationsOnce := .nil
  indexOnce := .nil
  conflicts := ConflictSet.coherent_new order
  entered _ _ found := by cases found
  indexed _ _ found := by cases found
  filed _ _ found := by cases found

/-! ## Changes beside the tables -/

/-- The scheduler with other failures and another host of the jobs, and perhaps in a run. -/
def aside (scheduler : Scheduler σ) (failures : List JobFailure)
    (handler : Option (JobFailure → σ → σ)) (isRunning : Bool) (host : σ) : Scheduler σ :=
  { scheduler with failures, handler, isRunning, host }

theorem Coherent.aside (coherent : scheduler.Coherent) (failures : List JobFailure)
    (handler : Option (JobFailure → σ → σ)) (isRunning : Bool) (host : σ) :
    (scheduler.aside failures handler isRunning host).Coherent where
  activationsOnce := coherent.activationsOnce
  indexOnce := coherent.indexOnce
  conflicts := coherent.conflicts
  entered id activation found :=
    have here := coherent.entered id activation found
    ⟨here.named, here.issued, here.indexed, here.governed⟩
  indexed := coherent.indexed
  filed := coherent.filed

theorem rule?_addRule {number : RuleId} (known : scheduler.rule? number = some rule)
    (added : Rule σ) : (scheduler.addRule added).1.rule? number = some rule := by
  obtain ⟨bound, _⟩ := List.getElem?_eq_some_iff.mp known
  exact (List.getElem?_append_left bound).trans known

/-- The rules are the old ones and the one that was added. -/
theorem rule?_addRule_cases {number : RuleId} {added : Rule σ}
    (known : (scheduler.addRule added).1.rule? number = some rule) :
    scheduler.rule? number = some rule ∨ number = (scheduler.addRule added).2 ∧ rule = added := by
  have known : (scheduler.rules ++ [added])[number.index]? = some rule := known
  rcases Nat.lt_or_ge number.index scheduler.rules.length with old | new
  · exact .inl ((List.getElem?_append_left old).symm.trans known)
  · rw [List.getElem?_append_right new, List.getElem?_singleton] at known
    split at known
    next last =>
      cases known
      exact .inr ⟨Id.ext (by simp only [Scheduler.addRule]; omega), rfl⟩
    next => cases known

theorem Coherent.addRule (coherent : scheduler.Coherent) (rule : Rule σ) :
    (scheduler.addRule rule).1.Coherent where
  activationsOnce := coherent.activationsOnce
  indexOnce := coherent.indexOnce
  conflicts := coherent.conflicts
  entered id activation found := by
    obtain ⟨named, issued, indexed, governor, known, governed⟩ := coherent.entered id activation found
    exact ⟨named, issued, indexed, governor, rule?_addRule known rule, governed⟩
  indexed := coherent.indexed
  filed := coherent.filed

theorem Coherent.selectNext (coherent : scheduler.Coherent) :
    scheduler.selectNext.1.Coherent where
  activationsOnce := coherent.activationsOnce
  indexOnce := coherent.indexOnce
  conflicts := coherent.conflicts.next
  entered id activation found := by
    obtain ⟨named, issued, indexed, governor, known, waits, filed⟩ :=
      coherent.entered id activation found
    refine ⟨named, issued, indexed, governor, known, waits, ?_⟩
    exact (ConflictSet.priorityOf?_next _ _).trans filed
  indexed := coherent.indexed
  filed id priority found :=
    coherent.filed id priority ((ConflictSet.priorityOf?_next _ _).symm.trans found)

/-! ## Dropping -/

theorem Coherent.drop (coherent : scheduler.Coherent) {number : RuleId} {tuple : Tuple}
    (indexed : scheduler.index.get? (number, tuple) = some id) :
    (scheduler.drop number tuple id).Coherent where
  activationsOnce := Table.nodup_keys_erase coherent.activationsOnce id
  indexOnce := Table.nodup_keys_erase coherent.indexOnce _
  conflicts := coherent.conflicts.remove id
  entered other activation found := by
    simp only [Scheduler.drop, Table.get?_erase] at found
    split at found
    · cases found
    next different =>
      obtain ⟨named, issued, here, governor, known, waits, filed⟩ :=
        coherent.entered other activation found
      refine ⟨named, issued, ?_, governor, known, waits, ?_⟩
      · simp only [Scheduler.drop, Table.get?_erase]
        rw [if_neg fun same => different ?_, here]
        exact Option.some.inj ((here.symm.trans (congrArg _ same)).trans indexed)
      · simp only [Scheduler.drop, ConflictSet.priorityOf?_remove]
        rw [if_neg different, filed]
  indexed key other found := by
    simp only [Scheduler.drop, Table.get?_erase] at found ⊢
    split at found
    · cases found
    next different =>
      obtain ⟨activation, stored, same⟩ := coherent.indexed key other found
      refine ⟨activation, ?_, same⟩
      rw [if_neg fun dropped => different ?_, stored]
      -- the dropped activation has one key only
      obtain ⟨dropped', stored', same'⟩ := coherent.indexed _ _ indexed
      rw [dropped, stored'] at stored
      cases stored
      exact same.symm.trans same'
  filed other priority found := by
    simp only [Scheduler.drop, Table.get?_erase, ConflictSet.priorityOf?_remove] at found ⊢
    split at found
    · cases found
    next different =>
      rw [if_neg different]
      exact coherent.filed other priority found

/-! ## Placing -/

/-- The priority under which activations are filed once one has been placed. -/
theorem priorityOf?_place (scheduler : Scheduler σ) (rule : Rule σ) (activation : Activation)
    (id : ActivationId) :
    (scheduler.place rule activation).conflicts.priorityOf? id =
      if id = activation.id then
        if rule.lifecycle.isFireable activation.state then
          some (scheduler.policy.priority activation rule.priority)
        else none
      else scheduler.conflicts.priorityOf? id := by
  unfold place
  dsimp only
  split
  · exact ConflictSet.priorityOf?_insert ..
  · exact ConflictSet.priorityOf?_remove ..

/-- An activation that is placed is entered everywhere, instead of the one that had its number if
there was one. -/
theorem Coherent.place (coherent : scheduler.Coherent)
    (known : scheduler.rule? activation.rule = some rule)
    (waits : activation.state ≠ rule.lifecycle.initial)
    (issued : activation.id.index ≤ scheduler.issued)
    (key : ∀ other, scheduler.index.get? (activation.rule, activation.tuple) = some other →
      other = activation.id)
    (number : ∀ old, scheduler.activations.get? activation.id = some old →
      (old.rule, old.tuple) = (activation.rule, activation.tuple)) :
    (scheduler.place rule activation).Coherent where
  activationsOnce := Table.nodup_keys_insert coherent.activationsOnce _ _
  indexOnce := Table.nodup_keys_insert coherent.indexOnce _ _
  conflicts := by
    unfold Scheduler.place
    dsimp only
    split
    · exact coherent.conflicts.insert _ _
    · exact coherent.conflicts.remove _
  entered id stored found := by
    simp only [Scheduler.place, Table.get?_insert] at found
    split at found
    next same =>
      cases found
      refine ⟨same.symm, same ▸ issued, ?_, rule, known, waits, ?_⟩
      · simp only [Scheduler.place, Table.get?_insert, if_true, same]
      · rw [priorityOf?_place, if_pos same]
        rfl
    next different =>
      obtain ⟨named, issuedBefore, indexed, governor, governs, active, filed⟩ :=
        coherent.entered id stored found
      have apart : (stored.rule, stored.tuple) ≠ (activation.rule, activation.tuple) :=
        fun same => different (key id (same ▸ indexed))
      refine ⟨named, issuedBefore, ?_, governor, governs, active, ?_⟩
      · simp only [Scheduler.place, Table.get?_insert]
        rw [if_neg apart, indexed]
      · rw [priorityOf?_place, if_neg different]
        exact filed
  indexed wanted id found := by
    simp only [Scheduler.place, Table.get?_insert] at found ⊢
    split at found
    next same =>
      cases found
      exact ⟨activation, if_pos rfl, same.symm⟩
    next different =>
      obtain ⟨stored, here, same⟩ := coherent.indexed wanted id found
      refine ⟨stored, ?_, same⟩
      rw [if_neg fun equal => different ?_, here]
      rw [equal] at here
      exact same.symm.trans (number stored here)
  filed id priority found := by
    rw [priorityOf?_place] at found
    simp only [Scheduler.place, Table.get?_insert]
    split at found
    next same => exact ⟨activation, if_pos same⟩
    next different =>
      rw [if_neg different]
      exact coherent.filed id priority found

/-! ## Events -/

end Scheduler

/-- Where an event leads from a state; no state stands for no activation. -/
def Lifecycle.advance (lifecycle : Lifecycle) (state : Option ActivationState) (event : EventKind) :
    Option ActivationState :=
  match lifecycle.next? (state.getD lifecycle.initial) event with
  | none => state
  | some next => if lifecycle.isTerminal next then none else some next

namespace Scheduler

variable {σ : Type} {scheduler after : Scheduler σ} {rule : Rule σ} {id : ActivationId}
  {number : RuleId} {tuple : Tuple} {event : EventKind}

/-- The state of the live activation of a rule for a tuple. -/
def stateOf? (scheduler : Scheduler σ) (number : RuleId) (tuple : Tuple) : Option ActivationState :=
  (scheduler.activation? number tuple).map Activation.state

theorem move_eq_self (nowhere : rule.lifecycle.next?
      ((scheduler.stateOf? number tuple).getD rule.lifecycle.initial) event = none) :
    scheduler.move number rule tuple event = scheduler := by
  unfold stateOf? at nowhere
  unfold move
  dsimp only
  rw [nowhere]

/-- An event that leads somewhere ends the activation, or places it or a new one there. -/
theorem move_eq_of_leads {next : ActivationState} (leads : rule.lifecycle.next?
      ((scheduler.stateOf? number tuple).getD rule.lifecycle.initial) event = some next) :
    scheduler.move number rule tuple event =
      match scheduler.index.get? (number, tuple) with
      | some id =>
        if rule.lifecycle.isTerminal next then scheduler.drop number tuple id
        else scheduler.place rule ⟨id, number, tuple, next, event⟩
      | none =>
        if rule.lifecycle.isTerminal next then scheduler
        else scheduler.fresh.1.place rule ⟨scheduler.fresh.2, number, tuple, next, event⟩ := by
  unfold stateOf? at leads
  unfold move
  dsimp only
  rw [leads]
  cases scheduler.index.get? (number, tuple) <;> rfl

/-- What an event can do to the tables, and the state that it leaves the rule and the tuple in. -/
inductive Moves (scheduler : Scheduler σ) (number : RuleId) (rule : Rule σ) (tuple : Tuple)
    (event : EventKind) : Scheduler σ → Option ActivationState → Prop where
  | nowhere : Moves scheduler number rule tuple event scheduler (scheduler.stateOf? number tuple)
  | nothing (absent : scheduler.index.get? (number, tuple) = none) :
      Moves scheduler number rule tuple event scheduler none
  | ended {id : ActivationId} (indexed : scheduler.index.get? (number, tuple) = some id) :
      Moves scheduler number rule tuple event (scheduler.drop number tuple id) none
  | moved {id : ActivationId} {next : ActivationState}
      (indexed : scheduler.index.get? (number, tuple) = some id)
      (waits : next ≠ rule.lifecycle.initial) :
      Moves scheduler number rule tuple event
        (scheduler.place rule ⟨id, number, tuple, next, event⟩) (some next)
  | started {next : ActivationState} (absent : scheduler.index.get? (number, tuple) = none)
      (waits : next ≠ rule.lifecycle.initial) :
      Moves scheduler number rule tuple event
        (scheduler.fresh.1.place rule ⟨scheduler.fresh.2, number, tuple, next, event⟩) (some next)

theorem moves (scheduler : Scheduler σ) (number : RuleId) (rule : Rule σ) (tuple : Tuple)
    (event : EventKind) :
    scheduler.Moves number rule tuple event (scheduler.move number rule tuple event)
      (rule.lifecycle.advance (scheduler.stateOf? number tuple) event) := by
  unfold Lifecycle.advance
  cases leads : rule.lifecycle.next?
      ((scheduler.stateOf? number tuple).getD rule.lifecycle.initial) event with
  | none =>
    rw [move_eq_self leads]
    exact .nowhere
  | some next =>
    rw [move_eq_of_leads leads]
    cases known : scheduler.index.get? (number, tuple) with
    | none =>
      dsimp only
      split
      · exact .nothing known
      next waits => exact .started known (by simpa [Lifecycle.isTerminal] using waits)
    | some id =>
      dsimp only
      split
      · exact .ended known
      next waits => exact .moved known (by simpa [Lifecycle.isTerminal] using waits)

theorem Moves.rules {state : Option ActivationState}
    (moves : scheduler.Moves number rule tuple event after state) :
    after.rules = scheduler.rules := by
  cases moves <;> rfl

/-- Events leave the rules as they are. -/
@[simp] theorem rules_move (scheduler : Scheduler σ) (number : RuleId) (rule : Rule σ) (tuple : Tuple)
    (event : EventKind) : (scheduler.move number rule tuple event).rules = scheduler.rules :=
  (scheduler.moves number rule tuple event).rules

theorem rule?_move (scheduler : Scheduler σ) (number : RuleId) (rule : Rule σ) (tuple : Tuple)
    (event : EventKind) (other : RuleId) :
    (scheduler.move number rule tuple event).rule? other = scheduler.rule? other := by
  rw [rule?, rules_move, rule?]

theorem Coherent.fresh (coherent : scheduler.Coherent) : scheduler.fresh.1.Coherent where
  activationsOnce := coherent.activationsOnce
  indexOnce := coherent.indexOnce
  conflicts := coherent.conflicts
  entered id activation found :=
    have here := coherent.entered id activation found
    ⟨here.named, Nat.le_succ_of_le here.issued, here.indexed, here.governed⟩
  indexed := coherent.indexed
  filed := coherent.filed

theorem Coherent.fresh_free (coherent : scheduler.Coherent) :
    scheduler.activations.get? scheduler.fresh.2 = none := by
  rw [Option.eq_none_iff_forall_ne_some]
  exact fun activation found =>
    Nat.not_succ_le_self _ (coherent.entered _ activation found).issued

theorem Coherent.moves (coherent : scheduler.Coherent) (known : scheduler.rule? number = some rule)
    {state : Option ActivationState} (moves : scheduler.Moves number rule tuple event after state) :
    after.Coherent := by
  cases moves with
  | nowhere => exact coherent
  | nothing => exact coherent
  | ended indexed => exact coherent.drop indexed
  | moved indexed waits =>
    obtain ⟨old, stored, same⟩ := coherent.indexed _ _ indexed
    refine coherent.place known waits (coherent.entered _ old stored).issued ?_ ?_
    · exact fun other found => Option.some.inj (found.symm.trans indexed)
    · intro other found
      rw [stored] at found
      cases found
      exact same
  | started absent waits =>
    refine coherent.fresh.place known waits (Nat.le_refl _) ?_ ?_
    · exact fun other found => by cases absent.symm.trans found
    · exact fun other found => by cases coherent.fresh_free.symm.trans found

theorem Coherent.move (coherent : scheduler.Coherent) (known : scheduler.rule? number = some rule)
    (tuple : Tuple) (event : EventKind) : (scheduler.move number rule tuple event).Coherent :=
  coherent.moves known (scheduler.moves number rule tuple event)

/-! ## Live activations -/

theorem mem_live_iff (coherent : scheduler.Coherent) {activation : Activation} :
    activation ∈ scheduler.live ↔ scheduler.activations.get? activation.id = some activation := by
  unfold live
  rw [List.mem_map]
  constructor
  · rintro ⟨⟨id, stored⟩, member, rfl⟩
    rw [Table.mem_entries_iff coherent.activationsOnce] at member
    rw [(coherent.entered id stored member).named]
    exact member
  · intro found
    have member := (Table.mem_entries_iff coherent.activationsOnce).mpr found
    exact ⟨(activation.id, activation), member, rfl⟩

/-- There is at most one live activation of a rule for a tuple, and numbers are not shared. -/
theorem Coherent.pairwise_live (coherent : scheduler.Coherent) :
    scheduler.live.Pairwise fun first second =>
      (first.rule, first.tuple) ≠ (second.rule, second.tuple) ∧ first.id ≠ second.id := by
  have distinct : scheduler.activations.entries.Pairwise fun first second => first.1 ≠ second.1 :=
    List.pairwise_map.mp coherent.activationsOnce
  refine List.pairwise_map.mpr (distinct.imp_of_mem ?_)
  rintro ⟨one, first⟩ ⟨other, second⟩ firstMember secondMember different
  rw [Table.mem_entries_iff coherent.activationsOnce] at firstMember secondMember
  have first := coherent.entered _ _ firstMember
  have second := coherent.entered _ _ secondMember
  constructor
  · exact fun same => different (Option.some.inj
      (first.indexed.symm.trans ((congrArg _ same).trans second.indexed)))
  · rw [first.named, second.named]
    exact different

theorem index_eq_some_iff (coherent : scheduler.Coherent) {number : RuleId} {tuple : Tuple}
    {id : ActivationId} : scheduler.index.get? (number, tuple) = some id ↔
      ∃ activation ∈ scheduler.live,
        activation.id = id ∧ activation.rule = number ∧ activation.tuple = tuple := by
  simp only [mem_live_iff coherent]
  constructor
  · intro indexed
    obtain ⟨activation, stored, key⟩ := coherent.indexed _ _ indexed
    obtain ⟨rfl, rfl⟩ := Prod.ext_iff.mp key
    have named := (coherent.entered id activation stored).named
    exact ⟨activation, named ▸ stored, named, rfl, rfl⟩
  · rintro ⟨activation, stored, rfl, rfl, rfl⟩
    exact (coherent.entered _ activation stored).indexed

theorem activation?_eq_some_iff (coherent : scheduler.Coherent) {number : RuleId} {tuple : Tuple}
    {activation : Activation} : scheduler.activation? number tuple = some activation ↔
      activation ∈ scheduler.live ∧ activation.rule = number ∧ activation.tuple = tuple := by
  unfold activation?
  rw [Option.bind_eq_some_iff]
  constructor
  · rintro ⟨id, indexed, stored⟩
    obtain ⟨other, here, key⟩ := coherent.indexed _ _ indexed
    obtain rfl := Option.some.inj (stored.symm.trans here)
    obtain ⟨rfl, rfl⟩ := Prod.ext_iff.mp key
    have named := (coherent.entered id activation stored).named
    exact ⟨(mem_live_iff coherent).mpr (named ▸ stored), rfl, rfl⟩
  · rintro ⟨member, rfl, rfl⟩
    have stored := (mem_live_iff coherent).mp member
    exact ⟨activation.id, (coherent.entered _ activation stored).indexed, stored⟩

end Scheduler
end LiveQuery
