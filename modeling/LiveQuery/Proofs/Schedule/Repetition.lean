import LiveQuery.Proofs.Schedule.Deeds

/-!
# Events that are reported twice

A lifecycle settles an event if the event leads nowhere else once it has led somewhere
(`Lifecycle.Settles`); the simple and the default lifecycle settle every event (`settles_simple`,
`settles_default`).  Reporting such an event a second time changes nothing at all
(`Scheduler.notify_notify`), not even the order in which activations are served.

* The first report has placed an activation.  The second one leads it back to its state, or nowhere,
  and placing it again as it is changes nothing, because it is filed under its priority already
  (`place_place`, `move_place`).
* The first report has ended the activation, or there was none and none was started.  Then the
  second one starts none either (`move_absent`).
-/

namespace LiveQuery

/-! ## Lifecycles -/

namespace Lifecycle

/-- Where the event has led, it leads nowhere else. -/
def Settles (lifecycle : Lifecycle) (event : EventKind) : Prop :=
  ∀ state next, lifecycle.next? state event = some next →
    lifecycle.next? next event = none ∨ lifecycle.next? next event = some next

theorem settles_iff {lifecycle : Lifecycle} {event : EventKind} :
    lifecycle.Settles event ↔ ∀ entry ∈ lifecycle.transitions.entries,
      lifecycle.next? entry.1.1 event = some entry.2 →
        lifecycle.next? entry.2 event = none ∨ lifecycle.next? entry.2 event = some entry.2 := by
  constructor
  · exact fun settles entry _ leads => settles entry.1.1 entry.2 leads
  · exact fun listed state next leads => listed _ (Table.mem_of_get? leads) leads

instance (lifecycle : Lifecycle) (event : EventKind) : Decidable (lifecycle.Settles event) :=
  decidable_of_iff' _ settles_iff

theorem settles_simple (event : EventKind) : simple.Settles event := by
  cases event <;> decide

theorem settles_default (event : EventKind) : Lifecycle.default.Settles event := by
  cases event <;> decide

end Lifecycle

namespace Scheduler

variable {σ : Type} {scheduler : Scheduler σ} {number : RuleId} {rule : Rule σ} {tuple : Tuple}
  {event : EventKind}

/-! ## Placing twice -/

theorem place_place (scheduler : Scheduler σ) (rule : Rule σ) (activation : Activation) :
    (scheduler.place rule activation).place rule activation =
      scheduler.place rule activation := by
  have priority := priorityOf?_place scheduler rule activation activation.id
  rw [if_pos rfl] at priority
  unfold place at priority ⊢
  dsimp only at priority ⊢
  rw [Table.insert_insert, Table.insert_insert]
  by_cases fireable : rule.lifecycle.isFireable activation.state = true
  · simp only [fireable, if_true] at priority ⊢
    rw [ConflictSet.insert_eq_self priority]
  · simp only [fireable, if_false, Bool.false_eq_true] at priority ⊢
    rw [ConflictSet.remove_eq_self priority]

/-! ## Events that change nothing -/

/-- Without an activation, an event that leads nowhere or back changes nothing. -/
theorem move_absent (absent : scheduler.index.get? (number, tuple) = none)
    (waits : rule.lifecycle.next? rule.lifecycle.initial event = none ∨
      rule.lifecycle.next? rule.lifecycle.initial event = some rule.lifecycle.initial) :
    scheduler.move number rule tuple event = scheduler := by
  have state : scheduler.stateOf? number tuple = none := by simp [stateOf?, activation?, absent]
  rcases waits with nowhere | back
  · exact move_eq_self (by rw [state]; exact nowhere)
  · rw [move_eq_of_leads (by rw [state]; exact back), absent]
    simp [Lifecycle.isTerminal]

theorem move_place {id : ActivationId} {next : ActivationState}
    (waits : rule.lifecycle.isTerminal next = false)
    (settled : rule.lifecycle.next? next event = none ∨
      rule.lifecycle.next? next event = some next) :
    (scheduler.place rule ⟨id, number, tuple, next, event⟩).move number rule tuple event =
      scheduler.place rule ⟨id, number, tuple, next, event⟩ := by
  have again := place_place scheduler rule ⟨id, number, tuple, next, event⟩
  have indexed : (scheduler.place rule ⟨id, number, tuple, next, event⟩).index.get?
      (number, tuple) = some id := by simp [place]
  have state : (scheduler.place rule ⟨id, number, tuple, next, event⟩).stateOf? number tuple =
      some next := by simp [stateOf?, activation?, place]
  rcases settled with nowhere | stays
  · exact move_eq_self (by rw [state]; exact nowhere)
  · rw [move_eq_of_leads (by rw [state]; exact stays), indexed]
    dsimp only
    rw [waits]
    exact again

/-- An event that has just moved an activation does not move it any further. -/
theorem move_move (settles : rule.lifecycle.Settles event) :
    (scheduler.move number rule tuple event).move number rule tuple event =
      scheduler.move number rule tuple event := by
  let state := (scheduler.stateOf? number tuple).getD rule.lifecycle.initial
  cases leads : rule.lifecycle.next? state event with
  | none =>
    have kept : scheduler.move number rule tuple event = scheduler := move_eq_self leads
    rw [kept, kept]
  | some next =>
    have settled := settles state next leads
    have moved := move_eq_of_leads leads
    cases terminal : rule.lifecycle.isTerminal next with
    | false =>
      cases indexed : scheduler.index.get? (number, tuple) with
      | none =>
        simp only [moved, indexed, terminal, Bool.false_eq_true, if_false]
        exact move_place terminal settled
      | some id =>
        simp only [moved, indexed, terminal, Bool.false_eq_true, if_false]
        exact move_place terminal settled
    | true =>
      -- an activation that has ended is not started again
      obtain rfl : next = rule.lifecycle.initial := by
        simpa [Lifecycle.isTerminal] using terminal
      cases indexed : scheduler.index.get? (number, tuple) with
      | none =>
        have kept : scheduler.move number rule tuple event = scheduler := move_absent indexed settled
        rw [kept, kept]
      | some id =>
        simp only [moved, indexed, terminal, if_true]
        exact move_absent (by simp [drop]) settled

/-! ## Reporting twice -/

/-- The simple and the default lifecycle settle every event.  Whatever has happened to a scheduler,
an event that the lifecycle of a rule settles can be reported to the rule once or twice in a row:
the scheduler is the same afterwards, with all its numbers and the order of its buckets. -/
theorem notify_notify :
    (∀ event, Lifecycle.simple.Settles event ∧ Lifecycle.default.Settles event) ∧
    ∀ {σ : Type} (scheduler : Scheduler σ) (number : RuleId) (rule : Rule σ) (tuple : Tuple)
      (event : EventKind), scheduler.rule? number = some rule → rule.lifecycle.Settles event →
      ∃ once, scheduler.notify number tuple event = .ok once ∧
        once.notify number tuple event = .ok once := by
  refine ⟨fun event => ⟨Lifecycle.settles_simple event, Lifecycle.settles_default event⟩, ?_⟩
  intro σ scheduler number rule tuple event known settles
  refine ⟨scheduler.move number rule tuple event, by rw [notify, known], ?_⟩
  rw [notify, rule?_move, known]
  exact congrArg Except.ok (move_move settles)

/-- A lifecycle in which an update leads back to where it finds the activation, and from where
activations fire. -/
def refreshing : Lifecycle where
  initial := "cold"
  transitions := ⟨[(("cold", .appeared), "warm"), (("warm", .updated), "warm"),
    (("warm", .fired), "cold"), (("warm", .disappeared), "cold")]⟩
  fireable := .singleton "warm"
  initial_waits := by decide
  fires_on := by decide

/-- Updates move the first of two activations under another priority, where it comes last.  The
second update leaves it there. -/
theorem notify_notify_refreshing :
    let rule : Rule Unit := { name := "watch", query := "edges", lifecycle := refreshing }
    let now : Scheduler Unit := performAll
      (new (.custom fun activation _ => if activation.lastEvent = .updated then 1 else 0) .fifo ()) [
      .notify ⟨0⟩ [.int 8] .updated, .notify ⟨0⟩ [.int 8] .appeared,
      .notify ⟨0⟩ [.int 7] .appeared, .addRule rule]
    let once := now.move ⟨0⟩ rule [.int 7] .updated
    now.rule? ⟨0⟩ = some rule ∧ refreshing.Settles .updated ∧
      once.conflicts.bucket 1 = [⟨2⟩, ⟨1⟩] ∧ once.notify ⟨0⟩ [.int 7] .updated = .ok once := by
  intro rule now once
  have rules : now.rules = [rule] := by
    simp only [now, performAll, List.foldr_cons, List.foldr_nil, rules_perform_notify]
    rfl
  have known : now.rule? ⟨0⟩ = some rule := by rw [rule?, rules]; rfl
  have settles : rule.lifecycle.Settles .updated := by decide
  refine ⟨known, settles, by decide +kernel, ?_⟩
  obtain ⟨twice, reported, again⟩ := notify_notify.2 now ⟨0⟩ rule [.int 7] .updated known settles
  rw [notify, known] at reported
  have same : once = twice := Except.ok.inj reported
  rw [same]
  exact again

end Scheduler
end LiveQuery
