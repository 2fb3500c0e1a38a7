import LiveQuery.Proofs.Schedule.Deeds

/-!
# What is selected

`Scheduler.urgency?` computes the priority of an activation from its record, without looking at the
conflict set.  In a coherent scheduler the activation that is selected next has the least urgency of
all that may fire (`Coherent.selectNext_cases`, `Coherent.selectNext_eq_none_iff`).

Under the inverted policy a disappearance makes a positive priority negative, and the more so the
larger it is.  So disappearances are served first, and among them those of the largest priority.
-/

namespace LiveQuery.Scheduler

variable {σ : Type} {scheduler now : Scheduler σ} {id : ActivationId} {priority : Int32}

/-- The priority of a live activation that may fire, computed from its present record. -/
def urgency? (scheduler : Scheduler σ) (id : ActivationId) : Option Int32 := do
  let activation ← scheduler.activations.get? id
  let rule ← scheduler.rule? activation.rule
  if rule.lifecycle.isFireable activation.state then
    some (scheduler.policy.priority activation rule.priority)
  else none

theorem Coherent.urgency?_eq (coherent : scheduler.Coherent) (id : ActivationId) :
    scheduler.urgency? id = scheduler.conflicts.priorityOf? id := by
  cases stored : scheduler.activations.get? id with
  | none =>
    have unfiled : scheduler.conflicts.priorityOf? id = none := by
      rw [Option.eq_none_iff_forall_ne_some]
      intro priority filed
      obtain ⟨activation, present⟩ := coherent.filed id priority filed
      cases stored.symm.trans present
    rw [unfiled, urgency?, stored]
    rfl
  | some activation =>
    obtain ⟨_, _, _, rule, known, _, filed⟩ := coherent.entered id activation stored
    simp [urgency?, stored, known, filed]

theorem Coherent.mem_bucket_iff (coherent : scheduler.Coherent) :
    id ∈ scheduler.conflicts.bucket priority ↔ scheduler.urgency? id = some priority := by
  rw [coherent.urgency?_eq, coherent.conflicts.filed]

/-- A live activation is in a state in which its rule lets it fire. -/
structure MayFire (scheduler : Scheduler σ) (activation : Activation) (rule : Rule σ) : Prop where
  live : activation ∈ scheduler.live
  known : scheduler.rule? activation.rule = some rule
  fireable : rule.lifecycle.isFireable activation.state = true

theorem Coherent.urgency?_eq_some_iff (coherent : scheduler.Coherent) :
    scheduler.urgency? id = some priority ↔ ∃ activation rule,
      scheduler.MayFire activation rule ∧ activation.id = id ∧
        scheduler.policy.priority activation rule.priority = priority := by
  rw [coherent.urgency?_eq, priorityOf?_eq_some_iff coherent]
  constructor
  · rintro ⟨activation, live, named, rule, known, fireable, same⟩
    exact ⟨activation, rule, ⟨live, known, fireable⟩, named, same⟩
  · rintro ⟨activation, rule, ⟨live, known, fireable⟩, named, same⟩
    exact ⟨activation, live, named, rule, known, fireable, same⟩

/-! ## The choice -/

theorem Coherent.selectNext_eq_some_iff (coherent : scheduler.Coherent) {activation : Activation}
    (live : activation ∈ scheduler.live) :
    scheduler.selectNext.2 = some activation ↔
      scheduler.conflicts.next.2 = some activation.id := by
  have selects : scheduler.selectNext.2 =
      scheduler.conflicts.next.2.bind scheduler.activations.get? := rfl
  rw [selects, Option.bind_eq_some_iff]
  constructor
  · rintro ⟨id, chosen, found⟩
    rw [chosen, (coherent.entered id activation found).named]
  · exact fun chosen => ⟨activation.id, chosen, (mem_live_iff coherent).mp live⟩

/-- What is selected, if anything may fire: an activation that the order of the conflict set picks
from those of the least urgency. -/
theorem Coherent.selectNext_cases (coherent : scheduler.Coherent) :
    (scheduler.selectNext.2 = none ∧ ∀ id, scheduler.urgency? id = none) ∨
    ∃ activation rule, scheduler.MayFire activation rule ∧
      let priority := scheduler.policy.priority activation rule.priority
      scheduler.selectNext.2 = some activation ∧
      ConflictSet.pick scheduler.conflicts.order scheduler.conflicts.draws
        (scheduler.conflicts.bucket priority) = some activation.id ∧
      ∀ other otherPriority, scheduler.urgency? other = some otherPriority →
        priority ≤ otherPriority := by
  rcases coherent.conflicts.next_cases with ⟨nothing, unfiled⟩ | ⟨priority, filled, least, chosen⟩
  · refine .inl ⟨by simp [Scheduler.selectNext, nothing], fun id => ?_⟩
    rw [coherent.urgency?_eq, unfiled]
  · obtain ⟨id, member, picked⟩ := ConflictSet.exists_pick scheduler.conflicts.order
      scheduler.conflicts.draws filled
    obtain ⟨activation, rule, mayFire, rfl, rfl⟩ :=
      coherent.urgency?_eq_some_iff.mp (coherent.mem_bucket_iff.mp member)
    refine .inr ⟨activation, rule, mayFire, ?_, picked, fun other otherPriority urgent => ?_⟩
    · exact (coherent.selectNext_eq_some_iff mayFire.live).mpr (chosen.trans picked)
    · exact least other otherPriority (coherent.urgency?_eq other ▸ urgent)

theorem Coherent.selectNext_eq_none_iff (coherent : scheduler.Coherent) :
    scheduler.selectNext.2 = none ↔ ∀ activation rule, ¬scheduler.MayFire activation rule := by
  rcases coherent.selectNext_cases with ⟨nothing, none⟩ | ⟨chosen, rule, mayFire, chose, _, _⟩
  · refine iff_of_true nothing fun activation rule mayFire => ?_
    have urgent := coherent.urgency?_eq_some_iff.mpr ⟨activation, rule, mayFire, rfl, rfl⟩
    cases (none activation.id).symm.trans urgent
  · exact iff_of_false (by rw [chose]; exact nofun) fun none => none chosen rule mayFire

/-! ## Disappearances under the inverted policy -/

/-- A positive priority has an opposite, which is not rounded. -/
theorem toInt_oppositePriority (positive : 0 < priority) :
    (oppositePriority priority).toInt = -priority.toInt := by
  have ordinary : priority ≠ Int32.minValue := by
    rintro rfl
    exact absurd positive (by decide)
  have above : 0 < priority.toInt := by simpa using Int32.lt_iff_toInt_lt.mp positive
  have below := priority.toInt_lt
  rw [oppositePriority, if_neg ordinary, Int32.toInt_neg]
  exact Int.bmod_eq_of_le (by omega) (by omega)

variable {order : BucketOrder} {host : σ} {gone : Activation} {rule : Rule σ}

/-- Under the inverted policy, as long as all priorities of rules are positive, the activation that
is selected was last moved by a disappearance if there is any such activation that may fire.  Among
those its rule has the largest priority. -/
theorem disappearances_first [Draw.Generator]
    (past : Evolves (new .invertedDisappearance order host) now)
    (positive : ∀ rule ∈ now.rules, 0 < rule.priority)
    (mayFire : now.MayFire gone rule) (disappeared : gone.lastEvent = .disappeared) :
    ∃ chosen governor, now.selectNext.2 = some chosen ∧ now.MayFire chosen governor ∧
      chosen.lastEvent = .disappeared ∧
      ∀ other otherRule, now.MayFire other otherRule → other.lastEvent = .disappeared →
        otherRule.priority ≤ governor.priority := by
  have follows := past.follows (coherent_new .invertedDisappearance order host)
  have coherent := follows.coherent
  have policy : now.policy = .invertedDisappearance := follows.policy
  have above {activation : Activation} {rule : Rule σ} (mayFire : now.MayFire activation rule) :
      0 < rule.priority := positive rule (List.mem_of_getElem? mayFire.known)
  -- the urgency of whatever disappeared and may fire
  have inverted {activation : Activation} {rule : Rule σ} (mayFire : now.MayFire activation rule)
      (disappeared : activation.lastEvent = .disappeared) :
      now.urgency? activation.id = some (oppositePriority rule.priority) := by
    refine coherent.urgency?_eq_some_iff.mpr ⟨activation, rule, mayFire, rfl, ?_⟩
    rw [policy, Policy.priority, if_pos disappeared]
  rcases coherent.selectNext_cases with ⟨_, none⟩ | ⟨chosen, governor, chosenFires, chose, _, least⟩
  · cases (none gone.id).symm.trans (inverted mayFire disappeared)
  have chosenDisappeared : chosen.lastEvent = .disappeared := by
    by_contra present
    have less := least gone.id _ (inverted mayFire disappeared)
    rw [policy, Policy.priority, if_neg present, Int32.le_iff_toInt_le,
      toInt_oppositePriority (above mayFire)] at less
    have goneAbove := Int32.lt_iff_toInt_lt.mp (above mayFire)
    have chosenAbove := Int32.lt_iff_toInt_lt.mp (above chosenFires)
    rw [Int32.toInt_zero] at goneAbove chosenAbove
    omega
  refine ⟨chosen, governor, chose, chosenFires, chosenDisappeared, ?_⟩
  intro other otherRule otherFires otherDisappeared
  have less := least other.id _ (inverted otherFires otherDisappeared)
  rw [policy, Policy.priority, if_pos chosenDisappeared, Int32.le_iff_toInt_le,
    toInt_oppositePriority (above chosenFires), toInt_oppositePriority (above otherFires)] at less
  rw [Int32.le_iff_toInt_le]
  omega

/-- Two matches are gone and one is new.  The rule with the larger priority goes first, although its
match was gone earlier and the last one comes first. -/
theorem larger_disappearance_first :
    let rule (priority : Int32) : Rule Unit :=
      { name := "watch", query := "edges", lifecycle := .default, priority }
    let ruled := performAll (new .invertedDisappearance .lifo ()) [.addRule (rule 9), .addRule (rule 2)]
    let now := ruled.performAll [
      .notify ⟨0⟩ [.int 7] .appeared,
      .notify ⟨0⟩ [.int 0] .disappeared, .notify ⟨1⟩ [.int 1] .disappeared,
      .notify ⟨1⟩ [.int 1] .fired, .notify ⟨1⟩ [.int 1] .appeared,
      .notify ⟨0⟩ [.int 0] .fired, .notify ⟨0⟩ [.int 0] .appeared]
    let gone : Activation := ⟨⟨1⟩, ⟨0⟩, [.int 0], "disappeared", .disappeared⟩
    now.selectNext.2 = some ⟨⟨2⟩, ⟨1⟩, [.int 1], "disappeared", .disappeared⟩ ∧
    (∀ rule ∈ now.rules, 0 < rule.priority) ∧ now.MayFire gone (rule 2) ∧
    ∃ chosen governor, now.selectNext.2 = some chosen ∧ now.MayFire chosen governor ∧
      chosen.lastEvent = .disappeared ∧
      ∀ other otherRule, now.MayFire other otherRule → other.lastEvent = .disappeared →
        otherRule.priority ≤ governor.priority := by
  intro rule ruled now gone
  have started := evolves_performAll (new .invertedDisappearance .lifo ())
    [.addRule (rule 9), .addRule (rule 2)]
  have past : Evolves ruled now := evolves_performAll ruled _
  have known : now.rule? ⟨0⟩ = some (rule 2) :=
    (past.follows (started.follows (coherent_new _ _ _)).coherent).rules ⟨0⟩ (rule 2) rfl
  have positive : ∀ rule ∈ now.rules, 0 < rule.priority := by decide +kernel
  have mayFire : now.MayFire gone (rule 2) := ⟨by decide +kernel, known, by decide +kernel⟩
  exact ⟨by decide +kernel, positive, mayFire,
    disappearances_first (started.trans past) positive mayFire rfl⟩

end LiveQuery.Scheduler
