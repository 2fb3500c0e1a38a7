import Mathlib.Data.List.Basic
import LiveQuery.Closure.Basic

/-!
# Counting and threshold crossings

A pair of partitions appears with its first witness (`mem_gain`) and disappears with its last one
(`mem_lose`), and a run of gains or losses reports a pair at most once.  `Witnesses.settle` first
gives up some occurrences and then gains others.  If it never gains what it has given up, no pair is
reported twice, and the events are exactly the pairs whose count went from zero to positive or back
(`crossings_settle`).

`count_settle` is the balance: items that change their pair are given up under the old one and
gained under the new one, next to those that only go or only come.  Items that keep their pair need
not be looked at.
-/

namespace LiveQuery

/-- The pair of partitions that an event is about. -/
def ReachabilityEvent.pair (event : ReachabilityEvent) : PartitionId × PartitionId :=
  (event.source, event.target)

/-- The count of the pair went from zero to positive if it appeared, and back if it did not. -/
def ReachabilityEvent.Crosses (before after : PartitionId × PartitionId → Nat)
    (event : ReachabilityEvent) : Prop :=
  if event.appeared then before event.pair = 0 ∧ 0 < after event.pair
  else 0 < before event.pair ∧ after event.pair = 0

/-- The events name every pair whose count has crossed the threshold, once. -/
structure Crossings (before after : PartitionId × PartitionId → Nat)
    (events : List ReachabilityEvent) : Prop where
  once : events.Nodup
  exactly : ∀ event, event ∈ events ↔ event.Crosses before after

theorem crossings_nil (counts : PartitionId × PartitionId → Nat) : Crossings counts counts [] where
  once := .nil
  exactly event := by
    unfold ReachabilityEvent.Crosses
    split <;> simp only [List.not_mem_nil, false_iff] <;> omega

namespace Witnesses

variable {witnesses : Witnesses} {key : PartitionId × PartitionId} {event : ReachabilityEvent}

/-! ## Gaining -/

theorem presenceOnAdd_eq_appeared {pair : PartitionId × PartitionId} :
    witnesses.presenceOnAdd pair = .appeared ↔ witnesses.count pair = 0 := by
  unfold Bag.presenceOnAdd
  have present := @Bag.contains_iff _ _ witnesses pair
  have count := @Bag.count_pos_iff _ _ witnesses pair
  split <;> grind

theorem gain_cons (witnesses : Witnesses) (first : PartitionId × PartitionId)
    (rest : List (PartitionId × PartitionId)) :
    witnesses.gain (first :: rest) = ((gain (witnesses.add first) rest).1,
      (if witnesses.count first = 0 then [⟨true, first.1, first.2⟩] else []) ++
        (gain (witnesses.add first) rest).2) := by
  rw [gain]
  simp only [← presenceOnAdd_eq_appeared]
  cases witnesses.presenceOnAdd first <;> simp

theorem count_gain (witnesses : Witnesses) (gained : List (PartitionId × PartitionId))
    (key : PartitionId × PartitionId) :
    (witnesses.gain gained).1.count key = witnesses.count key + gained.count key := by
  induction gained generalizing witnesses with
  | nil => simp [gain]
  | cons first rest ih =>
    rw [gain_cons, ih, Bag.count_add, List.count_cons]
    simp only [beq_iff_eq]
    omega

theorem gain_append (witnesses : Witnesses) (first second : List (PartitionId × PartitionId)) :
    witnesses.gain (first ++ second) = (((witnesses.gain first).1.gain second).1,
      (witnesses.gain first).2 ++ ((witnesses.gain first).1.gain second).2) := by
  induction first generalizing witnesses with
  | nil => rfl
  | cons head rest ih => rw [List.cons_append, gain_cons, gain_cons, ih, List.append_assoc]

/-- A pair appears when its first witness is gained. -/
theorem mem_gain {gained : List (PartitionId × PartitionId)} :
    event ∈ (witnesses.gain gained).2 ↔
      event.appeared = true ∧ event.pair ∈ gained ∧ witnesses.count event.pair = 0 := by
  induction gained generalizing witnesses with
  | nil => simp [gain]
  | cons first rest ih =>
    have here : event = ⟨true, first.1, first.2⟩ ↔ event.appeared = true ∧ event.pair = first := by
      obtain ⟨_, _, _⟩ := event
      simp [ReachabilityEvent.pair, Prod.ext_iff]
    rw [gain_cons, List.mem_append, ih, Bag.count_add, List.mem_cons]
    grind

theorem nodup_gain (witnesses : Witnesses) (gained : List (PartitionId × PartitionId)) :
    (witnesses.gain gained).2.Nodup := by
  induction gained generalizing witnesses with
  | nil => exact .nil
  | cons first rest ih =>
    rw [gain_cons]
    split
    · refine List.nodup_cons.mpr ⟨fun member => ?_, ih _⟩
      have zero := (mem_gain.mp member).2.2
      simp [ReachabilityEvent.pair] at zero
    · exact ih _

/-! ## Losing -/

theorem presenceOnErase?_eq_disappeared {pair : PartitionId × PartitionId} :
    witnesses.presenceOnErase? pair = some .disappeared ↔ witnesses.count pair = 1 := by
  unfold Bag.presenceOnErase?
  split <;> simp_all

theorem lose_cons (witnesses : Witnesses) (first : PartitionId × PartitionId)
    (rest : List (PartitionId × PartitionId)) :
    witnesses.lose (first :: rest) = ((lose (witnesses.erase first) rest).1,
      (if witnesses.count first = 1 then [⟨false, first.1, first.2⟩] else []) ++
        (lose (witnesses.erase first) rest).2) := by
  rw [lose]
  simp only [← presenceOnErase?_eq_disappeared]
  rcases witnesses.presenceOnErase? first with _ | (_ | _ | _) <;> simp

theorem count_lose (witnesses : Witnesses) (lost : List (PartitionId × PartitionId))
    (key : PartitionId × PartitionId) :
    (witnesses.lose lost).1.count key = witnesses.count key - lost.count key := by
  induction lost generalizing witnesses with
  | nil => simp [lose]
  | cons first rest ih =>
    rw [lose_cons, ih, Bag.count_erase, List.count_cons]
    simp only [beq_iff_eq, @eq_comm _ key]
    omega

theorem lose_append (witnesses : Witnesses) (first second : List (PartitionId × PartitionId)) :
    witnesses.lose (first ++ second) = (((witnesses.lose first).1.lose second).1,
      (witnesses.lose first).2 ++ ((witnesses.lose first).1.lose second).2) := by
  induction first generalizing witnesses with
  | nil => rfl
  | cons head rest ih => rw [List.cons_append, lose_cons, lose_cons, ih, List.append_assoc]

/-- A pair disappears when its last witness is given up. -/
theorem mem_lose {lost : List (PartitionId × PartitionId)} :
    event ∈ (witnesses.lose lost).2 ↔ event.appeared = false ∧
      0 < witnesses.count event.pair ∧ witnesses.count event.pair ≤ lost.count event.pair := by
  induction lost generalizing witnesses with
  | nil => simp [lose]; omega
  | cons first rest ih =>
    have here : event = ⟨false, first.1, first.2⟩ ↔
        event.appeared = false ∧ event.pair = first := by
      obtain ⟨_, _, _⟩ := event
      simp [ReachabilityEvent.pair, Prod.ext_iff]
    rw [lose_cons, List.mem_append, ih, Bag.count_erase, List.count_cons]
    grind

theorem nodup_lose (witnesses : Witnesses) (lost : List (PartitionId × PartitionId)) :
    (witnesses.lose lost).2.Nodup := by
  induction lost generalizing witnesses with
  | nil => exact .nil
  | cons first rest ih =>
    rw [lose_cons]
    split
    next last =>
      refine List.nodup_cons.mpr ⟨fun member => ?_, ih _⟩
      have positive := (mem_lose.mp member).2.1
      simp [ReachabilityEvent.pair, last] at positive
    · exact ih _

/-! ## Settling -/

/-- Gives up some occurrences and then gains others. -/
def settle (witnesses : Witnesses) (lost gained : List (PartitionId × PartitionId)) :
    Witnesses × List ReachabilityEvent :=
  let less := witnesses.lose lost
  let more := less.1.gain gained
  (more.1, less.2 ++ more.2)

/-- If nothing is gained that was given up, the events are the threshold crossings. -/
theorem crossings_settle {lost gained : List (PartitionId × PartitionId)}
    (apart : ∀ key ∈ lost, key ∉ gained) :
    Crossings witnesses.count (witnesses.settle lost gained).1.count
      (witnesses.settle lost gained).2 where
  once := by
    refine List.nodup_append.mpr ⟨nodup_lose _ _, nodup_gain _ _, ?_⟩
    intro loss lossMember gain gainMember same
    have down := (mem_lose.mp lossMember).1
    have up := (mem_gain.mp gainMember).1
    rw [same, up] at down
    cases down
  exactly event := by
    simp only [settle, List.mem_append, mem_lose, mem_gain, count_lose, count_gain,
      ReachabilityEvent.Crosses]
    have apart : 0 < lost.count event.pair → gained.count event.pair = 0 := fun given =>
      List.count_eq_zero.mpr (apart event.pair (List.count_pos_iff.mp given))
    rw [← List.count_pos_iff]
    cases event.appeared <;> simp only [Bool.false_eq_true, if_false, if_true, true_and,
      false_and, or_false, false_or, reduceCtorEq] <;> omega

theorem settle_append_gained (witnesses : Witnesses)
    (lost gained more : List (PartitionId × PartitionId)) :
    witnesses.settle lost (gained ++ more) =
      let settled := witnesses.settle lost gained
      ((settled.1.gain more).1, settled.2 ++ (settled.1.gain more).2) := by
  simp only [settle, gain_append, List.append_assoc]

theorem settle_append_lost (witnesses : Witnesses)
    (more lost gained : List (PartitionId × PartitionId)) :
    witnesses.settle (more ++ lost) gained =
      let less := witnesses.lose more
      ((less.1.settle lost gained).1, less.2 ++ (less.1.settle lost gained).2) := by
  simp only [settle, lose_append, List.append_assoc]

variable {β : Type} {before after : β → Option (PartitionId × PartitionId)}

/-- Items that change their pair balance the counts under the old and the new pairs. -/
theorem count_changed (items : List β) (key : PartitionId × PartitionId) :
    (items.filterMap before).count key +
        ((items.filter fun item => before item ≠ after item).filterMap after).count key =
      (items.filterMap after).count key +
        ((items.filter fun item => before item ≠ after item).filterMap before).count key := by
  induction items with
  | nil => rfl
  | cons item rest ih =>
    by_cases same : before item = after item
    · rw [List.filter_cons_of_neg (by simp [same])]
      simp only [List.filterMap_cons, same]
      cases after item with
      | none => exact ih
      | some pair =>
        simp only [List.count_cons]
        omega
    · rw [List.filter_cons_of_pos (by simp [same])]
      simp only [List.filterMap_cons]
      cases before item <;> cases after item <;> simp only [List.count_cons] <;> omega

/-- If the items that are gone, or stay but change their pair, are given up under the old pairs, and
those that are fresh, or stay but change their pair, are gained under the new ones, then what was
counted before under the old pairs is counted afterwards under the new ones. -/
theorem count_settle {kept gone fresh : List β} (key : PartitionId × PartitionId)
    (counted : witnesses.count key = ((kept ++ gone).filterMap before).count key) :
    let changed := kept.filter fun item => before item ≠ after item
    (witnesses.settle ((gone ++ changed).filterMap before)
        ((changed ++ fresh).filterMap after)).1.count key =
      ((kept ++ fresh).filterMap after).count key := by
  intro changed
  have balance : (kept.filterMap before).count key + (changed.filterMap after).count key =
      (kept.filterMap after).count key + (changed.filterMap before).count key :=
    count_changed kept key
  have given : (changed.filterMap before).count key ≤ (kept.filterMap before).count key :=
    (List.filter_sublist.filterMap before).count_le key
  simp only [settle, count_gain, count_lose, List.filterMap_append, List.count_append] at counted ⊢
  omega

end Witnesses
end LiveQuery
