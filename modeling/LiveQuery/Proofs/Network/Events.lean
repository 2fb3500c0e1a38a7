import Mathlib.Data.List.Nodup
import LiveQuery.Network.Change

/-!
# Events and match sets

`Tells before events after` says that the match sets of all queries become other ones by events that
happen one after another, each of which changes something.  Undoing such events leads back to where
they began (`Tells.undo`), and what is left of them when opposite events have cancelled out is every
difference between the first match sets and the last ones, once (`Tells.netOut`).  The corrections
that a reset makes out of two lists of match sets are the same differences
(`differences_corrections`).
-/

namespace LiveQuery

/-- The tuple is a match of the query. -/
def Matched (sets : List (OrderedSet Tuple)) (query : QueryId) (tuple : Tuple) : Prop :=
  ∃ set, sets[query.index]? = some set ∧ tuple ∈ set

namespace MatchEvent

/-- The event names a difference between two lists of match sets. -/
def Corrects (before after : List (OrderedSet Tuple)) (event : MatchEvent) : Prop :=
  match event.kind with
  | .appeared =>
    Matched after event.query event.tuple ∧ ¬Matched before event.query event.tuple
  | .disappeared =>
    Matched before event.query event.tuple ∧ ¬Matched after event.query event.tuple

/-- What an event does to the match set of its query. -/
def redoSet (event : MatchEvent) (set : OrderedSet Tuple) : OrderedSet Tuple :=
  match event.kind with
  | .appeared => set.insert event.tuple
  | .disappeared => set.erase event.tuple

/-- The match sets after an event. -/
def redo (event : MatchEvent) (sets : List (OrderedSet Tuple)) : List (OrderedSet Tuple) :=
  sets.modify event.query.index event.redoSet

/-- Only matches can disappear, and only other tuples can appear. -/
def Possible (sets : List (OrderedSet Tuple)) (event : MatchEvent) : Prop :=
  ∃ set, sets[event.query.index]? = some set ∧ (event.tuple ∈ set ↔ event.kind = .disappeared)

end MatchEvent

/-- The events name all differences between two lists of match sets, each of them once. -/
structure Differences (before after : List (OrderedSet Tuple)) (events : List MatchEvent) :
    Prop where
  once : events.Nodup
  exactly : ∀ event, event ∈ events ↔ event.Corrects before after

/-- The match sets become others by events that happen one after another. -/
inductive Tells : List (OrderedSet Tuple) → List MatchEvent → List (OrderedSet Tuple) → Prop where
  | nil (sets : List (OrderedSet Tuple)) : Tells sets [] sets
  | cons {event : MatchEvent} {events : List MatchEvent} {sets after : List (OrderedSet Tuple)}
      (possible : event.Possible sets) (rest : Tells (event.redo sets) events after) :
      Tells sets (event :: events) after

variable {before middle after sets : List (OrderedSet Tuple)} {event other : MatchEvent}
  {events first second : List MatchEvent}

namespace Tells

theorem append (left : Tells before first middle) (right : Tells middle second after) :
    Tells before (first ++ second) after := by
  induction left with
  | nil => exact right
  | cons possible _ ih => exact .cons possible (ih right)

end Tells

/-! ## Undoing events -/

namespace MatchEvent

theorem mem_redoSet {set : OrderedSet Tuple} {tuple : Tuple} :
    tuple ∈ event.redoSet set ↔
      if tuple = event.tuple then event.kind = .appeared else tuple ∈ set := by
  unfold redoSet
  cases event.kind with
  | appeared => simp only [OrderedSet.mem_insert]; grind
  | disappeared => simp only [OrderedSet.mem_erase]; grind

theorem redo_eq_set {set changed : OrderedSet Tuple} (found : sets[event.query.index]? = some set)
    (turned : ∀ tuple, tuple ∈ changed ↔
      if tuple = event.tuple then event.kind = .appeared else tuple ∈ set) :
    event.redo sets = sets.set event.query.index changed := by
  have same : event.redoSet set = changed :=
    OrderedSet.ext_mem fun tuple => mem_redoSet.trans (turned tuple).symm
  refine List.ext_getElem? ?_
  intro place
  unfold redo
  rw [List.getElem?_modify, List.getElem?_set]
  split
  next here =>
    subst here
    rw [if_pos (List.getElem?_eq_some_iff.mp found).1, found, ← same]
    rfl
  · exact Option.map_id'

theorem undo_redo (possible : event.Possible sets) : event.undo (event.redo sets) = sets := by
  obtain ⟨set, found, fresh⟩ := possible
  refine List.ext_getElem? ?_
  intro place
  unfold undo redo
  rw [List.modify_modify_eq, List.getElem?_modify]
  split
  next here =>
    subst here
    rw [found]
    refine congrArg some (OrderedSet.ext_mem ?_)
    intro tuple
    have redone := @mem_redoSet event set tuple
    cases kind : event.kind <;> grind [OrderedSet.mem_insert, OrderedSet.mem_erase]
  · exact Option.map_id'

end MatchEvent

/-- Undoing the events, the last one first, leads back to the match sets before them. -/
theorem Tells.undo (tells : Tells before events after) :
    events.foldr MatchEvent.undo after = before := by
  induction tells with
  | nil => rfl
  | cons possible _ ih => rw [List.foldr_cons, ih, MatchEvent.undo_redo possible]

/-! ## Cancelling events -/

namespace MatchEvent

theorem sameMatch_iff :
    event.sameMatch other = true ↔ other.query = event.query ∧ other.tuple = event.tuple := by
  simp only [sameMatch, Bool.and_eq_true, decide_eq_true_eq, @eq_comm _ event.query,
    @eq_comm _ event.tuple]

theorem matched_redo (possible : event.Possible sets) (query : QueryId) (tuple : Tuple) :
    Matched (event.redo sets) query tuple ↔
      if query = event.query ∧ tuple = event.tuple then event.kind = .appeared
      else Matched sets query tuple := by
  obtain ⟨set, found, fresh⟩ := possible
  unfold Matched redo
  rw [List.getElem?_modify]
  split
  next here =>
    obtain rfl : query = event.query := Id.ext here.symm
    simp [found, mem_redoSet]
  next elsewhere =>
    have different : query ≠ event.query := fun same => elsewhere (same ▸ rfl)
    simp [different]

theorem Possible.matched_iff (possible : event.Possible sets) :
    Matched sets event.query event.tuple ↔ event.kind = .disappeared := by
  obtain ⟨set, found, fresh⟩ := possible
  simp [Matched, found, fresh]

end MatchEvent

/-- An event leaves the differences about other matches alone. -/
theorem MatchEvent.corrects_redo (possible : event.Possible middle)
    (different : event.sameMatch other = false) :
    other.Corrects before (event.redo middle) ↔ other.Corrects before middle := by
  have apart : ¬(other.query = event.query ∧ other.tuple = event.tuple) := by
    rw [← sameMatch_iff, different]
    exact Bool.false_ne_true
  unfold Corrects
  simp only [matched_redo possible, if_neg apart]

theorem Differences.cancel (differences : Differences before middle events)
    (possible : event.Possible middle) (open_ : events.any event.sameMatch = true) :
    Differences before (event.redo middle) (events.filter (!event.sameMatch ·)) where
  once := differences.once.filter _
  exactly other := by
    obtain ⟨earlier, member, same⟩ := List.any_eq_true.mp open_
    have difference := (differences.exactly earlier).mp member
    obtain ⟨sameQuery, sameTuple⟩ := MatchEvent.sameMatch_iff.mp same
    have fresh := possible.matched_iff
    rw [List.mem_filter, differences.exactly]
    cases equal : event.sameMatch other with
    | false => simp [MatchEvent.corrects_redo possible equal]
    | true =>
      obtain ⟨otherQuery, otherTuple⟩ := MatchEvent.sameMatch_iff.mp equal
      have now : Matched (event.redo middle) other.query other.tuple ↔ event.kind = .appeared := by
        rw [MatchEvent.matched_redo possible, if_pos ⟨otherQuery, otherTuple⟩]
      unfold MatchEvent.Corrects at difference ⊢
      rw [sameQuery, sameTuple] at difference
      rw [otherQuery, otherTuple] at now ⊢
      cases kind : event.kind <;> cases otherKind : other.kind <;>
        cases earlierKind : earlier.kind <;> simp_all

theorem Differences.extend (differences : Differences before middle events)
    (possible : event.Possible middle) (closed : ¬events.any event.sameMatch = true) :
    Differences before (event.redo middle) (events ++ [event]) := by
  have none_ (other : MatchEvent) (member : other ∈ events) : event.sameMatch other = false := by
    simpa using fun same => closed (List.any_eq_true.mpr ⟨other, member, same⟩)
  have self : event.sameMatch event = true := MatchEvent.sameMatch_iff.mpr ⟨rfl, rfl⟩
  have new : event ∉ events := fun member => by simp [none_ event member] at self
  refine ⟨?_, fun other => ?_⟩
  · rw [List.nodup_append]
    refine ⟨differences.once, List.nodup_singleton _, ?_⟩
    intro old member last isLast same
    obtain rfl := List.mem_singleton.mp isLast
    exact new (same ▸ member)
  · rw [List.mem_append, List.mem_singleton]
    cases equal : event.sameMatch other with
    | false =>
      rw [differences.exactly, MatchEvent.corrects_redo possible equal, or_iff_left]
      intro same
      subst same
      exact absurd self (by simp [equal])
    | true =>
      have absent : other ∉ events := fun member => by simp [none_ other member] at equal
      -- neither kind of event about the match was among the differences
      have silent (kind : MatchEventKind) :
          ¬(⟨event.query, kind, event.tuple⟩ : MatchEvent).Corrects before middle := by
        rw [← differences.exactly]
        intro member
        have := none_ _ member
        simp [MatchEvent.sameMatch] at this
      have appears := silent .appeared
      have disappears := silent .disappeared
      have fresh := possible.matched_iff
      obtain ⟨otherQuery, otherTuple⟩ := MatchEvent.sameMatch_iff.mp equal
      have now : Matched (event.redo middle) other.query other.tuple ↔ event.kind = .appeared := by
        rw [MatchEvent.matched_redo possible, if_pos ⟨otherQuery, otherTuple⟩]
      obtain ⟨query, kind, tuple⟩ := event
      obtain ⟨_, otherKind, _⟩ := other
      subst otherQuery otherTuple
      unfold MatchEvent.Corrects at appears disappears ⊢
      cases kind <;> cases otherKind <;> simp_all

/-- An event that follows differences cancels the one about the same match, if there is one. -/
theorem Differences.follow (differences : Differences before middle events)
    (possible : event.Possible middle) :
    Differences before (event.redo middle)
      (if events.any event.sameMatch then events.filter (!event.sameMatch ·)
        else events ++ [event]) := by
  split
  next open_ => exact differences.cancel possible open_
  next closed => exact differences.extend possible closed

/-- There is only one way to name all differences, up to their order. -/
theorem Differences.perm {others : List MatchEvent} (differences : Differences before after events)
    (otherDifferences : Differences before after others) : events.Perm others := by
  rw [List.perm_ext_iff_of_nodup differences.once otherDifferences.once]
  intro event
  rw [differences.exactly, otherDifferences.exactly]

theorem differences_nil (sets : List (OrderedSet Tuple)) : Differences sets sets [] where
  once := .nil
  exactly event := by
    unfold MatchEvent.Corrects
    cases event.kind <;> simp

/-- When opposite events have cancelled out, the differences are left. -/
theorem Tells.netOut (tells : Tells before events after) :
    Differences before after (Network.netOut events) := by
  have following (current : List (OrderedSet Tuple)) (open_ : List MatchEvent)
      (differences : Differences before current open_) (tells : Tells current events after) :
      Differences before after (events.foldl (fun open_ event =>
        if open_.any event.sameMatch then open_.filter (!event.sameMatch ·)
        else open_ ++ [event]) open_) := by
    clear * - differences tells
    induction tells generalizing open_ with
    | nil => exact differences
    | cons possible _ ih =>
      rw [List.foldl_cons]
      exact ih _ (differences.follow possible)
  exact following before [] (differences_nil before) tells

/-! ## Corrections -/

theorem mem_corrections {query : QueryId} {old new : OrderedSet Tuple} :
    event ∈ Network.corrections query old new ↔ event.query = query ∧
      match event.kind with
      | .appeared => event.tuple ∈ new ∧ event.tuple ∉ old
      | .disappeared => event.tuple ∈ old ∧ event.tuple ∉ new := by
  obtain ⟨about, kind, tuple⟩ := event
  simp only [Network.corrections, List.mem_append, List.mem_map, OrderedSet.mem_toList,
    OrderedSet.mem_diff]
  cases kind <;> simp [@eq_comm _ query, and_comm]

theorem nodup_corrections (query : QueryId) (old new : OrderedSet Tuple) :
    (Network.corrections query old new).Nodup := by
  unfold Network.corrections
  rw [List.nodup_append]
  refine ⟨?_, ?_, ?_⟩
  · exact (OrderedSet.nodup_toList _).map fun first second same => by cases same; rfl
  · exact (OrderedSet.nodup_toList _).map fun first second same => by cases same; rfl
  · intro first disappears second appears same
    obtain ⟨_, _, rfl⟩ := List.mem_map.mp disappears
    obtain ⟨_, _, rfl⟩ := List.mem_map.mp appears
    cases same

/-- The corrections of all queries are the differences. -/
theorem differences_corrections (length : before.length = after.length) :
    Differences before after ((before.zip after).zipIdx.flatMap fun ((old, new), place) =>
      Network.corrections ⟨place⟩ old new) where
  once := by
    rw [List.nodup_flatMap]
    refine ⟨fun entry _ => nodup_corrections _ _ _, ?_⟩
    have places : ((before.zip after).zipIdx.map Prod.snd).Nodup := by
      rw [List.zipIdx_map_snd]
      exact List.nodup_range'
    refine (List.pairwise_map.mp places).imp fun {first second} apart => ?_
    intro event one other
    -- a correction names the query that it is about
    refine apart ?_
    calc
      first.2 = event.query.index := congrArg Id.index (mem_corrections.mp one).1.symm
      _ = second.2 := congrArg Id.index (mem_corrections.mp other).1
  exactly event := by
    have listed (old new : OrderedSet Tuple) (place : Nat) :
        ((old, new), place) ∈ (before.zip after).zipIdx ↔
          before[place]? = some old ∧ after[place]? = some new := by
      rw [List.mem_zipIdx_iff_getElem?, List.getElem?_zip_eq_some]
    constructor
    · intro member
      obtain ⟨⟨⟨old, new⟩, place⟩, entry, member⟩ := List.mem_flatMap.mp member
      obtain ⟨oldFound, newFound⟩ := (listed old new place).mp entry
      obtain ⟨about, difference⟩ := mem_corrections.mp member
      unfold MatchEvent.Corrects Matched
      rw [about, oldFound, newFound]
      cases kind : event.kind <;> simpa [kind] using difference
    · intro difference
      have inside : event.query.index < before.length := by
        unfold MatchEvent.Corrects Matched at difference
        by_contra outside
        rw [List.getElem?_eq_none (by omega), List.getElem?_eq_none (by omega)] at difference
        cases kind : event.kind <;> simp [kind] at difference
      have oldFound := List.getElem?_eq_getElem inside
      have newFound := List.getElem?_eq_getElem (length ▸ inside)
      refine List.mem_flatMap.mpr ⟨_, (listed _ _ _).mpr ⟨oldFound, newFound⟩, ?_⟩
      rw [mem_corrections]
      unfold MatchEvent.Corrects Matched at difference
      rw [oldFound, newFound] at difference
      refine ⟨rfl, ?_⟩
      cases kind : event.kind <;> simpa [kind] using difference

end LiveQuery
