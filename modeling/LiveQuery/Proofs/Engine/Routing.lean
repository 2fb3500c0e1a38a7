import LiveQuery.Engine
import LiveQuery.Proofs.Network.Events
import LiveQuery.Proofs.Schedule.States

/-!
# Routing the events of the network

`Scheduler.InStep` says that the states of all rules mirror the presence of the matches of their
queries in given match sets.  Three things happen to a scheduler in step.

* The differences to other match sets are routed to the rules.  Every event is about another match
  (`Differences.single`) and every rule is on one query, so no two notifications are about the same
  rule and tuple (`Routing.apart`), and the scheduler is in step with the other match sets
  (`InStep.route`).
* A rule fires.  Its activation moves on by the firing event, which tells nothing of the match, so
  the scheduler stays in step with the same match sets (`InStep.fire`).
* A rule is added.  It has no activations (`Coherent.stateOf?_eq_none`) and is told of the present
  matches, after which it mirrors them (`InStep.addRule`).
-/

namespace LiveQuery

/-- Among differences, no two events are about the same match. -/
theorem Differences.single {before after : List (OrderedSet Tuple)} {events : List MatchEvent}
    (differences : Differences before after events) {first second : MatchEvent}
    (firstMember : first ∈ events) (secondMember : second ∈ events)
    (query : first.query = second.query) (tuple : first.tuple = second.tuple) : first = second := by
  have one := (differences.exactly first).mp firstMember
  have other := (differences.exactly second).mp secondMember
  obtain ⟨_, firstKind, _⟩ := first
  obtain ⟨_, secondKind, _⟩ := second
  subst query tuple
  unfold MatchEvent.Corrects at one other
  cases firstKind <;> cases secondKind <;> simp_all

/-- A match that no event is about is there as before. -/
theorem Differences.matched_iff {before after : List (OrderedSet Tuple)} {events : List MatchEvent}
    (differences : Differences before after events) {query : QueryId} {tuple : Tuple}
    (silent : ∀ event ∈ events, ¬(event.query = query ∧ event.tuple = tuple)) :
    Matched after query tuple ↔ Matched before query tuple := by
  have appears := mt ((differences.exactly ⟨query, .appeared, tuple⟩).mpr) fun member =>
    silent _ member ⟨rfl, rfl⟩
  have disappears := mt ((differences.exactly ⟨query, .disappeared, tuple⟩).mpr) fun member =>
    silent _ member ⟨rfl, rfl⟩
  unfold MatchEvent.Corrects at appears disappears
  tauto

namespace Scheduler

variable {σ : Type} {scheduler : Scheduler σ} {routes : Table QueryId (List RuleId)}
  {sets after : List (OrderedSet Tuple)} {events : List MatchEvent}

/-- The rules on a query. -/
def routedTo (routes : Table QueryId (List RuleId)) (query : QueryId) : List RuleId :=
  (routes.get? query).getD []

/-- Every rule is on one query, once. -/
structure Routing (routes : Table QueryId (List RuleId)) (scheduler : Scheduler σ) : Prop where
  once : ∀ query, (routedTo routes query).Nodup
  single : ∀ first second number, number ∈ routedTo routes first → number ∈ routedTo routes second →
    first = second
  known : ∀ query, ∀ number ∈ routedTo routes query, ∃ rule, scheduler.rule? number = some rule

/-- The states of all rules mirror the presence of the matches of their queries. -/
structure InStep (routes : Table QueryId (List RuleId)) (sets : List (OrderedSet Tuple))
    (scheduler : Scheduler σ) : Prop where
  coherent : scheduler.Coherent
  routing : Routing routes scheduler
  plain : ∀ number rule, scheduler.rule? number = some rule → rule.Plain
  mirrors : ∀ query, ∀ number ∈ routedTo routes query, ∀ rule,
    scheduler.rule? number = some rule → ∀ present absent, rule.lifecycle.Mirrors present absent →
    ∀ tuple, (Matched sets query tuple → scheduler.stateOf? number tuple ∈ present) ∧
      (¬Matched sets query tuple → scheduler.stateOf? number tuple ∈ absent)

theorem Routing.congr {later : Scheduler σ} (routing : Routing routes scheduler)
    (rules : later.rules = scheduler.rules) : Routing routes later := by
  refine ⟨routing.once, routing.single, fun query number listed => ?_⟩
  rw [rule?, rules]
  exact routing.known query number listed

theorem InStep.carry {later : Scheduler σ} (inStep : InStep routes sets scheduler)
    (coherent : later.Coherent) (rules : later.rules = scheduler.rules)
    (mirrors : ∀ query, ∀ number ∈ routedTo routes query, ∀ rule,
      scheduler.rule? number = some rule → ∀ present absent, rule.lifecycle.Mirrors present absent →
      ∀ tuple, (Matched after query tuple → later.stateOf? number tuple ∈ present) ∧
        (¬Matched after query tuple → later.stateOf? number tuple ∈ absent)) :
    InStep routes after later := by
  have same (number : RuleId) : later.rule? number = scheduler.rule? number := by
    rw [rule?, rules, rule?]
  refine ⟨coherent, inStep.routing.congr rules, fun number rule known => ?_, ?_⟩
  · exact inStep.plain number rule (same number ▸ known)
  · exact fun query number listed rule known => mirrors query number listed rule (same number ▸ known)

theorem inStep_new [Draw.Generator] (policy : Policy) (order : BucketOrder) (host : σ) :
    (new policy order host).InStep .empty [] where
  coherent := coherent_new policy order host
  routing := ⟨fun _ => .nil, (fun _ _ _ listed => by cases listed), fun _ _ listed => by cases listed⟩
  plain _ _ known := by cases known
  mirrors _ _ listed := by cases listed

theorem InStep.grow (inStep : InStep routes sets scheduler)
    (inside : ∀ query, ∀ number ∈ routedTo routes query, query.index < sets.length)
    (more : List (OrderedSet Tuple)) : InStep routes (sets ++ more) scheduler := by
  refine ⟨inStep.coherent, inStep.routing, inStep.plain, ?_⟩
  intro query number listed rule known present absent mirrors tuple
  have older : Matched (sets ++ more) query tuple ↔ Matched sets query tuple := by
    unfold Matched
    rw [List.getElem?_append_left (inside query number listed)]
  rw [older]
  exact inStep.mirrors query number listed rule known present absent mirrors tuple

/-! ## Routing -/

/-- The notifications that events of the network are for the rules. -/
def notifications (routes : Table QueryId (List RuleId)) (events : List MatchEvent) :
    List Notification :=
  events.flatMap fun event =>
    (routedTo routes event.query).map (⟨·, event.tuple, .ofMatch event.kind⟩)

theorem route_eq_notifyEach (routes : Table QueryId (List RuleId)) (scheduler : Scheduler σ)
    (events : List MatchEvent) :
    scheduler.route routes events = scheduler.notifyEach (notifications routes events) := by
  induction events generalizing scheduler with
  | nil => rfl
  | cons event rest ih =>
    have here : scheduler.notifyAll ((routes.get? event.query).getD []) event.tuple
        (.ofMatch event.kind) = scheduler.notifyEach
          ((routedTo routes event.query).map (⟨·, event.tuple, .ofMatch event.kind⟩)) := by
      unfold notifyAll notifyEach
      rw [List.foldlM_map]
      rfl
    unfold route notifyEach notifications at ih ⊢
    rw [List.foldlM_cons, List.flatMap_cons, List.foldlM_append, here]
    exact bind_congr ih

theorem mem_notifications {notification : Notification} :
    notification ∈ notifications routes events ↔ ∃ event ∈ events,
      notification.rule ∈ routedTo routes event.query ∧ notification.tuple = event.tuple ∧
        notification.event = .ofMatch event.kind := by
  obtain ⟨number, tuple, kind⟩ := notification
  simp only [notifications, List.mem_flatMap, List.mem_map, Notification.mk.injEq]
  grind

/-- The notifications for differences are about different rules and tuples. -/
theorem Routing.apart (routing : Routing routes scheduler)
    (differences : Differences sets after events) :
    (notifications routes events).Pairwise fun first second =>
      ¬(first.rule = second.rule ∧ first.tuple = second.tuple) := by
  refine List.pairwise_flatMap.mpr ⟨fun event _ => ?_, differences.once.imp_of_mem ?_⟩
  · refine List.pairwise_map.mpr ((routing.once event.query).imp fun different same => ?_)
    exact different same.1
  · rintro one other oneMember otherMember different first firstMember second secondMember
    obtain ⟨number, firstListed, rfl⟩ := List.mem_map.mp firstMember
    obtain ⟨otherNumber, secondListed, rfl⟩ := List.mem_map.mp secondMember
    rintro ⟨rule, tuple⟩
    -- a rule is on one query, and no other event is about that match
    obtain rfl : number = otherNumber := rule
    have query := routing.single _ _ number firstListed secondListed
    exact different (differences.single oneMember otherMember query tuple)

theorem InStep.route (inStep : InStep routes sets scheduler)
    (differences : Differences sets after events) :
    ∃ routed, scheduler.route routes events = .ok routed ∧ InStep routes after routed ∧
      routed.rules = scheduler.rules := by
  obtain ⟨routed, reached, notified⟩ := inStep.coherent.exists_notifyEach
    (inStep.routing.apart differences) (by
      intro notification member
      obtain ⟨event, _, listed, _⟩ := mem_notifications.mp member
      exact inStep.routing.known event.query _ listed)
  refine ⟨routed, (route_eq_notifyEach ..).trans reached, ?_, notified.rules⟩
  refine inStep.carry notified.coherent notified.rules ?_
  intro query number listed rule known present absent mirrors tuple
  obtain ⟨there, gone⟩ := inStep.mirrors query number listed rule known present absent mirrors tuple
  by_cases told : ∃ event ∈ events, event.query = query ∧ event.tuple = tuple
  · obtain ⟨event, member, rfl, rfl⟩ := told
    have moved := notified.moved ⟨number, event.tuple, .ofMatch event.kind⟩
      (mem_notifications.mpr ⟨event, member, listed, rfl, rfl⟩) rule known
    dsimp only at moved
    have correct := (differences.exactly event).mp member
    unfold MatchEvent.Corrects at correct
    rw [moved]
    cases kind : event.kind with
    | appeared =>
      rw [kind] at correct
      exact ⟨fun _ => mirrors.appears _ (gone correct.2), fun absent => absurd correct.1 absent⟩
    | disappeared =>
      rw [kind] at correct
      exact ⟨fun present => absurd present correct.2, fun _ => mirrors.disappears _ (there correct.1)⟩
  · have silent (event : MatchEvent) (member : event ∈ events) :
        ¬(event.query = query ∧ event.tuple = tuple) := fun same => told ⟨event, member, same⟩
    have state : routed.stateOf? number tuple = scheduler.stateOf? number tuple := by
      refine notified.others number tuple fun notification member same => ?_
      obtain ⟨event, eventMember, here, about, _⟩ := mem_notifications.mp member
      refine silent event eventMember ⟨?_, about.symm.trans same.2.symm⟩
      exact inStep.routing.single _ _ _ (same.1 ▸ here) listed
    rw [state, differences.matched_iff silent]
    exact ⟨there, gone⟩

/-! ## Firing -/

theorem InStep.aside (inStep : InStep routes sets scheduler) (failures : List JobFailure)
    (handler : Option (JobFailure → σ → σ)) (isRunning : Bool) (host : σ) :
    InStep routes sets (scheduler.aside failures handler isRunning host) :=
  ⟨inStep.coherent.aside .., ⟨inStep.routing.once, inStep.routing.single, inStep.routing.known⟩,
    inStep.plain, inStep.mirrors⟩

theorem InStep.selectNext (inStep : InStep routes sets scheduler) :
    InStep routes sets scheduler.selectNext.1 :=
  ⟨inStep.coherent.selectNext, ⟨inStep.routing.once, inStep.routing.single, inStep.routing.known⟩,
    inStep.plain, inStep.mirrors⟩

theorem InStep.moveFired (inStep : InStep routes sets scheduler) {number : RuleId} {rule : Rule σ}
    (known : scheduler.rule? number = some rule) (tuple : Tuple) :
    InStep routes sets (scheduler.move number rule tuple .fired) := by
  have moves := scheduler.moves number rule tuple .fired
  refine inStep.carry (inStep.coherent.moves known moves) moves.rules ?_
  intro query other listed otherRule otherKnown present absent mirrors otherTuple
  obtain ⟨there, gone⟩ :=
    inStep.mirrors query other listed otherRule otherKnown present absent mirrors otherTuple
  rw [inStep.coherent.stateOf?_move]
  split
  next same =>
    obtain ⟨rfl, rfl⟩ := same
    cases known.symm.trans otherKnown
    exact ⟨fun present => mirrors.firesPresent _ (there present),
      fun absent => mirrors.firesAbsent _ (gone absent)⟩
  next => exact ⟨there, gone⟩

theorem InStep.fire (inStep : InStep routes sets scheduler) (id : ActivationId) :
    InStep routes sets (scheduler.fire id).1 := by
  obtain ⟨failures, host, outcome⟩ := fire_cases inStep.plain id
  have beside := inStep.aside failures scheduler.handler scheduler.isRunning host
  rcases outcome with same | ⟨number, rule, tuple, known, fired⟩
  · rw [same]
    exact beside
  · rw [fired]
    exact beside.moveFired known tuple

/-! ## New rules -/

/-- A rule that there is not has no activations. -/
theorem Coherent.stateOf?_eq_none (coherent : scheduler.Coherent) {number : RuleId}
    (unknown : scheduler.rule? number = none) (tuple : Tuple) :
    scheduler.stateOf? number tuple = none := by
  rw [Option.eq_none_iff_forall_ne_some]
  intro name state
  obtain ⟨activation, member, rfl, _⟩ := (stateOf?_eq_some_iff coherent).mp state
  obtain ⟨_, _, _, rule, known, _⟩ :=
    coherent.entered _ activation ((mem_live_iff coherent).mp member)
  cases known.symm.trans unknown

theorem routedTo_insert (routes : Table QueryId (List RuleId)) (query other : QueryId)
    (numbers : List RuleId) : routedTo (routes.insert query numbers) other =
      if other = query then numbers else routedTo routes other := by
  unfold routedTo
  rw [Table.get?_insert]
  split <;> rfl

/-- The rules on a query once one more rule has been added to one of the queries. -/
theorem mem_routedTo_insert {query about : QueryId} {number other : RuleId} :
    other ∈ routedTo (routes.insert query (routedTo routes query ++ [number])) about ↔
      other ∈ routedTo routes about ∨ other = number ∧ about = query := by
  rw [routedTo_insert]
  split
  next same => simp [same]
  next different => simp [different]

theorem rule?_addRule_self (scheduler : Scheduler σ) (rule : Rule σ) :
    (scheduler.addRule rule).1.rule? (scheduler.addRule rule).2 = some rule := by
  simp [rule?, Scheduler.addRule]

theorem Routing.fresh (routing : Routing routes scheduler) (rule : Rule σ) (query : QueryId) :
    (scheduler.addRule rule).2 ∉ routedTo routes query := by
  intro listed
  obtain ⟨_, known⟩ := routing.known query _ listed
  cases known.symm.trans (List.getElem?_eq_none (Nat.le_refl _))

theorem Routing.addRule (routing : Routing routes scheduler) (rule : Rule σ) (query : QueryId) :
    Routing (routes.insert query (routedTo routes query ++ [(scheduler.addRule rule).2]))
      (scheduler.addRule rule).1 where
  once about := by
    rw [routedTo_insert]
    split
    · refine List.nodup_append.mpr ⟨routing.once query, by simp, ?_⟩
      rintro other member _ single rfl
      exact routing.fresh rule query (List.mem_singleton.mp single ▸ member)
    · exact routing.once about
  single first second number firstListed secondListed := by
    rcases mem_routedTo_insert.mp firstListed with one | ⟨new, one⟩ <;>
      rcases mem_routedTo_insert.mp secondListed with two | ⟨again, two⟩
    · exact routing.single first second number one two
    · exact absurd (again ▸ one) (routing.fresh rule first)
    · exact absurd (new ▸ two) (routing.fresh rule second)
    · rw [one, two]
  known about number listed := by
    rcases mem_routedTo_insert.mp listed with old | ⟨rfl, _⟩
    · obtain ⟨older, known⟩ := routing.known about number old
      exact ⟨older, rule?_addRule known rule⟩
    · exact ⟨rule, rule?_addRule_self scheduler rule⟩

/-- What a new rule learns of the matches that there are. -/
theorem Coherent.exists_told (coherent : scheduler.Coherent) (rule : Rule σ)
    (present : OrderedSet Tuple) :
    ∃ told, present.toList.foldlM (·.notify (scheduler.addRule rule).2 · .appeared)
        (scheduler.addRule rule).1 = .ok told ∧
      told.Coherent ∧ told.rules = scheduler.rules ++ [rule] ∧
      (∀ tuple, told.stateOf? (scheduler.addRule rule).2 tuple =
        if tuple ∈ present then rule.lifecycle.advance none .appeared else none) ∧
      ∀ other tuple, other ≠ (scheduler.addRule rule).2 →
        told.stateOf? other tuple = scheduler.stateOf? other tuple := by
  set number := (scheduler.addRule rule).2
  have known : (scheduler.addRule rule).1.rule? number = some rule :=
    rule?_addRule_self scheduler rule
  have before (tuple : Tuple) : scheduler.stateOf? number tuple = none :=
    coherent.stateOf?_eq_none (List.getElem?_eq_none (Nat.le_refl _)) tuple
  have apart : (present.toList.map fun tuple => (⟨number, tuple, .appeared⟩ : Notification)).Pairwise
      fun first second => ¬(first.rule = second.rule ∧ first.tuple = second.tuple) :=
    List.pairwise_map.mpr (present.nodup_toList.imp fun different same => different same.2)
  obtain ⟨told, reached, notified⟩ := (coherent.addRule rule).exists_notifyEach apart (by
    intro notification member
    obtain ⟨_, _, rfl⟩ := List.mem_map.mp member
    exact ⟨rule, known⟩)
  rw [notifyEach, List.foldlM_map] at reached
  refine ⟨told, reached, notified.coherent, notified.rules, fun tuple => ?_,
    fun other tuple new => ?_⟩
  · split
    next there =>
      have moved := notified.moved ⟨number, tuple, .appeared⟩
        (List.mem_map.mpr ⟨tuple, OrderedSet.mem_toList.mpr there, rfl⟩) rule known
      dsimp only at moved
      rw [moved, stateOf?_addRule, before]
    next absent =>
      rw [notified.others number tuple fun notification among same => ?_, stateOf?_addRule, before]
      obtain ⟨_, member, rfl⟩ := List.mem_map.mp among
      exact absent (OrderedSet.mem_toList.mp (same.2 ▸ member))
  · refine notified.others other tuple fun notification among same => ?_
    obtain ⟨_, _, rfl⟩ := List.mem_map.mp among
    exact new same.1

/-- A new rule is in step once it has been told of the present matches. -/
theorem InStep.addRule (inStep : InStep routes sets scheduler) {rule : Rule σ} (plain : rule.Plain)
    {query : QueryId} {present : OrderedSet Tuple}
    (current : ∀ tuple, tuple ∈ present ↔ Matched sets query tuple) :
    ∃ told, present.toList.foldlM (·.notify (scheduler.addRule rule).2 · .appeared)
        (scheduler.addRule rule).1 = .ok told ∧
      InStep (routes.insert query (routedTo routes query ++ [(scheduler.addRule rule).2])) sets told ∧
      told.rules = scheduler.rules ++ [rule] := by
  obtain ⟨told, reached, coherent, rules, new, old⟩ := inStep.coherent.exists_told rule present
  have same (number : RuleId) : told.rule? number = (scheduler.addRule rule).1.rule? number := by
    rw [rule?, rules]
    rfl
  refine ⟨told, reached, ⟨coherent, (inStep.routing.addRule rule query).congr rules, ?_, ?_⟩, rules⟩
  · intro number other known
    rcases rule?_addRule_cases (same number ▸ known) with older | ⟨_, rfl⟩
    · exact inStep.plain number other older
    · exact plain
  · intro about number listed other known here gone mirrors tuple
    rcases mem_routedTo_insert.mp listed with older | ⟨rfl, rfl⟩
    · have apart : number ≠ (scheduler.addRule rule).2 :=
        fun fresh => inStep.routing.fresh rule about (fresh ▸ older)
      obtain ⟨_, knownBefore⟩ := inStep.routing.known about number older
      cases (rule?_addRule knownBefore rule).symm.trans (same number ▸ known)
      rw [old number tuple apart]
      exact inStep.mirrors about number older _ knownBefore here gone mirrors tuple
    · cases (rule?_addRule_self scheduler rule).symm.trans (same _ ▸ known)
      rw [new, ← current]
      split
      next there =>
        exact ⟨fun _ => mirrors.appears _ mirrors.starts, fun absent => absurd there absent⟩
      next absent => exact ⟨fun there => absurd there absent, fun _ => mirrors.starts⟩

end Scheduler
end LiveQuery
