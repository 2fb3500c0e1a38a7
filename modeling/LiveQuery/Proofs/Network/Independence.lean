import LiveQuery.Proofs.Network.Parallel

/-!
# Independence of history

What the nodes of a network remember depends on its wiring and its facts, and on nothing else.  Two
settled networks that have both in common are `Twins`.  Going through the nodes in order,
corresponding nodes of twins have received the same (`receipts_eq`), because the nodes before them
have sent the same.  So they remember the same (`Twins.alike`), although closures may have met their
edges in another order and the lists of rows may be permuted.  A change that succeeds in both of two
twins leaves twins and causes the same events (`Twins.change`), and what a reset rebuilds is a twin
of what was there (`ResetOutcome.unchanged`).

Installing the same plans leads to the same wiring, so that sessions with the same plans and facts
end with twins, whatever their histories were (`Session.independent_of_history`).
-/

namespace LiveQuery

/-! ## Cells that remember the same -/

namespace Cell

/-- Two cells do the same and remember the same rows, each as often; closures count the same edges
and reach the same pairs. -/
inductive Alike : Cell → Cell → Prop where
  | join {leftKey rightKey : List Nat} {output : List (Side × Nat)}
      {left right otherLeft otherRight : Bag Tuple}
      (sameLeft : ∀ row, left.count row = otherLeft.count row)
      (sameRight : ∀ row, right.count row = otherRight.count row) :
      Alike (.join leftKey rightKey output left right)
        (.join leftKey rightKey output otherLeft otherRight)
  | antiJoin {relation : RelationId} {key : List Nat} {kept blocked otherKept otherBlocked : Bag Tuple}
      (sameKept : ∀ row, kept.count row = otherKept.count row)
      (sameBlocked : ∀ row, blocked.count row = otherBlocked.count row) :
      Alike (.antiJoin relation key kept blocked) (.antiJoin relation key otherKept otherBlocked)
  | closure {relation : RelationId} {single swap : Bool} {state other : Closure Value}
      (sameEdges : ∀ source target,
        state.edgeMultiplicity source target = other.edgeMultiplicity source target)
      (sameReach : ∀ source target, state.reaches source target = other.reaches source target)
      (samePairs : state.pairs.Perm other.pairs) :
      Alike (.closure relation single swap state) (.closure relation single swap other)
  | production {produced other : Bag Tuple} (same : ∀ row, produced.count row = other.count row) :
      Alike (.production produced) (.production other)
  | stateless {cell : Cell} (forgetful : cell.isStateful = false) : Alike cell cell

variable {truth : CheckId → Tuple → Bool} {cell other : Cell} {received : Inlet → Multiset Tuple}

theorem count_eq {α : Type} [DecidableEq α] {memory another : Bag α}
    (same : (memory.occurrences : Multiset α) = another.occurrences) (value : α) :
    memory.count value = another.count value :=
  (Multiset.coe_eq_coe.mp same).count_eq value

theorem alike_of_holds (same : other.cleared = cell.cleared) (holds : cell.Holds received)
    (otherHolds : other.Holds received) : cell.Alike other := by
  cases cell with
  | join leftKey rightKey output left right =>
    cases other <;> cases same
    obtain ⟨leftHolds, rightHolds⟩ := holds
    obtain ⟨otherLeft, otherRight⟩ := otherHolds
    exact .join (count_eq (leftHolds.trans otherLeft.symm))
      (count_eq (rightHolds.trans otherRight.symm))
  | antiJoin relation key kept blocked =>
    cases other <;> cases same
    obtain ⟨keptHolds, blockedHolds⟩ := holds
    obtain ⟨otherKept, otherBlocked⟩ := otherHolds
    exact .antiJoin (count_eq (keptHolds.trans otherKept.symm))
      (count_eq (blockedHolds.trans otherBlocked.symm))
  | closure relation single swap state =>
    cases other <;> cases same
    next another =>
    obtain ⟨exact, edges⟩ := holds
    obtain ⟨otherExact, otherEdges⟩ := otherHolds
    have sameEdges := edges.trans otherEdges.symm
    have members (edge : Value × Value) :
        edge ∈ state.edges.occurrences ↔ edge ∈ another.edges.occurrences :=
      (Multiset.coe_eq_coe.mp sameEdges).mem_iff
    refine .closure (fun source target => count_eq sameEdges (source, target)) ?_
      (exact.perm_pairs otherExact members)
    intro source target
    rw [Bool.eq_iff_iff, exact.reaches_iff, otherExact.reaches_iff]
    exact Reach.path_congr members
  | production produced =>
    cases other <;> cases same
    next another =>
    have sameRows : (produced.occurrences : Multiset Tuple) = another.occurrences :=
      Eq.trans holds (Eq.symm otherHolds)
    exact .production (count_eq sameRows)
  | _ =>
    cases other <;> cases same
    exact .stateless rfl

theorem Alike.sent_eq (alike : cell.Alike other) :
    cell.sent truth received = other.sent truth received := by
  cases alike with
  | closure _ _ samePairs =>
    exact Multiset.coe_eq_coe.mpr (samePairs.filterMap _)
  | _ => rfl

theorem coe_stored_eq (same : other.cleared = cell.cleared) (holds : cell.Holds received)
    (otherHolds : other.Holds received) : (cell.stored : Multiset Tuple) = other.stored := by
  have alike := alike_of_holds same holds otherHolds
  cases stateful : cell.isStateful with
  | true =>
    have sameKind : other.isStateful = cell.isStateful := by
      cases alike <;> rfl
    calc
      (cell.stored : Multiset Tuple) = cell.sent (fun _ _ => true) received :=
        Network.stored_spec holds stateful
      _ = other.sent (fun _ _ => true) received := alike.sent_eq
      _ = other.stored :=
        (Network.stored_spec otherHolds (sameKind.trans stateful)).symm
  | false =>
    cases alike with
    | stateless => rfl
    | _ => cases stateful

end Cell

namespace Network

/-- Two networks have the same queries and the same nodes, and corresponding nodes remember the
same. -/
structure Alike (first second : Network) : Prop where
  queries : first.queries = second.queries
  nodes : List.Forall₂ (fun node other => node.cell.Alike other.cell ∧ node.label = other.label ∧
    node.inputs = other.inputs ∧ node.isShared = other.isShared) first.nodes second.nodes

/-- Two settled networks of the same wiring that hold the same facts. -/
structure Twins (truth : CheckId → Tuple → Bool) (first second : Network) : Prop where
  wired : first.Wired
  sameWiring : SameWiring first second
  settled : first.Settled truth
  otherSettled : second.Settled truth
  facts : first.facts.occurrences.Perm second.facts.occurrences

variable {truth : CheckId → Tuple → Bool} {checks others : Checks} {first second : Network}
  {received otherReceived : Receipts}

/-! ## Receipts -/

theorem sentAt_eq (same : SameWiring first second)
    (below : first.SettledBelow truth received first.nodes.length)
    (otherBelow : second.SettledBelow truth otherReceived second.nodes.length) {place : Nat}
    (inside : place < first.nodes.length) (receipts : received place = otherReceived place) :
    first.sentAt truth received place = second.sentAt truth otherReceived place := by
  have found := List.getElem?_eq_getElem inside
  obtain ⟨other, otherFound, blank⟩ := same.getElem? found
  have holds := (below place _ inside found).1
  have otherHolds := (otherBelow place other (same.length ▸ inside) otherFound).1
  rw [← receipts] at otherHolds
  have alike := Cell.alike_of_holds (Node.cleared_eq_iff.mp blank).1 holds otherHolds
  unfold sentAt
  rw [found, otherFound, ← receipts]
  exact alike.sent_eq

/-- Corresponding nodes have received the same, if the facts are the same. -/
theorem receipts_eq (wired : first.Wired) (same : SameWiring first second)
    (facts : first.facts.occurrences.Perm second.facts.occurrences)
    (below : first.SettledBelow truth received first.nodes.length)
    (otherBelow : second.SettledBelow truth otherReceived second.nodes.length) (place : Nat)
    (inside : place < first.nodes.length) : received place = otherReceived place := by
  induction place using Nat.strong_induction_on with
  | _ place ih =>
    have found := List.getElem?_eq_getElem inside
    obtain ⟨other, otherFound, blank⟩ := same.getElem? found
    obtain ⟨_, _, inputs, _⟩ := Node.cleared_eq_iff.mp blank
    obtain ⟨_, receives⟩ := below place _ inside found
    obtain ⟨_, otherReceives⟩ := otherBelow place other (same.length ▸ inside) otherFound
    -- inputs are facts, which are the same, or nodes before this one
    have supplied : ∀ entry ∈ first.nodes[place].inputs,
        first.suppliedBy truth received entry.1 =
          second.suppliedBy truth otherReceived entry.1 := by
      intro entry member
      obtain ⟨_, precedes, _⟩ := wired.of_mem_inputs found member
      cases input : entry.1 with
      | facts relation =>
        exact Multiset.coe_eq_coe.mpr (facts.filterMap (FactStore.tupleOf? relation))
      | node id =>
        rw [input] at precedes
        have before : id.index < place := by simpa [NodeInput.precedes] using precedes
        have earlier := before.trans inside
        exact sentAt_eq same below otherBelow earlier (ih id.index before earlier)
    funext inlet
    calc
      received place inlet =
          gathered (first.suppliedBy truth received) first.nodes[place].inputs inlet :=
        receives inlet
      _ = gathered (second.suppliedBy truth otherReceived) first.nodes[place].inputs inlet :=
        gathered_congr supplied
      _ = otherReceived place inlet := by rw [otherReceives, inputs]

theorem Twins.holds (twins : Twins truth first second) {place : Nat} {node : Node}
    (found : first.nodes[place]? = some node) :
    ∃ other received, second.nodes[place]? = some other ∧ other.cleared = node.cleared ∧
      node.cell.Holds received ∧ other.cell.Holds received := by
  obtain ⟨received, below⟩ := settled_iff.mp twins.settled
  obtain ⟨otherReceived, otherBelow⟩ := settled_iff.mp twins.otherSettled
  obtain ⟨other, otherFound, blank⟩ := twins.sameWiring.getElem? found
  have inside := (List.getElem?_eq_some_iff.mp found).1
  have otherHolds := (otherBelow place other (twins.sameWiring.length ▸ inside) otherFound).1
  rw [← receipts_eq twins.wired twins.sameWiring twins.facts below otherBelow place inside]
    at otherHolds
  exact ⟨other, received place, otherFound, blank, (below place node inside found).1, otherHolds⟩

theorem Twins.alike (twins : Twins truth first second) : first.Alike second where
  queries := twins.sameWiring.queries.symm
  nodes := by
    rw [List.forall₂_iff_get]
    refine ⟨twins.sameWiring.length.symm, fun place inside otherInside => ?_⟩
    obtain ⟨other, received, otherFound, blank, holds, otherHolds⟩ :=
      twins.holds (List.getElem?_eq_getElem inside)
    obtain ⟨cell, label, inputs, shared⟩ := Node.cleared_eq_iff.mp blank
    obtain ⟨_, rfl⟩ := List.getElem?_eq_some_iff.mp otherFound
    exact ⟨Cell.alike_of_holds cell holds otherHolds, label.symm, inputs.symm, shared.symm⟩

theorem Twins.matchSets_eq (twins : Twins truth first second) :
    first.matchSets = second.matchSets := by
  unfold matchSets
  rw [twins.sameWiring.queries]
  refine List.map_congr_left fun query member => ?_
  obtain ⟨_, blankFound, _⟩ := twins.wired.produced query member
  obtain ⟨node, found, _⟩ := of_getElem?_skeleton blankFound
  obtain ⟨other, received, otherFound, blank, holds, otherHolds⟩ := twins.holds found
  have stored := Cell.coe_stored_eq (Node.cleared_eq_iff.mp blank).1 holds otherHolds
  unfold produced
  rw [found, otherFound]
  refine OrderedSet.ext_mem fun row => ?_
  rw [OrderedSet.mem_ofList, OrderedSet.mem_ofList]
  exact (Multiset.coe_eq_coe.mp stored).mem_iff

/-! ## Changes -/

theorem perm_apply {facts otherFacts changed otherChanged : FactStore} {change : FactChange}
    {presence otherPresence : Presence} (same : facts.occurrences.Perm otherFacts.occurrences)
    (applied : facts.apply change = .ok (changed, presence))
    (otherApplied : otherFacts.apply change = .ok (otherChanged, otherPresence)) :
    changed.occurrences.Perm otherChanged.occurrences := by
  rw [facts_of_apply applied, facts_of_apply otherApplied]
  cases change.kind with
  | insert => exact same.cons change.fact
  | delete => exact same.erase change.fact

/-- A change that succeeds in both twins causes the same events and leaves twins. -/
theorem Twins.change (twins : Twins truth first second) (agree : checks.Agree truth)
    (othersAgree : others.Agree truth) {change : FactChange} {firstAfter secondAfter : Network}
    {events otherEvents : List MatchEvent}
    (changed : first.change checks change = (firstAfter, .ok events))
    (otherChanged : second.change others change = (secondAfter, .ok otherEvents)) :
    Twins truth firstAfter secondAfter ∧ events.Perm otherEvents := by
  have outcome := change_outcome checks first change
  have otherOutcome := change_outcome others second change
  rw [changed] at outcome
  rw [otherChanged] at otherOutcome
  have otherWired := twins.sameWiring.wired twins.wired
  obtain ⟨⟨_, applied⟩, differences⟩ := outcome.done_spec twins.wired
  obtain ⟨⟨_, otherApplied⟩, otherDifferences⟩ := otherOutcome.done_spec otherWired
  have later : Twins truth firstAfter secondAfter :=
    { wired := outcome.sameWiring.wired twins.wired
      sameWiring := outcome.sameWiring.symm.trans (twins.sameWiring.trans otherOutcome.sameWiring)
      settled := outcome.settled agree twins.wired fun _ => twins.settled
      otherSettled := otherOutcome.settled othersAgree otherWired fun _ => twins.otherSettled
      facts := perm_apply twins.facts applied otherApplied }
  rw [← twins.matchSets_eq, ← later.matchSets_eq] at otherDifferences
  exact ⟨later, differences.perm otherDifferences⟩

/-- The events of changes that are made one after another, as long as all of them succeed. -/
def eventsOf (network : Network) :
    List (Checks × FactChange) → Except Error (List (List MatchEvent))
  | [] => .ok []
  | (checks, first) :: rest =>
    match network.change checks first with
    | (_, .error error) => .error error
    | (network, .ok events) => (events :: ·) <$> network.eventsOf rest

theorem eventsOf_cons {network : Network} {checks : Checks} {change : FactChange}
    {rest : List (Checks × FactChange)} {told : List (List MatchEvent)}
    (succeeded : network.eventsOf ((checks, change) :: rest) = .ok told) :
    ∃ after events later, network.change checks change = (after, .ok events) ∧
      after.eventsOf rest = .ok later ∧ told = events :: later := by
  rw [eventsOf] at succeeded
  split at succeeded
  · cases succeeded
  next after events changed =>
    cases rested : after.eventsOf rest with
    | error error => rw [rested] at succeeded; cases succeeded
    | ok later =>
      rw [rested] at succeeded
      cases succeeded
      exact ⟨after, events, later, changed, rested, rfl⟩

theorem Twins.eventsOf (twins : Twins truth first second)
    {changes otherChanges : List (Checks × FactChange)}
    (agree : ∀ change ∈ changes, change.1.Agree truth)
    (othersAgree : ∀ change ∈ otherChanges, change.1.Agree truth)
    (same : changes.map Prod.snd = otherChanges.map Prod.snd)
    {told otherTold : List (List MatchEvent)} (succeeded : first.eventsOf changes = .ok told)
    (otherSucceeded : second.eventsOf otherChanges = .ok otherTold) :
    List.Forall₂ List.Perm told otherTold := by
  induction changes generalizing first second otherChanges told otherTold with
  | nil =>
    obtain rfl : otherChanges = [] := by simpa using same.symm
    cases succeeded
    cases otherSucceeded
    exact .nil
  | cons step rest ih =>
    obtain ⟨checks, change⟩ := step
    cases otherChanges with
    | nil => cases same
    | cons otherStep otherRest =>
      obtain ⟨others, otherChange⟩ := otherStep
      rw [List.map_cons, List.map_cons, List.cons.injEq] at same
      obtain ⟨rfl, sameRest⟩ := same
      obtain ⟨after, events, later, changed, rested, rfl⟩ := eventsOf_cons succeeded
      obtain ⟨otherAfter, otherEvents, otherLater, otherChanged, otherRested, rfl⟩ :=
        eventsOf_cons otherSucceeded
      rw [List.forall_mem_cons] at agree othersAgree
      obtain ⟨next, perm⟩ := twins.change agree.1 othersAgree.1 changed otherChanged
      exact .cons perm (ih next agree.2 othersAgree.2 sameRest rested otherRested)

/-! ## Resets -/

/-- A reset of a usable network that succeeds has nothing to correct, and rebuilds what was
there. -/
theorem ResetOutcome.unchanged {network after : Network} {events : List MatchEvent}
    (wired : network.Wired) (usable : network.reported = none) (settled : network.Settled truth)
    (agree : checks.Agree truth) (outcome : ResetOutcome checks network (after, .ok events)) :
    events = [] ∧ network.Alike after := by
  have shape := rebuild_shape checks { network with nodes := network.nodes.map Node.cleared }
  unfold Building.Ensures at shape
  have facts : after.facts = network.facts := by
    cases outcome with
    | done ran =>
      rw [ran] at shape
      exact shape.facts
  have twins : Twins truth network after :=
    { wired := wired
      sameWiring := outcome.sameWiring
      settled := settled
      otherSettled := outcome.settled agree wired
      facts := .of_eq (congrArg Bag.occurrences facts.symm) }
  refine ⟨?_, twins.alike⟩
  have present : network.reported.getD network.matchSets = network.matchSets := by rw [usable]; rfl
  have differences := outcome.differences (by rw [present, matchSets, List.length_map])
  rw [present, ← twins.matchSets_eq] at differences
  exact (differences.perm (differences_nil _)).eq_nil

end Network

namespace Session

variable {truth : CheckId → Tuple → Bool}

/-- Usable networks of sessions with the same plans are twins when they hold the same facts. -/
theorem twins_run {firstId secondId : NetworkId} {firstSteps secondSteps : List (Checks × Action)}
    (firstAgree : ∀ step ∈ firstSteps, step.1.Agree truth)
    (secondAgree : ∀ step ∈ secondSteps, step.1.Agree truth)
    (plans : ((new firstId).run firstSteps).plans = ((new secondId).run secondSteps).plans)
    (firstUsable : ((new firstId).run firstSteps).network.isPoisoned = false)
    (secondUsable : ((new secondId).run secondSteps).network.isPoisoned = false)
    (facts : ∀ fact, ((new firstId).run firstSteps).network.facts.count fact =
      ((new secondId).run secondSteps).network.facts.count fact) :
    ((new firstId).run firstSteps).network.Twins truth
      ((new secondId).run secondSteps).network := by
  have firstSound := (sound_new truth firstId).run firstAgree
  have secondSound := (sound_new truth secondId).run secondAgree
  have firstLaid := laid_run firstId firstSteps
  have secondLaid := laid_run secondId secondSteps
  rw [plans] at firstLaid
  refine ⟨firstSound.wired, firstLaid.sameWiring secondLaid, firstSound.settled ?_,
    secondSound.settled ?_, List.perm_iff_count.mpr facts⟩
  · simpa [Network.isPoisoned] using firstUsable
  · simpa [Network.isPoisoned] using secondUsable

/-- Take two sessions whose checks answer as told whenever they answer, however their actions were
interleaved and whichever of them failed.  If the same plans have been installed, neither network is
poisoned and both hold the same facts, then corresponding nodes remember the same, changes that
succeed in both cause the same events from then on, and a reset that succeeds reports nothing and
leaves what nodes remember as it was. -/
theorem independent_of_history (firstId secondId : NetworkId)
    (firstSteps secondSteps : List (Checks × Action))
    (firstAgree : ∀ step ∈ firstSteps, step.1.Agree truth)
    (secondAgree : ∀ step ∈ secondSteps, step.1.Agree truth) :
    let first := (new firstId).run firstSteps
    let second := (new secondId).run secondSteps
    first.plans = second.plans → first.network.isPoisoned = false →
    second.network.isPoisoned = false →
    (∀ fact, first.network.facts.count fact = second.network.facts.count fact) →
    first.network.Alike second.network ∧
    (∀ firstChanges secondChanges : List (Checks × FactChange),
      (∀ change ∈ firstChanges, change.1.Agree truth) →
      (∀ change ∈ secondChanges, change.1.Agree truth) →
      firstChanges.map Prod.snd = secondChanges.map Prod.snd →
      ∀ firstTold secondTold, first.network.eventsOf firstChanges = .ok firstTold →
        second.network.eventsOf secondChanges = .ok secondTold →
        List.Forall₂ List.Perm firstTold secondTold) ∧
    ∀ checks : Checks, checks.Agree truth → ∀ after events,
      first.network.reset checks = (after, .ok events) →
      events = [] ∧ first.network.Alike after := by
  intro first second plans firstUsable secondUsable facts
  have twins := twins_run firstAgree secondAgree plans firstUsable secondUsable facts
  refine ⟨twins.alike, ?_, ?_⟩
  · intro firstChanges secondChanges agree othersAgree same firstTold secondTold
    exact twins.eventsOf agree othersAgree same
  · intro checks agree after events succeeded
    have outcome := Network.reset_outcome checks first.network
    rw [succeeded] at outcome
    have usable : first.network.reported = none := by
      simpa [Network.isPoisoned] using firstUsable
    exact outcome.unchanged twins.wired usable twins.settled agree

/-- The values of the first relation, each joined with itself, that a check accepts. -/
def doubled : Plan where
  body := ⟨⟨"doubled", 0, ["x"], [.relation ⟨0⟩ [⟨0⟩] [], .relation ⟨0⟩ [⟨0⟩] [],
    .check "guard" ⟨0⟩ [⟨0⟩]], [⟨0⟩], {}⟩, by decide⟩
  arena := ⟨[⟨.enumerate ⟨0⟩, .singleton ⟨0⟩, .singleton ⟨0⟩⟩,
    ⟨.enumerate ⟨1⟩, .singleton ⟨1⟩, .singleton ⟨0⟩⟩,
    ⟨.join ⟨0⟩ ⟨1⟩, .ofList [⟨0⟩, ⟨1⟩], .singleton ⟨0⟩⟩,
    ⟨.apply ⟨2⟩ ⟨2⟩, .ofList [⟨0⟩, ⟨1⟩, ⟨2⟩], .singleton ⟨0⟩⟩,
    ⟨.project ⟨3⟩ [⟨0⟩], .ofList [⟨0⟩, ⟨1⟩, ⟨2⟩], .singleton ⟨0⟩⟩]⟩
  root := ⟨4⟩
  adornment := .empty
  hints := { shareNodes := true }

/-- The plan is installed before two occurrences of a fact arrive. -/
def smoothSteps : List (Checks × Action) :=
  let passing : Checks := fun _ _ => .ok true
  let insertion : Action := .change ⟨.insert, ⟨⟨0⟩, [.bool true]⟩⟩
  [(passing, .install [doubled]), (passing, insertion), (passing, insertion)]

/-- The plan is installed at the second attempt, between two occurrences of the fact.  A third one
makes the check fail; it is deleted when a reset has repaired the network. -/
def troubledSteps : List (Checks × Action) :=
  let passing : Checks := fun _ _ => .ok true
  let failing : Checks := fun _ _ => .error "closed"
  let insertion : Action := .change ⟨.insert, ⟨⟨0⟩, [.bool true]⟩⟩
  let deletion : Action := .change ⟨.delete, ⟨⟨0⟩, [.bool true]⟩⟩
  [(passing, insertion), (failing, .install [doubled]), (passing, .install [doubled]),
    (passing, insertion), (failing, insertion), (passing, .reset), (passing, deletion)]

/-- The production counts the match four times in both sessions, which shows when the fact leaves:
the match only disappears with the last occurrence. -/
theorem independent_of_history_doubled :
    let passing : Checks := fun _ _ => .ok true
    let deletion : FactChange := ⟨.delete, ⟨⟨0⟩, [.bool true]⟩⟩
    let first := (new ⟨0⟩).run smoothSteps
    let second := (new ⟨1⟩).run troubledSteps
    first.network.Alike second.network ∧
    (∀ told, first.network.eventsOf [(passing, deletion), (passing, deletion)] = .ok told →
      List.Forall₂ List.Perm told [[], [⟨⟨0⟩, .disappeared, [.bool true]⟩]]) ∧
    ∀ after events, first.network.reset passing = (after, .ok events) →
      events = [] ∧ first.network.Alike after := by
  intro passing deletion first second
  have passes : passing.Agree fun _ _ => true := fun _ _ _ answer => (Except.ok.inj answer).symm
  have fails : Checks.Agree (fun _ _ => .error "closed") fun _ _ => true :=
    fun _ _ _ answer => by cases answer
  have firstAgree : ∀ step ∈ smoothSteps, step.1.Agree fun _ _ => true := by
    simpa [smoothSteps] using passes
  have secondAgree : ∀ step ∈ troubledSteps, step.1.Agree fun _ _ => true := by
    simpa [troubledSteps] using ⟨passes, fails, passes, fails, passes⟩
  have facts : first.network.facts.occurrences = second.network.facts.occurrences := by
    decide +kernel
  obtain ⟨alike, events, resets⟩ := independent_of_history ⟨0⟩ ⟨1⟩ smoothSteps troubledSteps
    firstAgree secondAgree (by decide +kernel) (by decide +kernel) (by decide +kernel)
    fun fact => congrArg (List.count fact) facts
  have agree : ∀ change ∈ [(passing, deletion), (passing, deletion)],
      change.1.Agree fun _ _ => true := by
    simpa using passes
  have told : second.network.eventsOf [(passing, deletion), (passing, deletion)] =
      .ok [[], [⟨⟨0⟩, .disappeared, [.bool true]⟩]] := of_decide_eq_true (by decide +kernel)
  exact ⟨alike, fun _ succeeded => events _ _ agree agree rfl _ _ succeeded told,
    resets passing passes⟩

end Session
end LiveQuery
