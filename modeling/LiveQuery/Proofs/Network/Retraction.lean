import LiveQuery.Proofs.Network.Session

/-!
# Retractions find their rows

A spreading change drains a queue of messages (`propagate_drains`), so that along every connection
rows arrive in the order in which they were sent.  In every state of the queue the memories hold
what has been received (`InFlight.drains`), and a row that leaves has been received before, so it is
remembered (`InFlight.remembers`).

As a consequence no operation on a network ever reports an internal error (`retractions_found`).
The operations fail for few reasons, which are listed: a change is refused by the network or by the
fact store, or stopped by a check (`change_error`); an install is refused because of its plans, or a
plan turns out to be malformed, or a check fails (`install_error`); and only a check stops a reset
(`reset_error`).  A node that misses a row would be one more reason, and is none.
-/

namespace LiveQuery

/-- The cell remembers a row that has arrived on an inlet, if it remembers rows at all. -/
def Cell.Remembers (inlet : Inlet) (row : Tuple) : Cell → Prop
  | .join _ _ _ left right =>
    row ∈ if inlet = .right then right.occurrences else left.occurrences
  | .antiJoin _ _ kept blocked =>
    row ∈ if inlet = .right then blocked.occurrences else kept.occurrences
  | .closure _ _ _ state => ∀ edge, Operator.edge? row = some edge → edge ∈ state.edges.occurrences
  | .production produced => row ∈ produced.occurrences
  | _ => True

theorem Cell.Holds.remembers {cell : Cell} {received : Inlet → Multiset Tuple} {inlet : Inlet}
    {row : Tuple} (holds : cell.Holds received) (accepts : cell.Accepts inlet)
    (arrived : row ∈ received inlet) : cell.Remembers inlet row := by
  cases cell with
  | join leftKey rightKey output left right =>
    obtain ⟨leftHolds, rightHolds⟩ := holds
    rcases accepts with rfl | rfl
    · rwa [← leftHolds, Multiset.mem_coe] at arrived
    · rwa [← rightHolds, Multiset.mem_coe] at arrived
  | antiJoin relation key kept blocked =>
    obtain ⟨keptHolds, blockedHolds⟩ := holds
    rcases accepts with rfl | rfl
    · rwa [← keptHolds, Multiset.mem_coe] at arrived
    · rwa [← blockedHolds, Multiset.mem_coe] at arrived
  | closure relation single swap state =>
    obtain rfl : inlet = .single := accepts
    intro edge found
    rw [← Multiset.mem_coe, holds.2, Multiset.mem_filterMap]
    exact ⟨row, arrived, found⟩
  | production produced =>
    obtain rfl : inlet = .single := accepts
    have produced' : (produced.occurrences : Multiset Tuple) = received .single := holds
    rwa [← produced', Multiset.mem_coe] at arrived
  | _ => trivial

namespace Network

variable {checks : Checks} {truth : CheckId → Tuple → Bool} {network : Network}
  {received : Receipts}

/-! ## What has been received is remembered -/

/-- A row that leaves is remembered by the node that it leaves. -/
theorem InFlight.remembers {message : Message} {rest : List Message}
    (flight : network.InFlight truth received (message :: rest))
    (leaves : message.delta.kind = .delete) :
    ∃ node, network.nodes[message.node.index]? = some node ∧
      node.cell.Remembers message.inlet message.delta.row := by
  obtain ⟨node, found, accepts⟩ := flight.addressed message List.mem_cons_self
  refine ⟨node, found, (flight.holds _ node found).remembers accepts ?_⟩
  -- what the node is still owed begins with this row
  have owed := flight.owed message.node.index node found message.inlet
  rw [pendingAt_cons, if_pos ⟨rfl, rfl⟩] at owed
  obtain ⟨⟨place⟩, inlet, ⟨kind, row⟩⟩ := message
  obtain rfl : kind = .delete := leaves
  obtain ⟨smaller, before, _⟩ := owed.of_delete
  rw [before]
  exact Multiset.mem_cons_self row smaller

/-! ## How operations fail -/

theorem apply_error {facts : FactStore} {change : FactChange} {error : Error}
    (refused : facts.apply change = .error error) :
    ∃ relation tuple, error = .factNotFound relation tuple := by
  unfold FactStore.apply at refused
  split at refused
  · cases refused
  · unfold FactStore.delete at refused
    split at refused
    · cases refused
    · cases refused
      exact ⟨_, _, rfl⟩

theorem demandUsable_error {error : Error} (refused : network.demandUsable = .error error) :
    error = .networkPoisoned := by
  unfold demandUsable at refused
  split at refused
  · cases refused
    rfl
  · cases refused

/-- A change is refused by the network or by the fact store, or a check fails while it spreads. -/
theorem change_error (agree : checks.Agree truth) (wired : network.Wired)
    (settled : network.reported = none → network.Settled truth) {change : FactChange} {error : Error}
    (failed : (network.change checks change).2 = .error error) :
    error = .networkPoisoned ∨ (∃ relation tuple, error = .factNotFound relation tuple) ∨
      ∃ label detail, error = .evaluationFault label detail := by
  unfold Network.change at failed
  split at failed
  next refused =>
    cases failed
    exact .inl (demandUsable_error refused)
  next usable =>
    split at failed
    next refused =>
      cases failed
      exact .inr (.inl (apply_error refused))
    next facts presence applied =>
      obtain ⟨received, flight⟩ :=
        (settled (reported_of_demandUsable usable)).changeFacts wired applied
      have same : SameWiring network { network with facts } := ⟨rfl, rfl⟩
      have ends := InFlight.propagate agree (same.wired wired) flight
      unfold Spread.Ends at ends
      dsimp only at failed
      split at failed
      next fault stopped =>
        cases failed
        rw [stopped] at ends
        exact .inr (.inr ends)
      next => cases failed

/-- Why an install fails. -/
inductive FailsInstall : Error → Prop where
  | poisoned : FailsInstall .networkPoisoned
  | mismatched (expected actual : Nat) : FailsInstall (.arityMismatch expected actual)
  | stopped {error : Error} (stops : StopsBuilding error) : FailsInstall error

theorem FailsInstall.malformed (detail : String) : FailsInstall (.malformedPlan detail) :=
  .stopped (.malformed detail)

theorem demandInstallable_spec (name : String) (arity : Nat) (plan : Plan) :
    Fulfils (demandInstallable name arity plan)
      (fun _ => plan.isAdorned = false ∧ plan.demandSound = .ok ()) FailsInstall := by
  unfold demandInstallable
  dsimp only
  -- the conditions are checked one after another
  split
  · exact FailsInstall.malformed _
  split
  · exact FailsInstall.mismatched _ _
  split
  · exact FailsInstall.malformed _
  next unadorned =>
  cases sound : plan.demandSound with
  | ok => exact ⟨by simpa using unadorned, rfl⟩
  | error error =>
    obtain ⟨detail, rfl⟩ := Plan.malformed_of_demandSound sound
    exact FailsInstall.malformed detail

theorem demandInstall_spec (network : Network) (plans : List Plan) :
    Fulfils (network.demandInstall plans)
      (fun _ => network.reported = none ∧
        ∀ plan ∈ plans, plan.isAdorned = false ∧ plan.demandSound = .ok ()) FailsInstall := by
  unfold demandInstall
  cases usable : network.demandUsable with
  | error error =>
    obtain rfl := demandUsable_error usable
    exact FailsInstall.poisoned
  | ok =>
    cases plans.head? with
    | none => exact FailsInstall.malformed _
    | some first =>
      have all := Fulfils.forM plans
        (demandInstallable_spec first.body.query first.body.parameters.length)
      exact all.bind fun _ accepted => ⟨reported_of_demandUsable usable, accepted⟩

/-- An install is refused, or a plan cannot be built, or a check fails while nodes are primed. -/
theorem install_error (agree : checks.Agree truth) (wired : network.Wired)
    (settled : network.reported = none → network.Settled truth) {plans : List Plan} {error : Error}
    (failed : (network.install checks plans).2 = .error error) : FailsInstall error := by
  have demanded := demandInstall_spec network plans
  unfold install at failed
  split at failed
  next refused =>
    cases failed
    exact demanded.of_error refused
  next name arity accepted =>
    obtain ⟨usable, sound⟩ := demanded.of_ok accepted
    have built := build_spec checks wired name arity plans
    unfold Building.Ensures at built
    split at failed
    next => cases failed
    next stopped =>
      cases failed
      rw [stopped] at built
      exact .stopped (built.reason
        (fun plan member => Plan.grounded_of_demandSound (sound plan member).2) truth agree
        (settled usable))

theorem reset_error (agree : checks.Agree truth) (wired : network.Wired) {error : Error}
    (failed : (network.reset checks).2 = .error error) :
    ∃ label detail, error = .evaluationFault label detail := by
  have outcome := reset_outcome checks network
  rw [← Prod.eta (network.reset checks), failed] at outcome
  exact outcome.fault agree wired

theorem nodes_change (usable : network.reported = none) {change : FactChange} {facts : FactStore}
    {presence : Presence} (applied : network.facts.apply change = .ok (facts, presence)) :
    (network.change checks change).1.nodes = (spreadOf checks network facts change).network.nodes := by
  have accepted : network.demandUsable = .ok () := by simp [demandUsable, isPoisoned, usable]
  unfold Network.change
  rw [accepted, applied]
  dsimp only
  split
  next error failed => rfl
  next finished => rfl

end Network

namespace Session

variable {truth : CheckId → Tuple → Bool} {checks : Checks}

/-- In every session whose checks answer as told whenever they answer, operations fail for the
listed reasons only, none of which is internal.  While a change spreads from a usable network, every
row that leaves finds itself remembered where it arrives, and every node can tell what it has sent,
if no check fails. -/
theorem retractions_found (id : NetworkId) (steps : List (Checks × Action))
    (agree : ∀ step ∈ steps, step.1.Agree truth) (agreeNow : checks.Agree truth) :
    let network := ((new id).run steps).network
    (∀ change error, (network.change checks change).2 = .error error →
      error = .networkPoisoned ∨ (∃ relation tuple, error = .factNotFound relation tuple) ∨
        ∃ label detail, error = .evaluationFault label detail) ∧
    (∀ plans error, (network.install checks plans).2 = .error error →
      error = .networkPoisoned ∨ (∃ expected actual, error = .arityMismatch expected actual) ∨
        (∃ detail, error = .malformedPlan detail) ∨
        ∃ label detail, error = .evaluationFault label detail) ∧
    (∀ error, (network.reset checks).2 = .error error →
      ∃ label detail, error = .evaluationFault label detail) ∧
    (network.isPoisoned = false →
      (∀ node : NodeId, node.index < network.nodeCount →
        Answers (network.output checks node) fun _ => True) ∧
      ∀ change facts presence, network.facts.apply change = .ok (facts, presence) →
        let wave := broadcast (network.readers (.facts change.fact.relation))
          [⟨change.kind, change.fact.tuple⟩]
        let spread := network.spreadOf checks facts change
        (network.change checks change).1.nodes = spread.network.nodes ∧
        Network.DrainsTo checks { network with facts } wave spread [] ∧
        ∀ now message rest, Network.Drains checks { network with facts } wave now (message :: rest) →
          message.delta.kind = .delete →
          ∃ node, now.nodes[message.node.index]? = some node ∧
            node.cell.Remembers message.inlet message.delta.row) := by
  have sound := (sound_new truth id).run agree
  intro network
  refine ⟨fun change error => Network.change_error agreeNow sound.wired sound.settled,
    fun plans error failed => ?_, fun error => Network.reset_error agreeNow sound.wired,
    fun healthy => ?_⟩
  · cases Network.install_error agreeNow sound.wired sound.settled failed with
    | poisoned => exact .inl rfl
    | mismatched expected actual => exact .inr (.inl ⟨expected, actual, rfl⟩)
    | stopped stops =>
      cases stops with
      | malformed detail => exact .inr (.inr (.inl ⟨detail, rfl⟩))
      | faulted label detail => exact .inr (.inr (.inr ⟨label, detail, rfl⟩))
  · have usable : network.reported = none := by simpa [Network.isPoisoned] using healthy
    have settled := sound.settled usable
    refine ⟨fun node inside => ?_, fun change facts presence applied => ?_⟩
    · obtain ⟨received, below⟩ := Network.settled_iff.mp settled
      exact (Network.output_spec agreeNow sound.wired below inside inside).mono fun _ _ => trivial
    · obtain ⟨received, flight⟩ := settled.changeFacts sound.wired applied
      have same : Network.SameWiring network { network with facts } := ⟨rfl, rfl⟩
      refine ⟨Network.nodes_change usable applied, Network.propagate_drains _ _ _, ?_⟩
      intro now message rest drains leaves
      obtain ⟨later, still⟩ := flight.drains agreeNow (same.wired sound.wired) drains
      exact still.remembers leaves

/-- The values of the first relation that are not values of the first relation. -/
def contradictory : Plan where
  body := ⟨⟨"contradictory", 0, ["x"], [.relation ⟨0⟩ [⟨0⟩] [], .absent ⟨0⟩ [⟨0⟩]], [⟨0⟩], {}⟩,
    by decide⟩
  arena := ⟨[⟨.enumerate ⟨0⟩, .singleton ⟨0⟩, .singleton ⟨0⟩⟩,
    ⟨.apply ⟨0⟩ ⟨1⟩, .ofList [⟨0⟩, ⟨1⟩], .singleton ⟨0⟩⟩,
    ⟨.project ⟨1⟩ [⟨0⟩], .ofList [⟨0⟩, ⟨1⟩], .singleton ⟨0⟩⟩]⟩
  root := ⟨2⟩
  adornment := .empty
  hints := {}

/-- A fact that leaves reaches both sides of an anti-join, first where it blocks and then where it
is kept.  So the production gets the match before it loses it, all in one change. -/
theorem retractions_found_contradictory :
    let checks : Checks := fun _ _ => .ok true
    let fact : Fact := ⟨⟨0⟩, [.bool true]⟩
    let steps := [(checks, .install [contradictory]), (checks, .change ⟨.insert, fact⟩)]
    let network := ((new ⟨0⟩).run steps).network
    let wave := broadcast (network.readers (.facts ⟨0⟩)) [⟨.delete, [.bool true]⟩]
    (network.change checks ⟨.delete, fact⟩).2 = .ok [] ∧
    (network.spreadOf checks .empty ⟨.delete, fact⟩).events =
      [⟨⟨0⟩, .appeared, [.bool true]⟩, ⟨⟨0⟩, .disappeared, [.bool true]⟩] ∧
    ∀ now message rest, Network.Drains checks { network with facts := .empty } wave now
        (message :: rest) →
      message.delta.kind = .delete →
      ∃ node, now.nodes[message.node.index]? = some node ∧
        node.cell.Remembers message.inlet message.delta.row := by
  intro checks fact steps network wave
  have agree : checks.Agree fun _ _ => true := fun _ _ _ answer => (Except.ok.inj answer).symm
  have agrees : ∀ step ∈ steps, step.1.Agree fun _ _ => true := by
    intro step member
    simp only [steps, List.mem_cons, List.not_mem_nil, or_false] at member
    rcases member with rfl | rfl <;> exact agree
  have usable : network.isPoisoned = false := by decide +kernel
  have applied : network.facts.apply ⟨.delete, fact⟩ = .ok (.empty, .disappeared) := by
    have stored : network.facts.occurrences = [fact] := by decide +kernel
    rw [show network.facts = ⟨[fact]⟩ from congrArg Bag.mk stored]
    rfl
  have found := (retractions_found ⟨0⟩ steps agrees agree).2.2.2 usable
  exact ⟨of_decide_eq_true (by decide +kernel), by decide +kernel,
    (found.2 ⟨.delete, fact⟩ .empty .disappeared applied).2.2⟩

end Session
end LiveQuery
