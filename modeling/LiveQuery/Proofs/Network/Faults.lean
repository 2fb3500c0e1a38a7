import LiveQuery.Proofs.Network.Carrying
import LiveQuery.Proofs.Network.Staffing
import LiveQuery.Proofs.Plan.Reading

/-!
# Faults while a change spreads

A check is run on every row that reaches it while a change spreads, also on rows that leave again
before the change has settled.  So a check can fail on a row that the batch evaluator never has.
The theorem of this file says when (`Session.faults_of_change`), and the example at its end shows
that it happens (`Session.change_disputed`).

## The rows on the way

An anti-join is told the change directly by the facts, and nothing else ever arrives there
(`Drains.pendingAt_suffix`).  So it remembers the facts as they were before the change or as they
are after it (`blocked_of_drains`), and is always blocked at least by the facts that are there both
before and after (`bars_of_drains`).  All facts that arrive anywhere are there before or after.
Hence the memories and the messages hold only interim rows of the plans (`carries_of_drains`),
whatever the order of the deliveries, and a delivery that fails has brought such a row to a step
whose check fails on it (`exists_check`).

## The three cases

Let a check of a plan fail on an interim row of the step below it.

* The batch evaluator fails on the plan over the facts before the change.
* It fails on the plan over the facts after the change.
* It does not have the row over either of them.  One of the two stores has one more fact than the
  other, which is the changed one.  The row is not had over the larger store, so something that is
  there keeps it away; and it is not had over the smaller one, so it needs the fact.  Hence the step
  reads the relation of the fact in both ways (`Plan.Interim.uses`).
-/

namespace LiveQuery

/-! ## Facts before and after a change -/

namespace FactStore

/-- The larger store has one more fact, or has that fact more often. -/
def Gains (smaller larger : FactStore) (fact : Fact) : Prop :=
  ∀ relation tuple, larger.Has relation tuple ↔
    ⟨relation, tuple⟩ = fact ∨ smaller.Has relation tuple

variable {before after : FactStore} {change : FactChange} {presence : Presence}

theorem gains_of_insert {fact : Fact}
    (applied : before.apply ⟨.insert, fact⟩ = .ok (after, presence)) : before.Gains after fact := by
  cases applied
  exact fun _ _ => List.mem_cons

theorem gains_of_delete {fact : Fact}
    (applied : before.apply ⟨.delete, fact⟩ = .ok (after, presence)) : after.Gains before fact := by
  simp only [FactStore.apply, FactStore.delete] at applied
  split at applied
  next known =>
    cases applied
    have present : fact ∈ before.occurrences := by
      rw [← Bag.count_pos_iff]
      by_contra absent
      simp [Bag.presenceOnErase?, Nat.eq_zero_of_not_pos absent] at known
    intro relation tuple
    by_cases same : ⟨relation, tuple⟩ = fact
    · simpa [same, Has] using present
    · simp [same, Has, Bag.mem_erase_of_ne same]
  · cases applied

/-- A change that the store accepts leads to a larger store or comes from one. -/
theorem gains_of_apply (applied : before.apply change = .ok (after, presence)) :
    before.Gains after change.fact ∨ after.Gains before change.fact := by
  obtain ⟨kind, fact⟩ := change
  cases kind with
  | insert => exact .inl (gains_of_insert applied)
  | delete => exact .inr (gains_of_delete applied)

theorem has_of_absorbed (applied : before.apply change = .ok (after, .absorbed)) :
    before.Has change.fact.relation change.fact.tuple ∧
      after.Has change.fact.relation change.fact.tuple := by
  obtain ⟨kind, fact⟩ := change
  cases kind with
  | insert =>
    have present : before.presenceOnAdd fact = .absorbed :=
      congrArg Prod.snd (Except.ok.inj applied)
    obtain rfl : before.add fact = after := congrArg Prod.fst (Except.ok.inj applied)
    refine ⟨?_, List.mem_cons_self⟩
    unfold Bag.presenceOnAdd at present
    split at present
    next there => exact Bag.contains_iff.mp there
    · cases present
  | delete =>
    simp only [FactStore.apply, FactStore.delete] at applied
    split at applied
    next presence known =>
      cases applied
      have several : 1 < before.count fact := by
        by_contra few
        have counted : before.count fact = 0 ∨ before.count fact = 1 := by omega
        rcases counted with none | one
        · simp [Bag.presenceOnErase?, none] at known
        · simp [Bag.presenceOnErase?, one] at known
      constructor
      · show fact ∈ before.occurrences
        exact Bag.count_pos_iff.mp (by omega)
      · show fact ∈ (before.erase fact).occurrences
        rw [← Bag.count_pos_iff, Bag.count_erase, if_pos rfl]
        omega
    · cases applied

theorem Gains.encloses {fact : Fact} (gains : before.Gains after fact) :
    before.Encloses after before after where
  least _ _ there := ⟨there, (gains _ _).mpr (.inr there)⟩
  most _ _ there := there.elim (fun there => (gains _ _).mpr (.inr there)) id

end FactStore

/-- Let one store have one more fact than the other.  A row that a step has in between but over
neither of them comes from the relation of the fact, both ways. -/
theorem Plan.Interim.uses {checks : Checks} {truth : CheckId → Tuple → Bool} {plan : Plan}
    {smaller larger before after : FactStore} {step : SubPlanId} {row : Tuple} {fact : Fact}
    (interim : plan.Interim truth before after step row) (agree : checks.Agree truth)
    (gains : smaller.Gains larger fact) (encloses : smaller.Encloses larger before after)
    (lacksSmaller : plan.Lacks checks smaller step row)
    (lacksLarger : plan.Lacks checks larger step row) :
    ¬smaller.Has fact.relation fact.tuple ∧
      plan.Uses (Operator.DrawsFrom fact.relation) step ∧
      plan.Uses (Operator.BlockedBy fact.relation) step := by
  have between := interim.between agree encloses
  have drawn := between.overSmaller.uses lacksSmaller
  have blocked := between.overLarger.uses lacksLarger
  -- the stores differ in this fact only
  have differs (relation : RelationId) (gap : Plan.Gap smaller larger relation) :
      ¬smaller.Has fact.relation fact.tuple ∧ fact.relation = relation := by
    obtain ⟨tuple, there, missing⟩ := gap
    rcases (gains relation tuple).mp there with same | here
    · rw [← same]
      exact ⟨missing, rfl⟩
    · exact absurd here missing
  obtain ⟨_, relation, gap, _⟩ := drawn.exists_operator
  refine ⟨(differs relation gap).1, drawn.mono ?_, blocked.mono ?_⟩
  · rintro operator ⟨other, gap, draws⟩
    exact (differs other gap).2 ▸ draws
  · rintro operator ⟨other, gap, blocks⟩
    exact (differs other gap).2 ▸ blocks

namespace Network

variable {checks : Checks} {truth : CheckId → Tuple → Bool} {network now : Network}
  {change : FactChange} {facts : FactStore} {presence : Presence} {left : List Message}

/-! ## Anti-joins while a change spreads -/

/-- Nothing is sent to an inlet that no node leads to. -/
theorem Drains.pendingAt_suffix (wired : network.Wired) {queue : List Message}
    (drains : Drains checks network queue now left) {place : Nat} {node : Node}
    (found : network.skeleton[place]? = some node) {inlet : Inlet}
    (fed : ∀ id, (NodeInput.node id, inlet) ∉ node.inputs) :
    pendingAt left place inlet <:+ pendingAt queue place inlet := by
  induction drains with
  | refl => exact List.suffix_rfl
  | @deliver network _ _ message rest further _ _ delivered _ ih =>
    have same := deliver_shape delivered
    have silent : pendingAt further place inlet = [] := by
      obtain ⟨_, _, sent, _, _, _, ⟨_, _, rfl, _⟩ | ⟨_, rfl, _⟩⟩ := deliver_cases delivered
      · rfl
      · obtain ⟨reader, readerFound, rfl⟩ := of_getElem?_skeleton found
        have never : reader.inputs.count (.node message.node, inlet) = 0 :=
          List.count_eq_zero.mpr (fed message.node)
        rw [pendingAt_readers wired readerFound, never]
        simp
    have later := ih (same.wired wired) (same.skeleton ▸ found)
    rw [pendingAt_append, silent, List.append_nil] at later
    rw [pendingAt_cons]
    exact later.trans (List.suffix_append _ _)

/-- The messages that tell the nodes of a change. -/
abbrev waveOf (network : Network) (change : FactChange) : List Message :=
  broadcast (network.readers (.facts change.fact.relation)) [⟨change.kind, change.fact.tuple⟩]

/-- While a change spreads, every anti-join remembers the facts of its relation as they were before
the change or as they are after it. -/
theorem blocked_of_drains (agree : checks.Agree truth) (wired : network.Wired)
    (settled : network.Settled truth)
    (applied : network.facts.apply change = .ok (facts, presence))
    (drains : Drains checks { network with facts } (network.waveOf change) now left) {place : Nat}
    {node : Node} (found : now.nodes[place]? = some node) {relation : RelationId} {key : List Nat}
    {kept blocked : Bag Tuple} (cell : node.cell = .antiJoin relation key kept blocked) :
    (blocked.occurrences : Multiset Tuple) = network.facts.occurrencesOf relation ∨
      (blocked.occurrences : Multiset Tuple) = facts.occurrencesOf relation := by
  obtain ⟨_, flight⟩ := settled.changeFacts wired applied
  have same : SameWiring network { network with facts } := ⟨rfl, rfl⟩
  have begun := same.wired wired
  obtain ⟨received, still⟩ := flight.drains agree begun drains
  have shape := drains.shape
  obtain ⟨_, label, inputs, shared⟩ := node
  cases cell
  obtain ⟨children, made, _⟩ := (shape.wired begun).ofOperator found rfl
  rcases children with _ | ⟨child, _ | ⟨_, _⟩⟩ <;> cases made
  obtain ⟨_, remembered⟩ := still.holds place _ found
  have owed := still.owed place _ found .right
  have factsNow : now.facts = facts := congrArg Network.facts shape.fields
  simp only [gathered_cons, gathered_nil, reduceCtorEq, if_true, if_false, add_zero, zero_add,
    suppliedBy, factsNow] at owed
  -- all that is still owed to it is the change itself, or nothing
  have blank := shape.skeleton ▸ getElem?_skeleton found
  obtain ⟨first, firstFound, sameNode⟩ := of_getElem?_skeleton blank
  have inputs : first.inputs = [(.node child, .left), (.facts relation, .right)] :=
    congrArg Node.inputs sameNode
  have suffix : pendingAt left place .right <:+ pendingAt (network.waveOf change) place .right :=
    drains.pendingAt_suffix begun blank (by simp [Node.cleared])
  have firstHere : network.nodes[place]? = some first := firstFound
  rw [pendingAt_readers wired firstHere, inputs] at suffix
  obtain ⟨moves, _⟩ := leads_apply applied
  rw [remembered]
  by_cases changed : relation = change.fact.relation
  · subst changed
    rcases List.suffix_cons_iff.mp (by simpa using suffix) with whole | nothing
    · rw [whole] at owed
      exact .inl (owed.eq_of_single moves)
    · rw [List.suffix_nil.mp nothing] at owed
      exact .inr owed.eq_of_nil
  · have nothing : pendingAt left place .right = [] := by
      simpa [List.count_cons, changed] using suffix
    rw [nothing] at owed
    exact .inr owed.eq_of_nil

/-- A fact that is there both before and after a change blocks rows while the change spreads. -/
theorem bars_of_drains (agree : checks.Agree truth) (wired : network.Wired)
    (settled : network.Settled truth)
    (applied : network.facts.apply change = .ok (facts, presence))
    (drains : Drains checks { network with facts } (network.waveOf change) now left) :
    now.Bars fun relation fact => network.facts.Has relation fact ∧ facts.Has relation fact := by
  intro place node found
  cases cell : node.cell with
  | source | unit | filter | project | join | closure | production => trivial
  | antiJoin relation key kept blocked =>
    intro fact both
    rw [← Multiset.mem_coe]
    rcases blocked_of_drains agree wired settled applied drains found cell with known | known
    · rw [known]
      exact FactStore.mem_occurrencesOf.mpr both.1
    · rw [known]
      exact FactStore.mem_occurrencesOf.mpr both.2

/-! ## Rows on the way -/

theorem closes_interim (truth : CheckId → Tuple → Bool) (before after : FactStore)
    (nodes : List Node) :
    Closes truth (fun relation fact => before.Has relation fact ∧ after.Has relation fact)
      (Meant (fun relation fact => before.Has relation fact ∨ after.Has relation fact)
        (Plan.Interim truth before after) nodes) nodes := by
  refine closes_meant (fun plan step lowered means row lowers emits below => ?_) nodes
  obtain ⟨length, each⟩ := List.forall₂_iff_zip.mp below
  exact .intro lowers length (fun child mean pair => each pair) emits

theorem carries_of_drains (agree : checks.Agree truth) (wired : network.Wired)
    (settled : network.Settled truth)
    (applied : network.facts.apply change = .ok (facts, presence))
    (drains : Drains checks { network with facts } (network.waveOf change) now left) :
    now.Carries (Meant
      (fun relation fact => network.facts.Has relation fact ∨ facts.Has relation fact)
      (Plan.Interim truth network.facts facts) network.skeleton) left := by
  have same : SameWiring network { network with facts } := ⟨rfl, rfl⟩
  have closes := closes_interim truth network.facts facts network.skeleton
  obtain ⟨received, below⟩ := settled_iff.mp settled
  have moved : network.facts.Has change.fact.relation change.fact.tuple ∨
      facts.Has change.fact.relation change.fact.tuple := by
    rcases FactStore.gains_of_apply applied with gains | gains
    · exact .inr ((gains _ _).mpr (.inl rfl))
    · exact .inl ((gains _ _).mpr (.inl rfl))
  have keeps := carries_of_settled wired closes below (fun _ _ => .inl) (fun _ _ => And.left)
  have brings : ∀ other ∈ [(⟨change.kind, change.fact.tuple⟩ : RowDelta)], Meant
      (fun relation fact => network.facts.Has relation fact ∨ facts.Has relation fact)
      (Plan.Interim truth network.facts facts) network.skeleton (.facts change.fact.relation)
      other.row := List.forall_mem_singleton.mpr moved
  have begun : Carries _ { network with facts } (network.waveOf change) :=
    ⟨keeps, fun message member => arrives_of_mem_broadcast brings member⟩
  exact begun.drains agree (same.wired wired) closes drains fun middle rest further =>
    bars_of_drains agree wired settled applied further

theorem refuses_of_deliver {network : Network} {message : Message} {node : Node} {error : Error}
    (found : network.nodes[message.node.index]? = some node)
    (fails : network.deliver checks message = .error error) :
    node.cell.Refuses checks node.label message.delta.row error := by
  unfold Network.deliver at fails
  rw [found] at fails
  dsimp only at fails
  cases received : node.cell.receive checks node.label message.inlet message.delta with
  | error refused =>
    rw [received] at fails
    cases fails
    exact (node.cell.fulfils_receive ..).of_error received
  | ok answer =>
    rw [received] at fails
    dsimp only [bind, Except.bind] at fails
    split at fails <;> cases fails

/-- A change that fails has brought a row, on which a check fails with the same detail, to a step
that applies the check. -/
theorem exists_check (agree : checks.Agree truth) (wired : network.Wired)
    (settled : network.Settled truth) {plans : List Plan}
    (staffed : Staffed plans network.skeleton)
    (applied : network.facts.apply change = .ok (facts, presence)) {label detail : String}
    (failed : (spreadOf checks network facts change).failure =
      some (.evaluationFault label detail)) :
    ∃ plan ∈ plans, ∃ step ∈ plan.steps, ∃ id columns label child row,
      plan.lower step = .ok ⟨.filter (.check id columns), label⟩ ∧
      plan.childrenOf step = [child] ∧ plan.Interim truth network.facts facts child row ∧
      checks id (row.project columns) = .error detail := by
  have spreads := propagate_drains checks { network with facts } (network.waveOf change)
  unfold DrainsTo at spreads
  unfold spreadOf at failed
  rw [failed] at spreads
  obtain ⟨message, rest, drains, fails⟩ := spreads
  set now := (propagate checks { network with facts } _).network
  have carries := carries_of_drains agree wired settled applied drains
  obtain ⟨blank, blankFound, input, connected, brings⟩ :=
    carries.arrives message List.mem_cons_self
  obtain ⟨⟨cell, name, inputs, shared⟩, found, rfl⟩ := of_getElem?_skeleton blankFound
  -- only a node that applies a check refuses a row in this way
  cases refuses_of_deliver found fails with
  | @faults id columns detail refused =>
    have same : SameWiring network { network with facts } := ⟨rfl, rfl⟩
    obtain ⟨children, made, _⟩ := (drains.shape.wired (same.wired wired)).ofOperator found rfl
    obtain ⟨place, rfl, rfl⟩ := inputs_of_single (.inl ⟨_, rfl⟩) made
    obtain rfl : input = .node place := congrArg Prod.fst (List.mem_singleton.mp connected)
    have blank := drains.shape.skeleton ▸ blankFound
    obtain ⟨plan, member, step, listed, implements⟩ :=
      staffed message.node ⟨_, blank, by simp [Node.cleared, Cell.cleared, Cell.operator?]⟩
    obtain @⟨_, _, lowered, _, others, lowers, again, remade, length, below⟩ := implements
    cases Option.some.inj (again.symm.trans blank)
    obtain ⟨operator, label⟩ := lowered
    obtain rfl : operator = .filter (.check id columns) :=
      (Option.some.inj (Node.of_ofOperator remade).1).symm
    obtain ⟨other, rfl, reads⟩ := inputs_of_single (.inl ⟨_, rfl⟩) remade
    obtain rfl : other = place := by simpa [Node.cleared] using reads.symm
    obtain ⟨child, only⟩ := List.length_eq_one_iff.mp length
    refine ⟨plan, member, step, listed, id, columns, label, child, message.delta.row, lowers, only,
      brings plan child (below child other (by simp [only])), refused⟩

/-- A change that is accepted and fails, or poisons the network, has been stopped by a check; then
it does both. -/
theorem fault_of_change (agree : checks.Agree truth) (wired : network.Wired)
    (usable : network.reported = none) (settled : network.Settled truth)
    (applied : network.facts.apply change = .ok (facts, presence))
    (failed : (∃ error, (network.change checks change).2 = .error error) ∨
      (network.change checks change).1.isPoisoned = true) :
    ∃ label detail,
      (spreadOf checks network facts change).failure = some (.evaluationFault label detail) ∧
      (network.change checks change).2 = .error (.evaluationFault label detail) ∧
      (network.change checks change).1.isPoisoned = true := by
  have accepted : network.demandUsable = .ok () := by simp [demandUsable, isPoisoned, usable]
  unfold Network.change at failed ⊢
  rw [accepted, applied] at failed ⊢
  dsimp only at failed ⊢
  obtain ⟨_, flight⟩ := settled.changeFacts wired applied
  have same : SameWiring network { network with facts } := ⟨rfl, rfl⟩
  have ends : (spreadOf checks network facts change).Ends _ :=
    InFlight.propagate agree (same.wired wired) flight
  have shape := spreadOf_shape checks network facts change
  unfold Spread.Ends at ends
  unfold spreadOf at ends shape ⊢
  split at failed
  next error stopped =>
    rw [stopped] at ends ⊢
    obtain ⟨label, detail, rfl⟩ := ends
    exact ⟨label, detail, rfl, rfl, rfl⟩
  next finished =>
    -- a change that spreads to the end neither fails nor poisons the network
    rcases failed with ⟨_, failed⟩ | poisoned
    · cases failed
    · rw [shape.fields] at poisoned
      simp [notify, isPoisoned, usable] at poisoned

end Network

namespace Session

variable {truth : CheckId → Tuple → Bool} {checks : Checks} {session : Session}

/-- Only a check can make the batch evaluator fail on an installed plan. -/
theorem Attended.answers (attended : session.Attended) {plan : Plan}
    (member : plan ∈ session.plans.flatten) (checks : Checks) (facts : FactStore) :
    Answers (plan.evaluate checks facts []) fun _ => True := by
  obtain ⟨unadorned, sound⟩ := attended.accepted plan member
  obtain ⟨top, implements⟩ := attended.placed plan member
  refine Plan.answers_evaluate unadorned sound (fun step listed => ?_) checks facts
  obtain ⟨place, carried⟩ := implements.of_mem_postOrder listed
  obtain @⟨_, _, lowered, _, _, lowers, _, made, _, _⟩ := carried
  refine ⟨lowered, lowers, fun columns input => ?_⟩
  rw [input] at made
  cases made

/-- Whatever has been done before: a change that the fact store of a usable network accepts fails,
or poisons the network, only through a check; then it does both.  This happens only if the batch
evaluator fails through a check on an installed plan, over the facts before the change or over those
after it; or if the change makes a fact appear or disappear, and a check of an installed plan fails,
with the detail that is reported, on a row that is there only in between, of a step that draws from
the relation of the fact and is also blocked by it. -/
theorem faults_of_change (id : NetworkId) (steps : List (Checks × Action))
    (agree : ∀ step ∈ steps, step.1.Agree truth) (agreeNow : checks.Agree truth)
    (usable : ((new id).run steps).network.isPoisoned = false) {change : FactChange}
    {facts : FactStore} {presence : Presence}
    (applied : ((new id).run steps).network.facts.apply change = .ok (facts, presence))
    (failed : (∃ error, (((new id).run steps).network.change checks change).2 = .error error) ∨
      (((new id).run steps).network.change checks change).1.isPoisoned = true) :
    ∃ label detail,
      (((new id).run steps).network.change checks change).2 =
        .error (.evaluationFault label detail) ∧
      (((new id).run steps).network.change checks change).1.isPoisoned = true ∧
      ∃ plan ∈ ((new id).run steps).plans.flatten,
        plan.Faults checks ((new id).run steps).network.facts ∨ plan.Faults checks facts ∨
          presence ≠ .absorbed ∧ plan.FaultsBetween checks truth
            ((new id).run steps).network.facts facts change.fact.relation detail := by
  have sound := (sound_new truth id).run agree
  have attended := attended_run id steps
  generalize (new id).run steps = session at sound attended usable applied failed ⊢
  have healthy : session.network.reported = none := by simpa [Network.isPoisoned] using usable
  have settled := sound.settled healthy
  obtain ⟨label, detail, stopped, answered, poisoned⟩ :=
    Network.fault_of_change agreeNow sound.wired healthy settled applied failed
  refine ⟨label, detail, answered, poisoned, ?_⟩
  obtain ⟨plan, member, step, listed, id, columns, label, child, row, lowers, only, interim,
    refused⟩ :=
    Network.exists_check agreeNow sound.wired settled attended.staffed applied stopped
  refine ⟨plan, member, ?_⟩
  have checked (facts : FactStore) := Plan.faults_or_lacks (attended.answers member checks facts)
    listed lowers only refused
  rcases checked session.network.facts with faults | lacksBefore
  · exact .inl faults
  rcases checked facts with faults | lacksAfter
  · exact .inr (.inl faults)
  -- whichever store is the larger one, it differs from the other in the changed fact only
  have reads : presence ≠ .absorbed ∧
      plan.Uses (Operator.DrawsFrom change.fact.relation) child ∧
      plan.Uses (Operator.BlockedBy change.fact.relation) child := by
    rcases FactStore.gains_of_apply applied with gains | gains
    · obtain ⟨new, uses⟩ := interim.uses agreeNow gains gains.encloses lacksBefore lacksAfter
      exact ⟨fun same => new (FactStore.has_of_absorbed (same ▸ applied)).1, uses⟩
    · obtain ⟨gone, uses⟩ := interim.uses agreeNow gains gains.encloses.symm lacksAfter lacksBefore
      exact ⟨fun same => gone (FactStore.has_of_absorbed (same ▸ applied)).2, uses⟩
  obtain ⟨moves, drawn, blocked⟩ := reads
  exact .inr (.inr ⟨moves, step, listed, id, columns, label, child, row, lowers, only, drawn, blocked,
    interim, lacksBefore, lacksAfter, refused⟩)

/-- The values of the first relation that are not among its values, with a check that is to be run
on them. -/
def disputed : Body :=
  ⟨⟨"disputed", 0, ["x"],
    [.relation ⟨0⟩ [⟨0⟩] [], .absent ⟨0⟩ [⟨0⟩], .check "decided" ⟨0⟩ [⟨0⟩]], [⟨0⟩], {}⟩, by decide⟩

/-- Runs the check on the values that are left. -/
def disputedLast : Plan :=
  Plan.allocate disputed [.enumerate ⟨0⟩, .apply ⟨0⟩ ⟨1⟩, .apply ⟨1⟩ ⟨2⟩, .project ⟨2⟩ [⟨0⟩]]

/-- A check that fails on every value. -/
def undecided : Checks := fun _ _ => .error "undecided"

/-- The plan has been installed, and there is one value. -/
def disputedSession : Session :=
  (new ⟨0⟩).run [(undecided, .install [disputedLast]),
    (undecided, .change ⟨.insert, ⟨⟨0⟩, [.bool true]⟩⟩)]

theorem not_faults_disputedLast : ¬disputedLast.Faults undecided disputedSession.network.facts ∧
    ¬disputedLast.Faults undecided .empty := by
  have with_ : disputedLast.evaluate undecided disputedSession.network.facts [] = .ok .empty :=
    of_decide_eq_true (by decide +kernel)
  have without : disputedLast.evaluate undecided .empty [] = .ok .empty :=
    of_decide_eq_true (by decide +kernel)
  constructor
  · rintro ⟨_, _, failed⟩
    rw [with_] at failed
    cases failed
  · rintro ⟨_, _, failed⟩
    rw [without] at failed
    cases failed

theorem eq_disputedLast : ∀ plan ∈ disputedSession.plans.flatten, plan = disputedLast := by
  refine forall_plans ⟨0⟩ _ fun step member plans installs plan listed => ?_
  simp only [List.mem_cons, List.not_mem_nil, or_false] at member
  rcases member with rfl | rfl
  · cases installs
    exact List.mem_singleton.mp listed
  · cases installs

theorem apply_disputedSession :
    disputedSession.network.facts.apply ⟨.delete, ⟨⟨0⟩, [.bool true]⟩⟩ =
      .ok (.empty, .disappeared) := by
  have stored : disputedSession.network.facts.occurrences = [⟨⟨0⟩, [.bool true]⟩] := by
    decide +kernel
  rw [show disputedSession.network.facts = ⟨[⟨⟨0⟩, [.bool true]⟩]⟩ from congrArg Bag.mk stored]
  rfl

/-- Taking the fact back poisons the network, although the batch evaluator has no value to run the
check on, neither before nor after.  The value is not blocked any more before it leaves as well, and
in between the check is run on it. -/
theorem change_disputed :
    let change : FactChange := ⟨.delete, ⟨⟨0⟩, [.bool true]⟩⟩
    disputedSession.network.isPoisoned = false ∧
    disputedSession.network.facts.apply change = .ok (.empty, .disappeared) ∧
    (disputedSession.network.change undecided change).2 =
      .error (.evaluationFault "check decided(x)" "undecided") ∧
    (disputedSession.network.change undecided change).1.isPoisoned = true ∧
    ∀ plan ∈ disputedSession.plans.flatten,
      ¬plan.Faults undecided disputedSession.network.facts ∧ ¬plan.Faults undecided .empty := by
  intro change
  refine ⟨by decide +kernel, apply_disputedSession, of_decide_eq_true (by decide +kernel),
    by decide +kernel, fun plan member => ?_⟩
  rw [eq_disputedLast plan member]
  exact not_faults_disputedLast

/-- The check fails on a value that is there neither before nor after. -/
theorem faults_of_change_disputed :
    let change : FactChange := ⟨.delete, ⟨⟨0⟩, [.bool true]⟩⟩
    (disputedSession.network.change undecided change).1.isPoisoned = true ∧
    ∃ label detail,
      (disputedSession.network.change undecided change).2 =
        .error (.evaluationFault label detail) ∧
      disputedLast.FaultsBetween undecided (fun _ _ => true) disputedSession.network.facts .empty ⟨0⟩
        detail := by
  intro change
  have poisoned : (disputedSession.network.change undecided change).1.isPoisoned = true := by
    decide +kernel
  have agree : undecided.Agree fun _ _ => true := fun _ _ _ answer => by cases answer
  have agrees : ∀ step ∈ [(undecided, Action.install [disputedLast]),
      (undecided, .change ⟨.insert, ⟨⟨0⟩, [.bool true]⟩⟩)], step.1.Agree fun _ _ => true := by
    intro step member
    simp only [List.mem_cons, List.not_mem_nil, or_false] at member
    rcases member with rfl | rfl <;> exact agree
  have usable : disputedSession.network.isPoisoned = false := by decide +kernel
  obtain ⟨label, detail, answered, _, plan, member, outcome⟩ :=
    faults_of_change ⟨0⟩ _ agrees agree usable apply_disputedSession (.inr poisoned)
  rw [eq_disputedLast plan member] at outcome
  refine ⟨poisoned, label, detail, answered, ?_⟩
  rcases outcome with faults | faults | ⟨_, between⟩
  · exact absurd faults not_faults_disputedLast.1
  · exact absurd faults not_faults_disputedLast.2
  · exact between

end Session
end LiveQuery
