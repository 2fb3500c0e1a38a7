import LiveQuery.Proofs.Network.Faults
import LiveQuery.Proofs.Network.Reporting
import LiveQuery.Proofs.Plan.Ranges

/-!
# More facts, more matches

Of all operators, only anti-joins let fewer rows through where there are more facts, and only the
facts of their own relation count for them.  So a plan that does not demand that facts of a relation
are absent (`Plan.Negates`) keeps all its rows when a fact of this relation is added.  This does not
need a look at what is sent around meanwhile: both before and after a change every node has sent the
rows of its operator, given what its children have sent, and these rows only become more
(`Network.mem_sentAt_of_gains`).  So joins of a relation with itself and closures whose components
merge or split do not need a case of their own.

The events of a change are the differences between the matches before it and after it, so that an
insertion cannot take matches back, and a deletion cannot bring any (`Session.told_monotone`).
-/

namespace LiveQuery

/-! ## Plans without negation -/

namespace Constraint

variable {constraint : Constraint} {id : ConstraintId} {layout : List VarId} {operator : Operator}
  {relation : RelationId}

/-- Nothing takes rows away that a constraint lists. -/
theorem not_blocked_of_enumerator (enumerates : constraint.enumerator id layout = .ok operator) :
    ¬operator.BlockedBy relation := by
  cases constraint with
  | relation =>
    obtain ⟨_, _, same⟩ := ok_of_bind enumerates
    cases same
    exact not_false
  | closure | constant =>
    cases enumerates
    exact not_false
  | equal | different | absent | check => cases enumerates

/-- Facts only take rows away if a constraint demands that they are absent. -/
theorem absent_of_selector (selects : constraint.selector id layout = .ok operator)
    (blocked : operator.BlockedBy relation) :
    ∃ arguments, constraint = .absent relation arguments := by
  cases constraint with
  | constant | check =>
    obtain ⟨_, _, same⟩ := ok_of_bind selects
    cases same
    exact blocked.elim
  | equal | different =>
    obtain ⟨_, _, later⟩ := ok_of_bind selects
    obtain ⟨_, _, same⟩ := ok_of_bind later
    cases same
    exact blocked.elim
  | absent name arguments =>
    obtain ⟨_, _, same⟩ := ok_of_bind selects
    cases same
    obtain rfl : name = relation := blocked
    exact ⟨arguments, rfl⟩
  | relation | closure => cases selects

end Constraint

namespace Plan

variable {plan : Plan} {step : SubPlanId} {relation : RelationId}

/-- The plan applies a constraint by which facts of the relation must be absent. -/
def Negates (plan : Plan) (relation : RelationId) : Prop :=
  ∃ step ∈ plan.steps, ∃ child constraint arguments,
    plan.operation? step = some (.apply child constraint) ∧
      plan.body.constraint? constraint = some (.absent relation arguments)

theorem negates_of_blocked (listed : step ∈ plan.steps) {lowered : Lowered}
    (lowers : plan.lower step = .ok lowered) (blocked : lowered.operator.BlockedBy relation) :
    plan.Negates relation := by
  cases known : plan.operation? step with
  | none =>
    unfold lower at lowers
    rw [known] at lowers
    cases lowers
  | some operation =>
    obtain ⟨operator, operated, rfl⟩ := lower_ok known lowers
    dsimp only at blocked
    cases operation with
    | start =>
      cases operated
      exact blocked.elim
    | input subjects =>
      obtain ⟨_, _, same⟩ := ok_of_bind operated
      cases same
      exact blocked.elim
    | enumerate place =>
      obtain ⟨constraint, _, enumerates⟩ := constraint_of_operator operated
      exact absurd blocked (Constraint.not_blocked_of_enumerator (mapError_ok enumerates))
    | apply child place =>
      obtain ⟨constraint, found, selects⟩ := constraint_of_operator operated
      obtain ⟨arguments, rfl⟩ := Constraint.absent_of_selector (mapError_ok selects) blocked
      exact ⟨step, listed, child, place, arguments, known, found⟩
    | join primary secondary =>
      obtain ⟨_, _, later⟩ := ok_of_bind (mapError_ok operated)
      obtain ⟨_, _, later⟩ := ok_of_bind later
      obtain ⟨_, _, same⟩ := ok_of_bind later
      cases same
      exact blocked.elim
    | trim child kept =>
      obtain ⟨_, _, same⟩ := ok_of_bind operated
      cases same
      exact blocked.elim
    | project child parameters =>
      obtain ⟨_, _, same⟩ := ok_of_bind operated
      cases same
      exact blocked.elim

theorem not_negates_of_body (positive : ∀ constraint ∈ plan.body.constraints, ∀ arguments,
    constraint ≠ .absent relation arguments) : ¬plan.Negates relation := by
  rintro ⟨_, _, _, _, arguments, _, found⟩
  exact positive _ (List.mem_of_getElem? found) arguments rfl

end Plan

namespace Network

variable {truth : CheckId → Tuple → Bool} {first second : Network} {received later : Receipts}
  {fact : Fact} {plan : Plan}

/-! ## More facts -/

/-- In two settled networks of the same wiring, the node for a step has sent all rows again where
there is one more fact, unless the plan demands that facts of its relation are absent. -/
theorem mem_sentAt_of_gains (settled : first.SettledBelow truth received first.nodes.length)
    (settledLater : second.SettledBelow truth later second.nodes.length)
    (same : SameWiring first second) (gains : first.facts.Gains second.facts fact)
    (grounded : ∀ step ∈ plan.steps, plan.Grounded step) (free : ¬plan.Negates fact.relation)
    {step : SubPlanId} {id : NodeId} (implements : Implements first.skeleton plan step id)
    (listed : step ∈ plan.steps) {row : Tuple} (sent : row ∈ first.sentAt truth received id.index) :
    row ∈ second.sentAt truth later id.index := by
  induction implements generalizing row with
  | @intro step id lowered blank children lowers found made length below ih =>
    obtain ⟨node, nodeFound, rfl⟩ := of_getElem?_skeleton found
    obtain ⟨other, otherFound, alike⟩ := same.getElem? nodeFound
    have remade : Node.ofOperator lowered.operator children =
        .ok (other.cell.cleared, other.inputs) := by
      rw [made, ← alike]
      rfl
    rw [mem_sentAt settled nodeFound made [] row, Operator.rows_iff_emits] at sent
    rw [mem_sentAt settledLater otherFound remade [] row, Operator.rows_iff_emits]
    refine sent.mono (fun relation _ tuple there => (gains relation tuple).mpr (.inr there))
      (fun relation blocked tuple there => ?_) ?_
    · -- facts that block rows are those from before
      refine ((gains relation tuple).mp there).resolve_left fun new => free ?_
      obtain rfl : relation = fact.relation := congrArg Fact.relation new
      exact Plan.negates_of_blocked listed lowers blocked
    · refine List.forall₂_map_left_iff.mpr (List.forall₂_map_right_iff.mpr ?_)
      refine List.forall₂_iff_get.mpr ⟨rfl, fun place inside _ row sent => ?_⟩
      have here : place < (plan.childrenOf step).length := length ▸ inside
      exact ih _ _ (mem_zip_getElem here inside)
        ((grounded step listed).mem_steps listed (List.getElem_mem here)) sent

theorem mem_produced_of_gains (settled : first.Settled truth) (settledLater : second.Settled truth)
    (same : SameWiring first second) (gains : first.facts.Gains second.facts fact)
    {plans : List Plan} (grounded : ∀ plan ∈ plans, ∀ step ∈ plan.steps, plan.Grounded step)
    (free : ∀ plan ∈ plans, ¬plan.Negates fact.relation) {id : NodeId}
    (produces : Produces first.skeleton plans id) {row : Tuple} (there : row ∈ first.produced id) :
    row ∈ second.produced id := by
  obtain ⟨received, below⟩ := settled_iff.mp settled
  obtain ⟨later, belowLater⟩ := settled_iff.mp settledLater
  obtain ⟨blank, tops, found, cell, reads, implement⟩ := produces
  obtain ⟨top, member, sent⟩ := (mem_produced_of_reads below found cell reads row).mp there
  refine (mem_produced_of_reads belowLater (same.skeleton ▸ found) cell reads row).mpr
    ⟨top, member, ?_⟩
  obtain ⟨place, inside, rfl⟩ := List.mem_iff_getElem.mp member
  have placed : place < plans.length := implement.length_eq ▸ inside
  have known := List.getElem_mem placed
  obtain ⟨listed, implements⟩ := implement.get placed inside
  exact mem_sentAt_of_gains below belowLater same gains (grounded _ known) (free _ known) implements
    listed sent

/-- A query keeps its matches where there is one more fact. -/
theorem matched_of_gains (settled : first.Settled truth) (settledLater : second.Settled truth)
    (same : SameWiring first second) (gains : first.facts.Gains second.facts fact)
    {plans : List Plan} (grounded : ∀ plan ∈ plans, ∀ step ∈ plan.steps, plan.Grounded step)
    (free : ∀ plan ∈ plans, ¬plan.Negates fact.relation) {query : QueryId}
    {installed : InstalledQuery} (found : first.queries[query.index]? = some installed)
    (produces : Produces first.skeleton plans installed.production) {tuple : Tuple}
    (matched : Matched first.matchSets query tuple) : Matched second.matchSets query tuple := by
  rw [matched_matchSets found] at matched
  rw [matched_matchSets (same.queries ▸ found)]
  exact mem_produced_of_gains settled settledLater same gains grounded free produces matched

end Network

namespace Session

variable {truth : CheckId → Tuple → Bool} {checks : Checks}

/-- Whatever has been done before: an insertion that succeeds, as it only does in a network that is
not poisoned, does not let matches of a query disappear, and a deletion does not let them appear,
unless a plan of the query demands that facts of the changed relation are absent. -/
theorem told_monotone (id : NetworkId) (steps : List (Checks × Action))
    (agree : ∀ step ∈ steps, step.1.Agree truth) (agreeNow : checks.Agree truth) {query : QueryId}
    {plans : List Plan} (installed : ((new id).run steps).plans[query.index]? = some plans)
    {change : FactChange} (free : ∀ plan ∈ plans, ¬plan.Negates change.fact.relation)
    {after : Network} {events : List MatchEvent}
    (changed : ((new id).run steps).network.change checks change = (after, .ok events)) :
    ∀ event ∈ events, event.query = query →
      (change.kind = .insert → event.kind ≠ .disappeared) ∧
      (change.kind = .delete → event.kind ≠ .appeared) := by
  have sound := (sound_new truth id).run agree
  have attended := attended_run id steps
  generalize (new id).run steps = session at sound attended installed changed
  have outcome := Network.change_outcome checks session.network change
  rw [changed] at outcome
  obtain ⟨⟨_, applied⟩, differences⟩ := outcome.done_spec sound.wired
  have same := outcome.sameWiring
  have settled : session.network.Settled truth := by
    cases outcome with
    | done usable => exact sound.settled usable
  have settledAfter := outcome.settled agreeNow sound.wired sound.settled
  obtain ⟨entry, found, produces⟩ := sound.exists_produces installed
  have grounded : ∀ plan ∈ plans, ∀ step ∈ plan.steps, plan.Grounded step :=
    fun plan member => Plan.grounded_of_demandSound
      (attended.accepted plan (List.mem_flatten_of_mem (List.mem_of_getElem? installed) member)).2
  rintro ⟨_, kind, tuple⟩ member rfl
  have corrects := (differences.exactly _).mp member
  obtain ⟨changeKind, fact⟩ := change
  refine ⟨?_, ?_⟩
  · rintro rfl rfl
    obtain ⟨before, gone⟩ := corrects
    exact gone (Network.matched_of_gains settled settledAfter same
      (FactStore.gains_of_insert applied) grounded free found produces before)
  · rintro rfl rfl
    obtain ⟨now, fresh⟩ := corrects
    exact fresh (Network.matched_of_gains settledAfter settled same.symm
      (FactStore.gains_of_delete applied) grounded free (same.queries ▸ found)
      (same.skeleton ▸ produces) now)

/-- The pairs that a path leads from and to. -/
def linked : Body :=
  ⟨⟨"linked", 0, ["x", "y"], [.closure ⟨0⟩ ⟨0⟩ ⟨1⟩], [⟨0⟩, ⟨1⟩], {}⟩, by decide⟩

/-- The pairs that two facts lead from and to. -/
def linkedTwice : Body :=
  ⟨⟨"linked", 0, ["x", "y", "z"], [.relation ⟨0⟩ [⟨0⟩, ⟨1⟩] [], .relation ⟨0⟩ [⟨1⟩, ⟨2⟩] []],
    [⟨0⟩, ⟨2⟩], {}⟩, by decide⟩

/-- A closure and a relation that is joined with itself, for one query; equal steps share nodes. -/
def linkedPlans : List Plan :=
  [{ Plan.allocate linked [.enumerate ⟨0⟩, .project ⟨0⟩ [⟨0⟩, ⟨1⟩]] with
      hints := { shareNodes := true } },
    { Plan.allocate linkedTwice
        [.enumerate ⟨0⟩, .enumerate ⟨1⟩, .join ⟨0⟩ ⟨1⟩, .project ⟨2⟩ [⟨0⟩, ⟨2⟩]] with
      hints := { shareNodes := true } }]

/-- The plans are installed before one fact. -/
def pathSteps : List (Checks × Action) :=
  [(fun _ _ => .ok true, .install linkedPlans),
    (fun _ _ => .ok true, .change ⟨.insert, ⟨⟨0⟩, [.bool true, .bool false]⟩⟩)]

/-- A second fact leads back. -/
def cycleSteps : List (Checks × Action) :=
  pathSteps ++ [(fun _ _ => .ok true, .change ⟨.insert, ⟨⟨0⟩, [.bool false, .bool true]⟩⟩)]

theorem agree_cycleSteps : ∀ step ∈ cycleSteps, step.1.Agree fun _ _ => true := by
  intro step member
  simp only [cycleSteps, pathSteps, List.cons_append, List.nil_append, List.mem_cons,
    List.not_mem_nil, or_false] at member
  rcases member with rfl | rfl | rfl <;> exact fun _ _ _ answer => (Except.ok.inj answer).symm

theorem not_negates_linkedPlans : ∀ plan ∈ linkedPlans, ¬plan.Negates ⟨0⟩ := by
  intro plan member
  simp only [linkedPlans, List.mem_cons, List.not_mem_nil, or_false] at member
  rcases member with rfl | rfl <;> refine Plan.not_negates_of_body ?_ <;>
    simp [Plan.allocate, linked, linkedTwice]

/-- The fact that closes a cycle makes three matches appear, and when it is taken back they
disappear. -/
theorem told_monotone_cycle :
    let passing : Checks := fun _ _ => .ok true
    let back : Fact := ⟨⟨0⟩, [.bool false, .bool true]⟩
    let inserted := (((new ⟨0⟩).run pathSteps).network.change passing ⟨.insert, back⟩).2
    let deleted := (((new ⟨0⟩).run cycleSteps).network.change passing ⟨.delete, back⟩).2
    (∃ events, inserted = .ok events ∧ events.length = 3 ∧
      ∀ event ∈ events, event.kind ≠ .disappeared) ∧
    ∃ events, deleted = .ok events ∧ events.length = 3 ∧
      ∀ event ∈ events, event.kind ≠ .appeared := by
  intro passing back inserted deleted
  have passes : passing.Agree fun _ _ => true := fun _ _ _ answer => (Except.ok.inj answer).symm
  constructor
  · have told : inserted = .ok [⟨⟨0⟩, .appeared, [.bool true, .bool true]⟩,
        ⟨⟨0⟩, .appeared, [.bool false, .bool true]⟩,
        ⟨⟨0⟩, .appeared, [.bool false, .bool false]⟩] := of_decide_eq_true (by decide +kernel)
    refine ⟨_, told, rfl, fun event member => ?_⟩
    have same : event.query = ⟨0⟩ := by
      revert event
      decide
    exact (told_monotone ⟨0⟩ pathSteps
      (fun step member => agree_cycleSteps step (List.mem_append_left _ member)) passes
      (show ((new ⟨0⟩).run pathSteps).plans[0]? = some linkedPlans by decide +kernel)
      not_negates_linkedPlans (Prod.ext rfl told) event member same).1 rfl
  · have told : deleted = .ok [⟨⟨0⟩, .disappeared, [.bool false, .bool true]⟩,
        ⟨⟨0⟩, .disappeared, [.bool false, .bool false]⟩,
        ⟨⟨0⟩, .disappeared, [.bool true, .bool true]⟩] := of_decide_eq_true (by decide +kernel)
    refine ⟨_, told, rfl, fun event member => ?_⟩
    have same : event.query = ⟨0⟩ := by
      revert event
      decide
    exact (told_monotone ⟨0⟩ cycleSteps agree_cycleSteps passes
      (show ((new ⟨0⟩).run cycleSteps).plans[0]? = some linkedPlans by decide +kernel)
      not_negates_linkedPlans (Prod.ext rfl told) event member same).2 rfl

end Session
end LiveQuery
