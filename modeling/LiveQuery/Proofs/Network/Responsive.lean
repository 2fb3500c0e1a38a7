import LiveQuery.Proofs.Network.Admission
import LiveQuery.Proofs.Network.Reporting
import LiveQuery.Proofs.Network.Rollback

/-!
# Sessions with checks that stay the same

If the same checks are used all the time, the batch evaluator finds the matches of all installed
plans as long as the network is not poisoned (`Session.Responsive`).  Every action keeps this: after
an install or a reset that succeeds all nodes with a memory have been primed, and a change that
succeeds has run the check of every filter on the rows that it brings.

So an install that succeeds leads to a session in which the batch evaluator finds the matches of the
new plans too, and an install of plans whose matches the batch evaluator finds succeeds
(`Session.install_iff_evaluate`).
-/

namespace LiveQuery

theorem Plan.exists_evaluateAll {checks : Checks} {plans : List Plan} {facts : FactStore}
    {input : Tuple} (each : ∀ plan ∈ plans, ∃ found, plan.evaluate checks facts input = .ok found) :
    ∃ found, evaluateAll checks plans facts input = .ok found := by
  unfold evaluateAll
  generalize (OrderedSet.empty : OrderedSet Tuple) = start
  induction plans generalizing start with
  | nil => exact ⟨start, rfl⟩
  | cons plan rest ih =>
    obtain ⟨found, evaluated⟩ := each plan List.mem_cons_self
    rw [List.foldlM_cons, evaluated]
    exact ih (fun other member => each other (List.mem_cons_of_mem _ member)) _

theorem Network.Installed.matchesOf_older {checks : Checks} {network changed : Network}
    {plans : List Plan} {query : QueryId} (wired : network.Wired) (usable : network.reported = none)
    (installed : Installed checks network plans query changed) {other : QueryId}
    (older : other.index < network.queries.length) :
    changed.matchesOf other = network.matchesOf other := by
  obtain ⟨_, _, sets⟩ := installed.matchSets wired
  obtain ⟨name, production, arity, fields, _⟩ := installed.installed
  have queries : changed.queries = network.queries ++ [⟨name, production, arity⟩] := by rw [fields]
  have usableAfter : changed.reported = none := installed.reported.trans usable
  have found := List.getElem?_eq_getElem older
  have foundAfter : changed.queries[other.index]? = some network.queries[other.index] := by
    rw [queries, List.getElem?_append_left older, found]
  rw [matchesOf_eq usableAfter foundAfter, matchesOf_eq usable found]
  have same : changed.matchSets[other.index]? = network.matchSets[other.index]? := by
    rw [sets, List.getElem?_append_left (by simpa [Network.matchSets] using older)]
  simp only [Network.matchSets, List.getElem?_map, found, foundAfter, Option.map_some,
    Option.some.injEq] at same
  rw [same]

theorem Network.Installed.matchesOf_new {checks : Checks} {truth : CheckId → Tuple → Bool}
    {network changed : Network} {plans : List Plan} {query : QueryId} (agree : checks.Agree truth)
    (settled : network.Settled truth) (usable : network.reported = none)
    (installed : Installed checks network plans query changed) {found : OrderedSet Tuple}
    (evaluated : Plan.evaluateAll checks plans network.facts [] = .ok found) :
    changed.matchesOf query = .ok found := by
  have facts := installed.facts
  have usableAfter : changed.reported = none := installed.reported.trans usable
  obtain ⟨rfl, ⟨name, production, arity, fields, produces⟩, _, _, after⟩ := installed
  have there : changed.queries[network.queries.length]? = some ⟨name, production, arity⟩ := by
    rw [fields]
    exact List.getElem?_concat_length
  rw [matchesOf_eq usableAfter there]
  have settledAfter := after truth agree settled
  refine congrArg Except.ok (produced_eq_of_evaluateAll agree settledAfter produces ?_)
  rwa [facts]

namespace Session

variable {checks : Checks} {session : Session}

/-! ## The invariant -/

/-- The batch evaluator finds the matches of all installed plans, unless the network is poisoned. -/
structure Responsive (checks : Checks) (session : Session) : Prop where
  attended : session.Attended
  sound : session.Sound checks.accepts
  evaluates : session.network.reported = none → ∀ plan ∈ session.plans.flatten,
    ∃ found, plan.evaluate checks session.network.facts [] = .ok found

/-- If nodes with a memory could be primed again, the matches of the installed plans are found. -/
theorem responsive_of_refillable (attended : session.Attended)
    (sound : session.Sound checks.accepts)
    (refillable : session.network.reported = none → session.network.Refillable checks) :
    session.Responsive checks where
  attended := attended
  sound := sound
  evaluates := by
    intro usable plan member
    obtain ⟨unadorned, accepted⟩ := attended.accepted plan member
    obtain ⟨plans, listed, member⟩ := List.mem_flatten.mp member
    obtain ⟨index, inside, rfl⟩ := List.mem_iff_getElem.mp listed
    have produces := List.Forall₂.get sound.produces inside (sound.produces.length_eq ▸ inside)
    exact Network.exists_evaluate checks.agree_accepts sound.wired (sound.settled usable) unadorned
      accepted ((refillable usable).tells_steps sound.wired produces member)

theorem Responsive.telling (responsive : session.Responsive checks)
    (usable : session.network.reported = none) : session.network.Telling checks := by
  intro place inside
  have wired := responsive.sound.wired
  have found : session.network.nodes[(⟨place⟩ : NodeId).index]? =
      some session.network.nodes[place] := List.getElem?_eq_getElem inside
  by_cases operates : session.network.nodes[place].cell.operator? = none
  · obtain ⟨memory, cell⟩ := Cell.eq_production operates
    refine (Network.tells_iff wired found).mpr (.inl ?_)
    rw [cell]
    rfl
  · have blank := Network.getElem?_skeleton found
    rw [← Cell.operator?_cleared] at operates
    obtain ⟨plan, member, step, listed, implements⟩ :=
      responsive.attended.staffed ⟨place⟩ ⟨_, blank, operates⟩
    obtain ⟨_, evaluated⟩ := responsive.evaluates usable plan member
    exact Network.tells_of_evaluate checks.agree_accepts wired (responsive.sound.settled usable)
      evaluated listed implements

theorem Responsive.refillable (responsive : session.Responsive checks)
    (usable : session.network.reported = none) : session.network.Refillable checks :=
  (responsive.telling usable).refillable responsive.sound.wired

theorem responsive_new (checks : Checks) (id : NetworkId) : (new id).Responsive checks where
  attended := attended_new id
  sound := sound_new _ id
  evaluates _ := nofun

theorem Responsive.change (responsive : session.Responsive checks) (change : FactChange) :
    (session.record (session.network.change checks change)).Responsive checks := by
  have sound := responsive.sound
  refine responsive_of_refillable (responsive.attended.sameWiring (plans_record _ _)
    (sameWiring_change checks session change)) (sound.change checks.agree_accepts change) ?_
  have outcome := Network.change_outcome checks session.network change
  rw [network_record]
  generalize session.network.change checks change = result at outcome ⊢
  obtain ⟨after, events | error⟩ := result
  · intro usable
    rcases outcome.failed with rfl | poisoned
    · exact responsive.refillable usable
    · exact absurd usable poisoned
  · exact fun _ => (outcome.telling checks.agree_accepts sound.wired sound.settled
      responsive.telling).refillable (outcome.sameWiring.wired sound.wired)

theorem Responsive.reset (responsive : session.Responsive checks) :
    (session.record (session.network.reset checks)).Responsive checks := by
  have sound := responsive.sound
  have outcome := Network.reset_outcome checks session.network
  have same : Network.SameWiring session.network
      (session.record (session.network.reset checks)).network := by
    rw [network_record]
    exact outcome.sameWiring
  refine responsive_of_refillable (responsive.attended.sameWiring (plans_record _ _) same)
    (sound.reset checks.agree_accepts) ?_
  rw [network_record]
  generalize session.network.reset checks = result at outcome ⊢
  obtain ⟨after, error | events⟩ := result
  · exact fun usable => absurd usable outcome.failed
  · exact fun _ => outcome.refillable sound.wired

theorem Responsive.install (responsive : session.Responsive checks) (plans : List Plan) :
    (session.step checks (.install plans)).Responsive checks := by
  have attended := responsive.attended.step checks (.install plans)
  refine responsive_of_refillable attended (responsive.sound.install checks.agree_accepts plans) ?_
  have spec := Network.install_spec checks responsive.sound.wired plans
  rw [network_install]
  cases outcome : session.network.install checks plans with
  | mk after answer =>
    cases answer with
    | ok query =>
      have usable := Network.reported_of_install outcome
      exact fun _ => (responsive.refillable usable).install responsive.sound.wired outcome
    | error error =>
      rw [outcome] at spec
      obtain rfl : after = session.network := spec
      exact responsive.refillable

theorem Responsive.step (responsive : session.Responsive checks) (action : Action) :
    (session.step checks action).Responsive checks := by
  cases action with
  | install plans => exact responsive.install plans
  | change change => exact responsive.change change
  | apply changes =>
    exact applyAll_induction (fun _ change before => before.change change) responsive changes
  | reset => exact responsive.reset
  | subscribe query =>
    refine responsive_of_refillable (responsive.attended.step checks _)
      (responsive.sound.step checks.agree_accepts _) ?_
    unfold Session.step Network.subscribe
    dsimp only
    cases session.network.demandQuery query with
    | error error => exact responsive.refillable
    | ok installed => exact fun usable => (responsive.refillable usable).congr rfl rfl

/-- In every session whose checks always answer the same, the batch evaluator finds the matches of
all installed plans, unless the network is poisoned. -/
theorem responsive_run (checks : Checks) (id : NetworkId) (actions : List Action) :
    ((new id).run (actions.map fun action => (checks, action))).Responsive checks := by
  refine run_induction (responsive_new checks id) fun step member session before => ?_
  obtain ⟨action, _, rfl⟩ := List.mem_map.mp member
  exact before.step action

/-! ## Installs -/

/-- The batch evaluator finds the matches of plans that have been installed. -/
theorem Responsive.evaluates_installed (responsive : session.Responsive checks) {plans : List Plan}
    {after : Network} {query : QueryId}
    (installed : session.network.install checks plans = (after, .ok query)) :
    ∀ plan ∈ plans, ∃ found, plan.evaluate checks session.network.facts [] = .ok found := by
  have later := responsive.install plans
  have usable := Network.reported_of_install installed
  have spec := Network.Installed.of_install responsive.sound.wired installed
  have recorded : (session.step checks (.install plans)).plans = session.plans ++ [plans] := by
    unfold Session.step
    dsimp only
    rw [installed]
  have evaluates := later.evaluates
  rw [network_install, installed, recorded] at evaluates
  intro plan member
  rw [← spec.facts]
  exact evaluates (spec.reported.trans usable) plan (by simp [member])

/-- Whatever has been done before, with checks that always answer the same: an install of plans for
one query that leave nothing to be supplied from outside succeeds if and only if the batch evaluator
finds the matches of every plan.  The new query then has the matches that it finds for all of them,
no observer is told anything, and the other queries keep their matches. -/
theorem install_iff_evaluate (checks : Checks) (id : NetworkId) (actions : List Action)
    {session : Session} (reached : session = (new id).run (actions.map fun action =>
      (checks, action))) (usable : session.network.isPoisoned = false) {plans : List Plan}
    (nonempty : plans ≠ []) {name : String} {arity : Nat}
    (alike : ∀ plan ∈ plans, plan.body.query = name ∧ plan.body.parameters.length = arity)
    (unadorned : ∀ plan ∈ plans, plan.isAdorned = false)
    (inner : ∀ plan ∈ plans, ∀ step ∈ plan.steps, ∀ subjects,
      plan.operation? step ≠ some (.input subjects)) :
    ((∃ query, (session.network.install checks plans).2 = .ok query) ↔
      ∀ plan ∈ plans, ∃ found, plan.evaluate checks session.network.facts [] = .ok found) ∧
    ∀ after query, session.network.install checks plans = (after, .ok query) →
      (∃ found, Plan.evaluateAll checks plans session.network.facts [] = .ok found ∧
        after.matchesOf query = .ok found) ∧
      after.observers = session.network.observers ∧
      ∀ other : QueryId, other.index < session.network.queries.length →
        after.matchesOf other = session.network.matchesOf other := by
  have responsive : session.Responsive checks := reached ▸ responsive_run checks id actions
  have healthy : session.network.reported = none := by simpa [Network.isPoisoned] using usable
  have settled := responsive.sound.settled healthy
  have agree := checks.agree_accepts
  have found {after : Network} {query : QueryId}
      (installed : session.network.install checks plans = (after, .ok query)) :=
    responsive.evaluates_installed installed
  refine ⟨⟨?_, fun evaluated => ?_⟩, fun after query installed => ?_⟩
  · rintro ⟨query, answered⟩
    exact found (Prod.ext rfl answered)
  · exact Network.install_succeeds agree responsive.sound.wired settled healthy nonempty alike
      unadorned inner evaluated
  · obtain ⟨all, evaluated⟩ := Plan.exists_evaluateAll (found installed)
    have spec := Network.Installed.of_install responsive.sound.wired installed
    exact ⟨⟨all, evaluated, spec.matchesOf_new agree settled healthy evaluated⟩, spec.observers,
      fun _ older => spec.matchesOf_older responsive.sound.wired healthy older⟩

/-- One fact, and a query that lists it. -/
def listingActions : List Action := [.change ⟨.insert, ⟨⟨0⟩, [.bool true]⟩⟩, .install [listing]]

theorem guarded_ne_input : ∀ step ∈ guarded.steps, ∀ subjects,
    guarded.operation? step ≠ some (.input subjects) := by
  have steps : guarded.steps = [⟨0⟩, ⟨1⟩, ⟨2⟩] := by decide +kernel
  rw [steps]
  intro step member subjects same
  simp only [List.mem_cons, List.not_mem_nil, or_false] at member
  rcases member with rfl | rfl | rfl <;> cases same

/-- A query with a check is installed if the check accepts the value that is there already, and not
if the check fails on it. -/
theorem install_iff_evaluate_guarded :
    (∃ query, (((new ⟨0⟩).run (listingActions.map fun action =>
      ((fun _ _ => .ok true : Checks), action))).network.install (fun _ _ => .ok true)
        [guarded]).2 = .ok query) ∧
    ¬∃ query, (((new ⟨0⟩).run (listingActions.map fun action =>
      ((fun _ _ => .error "closed" : Checks), action))).network.install
        (fun _ _ => .error "closed") [guarded]).2 = .ok query := by
  have whenever (checks : Checks) (usable : ((new ⟨0⟩).run (listingActions.map fun action =>
      (checks, action))).network.isPoisoned = false) :=
    (install_iff_evaluate checks ⟨0⟩ listingActions rfl usable (List.cons_ne_nil guarded [])
      (List.forall_mem_singleton.mpr ⟨rfl, rfl⟩) (List.forall_mem_singleton.mpr rfl)
      (List.forall_mem_singleton.mpr guarded_ne_input)).1
  constructor
  · refine (whenever _ (by decide +kernel)).mpr (List.forall_mem_singleton.mpr ?_)
    exact ⟨.singleton [.bool true], of_decide_eq_true (by decide +kernel)⟩
  · intro installed
    have evaluated := (whenever _ (by decide +kernel)).mp installed guarded List.mem_cons_self
    have fails : guarded.evaluate (fun _ _ => .error "closed") ((new ⟨0⟩).run
        (listingActions.map fun action =>
          ((fun _ _ => .error "closed" : Checks), action))).network.facts [] =
        .error (.evaluationFault "check guard(x)" "closed") :=
      of_decide_eq_true (by decide +kernel)
    obtain ⟨_, same⟩ := evaluated
    rw [fails] at same
    cases same

end Session
end LiveQuery
