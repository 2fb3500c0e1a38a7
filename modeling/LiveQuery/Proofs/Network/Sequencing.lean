import LiveQuery.Proofs.Network.Retraction
import LiveQuery.Proofs.Plan.Columns
import LiveQuery.Proofs.Plan.Order

/-!
# Steps in sequence

Whoever goes through the steps of a plan takes what it knows of their children from a table, and
reports a step that comes before one of its children (`Plan.fulfils_inputsOf`).  Any arena can be
listed from any root, with every step after its earlier children.  A plan is only gone through after
it has been verified, and then all children are earlier (`Plan.steps_in_sequence`).

So neither the batch evaluator (`Plan.orderly_evaluate`) nor an install (`Network.orderly_install`)
ever makes that report, whatever the facts are, whatever the checks answer and whatever the network
holds.  Nothing that is asked of the network on the way could make it either, because nodes know
nothing of plans (`Blameless`).
-/

namespace LiveQuery

/-! ## Reports -/

/-- The error reports something else than the order of steps. -/
def Orderly (error : Error) : Prop := ∀ step child, error ≠ .precedesInput step child

theorem toString_text (text : String) : toString text = text := rfl

/-- The report starts with the name of a step. -/
theorem orderly_of_head {detail : String} (head : detail.toList.head? ≠ some 'S') :
    Orderly (.malformedPlan detail) := by
  rintro step child same
  cases same
  refine head ?_
  simp [SubPlanId.literal, toString_text]

theorem Orderly.of_wellFormed {error : Error} (other : ¬Malformed error) : Orderly error := by
  rintro step child rfl
  exact other ⟨_, rfl⟩

theorem orderly_outOfRange : Orderly .outOfRange := .of_wellFormed (by rintro ⟨_, ⟨⟩⟩)

theorem orderly_loweringDefect (body : Body) (defect : LoweringDefect) :
    Orderly (defect.error body) := by
  cases defect <;> exact orderly_of_head (by simp [toString_text])

/-- What is wrong with a plan is told after an opening of its own. -/
theorem orderly_planDefect (body : Body) (defect : PlanDefect) :
    Orderly (.malformedPlan (defect.error body).message) := by
  have opening : (∃ detail, (defect.error body).message = "malformed plan: " ++ detail) ∨
      ∃ detail, (defect.error body).message = "planning failed: " ++ detail := by
    cases defect with
    | unboundVariable | dropsConstraints | hidesVariables | exposesVariables | rootNotProjection =>
      exact .inr ⟨_, rfl⟩
    | unknownSubPlan | childNotEarlier | unknownConstraint | unknownVariable =>
      exact .inl ⟨_, rfl⟩
  rcases opening with ⟨detail, same⟩ | ⟨detail, same⟩ <;>
    exact orderly_of_head (by simp [same])

/-! ## Steps -/

namespace Plan

variable {plan : Plan} {step : SubPlanId} {checks : Checks} {facts : FactStore} {input : Tuple}

theorem orderly_demandSound (plan : Plan) :
    Fulfils plan.demandSound (fun _ => True) Orderly := by
  unfold demandSound verify
  cases plan.defect? with
  | none => trivial
  | some defect => exact orderly_planDefect plan.body defect

theorem orderly_mapError {α : Type} (body : Body) (result : Except LoweringDefect α) :
    Fulfils (result.mapError (LoweringDefect.error body)) (fun _ => True) Orderly := by
  cases result with
  | ok answer => trivial
  | error defect => exact orderly_loweringDefect body defect

theorem orderly_constraint (place : ConstraintId) {next : Constraint → Except Error Operator}
    (later : ∀ constraint, Fulfils (next constraint) (fun _ => True) Orderly) :
    Fulfils ((match plan.body.constraint? place with
      | some known => .ok known
      | none => .error .outOfRange : Except Error Constraint) >>= next) (fun _ => True) Orderly := by
  cases plan.body.constraint? place with
  | none => exact orderly_outOfRange
  | some constraint => exact later constraint

theorem orderly_lower (plan : Plan) (step : SubPlanId) :
    Fulfils (plan.lower step) (fun _ => True) Orderly := by
  unfold lower
  cases plan.operation? step with
  | none => exact orderly_outOfRange
  | some operation =>
    refine Fulfils.andThen ?_ fun _ => trivial
    cases operation with
    | start => trivial
    | input subjects => exact (orderly_mapError _ _).andThen fun _ => trivial
    | enumerate place => exact orderly_constraint place fun _ => orderly_mapError _ _
    | apply child place => exact orderly_constraint place fun _ => orderly_mapError _ _
    | join primary secondary => exact orderly_mapError _ _
    | trim child kept => exact (orderly_mapError _ _).andThen fun _ => trivial
    | project child parameters => exact (orderly_mapError _ _).andThen fun _ => trivial

/-! ## Evaluation -/

/-- A step whose children have been evaluated is evaluated too, or something else is wrong with
it. -/
theorem orderly_evaluateStep (grounded : plan.Grounded step)
    {results : Table SubPlanId (OrderedSet Tuple)}
    (known : ∀ child ∈ plan.childrenOf step, (results.get? child).isSome = true) :
    Fulfils (plan.evaluateStep checks facts input results step)
      (fun after => ∃ rows, after = results.insert step rows) Orderly := by
  have formed := formed_lower grounded
  have orderly := orderly_lower plan step
  unfold evaluateStep
  cases lowers : plan.lower step with
  | error error => exact orderly.of_error lowers
  | ok lowered =>
    have breadth := formed.of_ok lowers
    obtain ⟨children, inputs, length⟩ := exists_inputsOf known
    have evaluates := lowered.fulfils_evaluate checks facts input children
    show Fulfils (plan.inputsOf results step >>= fun children =>
      lowered.evaluate checks facts input children >>= fun rows =>
        pure (results.insert step rows)) _ _
    rw [inputs]
    show Fulfils (lowered.evaluate checks facts input children >>= _) _ _
    cases evaluated : lowered.evaluate checks facts input children with
    | ok rows => exact ⟨rows, rfl⟩
    | error error =>
      cases evaluates.of_error evaluated with
      | uncovered | faults => exact .of_wellFormed (by rintro ⟨_, ⟨⟩⟩)
      | incomplete detail missing => exact absurd (length.trans breadth) missing

/-- Steps that are in order are evaluated one after another. -/
theorem orderly_evaluateSteps {steps : List SubPlanId} {known : SubPlanId → Prop}
    (ordered : plan.Ordered known steps) (grounded : ∀ step ∈ steps, plan.Grounded step)
    {results : Table SubPlanId (OrderedSet Tuple)}
    (kept : ∀ step, known step → (results.get? step).isSome = true) :
    Fulfils (steps.foldlM (plan.evaluateStep checks facts input) results) (fun _ => True)
      Orderly := by
  induction steps generalizing known results with
  | nil => trivial
  | cons step rest ih =>
    obtain ⟨here, later⟩ := List.forall_mem_cons.mp grounded
    rw [List.foldlM_cons]
    refine (orderly_evaluateStep here fun child member => kept child (ordered.1 child member)).bind ?_
    rintro _ ⟨rows, rfl⟩
    exact ih ordered.2 later (isSome_insert kept)

theorem orderly_evaluate (checks : Checks) (plan : Plan) (facts : FactStore) (input : Tuple) :
    Fulfils (plan.evaluate checks facts input) (fun _ => True) Orderly := by
  have demands := orderly_demandSound plan
  unfold evaluate
  cases sound : plan.demandSound with
  | error error => exact demands.of_error sound
  | ok accepted =>
    by_cases fits : input.length = plan.adornment.size
    · have steps : Fulfils (plan.steps.foldlM (plan.evaluateStep checks facts input) .empty)
          (fun _ => True) Orderly :=
        orderly_evaluateSteps (ordered_steps sound) (grounded_of_demandSound sound)
          fun _ none => none.elim
      simp only [fits, ne_eq, not_true_eq_false, if_false]
      exact steps.andThen fun _ => trivial
    · simp only [fits, ne_eq, not_false_eq_true, if_true]
      exact .of_wellFormed (by rintro ⟨_, ⟨⟩⟩)

theorem orderly_evaluateAll (checks : Checks) (plans : List Plan) (facts : FactStore)
    (input : Tuple) : Fulfils (evaluateAll checks plans facts input) (fun _ => True) Orderly := by
  unfold evaluateAll
  refine Fulfils.foldlM plans (fun plan _ found _ => ?_) trivial
  exact (orderly_evaluate checks plan facts input).andThen fun _ => trivial

end Plan

/-! ## Nodes -/

/-- Whatever goes wrong is not the fault of a plan. -/
abbrev Blameless {α : Type} (result : Except Error α) : Prop :=
  Fulfils result (fun _ => True) fun error => ¬Malformed error

variable {checks : Checks} {network : Network}

theorem RowTest.blameless_passes (checks : Checks) (label : String) (row : Tuple)
    (test : RowTest) : Blameless (test.passes checks label row) := by
  cases test with
  | check id columns =>
    simp only [passes]
    cases checks id (row.project columns) with
    | ok accepted => trivial
    | error detail => rintro ⟨_, ⟨⟩⟩
  | _ => trivial

theorem RowTest.blameless_select (checks : Checks) (label : String) (test : RowTest)
    (rows : List Tuple) : Blameless (test.select checks label rows) := by
  induction rows with
  | nil => trivial
  | cons row rest ih =>
    exact (test.blameless_passes checks label row).andThen fun _ => ih.andThen fun _ => trivial

namespace Cell

theorem blameless_remember (memory : Bag Tuple) (delta : RowDelta) :
    Blameless (remember memory delta) := by
  unfold remember
  split
  · trivial
  · split
    · trivial
    · rintro ⟨_, ⟨⟩⟩

theorem blameless_block (key : List Nat) (kept blocked : Bag Tuple) (delta : RowDelta) :
    Blameless (block key kept blocked delta) := by
  unfold block
  dsimp only
  split
  · split <;> trivial
  · split
    · trivial
    · trivial
    · rintro ⟨_, ⟨⟩⟩

theorem blameless_moveEdge (state : Closure Value) (delta : RowDelta) (source target : Value) :
    Blameless (moveEdge state delta source target) := by
  unfold moveEdge
  split
  · trivial
  · split
    · trivial
    · rintro ⟨_, ⟨⟩⟩

theorem blameless_produce (produced : Bag Tuple) (delta : RowDelta) :
    Blameless (produce produced delta) := by
  unfold produce
  split
  · split <;> trivial
  · split
    · trivial
    · trivial
    · rintro ⟨_, ⟨⟩⟩

/-- A cell fails on a row because of a check, or because the row has never been there. -/
theorem blameless_receive (checks : Checks) (label : String) (inlet : Inlet) (delta : RowDelta)
    (cell : Cell) : Blameless (cell.receive checks label inlet delta) := by
  cases cell with
  | source relation arity columns equal =>
    simp only [receive]
    split <;> trivial
  | unit row => trivial
  | filter test => exact (test.blameless_passes checks label delta.row).andThen fun _ => trivial
  | project columns => trivial
  | join leftKey rightKey output left right =>
    cases inlet with
    | right => exact (blameless_remember right delta).andThen fun _ => trivial
    | single | left => exact (blameless_remember left delta).andThen fun _ => trivial
  | antiJoin relation key kept blocked =>
    cases inlet with
    | right => exact (blameless_block key kept blocked delta).andThen fun _ => trivial
    | single | left => exact (blameless_remember kept delta).andThen fun _ => trivial
  | closure relation single swap state =>
    simp only [receive]
    split
    · trivial
    next first second _ =>
      exact (blameless_moveEdge state delta first second).andThen fun _ => trivial
  | production produced => exact (blameless_produce produced delta).andThen fun _ => trivial

end Cell

namespace Network

theorem blameless_output (checks : Checks) (network : Network) (id : NodeId) :
    Blameless (network.output checks id) := by
  induction place : id.index using Nat.strong_induction_on generalizing id with
  | _ index ih =>
    rw [output]
    split
    · rintro ⟨_, ⟨⟩⟩
    next node _ =>
      extract_lets child
      -- filters and projections ask the first node that they read
      have asked : Blameless child := by
        unfold child
        split
        · split
          next before => exact ih _ (place ▸ before) _ rfl
          · rintro ⟨_, ⟨⟩⟩
        · rintro ⟨_, ⟨⟩⟩
      split
      · trivial
      · trivial
      next test _ => exact asked.andThen fun rows => test.blameless_select checks node.label rows
      · exact asked.andThen fun _ => trivial
      · trivial

theorem blameless_supply (checks : Checks) (network : Network) (input : NodeInput) :
    Blameless (network.supply checks input) := by
  cases input with
  | node child => exact network.blameless_output checks child
  | facts relation => trivial

theorem blameless_primed (checks : Checks) (network : Network) (node : Node) :
    Blameless (network.primed checks node) := by
  unfold primed
  split
  · refine Fulfils.foldlM _ (fun entry _ cell _ => ?_) trivial
    refine (network.blameless_supply checks entry.1).andThen fun rows => ?_
    refine Fulfils.foldlM _ (fun row _ cell _ => ?_) trivial
    exact (cell.blameless_receive checks node.label entry.2 ⟨.insert, row⟩).andThen fun _ => trivial
  · trivial

theorem orderly_addNode (checks : Checks) (network : Network) (node : Node) :
    (addNode checks node).Ensures network (fun _ _ => True) (fun error _ => Orderly error) := by
  set pushed : Network := { network with nodes := network.nodes ++ [node] }
  have found : pushed.nodes[network.nodes.length]? = some node := List.getElem?_concat_length
  refine Building.Ensures.get (Building.Ensures.set ?_)
  refine Building.Ensures.bind ((prime_cases checks pushed found).mono (fun _ _ _ => trivial)
    fun error _ failing => ?_) fun _ _ _ => trivial
  exact .of_wellFormed ((pushed.blameless_primed checks node).of_error failing.1)

end Network

theorem Node.orderly_ofOperator (operator : Operator) (children : List NodeId) :
    Fulfils (Node.ofOperator operator children) (fun _ => True) Orderly := by
  unfold ofOperator
  split <;> try trivial
  · exact orderly_of_head (by simp)
  · exact orderly_outOfRange

/-! ## Installing -/

namespace Network

theorem orderly_nodeFor (checks : Checks) (network : Network) (step : Lowered)
    (children : List NodeId) (share : Bool) :
    (nodeFor checks step children share).Ensures network (fun _ _ => True)
      (fun error _ => Orderly error) := by
  refine Building.Ensures.get (Building.Ensures.lift ?_ fun error failed =>
    (Node.orderly_ofOperator step.operator children).of_error failed)
  rintro ⟨cell, inputs⟩ _
  dsimp only
  split
  · trivial
  · exact orderly_addNode checks network _

/-- A step whose children have nodes gets a node too, or something else is wrong with it. -/
theorem orderly_placeStep (checks : Checks) (network : Network) {plan : Plan}
    {placed : Table SubPlanId NodeId} {step : SubPlanId}
    (known : ∀ child ∈ plan.childrenOf step, (placed.get? child).isSome = true) :
    (placeStep checks plan placed step).Ensures network
      (fun after _ => ∃ node, after = placed.insert step node) (fun error _ => Orderly error) := by
  obtain ⟨children, inputs, _⟩ := Plan.exists_inputsOf known
  refine Building.Ensures.lift (fun lowered _ => Building.Ensures.lift_ok inputs ?_) fun _ failed =>
    (plan.orderly_lower step).of_error failed
  refine Building.Ensures.bind (orderly_nodeFor checks network lowered children _) ?_
  exact fun node _ _ => ⟨node, rfl⟩

/-- Steps that are in order get their nodes one after another. -/
theorem orderly_placeSteps (checks : Checks) {plan : Plan} {steps : List SubPlanId}
    {known : SubPlanId → Prop} (ordered : plan.Ordered known steps) (network : Network)
    {placed : Table SubPlanId NodeId}
    (kept : ∀ step, known step → (placed.get? step).isSome = true) :
    Building.Ensures (steps.foldlM (placeStep checks plan) placed) network (fun _ _ => True)
      (fun error _ => Orderly error) := by
  induction steps generalizing network known placed with
  | nil => trivial
  | cons step rest ih =>
    rw [List.foldlM_cons]
    refine Building.Ensures.bind (orderly_placeStep checks network fun child member =>
      kept child (ordered.1 child member)) ?_
    rintro _ changed ⟨node, rfl⟩
    exact ih ordered.2 changed (Plan.isSome_insert kept)

theorem orderly_placePlan (checks : Checks) (network : Network) {plan : Plan}
    (sound : plan.demandSound = .ok ()) :
    (placePlan checks plan).Ensures network (fun _ _ => True) (fun error _ => Orderly error) := by
  refine Building.Ensures.bind
    (orderly_placeSteps checks (Plan.ordered_steps sound) network
      fun _ none => none.elim) fun placed changed _ => ?_
  split
  · trivial
  · exact orderly_of_head (by simp)

theorem orderly_placePlans (checks : Checks) (network : Network) {plans : List Plan}
    (sound : ∀ plan ∈ plans, plan.demandSound = .ok ()) :
    Building.Ensures (plans.mapM (placePlan checks)) network (fun _ _ => True)
      (fun error _ => Orderly error) := by
  induction plans generalizing network with
  | nil => trivial
  | cons plan rest ih =>
    obtain ⟨here, later⟩ := List.forall_mem_cons.mp sound
    rw [List.mapM_cons]
    refine Building.Ensures.bind (orderly_placePlan checks network here) fun top changed _ => ?_
    exact Building.Ensures.bind (ih changed later) fun _ _ _ => trivial

theorem orderly_build (checks : Checks) (network : Network) (name : String) (arity : Nat)
    {plans : List Plan} (sound : ∀ plan ∈ plans, plan.demandSound = .ok ()) :
    (build checks name arity plans).Ensures network (fun _ _ => True)
      (fun error _ => Orderly error) := by
  refine Building.Ensures.bind (orderly_placePlans checks network sound) fun tops changed _ => ?_
  exact Building.Ensures.bind (orderly_addNode checks changed _) fun _ _ _ => trivial

theorem orderly_demandInstallable (name : String) (arity : Nat) (plan : Plan) :
    Fulfils (demandInstallable name arity plan) (fun _ => True) Orderly := by
  unfold demandInstallable
  dsimp only
  split
  · exact orderly_of_head (by simp [toString_text])
  split
  · exact .of_wellFormed (by rintro ⟨_, ⟨⟩⟩)
  split
  · exact orderly_of_head (by simp [toString_text])
  · exact plan.orderly_demandSound

theorem orderly_demandInstall (network : Network) (plans : List Plan) :
    Fulfils (network.demandInstall plans) (fun _ => True) Orderly := by
  unfold demandInstall
  cases usable : network.demandUsable with
  | error error =>
    obtain rfl := demandUsable_error usable
    exact .of_wellFormed (by rintro ⟨_, ⟨⟩⟩)
  | ok =>
    cases plans.head? with
    | none => exact orderly_of_head (by simp)
    | some first =>
      have all := Fulfils.forM plans
        (orderly_demandInstallable first.body.query first.body.parameters.length)
      exact all.bind fun _ _ => trivial

/-- An install never reports that a step comes before one of its children. -/
theorem orderly_install (checks : Checks) (network : Network) (plans : List Plan) {error : Error}
    (failed : (network.install checks plans).2 = .error error) : Orderly error := by
  unfold install at failed
  split at failed
  next demanded =>
    cases failed
    exact (orderly_demandInstall network plans).of_error demanded
  next name arity demanded =>
    obtain ⟨_, sound⟩ := (demandInstall_spec network plans).of_ok demanded
    split at failed
    · cases failed
    next ran =>
      cases failed
      exact (orderly_build checks network name arity fun plan member =>
        (sound plan member).2).of_error ran

end Network

/-! ## Any arena -/

namespace Plan

/-- Whatever the sub-plans of an arena refer to, they are listed from any root in two turns for each
step; the root comes last, and wherever a step is listed, its children with smaller numbers are
listed before.  Rendering writes a line for every step and one for every reference that it does not
follow.  When the plan is accepted, all children of a step are listed before it, so no evaluation
and no install reports a step that precedes its input. -/
theorem steps_in_sequence (plan : Plan) :
    plan.arena.Ends ⟨[⟨plan.root, false⟩], []⟩ (2 * plan.steps.length) plan.steps ∧
    plan.steps.getLast? = some plan.root ∧
    (∀ before step after, plan.steps = before ++ step :: after →
      ∀ child ∈ plan.childrenOf step, child.index < step.index → child ∈ before) ∧
    InLines plan.render (plan.arena.linesBelow plan.root) ∧
    (plan.verify = .ok () → ∀ before step after, plan.steps = before ++ step :: after →
      ∀ child ∈ plan.childrenOf step, child ∈ before) ∧
    (∀ checks facts input step child,
      plan.evaluate checks facts input ≠ .error (.precedesInput step child)) ∧
    (∀ checks plans facts input step child,
      evaluateAll checks plans facts input ≠ .error (.precedesInput step child)) ∧
    ∀ checks network plans step child,
      (Network.install checks network plans).2 ≠ .error (.precedesInput step child) := by
  refine ⟨plan.arena.ends_postOrder plan.root, ?_,
    fun before step after parts child member earlier => ?_, plan.inLines_renderFrom plan.root 0,
    fun verified before step after parts => ?_,
    fun checks facts input step child failed => ?_,
    fun checks plans facts input step child failed => ?_,
    fun checks network plans step child failed => ?_⟩
  · rw [steps, Arena.postOrder_eq_unfolded, Arena.unfolded_eq, List.getLast?_concat]
  · exact plan.arena.childrenFirst_postOrder plan.root before step after parts child
      (mem_earlierChildren.mpr ⟨member, earlier⟩)
  · exact children_before (verify_eq_ok_iff.mp verified).1 parts
  · exact (orderly_evaluate checks plan facts input).of_error failed step child rfl
  · exact (orderly_evaluateAll checks plans facts input).of_error failed step child rfl
  · exact Network.orderly_install checks network plans failed step child rfl

/-- Sub-plans that refer to themselves, to a later one and to one that is not there. -/
def tangled : Plan :=
  .allocate turned [.apply ⟨0⟩ ⟨1⟩, .join ⟨2⟩ ⟨0⟩, .join ⟨1⟩ ⟨9⟩]

/-- Joins the edges with themselves. -/
def doubled : Plan :=
  .allocate turned [.enumerate ⟨0⟩, .join ⟨0⟩ ⟨0⟩, .project ⟨1⟩ [⟨1⟩, ⟨0⟩]]

/-- Of the tangled references only those to earlier sub-plans are followed.  The step that is read
twice is listed twice, both times before the join. -/
theorem steps_in_sequence_doubled :
    tangled.steps = [⟨0⟩, ⟨1⟩, ⟨2⟩] ∧ (⟨0⟩ : SubPlanId) ∈ [(⟨0⟩ : SubPlanId)] ∧
    doubled.steps = [⟨0⟩, ⟨0⟩, ⟨1⟩, ⟨2⟩] ∧ doubled.verify = .ok () ∧
    ∀ child ∈ doubled.childrenOf ⟨1⟩, child ∈ [(⟨0⟩ : SubPlanId), ⟨0⟩] := by
  have tangledSteps : tangled.steps = [⟨0⟩, ⟨1⟩, ⟨2⟩] := of_decide_eq_true (by decide +kernel)
  have doubledSteps : doubled.steps = [⟨0⟩, ⟨0⟩, ⟨1⟩, ⟨2⟩] :=
    of_decide_eq_true (by decide +kernel)
  have verified : doubled.verify = .ok () := of_decide_eq_true (by decide +kernel)
  obtain ⟨_, _, earlierFirst, _⟩ := steps_in_sequence tangled
  obtain ⟨_, _, _, _, allFirst, _⟩ := steps_in_sequence doubled
  exact ⟨tangledSteps, earlierFirst [⟨0⟩] ⟨1⟩ [⟨2⟩] tangledSteps ⟨0⟩ (by decide +kernel) (by decide),
    doubledSteps, verified, allFirst verified [⟨0⟩, ⟨0⟩] ⟨1⟩ [⟨2⟩] doubledSteps⟩

end Plan
end LiveQuery
