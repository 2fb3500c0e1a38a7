import LiveQuery.Proofs.Network.Deciding
import LiveQuery.Proofs.Network.Ranges
import LiveQuery.Proofs.Plan.Order

/-!
# Telling and evaluating

To tell what it has sent, a node without a memory runs its check on the rows on which the batch
evaluator runs the check of the step.  So in a settled network a node can tell if the batch
evaluator has rows for the step that the node carries out (`tells_of_yields`), and the batch
evaluator finds the matches of a plan if every step is carried out by a node that can tell
(`exists_evaluate`).

In a network that could be primed again, the nodes which a node reads can tell if the node itself
can (`Refillable.tells_children`).  So this is the case for the steps of every plan that the network
has a production for (`Refillable.tells_steps`).
-/

namespace LiveQuery

theorem Plan.breadth_of_lower {plan : Plan} {step : SubPlanId} {lowered : Lowered}
    (lowers : plan.lower step = .ok lowered) :
    (plan.childrenOf step).length = lowered.operator.breadth := by
  have breadth (operator : Operator) : operator.reads.length = operator.breadth := by
    cases operator <;> rfl
  cases known : plan.operation? step with
  | none =>
    unfold lower at lowers
    rw [known] at lowers
    cases lowers
  | some operation =>
    obtain ⟨operator, operated, rfl⟩ := lower_ok known lowers
    rw [← breadth, (reads_of_operator operated).2.length_eq, childrenOf, known]
    rfl

theorem Node.mem_children {node : Node} {child : NodeId} :
    child ∈ node.children ↔ ∃ inlet, (.node child, inlet) ∈ node.inputs := by
  unfold children
  rw [List.mem_filterMap]
  constructor
  · rintro ⟨⟨_ | _, inlet⟩, member, same⟩ <;> cases same
    exact ⟨inlet, member⟩
  · rintro ⟨inlet, member⟩
    exact ⟨_, member, rfl⟩

namespace Network

variable {checks : Checks} {truth : CheckId → Tuple → Bool} {network : Network}
  {received : Receipts} {plan : Plan} {step : SubPlanId} {id : NodeId}

theorem children_of_implements {lowered : Lowered} {node : Node} {children : List NodeId}
    (lowers : plan.lower step = .ok lowered)
    (made : Node.ofOperator lowered.operator children = .ok (node.cell.cleared, node.inputs))
    (length : (plan.childrenOf step).length = children.length) : node.children = children :=
  Node.children_of_made made (length.symm.trans (Plan.breadth_of_lower lowers))

theorem filter_iff_of_made {operator : Operator} {node : Node} {children : List NodeId}
    {test : RowTest}
    (made : Node.ofOperator operator children = .ok (node.cell.cleared, node.inputs)) :
    operator = .filter test ↔ node.cell = .filter test := by
  have carries := (Node.of_ofOperator made).1
  rw [Cell.operator?_cleared] at carries
  constructor
  · rintro rfl
    cases kind : node.cell <;> rw [kind] at carries <;> cases carries
    rfl
  · intro cell
    rw [cell] at carries
    exact (Option.some.inj carries).symm

/-- A settled node that carries out a step tells the rows that the batch evaluator has for it. -/
theorem mem_output_of_implements (agree : checks.Agree truth) (wired : network.Wired)
    (below : network.SettledBelow truth received network.nodes.length)
    (implements : Implements network.skeleton plan step id) {rows : OrderedSet Tuple}
    (yields : Yields checks network.facts [] plan step rows) {told : List Tuple}
    (output : network.output checks id = .ok told) (row : Tuple) : row ∈ told ↔ row ∈ rows := by
  obtain ⟨_, found, _⟩ := implements.operates
  obtain ⟨_, there, _⟩ := of_getElem?_skeleton found
  rw [mem_output agree wired below (List.getElem?_eq_some_iff.mp there).1 output,
    mem_sentAt_of_implements agree below implements yields]

/-! ## From rows to nodes -/

/-- A settled node can tell what it has sent if the batch evaluator has rows for its step. -/
theorem tells_of_yields (agree : checks.Agree truth) (wired : network.Wired)
    (below : network.SettledBelow truth received network.nodes.length)
    (implements : Implements network.skeleton plan step id) {rows : OrderedSet Tuple}
    (yields : Yields checks network.facts [] plan step rows) : network.Tells checks id := by
  induction implements generalizing rows with
  | @intro step id lowered blank children lowers found made length each ih =>
    obtain @⟨_, _, answers, _, lowersAgain, answersLength, answersEach, evaluates⟩ := yields
    cases lowers.symm.trans lowersAgain
    obtain ⟨node, nodeFound, rfl⟩ := of_getElem?_skeleton found
    refine (tells_iff wired nodeFound).mpr (.inr fun child inlet member => ?_)
    have listed : child ∈ children := by
      rw [← children_of_implements lowers made length]
      exact Node.mem_children.mpr ⟨inlet, member⟩
    obtain ⟨index, inside, rfl⟩ := List.mem_iff_getElem.mp listed
    have there : index < (plan.childrenOf step).length := length ▸ inside
    have carried := each _ _ (mem_zip_getElem there inside)
    have answer := answersEach _ _ (mem_zip_getElem there (answersLength ▸ there))
    obtain ⟨told, output⟩ := ih _ _ (mem_zip_getElem there inside) answer
    refine ⟨told, output, fun test cell row rowMember => ?_⟩
    have operator := (filter_iff_of_made made).mpr cell
    -- the test has answered on the same rows in the batch evaluator
    have decides := (Lowered.exists_evaluate_iff (fun columns => by simp [operator])
      (answersLength.symm.trans (Plan.breadth_of_lower lowers))).mp ⟨_, evaluates⟩ test operator
    refine decides _ (List.getElem_mem (answersLength ▸ there)) row ?_
    exact (mem_output_of_implements agree wired below carried answer output row).mp rowMember

/-! ## From nodes to rows -/

/-- With rows for the children, a step can be evaluated if its node can tell what it has sent. -/
theorem exists_rows_of_tells (agree : checks.Agree truth) (wired : network.Wired)
    (below : network.SettledBelow truth received network.nodes.length)
    (implements : Implements network.skeleton plan step id) (tells : network.Tells checks id)
    {lowered : Lowered} (lowers : plan.lower step = .ok lowered)
    {answers : List (OrderedSet Tuple)} (known : List.Forall₂ (fun child rows =>
      Yields checks network.facts [] plan child rows) (plan.childrenOf step) answers) :
    ∃ rows, lowered.evaluate checks network.facts [] answers = .ok rows := by
  obtain @⟨_, _, _, blank, children, lowersAgain, found, made, length, each⟩ := implements
  cases lowers.symm.trans lowersAgain
  obtain ⟨node, nodeFound, rfl⟩ := of_getElem?_skeleton found
  have inner (columns : List Nat) : lowered.operator ≠ .input columns := by
    intro waits
    rw [waits] at made
    cases made
  refine (Lowered.exists_evaluate_iff inner
    (known.length_eq.symm.trans (Plan.breadth_of_lower lowers))).mpr ?_
  intro test operator rows member row rowMember
  have cell := (filter_iff_of_made made).mp operator
  obtain stateful | told := (tells_iff wired nodeFound).mp tells
  · rw [cell] at stateful
    cases stateful
  obtain ⟨index, inside, rfl⟩ := List.mem_iff_getElem.mp member
  have there : index < (plan.childrenOf step).length := known.length_eq ▸ inside
  have childInside : index < children.length := length ▸ there
  have carried := each _ _ (mem_zip_getElem there childInside)
  have reads : children[index] ∈ node.children := by
    rw [children_of_implements lowers made length]
    exact List.getElem_mem childInside
  obtain ⟨inlet, connected⟩ := Node.mem_children.mp reads
  obtain ⟨output, supplied, decides⟩ := told _ inlet connected
  refine decides test cell row ?_
  have answer := List.Forall₂.get known there inside
  exact (mem_output_of_implements agree wired below carried answer supplied row).mpr rowMember

/-- The batch evaluator finds the matches of an accepted plan if all its steps are carried out by
settled nodes that can tell what they have sent. -/
theorem exists_evaluate (agree : checks.Agree truth) (wired : network.Wired)
    (settled : network.Settled truth) (unadorned : plan.isAdorned = false)
    (sound : plan.demandSound = .ok ())
    (carried : ∀ step ∈ plan.steps, ∃ place, Implements network.skeleton plan step place ∧
      network.Tells checks place) :
    ∃ found, plan.evaluate checks network.facts [] = .ok found := by
  obtain ⟨received, below⟩ := settled_iff.mp settled
  have all (steps : List SubPlanId) (subset : ∀ step ∈ steps, step ∈ plan.steps)
      (known : SubPlanId → Prop) (ordered : plan.Ordered known steps)
      (results : Table SubPlanId (OrderedSet Tuple))
      (kept : ∀ step, known step → (results.get? step).isSome = true)
      (yields : ∀ step rows, results.get? step = some rows →
        Yields checks network.facts [] plan step rows) :
      ∃ after, steps.foldlM (plan.evaluateStep checks network.facts []) results = .ok after := by
    induction steps generalizing known results with
    | nil => exact ⟨results, rfl⟩
    | cons step rest ih =>
      obtain ⟨place, implements, tells⟩ := carried step (subset step List.mem_cons_self)
      obtain ⟨lowered, lowers⟩ : ∃ lowered, plan.lower step = .ok lowered := by
        cases implements with
        | intro lowers => exact ⟨_, lowers⟩
      obtain ⟨answers, inputs, _⟩ := Plan.exists_inputsOf fun child member =>
        kept child (ordered.1 child member)
      obtain ⟨rows, evaluates⟩ := exists_rows_of_tells agree wired below implements tells lowers
        ((inputsOf_ok inputs).imp yields)
      have first : plan.evaluateStep checks network.facts [] results step =
          .ok (results.insert step rows) := by
        unfold Plan.evaluateStep
        rw [lowers, inputs]
        show (lowered.evaluate checks network.facts [] answers >>= _) = _
        rw [evaluates]
        rfl
      rw [List.foldlM_cons, first]
      exact ih (fun other member => subset other (List.mem_cons_of_mem _ member)) _ ordered.2 _
        (Plan.isSome_insert kept) (yields_of_evaluateStep yields first).1
  obtain ⟨results, ran⟩ := all plan.steps (fun _ member => member) _ (Plan.ordered_steps sound)
    .empty (fun _ absent => absent.elim) fun _ _ absent => by cases absent
  have size : plan.adornment.size = 0 := by
    simpa [Plan.isAdorned, OrderedSet.isEmpty, OrderedSet.size] using unadorned
  exact ⟨_, evaluate_eq_ok_iff.mpr ⟨sound, size.symm, results, ran, rfl⟩⟩

/-! ## Networks that could be primed again -/

theorem Refillable.tells_children (wired : network.Wired) (refillable : network.Refillable checks)
    {node : Node} (found : network.nodes[id.index]? = some node) (tells : network.Tells checks id) :
    ∀ child ∈ node.children, network.Tells checks child := by
  intro child member
  obtain ⟨inlet, connected⟩ := Node.mem_children.mp member
  rcases (tells_iff wired found).mp tells with stateful | told
  · exact refillable id.index node (List.getElem?_eq_some_iff.mp found).1 found stateful child inlet
      connected
  · obtain ⟨rows, output, _⟩ := told child inlet connected
    exact ⟨rows, output⟩

theorem Refillable.tells_steps (wired : network.Wired) (refillable : network.Refillable checks)
    {plans : List Plan} (produces : Produces network.skeleton plans id) (member : plan ∈ plans) :
    ∀ step ∈ plan.steps, ∃ place, Implements network.skeleton plan step place ∧
      network.Tells checks place := by
  obtain ⟨blank, tops, found, cell, inputs, implement⟩ := produces
  obtain ⟨node, nodeFound, rfl⟩ := of_getElem?_skeleton found
  obtain ⟨index, inside, rfl⟩ := List.mem_iff_getElem.mp member
  have topInside : index < tops.length := implement.length_eq ▸ inside
  obtain ⟨_, implements⟩ := List.Forall₂.get implement inside topInside
  have production : network.Tells checks id := by
    refine (tells_iff wired nodeFound).mpr (.inl ?_)
    have same : node.cell.cleared = .production .empty := cell
    rw [← Cell.isStateful_congr (Cell.cleared_cleared node.cell), same]
    rfl
  have reads : tops[index] ∈ node.children := by
    refine Node.mem_children.mpr ⟨.single, ?_⟩
    show _ ∈ node.cleared.inputs
    rw [inputs]
    exact List.mem_map_of_mem (List.getElem_mem topInside)
  refine fun step listed => implements.exists_of_mem_postOrder ?_
    (refillable.tells_children wired nodeFound production _ reads) listed
  intro step place lowered blank children lowers found made length tells
  obtain ⟨other, otherFound, rfl⟩ := of_getElem?_skeleton found
  rw [← children_of_implements lowers made length]
  exact refillable.tells_children wired otherFound tells

end Network
end LiveQuery
