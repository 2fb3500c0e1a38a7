import LiveQuery.Proofs.Network.Install

/-!
# What settled nodes hold

A settled operator node has sent the rows of its operator, given what its children have sent
(`mem_sentAt`), and the batch evaluator computes the rows of every step in the same way
(`Yields`).  So a node that implements a step has sent exactly the rows that the batch evaluator
computes for the step (`mem_sentAt_of_implements`), counted in whatever way, and a production holds
the matches that the batch evaluator finds for its plans (`produced_eq_of_evaluateAll`).
-/

namespace LiveQuery

/-! ## Rows of settled nodes -/

namespace Network

variable {truth : CheckId → Tuple → Bool} {network : Network} {received : Receipts}

theorem mem_sentAt (settled : network.SettledBelow truth received network.nodes.length)
    {place : Nat} {node : Node} (found : network.nodes[place]? = some node) {operator : Operator}
    {children : List NodeId}
    (made : Node.ofOperator operator children = .ok (node.cell.cleared, node.inputs))
    (input row : Tuple) :
    row ∈ network.sentAt truth received place ↔ operator.Rows truth network.facts input
      (children.map fun child row => row ∈ network.sentAt truth received child.index) row := by
  obtain ⟨holds, receives⟩ := settled place node (List.getElem?_eq_some_iff.mp found).1 found
  have sent : network.sentAt truth received place = node.cell.sent truth (received place) := by
    simp only [sentAt, found]
  rw [sent]
  clear sent found
  obtain ⟨cell, label, inputs, shared⟩ := node
  dsimp only at made holds receives ⊢
  have carries := (Node.of_ofOperator made).1
  rw [Cell.operator?_cleared] at carries
  -- for each operator, what the cell has sent is spelled out in terms of what its inputs supply
  cases cell with
  | source relation arity columns equal =>
    cases carries
    cases made
    simp only [Cell.sent, receives, Operator.Rows, Multiset.mem_filterMap, gathered_cons,
      gathered_nil, if_true, add_zero, suppliedBy, Multiset.mem_coe, FactStore.mem_occurrencesOf]
  | unit fixed =>
    cases carries
    simp [Cell.sent, Operator.Rows]
  | filter test =>
    cases carries
    obtain ⟨child, rfl, rfl⟩ := inputs_of_single (.inl ⟨test, rfl⟩) made
    simp only [Cell.sent, receives, Operator.Rows, List.map_cons, List.map_nil, gathered_cons,
      gathered_nil, if_true, add_zero, suppliedBy, Multiset.mem_filter]
  | project columns =>
    cases carries
    obtain ⟨child, rfl, rfl⟩ := inputs_of_single (.inr ⟨columns, rfl⟩) made
    simp only [Cell.sent, receives, Operator.Rows, List.map_cons, List.map_nil, gathered_cons,
      gathered_nil, if_true, add_zero, suppliedBy, Multiset.mem_map]
  | join leftKey rightKey output left right =>
    cases carries
    rcases children with _ | ⟨first, _ | ⟨second, _ | ⟨_, _⟩⟩⟩ <;> cases made
    simp only [Cell.sent, receives, Operator.Rows, List.map_cons, List.map_nil, gathered_cons,
      gathered_nil, suppliedBy, reduceCtorEq, if_true, if_false, add_zero, zero_add,
      Multiset.mem_bind, Multiset.mem_map, Multiset.mem_filter]
    constructor
    · intro found
      obtain ⟨whole, leftMember, other, ⟨rightMember, key⟩, same⟩ := found
      exact ⟨whole, other, leftMember, rightMember, key, same⟩
    · intro found
      obtain ⟨whole, other, leftMember, rightMember, key, same⟩ := found
      exact ⟨whole, leftMember, other, ⟨rightMember, key⟩, same⟩
  | antiJoin relation key kept blocked =>
    cases carries
    rcases children with _ | ⟨child, _ | ⟨_, _⟩⟩ <;> cases made
    simp only [Cell.sent, receives, Operator.Rows, List.map_cons, List.map_nil, gathered_cons,
      gathered_nil, suppliedBy, reduceCtorEq, if_true, if_false, add_zero, zero_add,
      Multiset.mem_filter, Multiset.mem_coe, FactStore.mem_occurrencesOf]
  | closure relation single swap state =>
    cases carries
    cases made
    obtain ⟨exact, edges⟩ := holds
    have linked (source target : Value) :
        (source, target) ∈ state.pairs ↔ network.facts.Linked relation source target := by
      rw [exact.mem_pairs]
      refine FactStore.path_iff_linked ?_
      intro source target
      rw [← Multiset.mem_coe, edges, receives]
      simp only [Multiset.mem_filterMap, gathered_cons, gathered_nil, if_true, add_zero, suppliedBy,
        Multiset.mem_coe, FactStore.mem_occurrencesOf, FactStore.edge?_eq_some, exists_eq_right]
    simp only [Cell.sent, Operator.Rows, Multiset.mem_coe, List.mem_filterMap, Prod.exists, linked]
  | production produced => cases carries

/-! ## Steps and plans -/

variable {checks : Checks}

theorem mem_zip_getElem {α β : Type} {first : List α} {second : List β} {index : Nat}
    (left : index < first.length) (right : index < second.length) :
    (first[index], second[index]) ∈ first.zip second := by
  have inside : index < (first.zip second).length := by
    rw [List.length_zip]
    omega
  rw [← List.getElem_zip (h := inside)]
  exact List.getElem_mem inside

/-- A node that carries out a step has sent the rows that the batch evaluator computes for it. -/
theorem mem_sentAt_of_implements (agree : checks.Agree truth)
    (settled : network.SettledBelow truth received network.nodes.length) {plan : Plan}
    {step : SubPlanId} {id : NodeId} (implements : Implements network.skeleton plan step id)
    {rows : OrderedSet Tuple} (yields : Yields checks network.facts [] plan step rows)
    (row : Tuple) : row ∈ rows ↔ row ∈ network.sentAt truth received id.index := by
  induction implements generalizing rows row with
  | @intro step id lowered blank children lowers found made length below ih =>
    obtain @⟨_, _, rowsChildren, _, lowersAgain, rowsLength, rowsBelow, evaluates⟩ := yields
    cases lowers.symm.trans lowersAgain
    obtain ⟨node, nodeFound, rfl⟩ := of_getElem?_skeleton found
    rw [Lowered.evaluate_spec agree evaluates, mem_sentAt settled nodeFound made]
    -- by induction the children have the same rows on both sides
    have same : rowsChildren.map (fun child row => row ∈ child) =
        children.map fun child row => row ∈ network.sentAt truth received child.index := by
      refine List.ext_getElem (by simp [← length, ← rowsLength]) ?_
      intro index first second
      rw [List.length_map] at first second
      have inside : index < (plan.childrenOf step).length := rowsLength ▸ first
      rw [List.getElem_map, List.getElem_map]
      funext row
      refine propext (ih _ _ (mem_zip_getElem inside second) (rowsBelow _ _
        (mem_zip_getElem inside first)) row)
    rw [same]

theorem mem_produced_of_reads (settled : network.SettledBelow truth received network.nodes.length)
    {id : NodeId} {blank : Node} (found : network.skeleton[id.index]? = some blank)
    (cell : blank.cell = .production .empty) {tops : List NodeId}
    (reads : blank.inputs = tops.map fun top => (.node top, .single)) (row : Tuple) :
    row ∈ network.produced id ↔ ∃ top ∈ tops, row ∈ network.sentAt truth received top.index := by
  obtain ⟨node, nodeFound, rfl⟩ := of_getElem?_skeleton found
  obtain ⟨holds, receives⟩ := settled _ node (List.getElem?_eq_some_iff.mp nodeFound).1 nodeFound
  obtain ⟨memory, production⟩ : ∃ memory, node.cell = .production memory := by
    refine Cell.eq_production ?_
    rw [← Cell.operator?_cleared]
    exact congrArg Cell.operator? cell
  have remembered : (memory.occurrences : Multiset Tuple) = received id.index .single := by
    rwa [production] at holds
  have inputs : node.inputs = tops.map fun top => (.node top, .single) := reads
  calc
    row ∈ network.produced id ↔ row ∈ memory.occurrences := by
      rw [Network.produced, nodeFound]
      dsimp only
      rw [production, Cell.stored, OrderedSet.mem_ofList, Bag.mem_distinct]
    _ ↔ row ∈ received id.index .single := by
      rw [← Multiset.mem_coe, remembered]
    _ ↔ ∃ top ∈ tops, row ∈ network.sentAt truth received top.index := by
      rw [receives, inputs, mem_gathered]
      simp [suppliedBy]

/-- The rows of a settled production are those of the tops of its plans. -/
theorem mem_produced (settled : network.SettledBelow truth received network.nodes.length)
    {plans : List Plan} {id : NodeId} (produces : Produces network.skeleton plans id) :
    ∃ tops : List NodeId, List.Forall₂ (fun plan top => plan.root ∈ plan.steps ∧
        Implements network.skeleton plan plan.root top) plans tops ∧
      ∀ row, row ∈ network.produced id ↔
        ∃ top ∈ tops, row ∈ network.sentAt truth received top.index := by
  obtain ⟨blank, tops, found, cell, reads, implement⟩ := produces
  exact ⟨tops, implement, mem_produced_of_reads settled found cell reads⟩

/-- A settled production holds the matches that the batch evaluator finds. -/
theorem produced_eq_of_evaluateAll (agree : checks.Agree truth) (settled : network.Settled truth)
    {plans : List Plan} {id : NodeId} (produces : Produces network.skeleton plans id)
    {found : OrderedSet Tuple}
    (evaluated : Plan.evaluateAll checks plans network.facts [] = .ok found) :
    network.produced id = found := by
  obtain ⟨received, settled⟩ := settled_iff.mp settled
  obtain ⟨tops, implement, produced⟩ := mem_produced settled produces
  obtain ⟨answers, evaluate, members⟩ := mem_evaluateAll evaluated
  refine OrderedSet.ext_mem ?_
  intro row
  rw [produced, members]
  clear produced members evaluated produces
  -- each plan has its answer, and its top has the rows of the answer
  induction implement generalizing answers with
  | nil =>
    cases evaluate
    simp
  | cons implements _ ih =>
    obtain ⟨listed, implements⟩ := implements
    cases evaluate with
    | cons evaluates rest =>
      have first := mem_sentAt_of_implements agree settled implements
        (yields_of_evaluate listed evaluates) row
      simp [first, ih _ rest]

end Network
end LiveQuery
