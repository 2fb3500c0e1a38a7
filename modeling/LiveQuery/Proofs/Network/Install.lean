import LiveQuery.Network.Install
import LiveQuery.Proofs.Batch.Steps
import LiveQuery.Proofs.Network.Priming
import LiveQuery.Proofs.Plan.Lowering

/-!
# Installing queries

An install only adds nodes: what was there stays where it was, and every new node fits and, when all
others are settled, is settled too (`Extends`).  The node found or made for a step of a plan
`Implements` the step, which says that its operator is that of the step and that its children
implement the children of the step, in order; it does not matter whether a node is new or shared.
The production of the query reads such a node for the root of every plan (`install_spec`).

If building stops, then because a check failed or because a plan cannot be built, as long as all
steps of the plans refer to known things (`Stopped`).
-/

namespace LiveQuery

/-! ## What nodes stand for -/

/-- The node carries out a step of a plan on nodes that carry out the children of the step. -/
inductive Implements (nodes : List Node) (plan : Plan) : SubPlanId → NodeId → Prop where
  | intro {step : SubPlanId} {id : NodeId} {lowered : Lowered} {node : Node}
      {children : List NodeId} (lowers : plan.lower step = .ok lowered)
      (found : nodes[id.index]? = some node)
      (made : Node.ofOperator lowered.operator children = .ok (node.cell, node.inputs))
      (length : (plan.childrenOf step).length = children.length)
      (below : ∀ child place, (child, place) ∈ (plan.childrenOf step).zip children →
        Implements nodes plan child place) : Implements nodes plan step id

/-- The node is a production that reads, for every plan, a node that carries out its root. -/
def Produces (nodes : List Node) (plans : List Plan) (id : NodeId) : Prop :=
  ∃ node tops, nodes[id.index]? = some node ∧ node.cell = .production .empty ∧
    node.inputs = tops.map (fun top => (.node top, .single)) ∧
    List.Forall₂ (fun plan top => plan.root ∈ plan.steps ∧ Implements nodes plan plan.root top)
      plans tops

section Stands

variable {nodes more : List Node}

theorem Implements.mono (longer : nodes <+: more) {plan : Plan} {step : SubPlanId} {id : NodeId}
    (implements : Implements nodes plan step id) : Implements more plan step id := by
  induction implements with
  | intro lowers found made length _ ih =>
    exact .intro lowers (getElem?_mono longer found) made length ih

theorem Implements.operates {plan : Plan} {step : SubPlanId} {id : NodeId}
    (implements : Implements nodes plan step id) : Operates nodes id := by
  cases implements with
  | intro _ found made _ _ =>
    refine ⟨_, found, ?_⟩
    rw [(Node.of_ofOperator made).1]
    exact Option.some_ne_none _

theorem Produces.mono (longer : nodes <+: more) {plans : List Plan} {id : NodeId}
    (produces : Produces nodes plans id) : Produces more plans id := by
  obtain ⟨node, tops, found, cell, inputs, implement⟩ := produces
  refine ⟨node, tops, getElem?_mono longer found, cell, inputs, implement.imp ?_⟩
  exact fun _ _ ⟨placed, implements⟩ => ⟨placed, implements.mono longer⟩

end Stands

/-- Cells of one operator differ in their memories only. -/
theorem Cell.cleared_eq_of_operator? {cell other : Cell} {operator : Operator}
    (first : cell.operator? = some operator) (second : other.operator? = some operator) :
    cell.cleared = other.cleared := by
  cases cell <;> cases first <;> cases other <;> cases second <;> rfl

namespace Network

/-! ## Networks with more nodes -/

/-- There may be more nodes, and nothing else is different. -/
structure Grows (before after : Network) : Prop where
  fields : after = { before with nodes := after.nodes }
  nodes : before.nodes <+: after.nodes

/-- There are more nodes that fit and, if checks answer as told, are settled. -/
structure Extends (checks : Checks) (before after : Network) : Prop extends Grows before after where
  wired : after.Wired
  settled : ∀ truth, checks.Agree truth → before.Settled truth → after.Settled truth

/-- Why building stops: a plan cannot be built, or a check fails. -/
inductive StopsBuilding : Error → Prop where
  | malformed (detail : String) : StopsBuilding (.malformedPlan detail)
  | faulted (label detail : String) : StopsBuilding (.evaluationFault label detail)

/-- Building has stopped.  The reason is known if it was sound to begin. -/
structure Stopped (checks : Checks) (sound : Prop) (before : Network) (error : Error)
    (after : Network) : Prop extends Grows before after where
  reason : sound → ∀ truth, checks.Agree truth → before.Settled truth → StopsBuilding error

namespace Grows

variable {before middle after : Network}

theorem refl (network : Network) : Grows network network := ⟨rfl, List.prefix_rfl⟩

theorem trans (first : Grows before middle) (second : Grows middle after) : Grows before after := by
  refine ⟨?_, first.nodes.trans second.nodes⟩
  rw [second.fields, first.fields]

theorem queries (grows : Grows before after) : after.queries = before.queries := by
  rw [grows.fields]

theorem facts (grows : Grows before after) : after.facts = before.facts := by
  rw [grows.fields]

theorem skeleton (grows : Grows before after) : before.skeleton <+: after.skeleton :=
  grows.nodes.map _

theorem rollback (grows : Grows before after) : after.rollback before.nodes.length = before := by
  obtain ⟨rest, same⟩ := grows.nodes
  rw [grows.fields, Network.rollback, ← same]
  simp

end Grows

namespace Extends

variable {checks : Checks} {before middle after : Network}

theorem refl (wired : before.Wired) : Extends checks before before :=
  ⟨.refl before, wired, fun _ _ settled => settled⟩

theorem trans (first : Extends checks before middle) (second : Extends checks middle after) :
    Extends checks before after :=
  ⟨first.toGrows.trans second.toGrows, second.wired, fun truth agree settled =>
    second.settled truth agree (first.settled truth agree settled)⟩

end Extends

/-- Building has also stopped for who began earlier. -/
theorem Stopped.after {checks : Checks} {sound earlier : Prop} {before middle after : Network}
    {error : Error} (stopped : Stopped checks sound middle error after)
    (extends_ : Extends checks before middle) (begun : earlier → sound) :
    Stopped checks earlier before error after :=
  ⟨extends_.toGrows.trans stopped.toGrows, fun was truth agree settled =>
    stopped.reason (begun was) truth agree (extends_.settled truth agree settled)⟩

/-- Before a node is added, the only defect is a malformed plan. -/
theorem stopped_of_formed {checks : Checks} {sound : Prop} {network : Network} {error : Error}
    (malformed : sound → ∃ detail, error = .malformedPlan detail) :
    Stopped checks sound network error network :=
  ⟨.refl network, fun was _ _ _ => by
    obtain ⟨detail, rfl⟩ := malformed was
    exact .malformed detail⟩

variable {checks : Checks} {truth : CheckId → Tuple → Bool} {network : Network} {sound : Prop}

/-! ## Adding nodes -/

theorem Wired.append (wired : network.Wired) {node : Node} (blank : node.cell.cleared = node.cell)
    (fits : node.Fits network.skeleton) :
    Wired { network with nodes := network.nodes ++ [node] } where
  nodes := by
    have same : node.cleared = node := by simp only [Node.cleared, blank]
    have longer := wired.nodes.append fits
    rwa [← same, skeleton, ← List.map_singleton, ← List.map_append] at longer
  produced := by
    intro query member
    obtain ⟨production, found, none⟩ := wired.produced query member
    refine ⟨production, getElem?_mono ?_ found, none⟩
    exact (List.prefix_append network.nodes [node]).map _
  distinct := wired.distinct

/-- A node that fits can be added, and the new node is where the answer says. -/
theorem addNode_spec (checks : Checks) (wired : network.Wired) {node : Node}
    (blank : node.cell.cleared = node.cell) (fits : node.Fits network.skeleton) :
    (addNode checks node).Ensures network
      (fun id changed => Extends checks network changed ∧ id = ⟨network.nodes.length⟩ ∧
        changed.skeleton[id.index]? = some node)
      (fun error unfinished => Stopped checks sound network error unfinished) := by
  set pushed : Network := { network with nodes := network.nodes ++ [node] }
  have pushedWired : pushed.Wired := wired.append blank fits
  have grown : Grows network pushed := ⟨rfl, List.prefix_append _ _⟩
  have found : pushed.nodes[network.nodes.length]? = some node := List.getElem?_concat_length
  -- all nodes before the new one are settled if the network was
  have early (truth : CheckId → Tuple → Bool) (settled : network.Settled truth) :
      ∃ received, pushed.SettledBelow truth received network.nodes.length := by
    obtain ⟨received, below⟩ := settled_iff.mp settled
    exact ⟨received, below.congr wired rfl fun place less => List.getElem?_append_left less⟩
  -- the node is there before it is primed
  refine Building.Ensures.get (Building.Ensures.set ?_)
  refine Building.Ensures.bind ((prime_cases checks pushed found).mono (fun _ _ done => done) ?_) ?_
  · intro error _ failing
    obtain ⟨failed, rfl⟩ := failing
    refine ⟨grown, fun _ truth agree settled => ?_⟩
    obtain ⟨received, below⟩ := early truth settled
    have spec := primed_spec agree pushedWired below found blank
    rw [failed] at spec
    obtain ⟨label, detail, rfl⟩ := spec
    exact .faulted label detail
  intro _ _ found
  obtain ⟨cell, primed, rfl⟩ := found
  have same := cleared_primed primed
  have nodes : pushed.nodes.set network.nodes.length { node with cell } =
      network.nodes ++ [{ node with cell }] := by
    simp [pushed]
  have shape := sameShape_set found same
  refine ⟨⟨⟨rfl, ?_⟩, shape.wired pushedWired, fun truth agree settled => ?_⟩, rfl, ?_⟩
  · rw [nodes]
    exact List.prefix_append _ _
  · -- only the new node has to be settled
    obtain ⟨received, below⟩ := early truth settled
    have spec := primed_spec agree pushedWired below found blank
    have total : (pushed.nodes.set network.nodes.length { node with cell }).length =
        network.nodes.length + 1 := by
      simp [pushed]
    rw [settled_iff, total]
    exact ⟨_, below.succ pushedWired found (spec.of_ok primed).2⟩
  · rw [shape.skeleton]
    simp [skeleton, pushed, Node.cleared, blank]

theorem findShared?_spec {operator : Operator} {inputs : List (NodeInput × Inlet)} {id : NodeId}
    (shared : network.findShared? operator inputs = some id) :
    ∃ node, network.nodes[id.index]? = some node ∧ node.cell.operator? = some operator ∧
      node.inputs = inputs := by
  obtain ⟨place, found, rfl⟩ := Option.map_eq_some_iff.mp shared
  obtain ⟨inside, matches_, _⟩ := List.findIdx?_eq_some_iff_getElem.mp found
  simp only [Bool.and_eq_true, decide_eq_true_eq] at matches_
  exact ⟨_, List.getElem?_eq_getElem inside, matches_.1.2, matches_.2⟩

/-- The node of a step has the operator and the inputs of the step, whether it is new or not. -/
theorem nodeFor_spec (checks : Checks) (wired : network.Wired) (step : Lowered)
    {children : List NodeId} (operate : ∀ child ∈ children, Operates network.skeleton child)
    (breadth : sound → children.length = step.operator.breadth) (share : Bool) :
    (nodeFor checks step children share).Ensures network
      (fun id changed => Extends checks network changed ∧ ∃ node,
        changed.skeleton[id.index]? = some node ∧
          Node.ofOperator step.operator children = .ok (node.cell, node.inputs))
      (fun error unfinished => Stopped checks sound network error unfinished) := by
  refine Building.Ensures.get (Building.Ensures.lift ?_ fun error failed =>
    stopped_of_formed fun was => (Node.formed_ofOperator (breadth was)).of_error failed)
  rintro ⟨cell, inputs⟩ made
  obtain ⟨operator, blank⟩ := Node.of_ofOperator made
  dsimp only
  split
  next id existing =>
    split at existing
    · -- without its memories, a shared node is the one that would be made
      obtain ⟨node, found, carries, same⟩ := findShared?_spec existing
      refine ⟨.refl wired, node.cleared, getElem?_skeleton found, ?_⟩
      rw [made, ← blank, Cell.cleared_eq_of_operator? operator carries, ← same]
      rfl
    · cases existing
  next absent =>
    refine (addNode_spec checks wired blank ?_).mono ?_ fun _ _ stopped => stopped
    · unfold Node.Fits
      simp only [operator]
      exact ⟨children, made, operate⟩
    · intro id changed found
      obtain ⟨extends_, -, found⟩ := found
      exact ⟨extends_, _, found, made⟩

/-! ## Placing plans -/

/-- Every node of the table carries out its step. -/
def Placed (nodes : List Node) (plan : Plan) (placed : Table SubPlanId NodeId) : Prop :=
  ∀ step id, placed.get? step = some id → step ∈ plan.steps ∧ Implements nodes plan step id

theorem placeStep_spec (checks : Checks) (wired : network.Wired) {plan : Plan}
    {placed : Table SubPlanId NodeId} (known : Placed network.skeleton plan placed)
    {step : SubPlanId} (member : step ∈ plan.steps) :
    (placeStep checks plan placed step).Ensures network
      (fun placed changed => Extends checks network changed ∧ Placed changed.skeleton plan placed)
      (fun error unfinished => Stopped checks (plan.Grounded step) network error unfinished) := by
  refine Building.Ensures.lift (fun lowered lowers => ?_) fun _ failed =>
    stopped_of_formed fun grounded => (Plan.formed_lower grounded).of_error failed
  refine Building.Ensures.lift (fun children inputs => ?_) fun _ failed =>
    stopped_of_formed fun _ => (Plan.formed_inputsOf placed).of_error failed
  obtain ⟨length, below⟩ := List.forall₂_iff_zip.mp (inputsOf_ok inputs)
  have operate : ∀ child ∈ children, Operates network.skeleton child := by
    intro child childMember
    obtain ⟨other, _, found⟩ := exists_of_forall₂ (inputsOf_ok inputs) childMember
    exact (known other child found).2.operates
  have breadth (grounded : plan.Grounded step) : children.length = lowered.operator.breadth := by
    have formed := Plan.formed_lower grounded
    rw [lowers] at formed
    exact length.symm.trans formed
  refine Building.Ensures.bind (nodeFor_spec checks wired lowered operate breadth _) ?_
  intro id changed found
  obtain ⟨extends_, node, nodeFound, made⟩ := found
  refine ⟨extends_, ?_⟩
  intro other place found
  rw [Table.get?_insert] at found
  split at found
  next same =>
    cases found
    refine same ▸ ⟨member, .intro lowers nodeFound made length ?_⟩
    intro child place pair
    exact (known child place (below pair)).2.mono extends_.skeleton
  · obtain ⟨listed, implements⟩ := known other place found
    exact ⟨listed, implements.mono extends_.skeleton⟩

/-- The top of a plan carries out its root. -/
theorem placePlan_spec (checks : Checks) (wired : network.Wired) (plan : Plan) :
    (placePlan checks plan).Ensures network
      (fun top changed => Extends checks network changed ∧ plan.root ∈ plan.steps ∧
        Implements changed.skeleton plan plan.root top)
      (fun error unfinished =>
        Stopped checks (∀ step ∈ plan.steps, plan.Grounded step) network error unfinished) := by
  have all (steps : List SubPlanId) (listed : ∀ step ∈ steps, step ∈ plan.steps)
      (current : Network) (extends_ : Extends checks network current)
      (placed : Table SubPlanId NodeId) (known : Placed current.skeleton plan placed) :
      Building.Ensures (steps.foldlM (placeStep checks plan) placed) current
        (fun placed changed => Extends checks network changed ∧
          Placed changed.skeleton plan placed)
        (fun error unfinished =>
          Stopped checks (∀ step ∈ plan.steps, plan.Grounded step) network error unfinished) := by
    induction steps generalizing current placed with
    | nil => exact ⟨extends_, known⟩
    | cons step rest ih =>
      rw [List.foldlM_cons]
      refine Building.Ensures.bind ((placeStep_spec checks extends_.wired known
        (listed step List.mem_cons_self)).mono (fun _ _ done => done) fun _ _ stopped =>
          stopped.after extends_ fun grounded => grounded step (listed step List.mem_cons_self)) ?_
      intro placed changed found
      obtain ⟨next, known⟩ := found
      exact ih (fun other member => listed other (List.mem_cons_of_mem _ member)) changed
        (extends_.trans next) placed known
  refine Building.Ensures.bind (all plan.steps (fun _ member => member) network (.refl wired)
    .empty fun _ _ found => by cases found) ?_
  intro placed changed found
  obtain ⟨extends_, known⟩ := found
  split
  next top found => exact ⟨extends_, known _ _ found⟩
  · exact (stopped_of_formed fun _ => ⟨_, rfl⟩).after extends_ fun grounded => grounded

theorem placePlans_spec (checks : Checks) (wired : network.Wired) (plans : List Plan) :
    Building.Ensures (plans.mapM (placePlan checks)) network
      (fun tops changed => Extends checks network changed ∧
        List.Forall₂ (fun plan top => plan.root ∈ plan.steps ∧
          Implements changed.skeleton plan plan.root top) plans tops)
      (fun error unfinished => Stopped checks
        (∀ plan ∈ plans, ∀ step ∈ plan.steps, plan.Grounded step) network error unfinished) := by
  induction plans generalizing network with
  | nil => exact ⟨.refl wired, .nil⟩
  | cons plan rest ih =>
    rw [List.mapM_cons]
    refine Building.Ensures.bind ((placePlan_spec checks wired plan).mono (fun _ _ done => done)
      fun _ _ stopped => stopped.after (.refl wired) fun grounded =>
        grounded plan List.mem_cons_self) ?_
    intro top changed found
    obtain ⟨extends_, listed, implements⟩ := found
    refine Building.Ensures.bind ((ih extends_.wired).mono (fun _ _ done => done)
      fun _ _ stopped => stopped.after extends_ fun grounded other member =>
        grounded other (List.mem_cons_of_mem _ member)) ?_
    intro tops final found
    obtain ⟨next, others⟩ := found
    exact ⟨extends_.trans next, .cons ⟨listed, implements.mono next.skeleton⟩ others⟩

/-! ## Installing -/

/-- What an install has done: the network has more nodes and one more query, whose production reads
the roots of its plans. -/
structure Installed (checks : Checks) (before : Network) (plans : List Plan) (query : QueryId)
    (after : Network) : Prop where
  query : query = ⟨before.queries.length⟩
  installed : ∃ name production arity,
    after = { before with
      nodes := after.nodes
      queries := before.queries ++ [⟨name, production, arity⟩] } ∧
    Produces after.skeleton plans production
  nodes : before.nodes <+: after.nodes
  wired : after.Wired
  settled : ∀ truth, checks.Agree truth → before.Settled truth → after.Settled truth

namespace Installed

variable {before after : Network} {plans : List Plan} {query : QueryId}

theorem facts (installed : Installed checks before plans query after) :
    after.facts = before.facts := by
  obtain ⟨_, _, _, fields, _⟩ := installed.installed
  rw [fields]

theorem reported (installed : Installed checks before plans query after) :
    after.reported = before.reported := by
  obtain ⟨_, _, _, fields, _⟩ := installed.installed
  rw [fields]

theorem observers (installed : Installed checks before plans query after) :
    after.observers = before.observers := by
  obtain ⟨_, _, _, fields, _⟩ := installed.installed
  rw [fields]

end Installed

theorem build_spec (checks : Checks) (wired : network.Wired) (name : String) (arity : Nat)
    (plans : List Plan) :
    (build checks name arity plans).Ensures network
      (fun query changed => Installed checks network plans query changed)
      (fun error unfinished => Stopped checks
        (∀ plan ∈ plans, ∀ step ∈ plan.steps, plan.Grounded step) network error unfinished) := by
  refine Building.Ensures.bind (placePlans_spec checks wired plans) ?_
  intro tops changed found
  obtain ⟨extends_, implement⟩ := found
  dsimp only
  set inputs := tops.map fun top => (NodeInput.node top, Inlet.single)
  have fits : Node.Fits changed.skeleton
      ⟨.production .empty, "production " ++ name, inputs, false⟩ := by
    refine ⟨rfl, tops, rfl, ?_⟩
    intro top member
    obtain ⟨plan, _, _, implements⟩ := exists_of_forall₂ implement member
    exact implements.operates
  refine Building.Ensures.bind ((addNode_spec checks extends_.wired rfl fits).mono
    (fun _ _ done => done) fun _ _ stopped => stopped.after extends_ fun grounded => grounded) ?_
  intro production final found
  obtain ⟨next, rfl, found⟩ := found
  have grown := extends_.trans next
  have produces : Produces final.skeleton plans ⟨changed.nodes.length⟩ :=
    ⟨_, tops, found, rfl, rfl, implement.imp fun _ _ ⟨listed, implements⟩ =>
      ⟨listed, implements.mono next.skeleton⟩⟩
  have queries := grown.queries
  refine ⟨?_, ⟨name, ⟨changed.nodes.length⟩, arity, ?_, produces⟩, grown.nodes, ⟨?_, ?_, ?_⟩,
    fun truth agree settled => (grown.settled truth agree settled).congr rfl rfl⟩
  · rw [← queries]
  · rw [grown.fields]
  · exact grown.wired.nodes
  · intro query member
    rcases List.mem_append.mp member with member | member
    · exact grown.wired.produced query member
    · obtain rfl := List.mem_singleton.mp member
      exact ⟨_, found, rfl⟩
  · -- the productions of earlier queries are older nodes
    have older : ∀ query ∈ changed.queries, query.production ≠ ⟨changed.nodes.length⟩ := by
      intro query member same
      obtain ⟨node, nodeFound, _⟩ := extends_.wired.produced query member
      have inside := (List.getElem?_eq_some_iff.mp nodeFound).1
      simp [same, skeleton] at inside
    rw [List.map_append, List.nodup_append]
    refine ⟨grown.wired.distinct, List.nodup_singleton _, ?_⟩
    rw [next.queries]
    rintro _ old _ new rfl
    obtain ⟨query, member, same⟩ := List.mem_map.mp old
    exact older query member (same.trans (by simpa using new))

/-- The first plan tells the name and the number of parameters of the query. -/
theorem head_of_demandInstall {plans : List Plan} {name : String} {arity : Nat}
    (demanded : network.demandInstall plans = .ok (name, arity)) :
    ∃ first, plans.head? = some first ∧ name = first.body.query ∧
      arity = first.body.parameters.length := by
  obtain ⟨_, _, demanded⟩ := ok_of_bind demanded
  cases head : plans.head? with
  | none => rw [head] at demanded; cases demanded
  | some first =>
    rw [head] at demanded
    obtain ⟨_, _, demanded⟩ := ok_of_bind demanded
    cases demanded
    exact ⟨first, rfl, rfl, rfl⟩

/-- An install adds nodes and a query, or leaves the network as it was. -/
theorem install_spec (checks : Checks) (wired : network.Wired) (plans : List Plan) :
    match network.install checks plans with
    | (after, .ok query) => Installed checks network plans query after
    | (after, .error _) => after = network := by
  unfold install
  cases network.demandInstall plans with
  | error error => rfl
  | ok demanded =>
    obtain ⟨name, arity⟩ := demanded
    have spec := build_spec checks wired name arity plans
    unfold Building.Ensures at spec
    dsimp only
    split at spec
    next query built found =>
      rw [found]
      exact spec
    next error unfinished found =>
      rw [found]
      exact spec.toGrows.rollback

theorem Installed.of_install {plans : List Plan} {query : QueryId} {after : Network}
    (wired : network.Wired) (installed : network.install checks plans = (after, .ok query)) :
    Installed checks network plans query after := by
  have spec := install_spec checks wired plans
  rwa [installed] at spec

theorem run_of_install {plans : List Plan} {query : QueryId} {after : Network}
    (installed : network.install checks plans = (after, .ok query)) :
    ∃ name arity, network.demandInstall plans = .ok (name, arity) ∧
      (build checks name arity plans).run network = .ok query after := by
  unfold install at installed
  split at installed
  next => cases congrArg Prod.snd installed
  next name arity accepted =>
    split at installed
    next ran =>
      cases installed
      exact ⟨name, arity, accepted, ran⟩
    next => cases congrArg Prod.snd installed

end Network
end LiveQuery
