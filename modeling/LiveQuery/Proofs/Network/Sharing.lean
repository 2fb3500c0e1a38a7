import LiveQuery.Proofs.Network.Rollback
import LiveQuery.Proofs.Network.Staffing
import LiveQuery.Proofs.Plan.Renaming

/-!
# Sharing leaves no duplicates

If all plans may share, every operator node can be found by later steps, so no two operator nodes
have the same operator and the same inputs (`unduplicated_of_once`) and a step is carried out by one
node only (`Implements.unique`).  A step of another plan that has the same operator over the same
structure (`Resembles`) is carried out by that node too.  Placing a plan whose root resembles a step
that is carried out already therefore adds nothing (`placePlan_known`), and an install of such plans
adds the production alone (`Session.shares_nodes`).
-/

namespace LiveQuery

/-! ## One node for a step -/

/-- Different operator nodes differ in their operators or in their inputs. -/
def Unduplicated (nodes : List Node) : Prop :=
  ∀ (first second : Nat) (node twin : Node) (operator : Operator), nodes[first]? = some node →
    nodes[second]? = some twin → node.cell.operator? = some operator →
    twin.cell.operator? = some operator → node.inputs = twin.inputs → first = second

/-- Every operator node may be used by later queries. -/
def Open (nodes : List Node) : Prop :=
  ∀ node ∈ nodes, node.cell.operator? ≠ none → node.isShared = true

theorem unduplicated_of_once {nodes : List Node} (once : SharedOnce nodes) (open_ : Open nodes) :
    Unduplicated nodes := by
  intro first second node twin operator found twinFound carries twinCarries inputs
  have keyed {place : Nat} {node : Node} (found : nodes[place]? = some node)
      (carries : node.cell.operator? = some operator) :
      node.sharingKey? = some (operator, node.inputs) := by
    have shared := open_ node (List.mem_of_getElem? found) (by simp [carries])
    simp [Node.sharingKey?, shared, carries]
  have apart {low high : Nat} {node twin : Node} (less : low < high)
      (found : nodes[low]? = some node) (twinFound : nodes[high]? = some twin)
      (key : node.sharingKey? = twin.sharingKey?) (known : node.sharingKey? ≠ none) : False := by
    obtain ⟨inside, rfl⟩ := List.getElem?_eq_some_iff.mp found
    obtain ⟨inside', rfl⟩ := List.getElem?_eq_some_iff.mp twinFound
    obtain ⟨value, same⟩ := Option.ne_none_iff_exists'.mp known
    exact List.pairwise_iff_getElem.mp once low high inside inside' less value same (key ▸ same)
  have same : node.sharingKey? = twin.sharingKey? := by
    rw [keyed found carries, keyed twinFound twinCarries, inputs]
  have known : node.sharingKey? ≠ none := by simp [keyed found carries]
  rcases Nat.lt_trichotomy first second with less | equal | more
  · exact (apart less found twinFound same known).elim
  · exact equal
  · exact (apart more twinFound found same.symm (same ▸ known)).elim

section Implements

variable {nodes : List Node} {plan other : Plan} {step twin : SubPlanId} {id : NodeId}

/-- Where no operator node has a duplicate, one node carries out a step. -/
theorem Implements.unique (unduplicated : Unduplicated nodes) {again : NodeId}
    (one : Implements nodes plan step id) (two : Implements nodes plan step again) :
    id = again := by
  induction one generalizing again with
  | @intro step id lowered node children lowers found made length below ih =>
    obtain @⟨_, _, _, node', children', lowers', found', made', length', below'⟩ := two
    cases lowers.symm.trans lowers'
    have same : children = children' := by
      refine List.ext_getElem (length.symm.trans length') fun index inside inside' => ?_
      have listed : index < (plan.childrenOf step).length := length ▸ inside
      exact ih _ _ (Network.mem_zip_getElem listed inside)
        (below' _ _ (Network.mem_zip_getElem listed inside'))
    subst same
    obtain ⟨cells, inputs⟩ := Prod.ext_iff.mp (Except.ok.inj (made.symm.trans made'))
    have places := unduplicated _ _ node node' lowered.operator found found'
      (Node.of_ofOperator made).1 (Node.of_ofOperator made').1 inputs
    exact congrArg Id.mk places

theorem exists_middle_of_mem_zip {α β γ : Type} {first : List α} {middle : List β} {last : List γ}
    (left : first.length = middle.length) (right : middle.length = last.length) {one : α} {two : γ}
    (member : (one, two) ∈ first.zip last) :
    ∃ between, (one, between) ∈ first.zip middle ∧ (between, two) ∈ middle.zip last := by
  obtain ⟨index, inside, same⟩ := List.mem_iff_getElem.mp member
  have inside := inside
  rw [List.length_zip] at inside
  rw [List.getElem_zip] at same
  cases same
  exact ⟨middle[index], Network.mem_zip_getElem (by omega) (by omega),
    Network.mem_zip_getElem (by omega) (by omega)⟩

/-- Two steps have the same operator, and their children resemble each other in order. -/
inductive Resembles (plan other : Plan) : SubPlanId → SubPlanId → Prop where
  | intro {step twin : SubPlanId} {lowered copy : Lowered} (lowers : plan.lower step = .ok lowered)
      (copies : other.lower twin = .ok copy) (same : lowered.operator = copy.operator)
      (length : (plan.childrenOf step).length = (other.childrenOf twin).length)
      (below : ∀ child place, (child, place) ∈ (plan.childrenOf step).zip (other.childrenOf twin) →
        Resembles plan other child place) : Resembles plan other step twin

/-- A node that carries out a step carries out whatever resembles it. -/
theorem Resembles.implements (resembles : Resembles plan other step twin)
    (implements : Implements nodes other twin id) : Implements nodes plan step id := by
  induction resembles generalizing id with
  | @intro step twin lowered copy lowers copies same length below ih =>
    obtain @⟨_, _, _, node, children, copies', found, made, length', below'⟩ := implements
    cases copies.symm.trans copies'
    refine .intro lowers found (same ▸ made) (length.trans length') fun child place member => ?_
    obtain ⟨between, here, there⟩ := exists_middle_of_mem_zip length length' member
    exact ih child between here (below' between place there)

/-- A step that a node carries out resembles the same step of a plan that differs in names only. -/
theorem Implements.resembles (implements : Implements nodes other step id)
    (renamed : other.body.Renamed plan.body) (arena : plan.arena = other.arena) :
    Resembles plan other step step := by
  induction implements with
  | @intro step id lowered node children lowers found made length below ih =>
    obtain ⟨copy, copies, same⟩ := renamed.lower arena lowers
    have children : plan.childrenOf step = other.childrenOf step := by
      rw [Plan.childrenOf, Plan.operation?, Plan.get?, arena]
      rfl
    refine .intro copies lowers same (congrArg List.length children) fun child place member => ?_
    rw [children] at member
    obtain ⟨index, inside, same⟩ := List.mem_iff_getElem.mp member
    have inside := inside
    rw [List.length_zip, Nat.min_self] at inside
    rw [List.getElem_zip] at same
    cases same
    exact ih _ _ (Network.mem_zip_getElem inside (length ▸ inside))

end Implements

/-! ## Installing what is there -/

namespace Network

variable {checks : Checks} {network : Network} {plan : Plan}

theorem nodeFor_open (checks : Checks) (step : Lowered) (children : List NodeId) :
    Keeps (fun network => Open network.skeleton) (nodeFor checks step children true) := by
  intro network begun
  refine Building.Ensures.get (Building.Ensures.lift ?_ fun _ _ => begun)
  rintro ⟨cell, inputs⟩ made
  dsimp only
  split
  · exact begun
  · have grown : Open (network.skeleton ++ [⟨cell, step.label, inputs, true⟩]) := by
      intro node member operates
      rcases List.mem_append.mp member with old | new
      · exact begun node old operates
      · rw [List.mem_singleton.mp new]
    refine (addNode_skeleton checks network (Node.of_ofOperator made).2).mono
      (fun _ changed same => ?_) fun _ unfinished same => ?_
    · show Open changed.skeleton
      rwa [same]
    · show Open unfinished.skeleton
      rwa [same]

theorem build_open (checks : Checks) (name : String) (arity : Nat) {plans : List Plan}
    (sharing : ∀ plan ∈ plans, plan.hints.shareNodes = true) :
    Keeps (fun network => Open network.skeleton) (build checks name arity plans) := by
  refine Keeps.bind (Keeps.mapM plans fun plan member => Keeps.placePlan fun lowered children => ?_)
    fun tops => ?_
  · rw [sharing plan member]
    exact nodeFor_open checks lowered children
  · intro network begun
    set production : Node := ⟨.production .empty, "production " ++ name,
      tops.map fun top => (NodeInput.node top, Inlet.single), false⟩
    have grown : Open (network.skeleton ++ [production]) := by
      intro node member operates
      rcases List.mem_append.mp member with old | new
      · exact begun node old operates
      · rw [List.mem_singleton.mp new] at operates
        exact absurd rfl operates
    have blank : production.cell.cleared = production.cell := rfl
    refine Building.Ensures.bind ((addNode_skeleton checks network blank).mono
      (fun _ changed same => ?_) fun _ unfinished same => ?_) fun _ _ grown => grown
    · show Open changed.skeleton
      rwa [same]
    · show Open unfinished.skeleton
      rwa [same]

theorem nodeFor_known (checks : Checks) (open_ : Open network.skeleton) {step : Lowered}
    {children : List NodeId} {node : Node} (member : node ∈ network.skeleton)
    (made : Node.ofOperator step.operator children = .ok (node.cell, node.inputs)) :
    (nodeFor checks step children true).Ensures network (fun _ changed => changed = network)
      fun _ unfinished => unfinished = network := by
  refine Building.Ensures.get (Building.Ensures.lift_ok made ?_)
  dsimp only
  split
  · exact rfl
  next absent =>
    obtain ⟨full, fullMember, rfl⟩ := List.mem_map.mp member
    have carries := (Node.of_ofOperator made).1
    have shared := open_ _ member (by rw [carries]; exact Option.some_ne_none _)
    have key : full.cleared.sharingKey? = some (step.operator, full.cleared.inputs) := by
      rw [Node.sharingKey?, if_pos shared, carries, Option.map_some]
    rw [Node.sharingKey?_cleared] at key
    exact absurd key (findShared?_eq_none absent full fullMember)

theorem placeStep_known (wired : network.Wired) (unduplicated : Unduplicated network.skeleton)
    (open_ : Open network.skeleton) (shares : plan.hints.shareNodes = true)
    {placed : Table SubPlanId NodeId} (known : Placed network.skeleton plan placed)
    {step : SubPlanId} (member : step ∈ plan.steps) {id : NodeId}
    (implements : Implements network.skeleton plan step id) :
    (placeStep checks plan placed step).Ensures network
      (fun placed changed => changed = network ∧ Placed network.skeleton plan placed)
      fun _ unfinished => unfinished = network := by
  have unchanged : (placeStep checks plan placed step).Ensures network
      (fun _ changed => changed = network) fun _ unfinished => unfinished = network := by
    refine Building.Ensures.lift (fun lowered lowers => ?_) fun _ _ => rfl
    refine Building.Ensures.lift (fun children inputs => ?_) fun _ _ => rfl
    obtain @⟨_, _, _, node, children', lowers', found, made, length', below'⟩ := implements
    cases lowers.symm.trans lowers'
    obtain ⟨length, below⟩ := List.forall₂_iff_zip.mp (inputsOf_ok inputs)
    have same : children' = children := by
      refine List.ext_getElem (length'.symm.trans length) fun index inside' inside => ?_
      have listed : index < (plan.childrenOf step).length := length ▸ inside
      have placedChild := (known _ _ (below (mem_zip_getElem listed inside))).2
      exact (below' _ _ (mem_zip_getElem listed inside')).unique unduplicated placedChild
    rw [shares]
    exact Building.Ensures.bind (nodeFor_known checks open_ (List.mem_of_getElem? found)
      (same ▸ made)) fun _ _ unchanged => unchanged
  refine ((placeStep_spec checks wired known member).and unchanged).mono ?_ fun _ _ both => both.2
  rintro now changed ⟨⟨_, placedNow⟩, rfl⟩
  exact ⟨rfl, placedNow⟩

/-- A plan that may share, and whose root a node carries out already, gets no nodes of its own. -/
theorem placePlan_known (checks : Checks) (wired : network.Wired)
    (unduplicated : Unduplicated network.skeleton) (open_ : Open network.skeleton)
    (shares : plan.hints.shareNodes = true) {id : NodeId}
    (implements : Implements network.skeleton plan plan.root id) :
    (placePlan checks plan).Ensures network (fun _ changed => changed = network)
      fun _ unfinished => unfinished = network := by
  have all (steps : List SubPlanId) (listed : ∀ step ∈ steps, step ∈ plan.steps)
      (placed : Table SubPlanId NodeId) (known : Placed network.skeleton plan placed) :
      Building.Ensures (steps.foldlM (placeStep checks plan) placed) network
        (fun _ changed => changed = network) fun _ unfinished => unfinished = network := by
    induction steps generalizing placed with
    | nil => exact rfl
    | cons step rest ih =>
      have here := listed step List.mem_cons_self
      obtain ⟨other, below⟩ := implements.of_mem_postOrder here
      rw [List.foldlM_cons]
      refine Building.Ensures.bind
        (placeStep_known wired unduplicated open_ shares known here below)
        fun placed changed found => ?_
      obtain ⟨rfl, known⟩ := found
      exact ih (fun other member => listed other (List.mem_cons_of_mem _ member)) placed known
  refine Building.Ensures.bind (all plan.steps (fun _ member => member) .empty fun _ _ found => by
    cases found) fun placed changed unchanged => ?_
  split
  · exact unchanged
  · exact unchanged

theorem build_known (checks : Checks) (wired : network.Wired)
    (unduplicated : Unduplicated network.skeleton) (open_ : Open network.skeleton) (name : String)
    (arity : Nat) {plans : List Plan} (sharing : ∀ plan ∈ plans, plan.hints.shareNodes = true)
    (known : ∀ plan ∈ plans, ∃ id, Implements network.skeleton plan plan.root id) :
    (build checks name arity plans).Ensures network
      (fun _ changed => changed.nodes.length = network.nodes.length + 1 ∧
        changed.queries = network.queries ++ [⟨name, ⟨network.nodes.length⟩, arity⟩])
      fun _ _ => True := by
  have placed : Keeps (fun changed => changed = network) (plans.mapM (placePlan checks)) := by
    refine Keeps.mapM plans fun plan member => ?_
    rintro _ rfl
    obtain ⟨id, implements⟩ := known plan member
    exact placePlan_known checks wired unduplicated open_ (sharing plan member) implements
  refine Building.Ensures.bind ((placed network rfl).mono (fun _ _ same => same)
    fun _ _ _ => trivial) fun tops changed same => ?_
  subst same
  set production : Node := ⟨.production .empty, "production " ++ name,
    tops.map fun top => (NodeInput.node top, Inlet.single), false⟩
  have added : (addNode checks production).Ensures changed
      (fun id final => id = ⟨changed.nodes.length⟩ ∧
        SameShape { changed with nodes := changed.nodes ++ [production] } final)
      fun _ _ => True := by
    refine Building.Ensures.get (Building.Ensures.set ?_)
    refine Building.Ensures.bind ((prime_shape checks _ _).mono (fun _ _ same => same)
      fun _ _ _ => trivial) ?_
    exact fun _ _ same => ⟨rfl, same⟩
  refine Building.Ensures.bind added fun id final found => ?_
  obtain ⟨rfl, same⟩ := found
  have length : final.nodes.length = changed.nodes.length + 1 := by
    rw [same.length, List.length_append, List.length_singleton]
  refine Building.Ensures.get ⟨length, ?_⟩
  exact congrArg (· ++ _) same.queries

/-- A query all of whose roots are carried out already is installed with one new node, its
production. -/
theorem install_known {checks : Checks} (wired : network.Wired)
    (unduplicated : Unduplicated network.skeleton) (open_ : Open network.skeleton)
    {plans : List Plan} (sharing : ∀ plan ∈ plans, plan.hints.shareNodes = true)
    (known : ∀ plan ∈ plans, ∃ id, Implements network.skeleton plan plan.root id)
    {query : QueryId} {after : Network}
    (installed : network.install checks plans = (after, .ok query)) :
    ∃ node name arity, after.nodes = network.nodes ++ [node] ∧
      (∃ produced, node.cell = .production produced) ∧
      after.queries = network.queries ++ [⟨name, ⟨network.nodes.length⟩, arity⟩] := by
  obtain ⟨name, arity, _, ran⟩ := run_of_install installed
  obtain ⟨length, queries⟩ :=
    (build_known checks wired unduplicated open_ name arity sharing known).of_ok ran
  obtain ⟨_, _, ⟨rest, nodes⟩, wiredAfter, _⟩ := Installed.of_install wired installed
  have single : rest.length = 1 := by
    rw [← nodes, List.length_append] at length
    omega
  obtain ⟨node, rfl⟩ := List.length_eq_one_iff.mp single
  refine ⟨node, name, arity, nodes.symm, ?_, queries⟩
  refine wiredAfter.production (queries ▸ List.mem_append_right _ List.mem_cons_self) ?_
  rw [← nodes]
  exact List.getElem?_concat_length

end Network

/-! ## Sessions -/

namespace Session

/-- If all plans may share, successful or not, then all operator nodes may be shared. -/
theorem open_run (id : NetworkId) (steps : List (Checks × Action))
    (sharing : ∀ step ∈ steps, ∀ plans, step.2 = .install plans →
      ∀ plan ∈ plans, plan.hints.shareNodes = true) :
    Open ((new id).run steps).network.skeleton := by
  have kept : ((new id).run steps).Attended ∧ Open ((new id).run steps).network.skeleton := by
    refine run_induction (P := fun session => session.Attended ∧ Open session.network.skeleton)
      ⟨attended_new id, nofun⟩ ?_
    rintro ⟨checks, action⟩ member session ⟨attended, before⟩
    refine ⟨attended.step checks action, ?_⟩
    by_cases installs : ∃ plans, action = .install plans
    · obtain ⟨plans, rfl⟩ := installs
      dsimp only
      rw [network_install]
      exact Network.Keeps.install attended.wired
        (fun name arity => Network.build_open checks name arity (sharing _ member plans rfl)) before
    · have same := (sameWiring_step checks session fun plans same => installs ⟨plans, same⟩).2
      dsimp only
      rwa [same.skeleton]
  exact kept.2

/-- In a session in which every plan may share, whether its install succeeded or not, no operator
node has a duplicate, and a query adds its production alone if the root of each of its plans
resembles a step of a plan that is installed.  This is so for the plans of the same bodies under
other names of queries, variables and checks. -/
theorem shares_nodes (id : NetworkId) (steps : List (Checks × Action))
    (sharing : ∀ step ∈ steps, ∀ plans, step.2 = .install plans →
      ∀ plan ∈ plans, plan.hints.shareNodes = true) :
    let session := (new id).run steps
    Unduplicated session.network.nodes ∧
    (∀ (checks : Checks) (plans : List Plan) (query : QueryId) (after : Network),
      (∀ plan ∈ plans, plan.hints.shareNodes = true) →
      (∀ plan ∈ plans, ∃ old ∈ session.plans.flatten, ∃ step ∈ old.steps,
        Resembles plan old plan.root step) →
      session.network.install checks plans = (after, .ok query) →
      ∃ node name arity, after.nodes = session.network.nodes ++ [node] ∧
        (∃ produced, node.cell = .production produced) ∧
        after.queries = session.network.queries ++
          [⟨name, ⟨session.network.nodeCount⟩, arity⟩]) ∧
    ∀ (hints : Hints) (body other : Body) (old : Plan), body.Renamed other →
      Plan.ofBody hints body = .ok old → old ∈ session.plans.flatten →
      ∃ plan, Plan.ofBody hints other = .ok plan ∧ plan.hints = old.hints ∧
        ∃ step ∈ old.steps, Resembles plan old plan.root step := by
  intro session
  have open_ : Open session.network.skeleton := open_run id steps sharing
  have attended : session.Attended := attended_run id steps
  have unduplicated : Unduplicated session.network.skeleton :=
    unduplicated_of_once (once_run id steps) open_
  refine ⟨?_, fun checks plans query after share known installed => ?_,
    fun hints body other old renamed planned member => ?_⟩
  · intro first second node twin operator found twinFound carries twinCarries inputs
    refine unduplicated first second node.cleared twin.cleared operator
      (Network.getElem?_skeleton found) (Network.getElem?_skeleton twinFound) ?_ ?_ inputs
    · rwa [Node.cleared, Cell.operator?_cleared]
    · rwa [Node.cleared, Cell.operator?_cleared]
  · refine Network.install_known attended.wired unduplicated open_ share (fun plan member => ?_)
      installed
    obtain ⟨old, oldMember, step, listed, resembles⟩ := known plan member
    obtain ⟨top, implements⟩ := attended.placed old oldMember
    obtain ⟨place, below⟩ := implements.of_mem_postOrder listed
    exact ⟨place, resembles.implements below⟩
  · obtain ⟨plan, twinPlanned, twinBody, arena, root, same⟩ := renamed.exists_plan planned
    obtain ⟨top, implements⟩ := attended.placed old member
    obtain ⟨_, _, oldBody, _⟩ := ofBodyAdorned_ok planned
    have resembles : Resembles plan old old.root old.root :=
      implements.resembles (oldBody ▸ twinBody ▸ renamed) arena
    exact ⟨plan, twinPlanned, same, old.root, Arena.self_mem_postOrder _ _, root ▸ resembles⟩

/-- The body of the guarded plan under other names. -/
def gated : Body :=
  ⟨⟨"gated", 1, ["y"], [.relation ⟨0⟩ [⟨0⟩] [], .check "gate" ⟨0⟩ [⟨0⟩]], [⟨0⟩], {}⟩, by decide⟩

/-- The guarded plan is installed over one fact, and a second time with a check that fails. -/
def guardedSteps : List (Checks × Action) :=
  [(fun _ _ => .ok true, .change ⟨.insert, ⟨⟨0⟩, [.bool true]⟩⟩),
    (fun _ _ => .ok true, .install [guarded]),
    (fun _ _ => .error "closed", .install [guarded])]

theorem shares_nodes_guarded : ∃ plan, Plan.ofBody { shareNodes := true } gated = .ok plan ∧
    ∃ after query node, ((new ⟨0⟩).run guardedSteps).network.install (fun _ _ => .ok true) [plan] =
        (after, .ok query) ∧
      after.nodes = ((new ⟨0⟩).run guardedSteps).network.nodes ++ [node] := by
  have sharing : ∀ step ∈ guardedSteps, ∀ plans, step.2 = .install plans →
      ∀ plan ∈ plans, plan.hints.shareNodes = true := by
    intro step member plans installs plan listed
    simp only [guardedSteps, List.mem_cons, List.not_mem_nil, or_false] at member
    rcases member with rfl | rfl | rfl <;> cases installs <;> rw [List.mem_singleton.mp listed] <;>
      rfl
  obtain ⟨_, adds, copies⟩ := shares_nodes ⟨0⟩ guardedSteps sharing
  have plans : ((new ⟨0⟩).run guardedSteps).plans.flatten = [guarded] := by decide +kernel
  obtain ⟨plan, planned, hints, step, listed, resembles⟩ := copies { shareNodes := true }
    guarded.body gated guarded ⟨rfl, rfl, rfl, rfl⟩ (by decide +kernel) (by simp [plans])
  refine ⟨plan, planned, ?_⟩
  have copied : plan = { guarded with body := gated } := by
    have made : Plan.ofBody { shareNodes := true } gated = .ok { guarded with body := gated } := by
      decide +kernel
    exact Except.ok.inj (planned.symm.trans made)
  have succeeds : (((new ⟨0⟩).run guardedSteps).network.install (fun _ _ => .ok true) [plan]).2 =
      .ok ⟨1⟩ := by
    rw [copied]
    exact of_decide_eq_true (by decide +kernel)
  have known : ∀ other ∈ [plan], ∃ old ∈ ((new ⟨0⟩).run guardedSteps).plans.flatten,
      ∃ step ∈ old.steps, Resembles other old other.root step := by
    intro other member
    rw [List.mem_singleton.mp member]
    exact ⟨guarded, by simp [plans], step, listed, resembles⟩
  obtain ⟨node, _, _, nodes, _⟩ :=
    adds (fun _ _ => .ok true) [plan] ⟨1⟩ _ (by simp [hints, guarded])
    known (Prod.ext rfl succeeds)
  exact ⟨_, ⟨1⟩, node, Prod.ext rfl succeeds, nodes⟩

end Session
end LiveQuery
