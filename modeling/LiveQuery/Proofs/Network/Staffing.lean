import LiveQuery.Proofs.Network.Retraction
import LiveQuery.Proofs.Plan.Columns

/-!
# Nodes carry out steps

An install adds one node after another, each of which is a production or carries out a step of a
plan.  What is kept whenever such a node is added holds wherever the install stops (`Adds.build`).
In particular every operator node of a network was added for a step of a plan (`Staffed`), and so in
every session what is known of the steps of the installed plans is known of all nodes
(`Session.attended_run`).
-/

namespace LiveQuery

/-- Every operator node carries out a step of one of the plans. -/
def Staffed (plans : List Plan) (nodes : List Node) : Prop :=
  ∀ id, Operates nodes id → ∃ plan ∈ plans, ∃ step ∈ plan.steps, Implements nodes plan step id

section Staffed

variable {plans more : List Plan} {nodes : List Node}

theorem Staffed.subset (staffed : Staffed plans nodes) (subset : ∀ plan ∈ plans, plan ∈ more) :
    Staffed more nodes := by
  intro id operates
  obtain ⟨plan, member, found⟩ := staffed id operates
  exact ⟨plan, subset plan member, found⟩

theorem Staffed.append {node : Node} (staffed : Staffed plans nodes)
    (works : node.cell.operator? ≠ none → ∃ plan ∈ plans, ∃ step ∈ plan.steps,
      Implements (nodes ++ [node]) plan step ⟨nodes.length⟩) : Staffed plans (nodes ++ [node]) := by
  rintro ⟨place⟩ ⟨other, found, operator⟩
  rcases Nat.lt_trichotomy place nodes.length with inside | rfl | outside
  · rw [List.getElem?_append_left inside] at found
    obtain ⟨plan, member, step, listed, implements⟩ := staffed ⟨place⟩ ⟨other, found, operator⟩
    exact ⟨plan, member, step, listed, implements.mono (List.prefix_append _ _)⟩
  · rw [List.getElem?_concat_length] at found
    cases found
    exact works operator
  · rw [List.getElem?_eq_none (by simp; omega)] at found
    cases found

end Staffed

/-! ## Below a node -/

namespace Implements

variable {nodes : List Node} {plan : Plan} {id step : SubPlanId} {place : NodeId}

/-- A step that a node carries out is not an input step, which no node can carry out. -/
theorem ne_input (implements : Implements nodes plan id place) (subjects : List VarId) :
    plan.operation? id ≠ some (.input subjects) := by
  intro known
  obtain @⟨_, _, lowered, node, children, lowers, _, made, _, _⟩ := implements
  obtain ⟨operator, operated, rfl⟩ := lower_ok known lowers
  obtain ⟨places, _, same⟩ := ok_of_bind operated
  cases same
  cases made

/-- With a step, all steps below it are carried out, by nodes with every property that nodes hand on
to the nodes which they read. -/
theorem exists_of_mem_postOrder {keeps : NodeId → Prop}
    (handed : ∀ step place lowered node children, plan.lower step = .ok lowered →
      nodes[place.index]? = some node →
      Node.ofOperator lowered.operator children = .ok (node.cell, node.inputs) →
      (plan.childrenOf step).length = children.length → keeps place →
      ∀ child ∈ children, keeps child)
    (implements : Implements nodes plan id place) (kept : keeps place)
    (listed : step ∈ plan.arena.postOrder id) :
    ∃ other, Implements nodes plan step other ∧ keeps other := by
  induction implements with
  | @intro id place lowered node children lowers found made length each ih =>
    have top : ∃ other, Implements nodes plan id other ∧ keeps other :=
      ⟨place, .intro lowers found made length each, kept⟩
    cases known : plan.arena.get? id with
    | none =>
      rw [Arena.postOrder_unfold, known] at listed
      obtain rfl := List.mem_singleton.mp listed
      exact top
    | some subPlan =>
      rcases (Arena.mem_postOrder known).mp listed with rfl | ⟨child, member, _, there⟩
      · exact top
      · have same : plan.childrenOf id = subPlan.operation.children := by
          simp [Plan.childrenOf, Plan.operation?, Plan.get?, known]
        rw [← same] at member
        obtain ⟨index, inside, rfl⟩ := List.mem_iff_getElem.mp member
        refine ih _ _ (Network.mem_zip_getElem inside (length ▸ inside)) ?_ there
        exact handed _ _ _ _ _ lowers found made length kept _ (List.getElem_mem _)

theorem of_mem_postOrder (implements : Implements nodes plan id place)
    (listed : step ∈ plan.arena.postOrder id) : ∃ other, Implements nodes plan step other := by
  obtain ⟨other, below, _⟩ := @exists_of_mem_postOrder nodes plan id step place (fun _ => True)
    (fun _ _ _ _ _ _ _ _ _ _ _ _ => trivial) implements trivial listed
  exact ⟨other, below⟩

end Implements

/-! ## Installing -/

namespace Network

theorem Building.Ensures.and {α : Type} {computation : Building α} {network : Network}
    {good better : α → Network → Prop} {bad worse : Error → Network → Prop}
    (first : computation.Ensures network good bad)
    (second : computation.Ensures network better worse) :
    computation.Ensures network (fun answer changed => good answer changed ∧ better answer changed)
      (fun error unfinished => bad error unfinished ∧ worse error unfinished) := by
  unfold Building.Ensures at first second ⊢
  split at first <;> simp_all

/-- What holds of a network, or of an error and the network that it leaves, whenever a node is added
that is a production or carries out a step of one of the plans. -/
def Adds (checks : Checks) (plans : List Plan) (keeps : Network → Prop)
    (bad : Error → Network → Prop) : Prop :=
  ∀ (network : Network) (node : Node), network.Wired → keeps network →
    node.cell.cleared = node.cell → node.Fits network.skeleton →
    (node.cell.operator? ≠ none → ∃ plan ∈ plans, ∃ step ∈ plan.steps,
      Implements (network.skeleton ++ [node]) plan step ⟨network.skeleton.length⟩) →
    (addNode checks node).Ensures network (fun _ changed => keeps changed) bad

section Building

variable {checks : Checks} {plans : List Plan} {plan : Plan} {network : Network}
  {keeps : Network → Prop} {bad : Error → Network → Prop}

/-- The node that is found or made for a step carries it out. -/
theorem Adds.placeStep (adds : Adds checks plans keeps bad)
    (malformed : ∀ error network, Malformed error → keeps network → bad error network)
    (wired : network.Wired)
    (member : plan ∈ plans) {placed : Table SubPlanId NodeId}
    (known : Placed network.skeleton plan placed) {step : SubPlanId} (listed : step ∈ plan.steps)
    (grounded : plan.Grounded step) (begun : keeps network) :
    (placeStep checks plan placed step).Ensures network (fun _ changed => keeps changed) bad := by
  refine Building.Ensures.lift (fun lowered lowers => ?_) fun error failed =>
    malformed error _ ((Plan.formed_lower grounded).of_error failed) begun
  refine Building.Ensures.lift (fun children inputs => ?_) fun error failed =>
    malformed error _ ((Plan.formed_inputsOf placed).of_error failed) begun
  obtain ⟨length, below⟩ := List.forall₂_iff_zip.mp (inputsOf_ok inputs)
  have breadth : children.length = lowered.operator.breadth :=
    length.symm.trans ((Plan.formed_lower grounded).of_ok lowers)
  refine Building.Ensures.bind (?_ : Building.Ensures _ network (fun _ changed => keeps changed) _)
    fun _ _ kept => kept
  refine Building.Ensures.get (Building.Ensures.lift ?_ fun error failed =>
    malformed error _ ((Node.formed_ofOperator breadth).of_error failed) begun)
  rintro ⟨cell, sources⟩ made
  obtain ⟨operator, blank⟩ := Node.of_ofOperator made
  dsimp only
  split
  · exact begun
  · refine adds network _ wired begun blank ?_ fun _ => ⟨plan, member, step, listed, ?_⟩
    · unfold Node.Fits
      simp only [operator]
      refine ⟨children, made, fun child childMember => ?_⟩
      obtain ⟨other, _, found⟩ := exists_of_forall₂ (inputsOf_ok inputs) childMember
      exact (known other child found).2.operates
    · refine .intro lowers List.getElem?_concat_length made length fun child place pair => ?_
      exact (known child place (below pair)).2.mono (List.prefix_append _ _)

theorem Adds.placePlan (adds : Adds checks plans keeps bad)
    (malformed : ∀ error network, Malformed error → keeps network → bad error network)
    (wired : network.Wired)
    (member : plan ∈ plans) (grounded : ∀ step ∈ plan.steps, plan.Grounded step)
    (begun : keeps network) :
    (placePlan checks plan).Ensures network (fun _ changed => keeps changed) bad := by
  have all (steps : List SubPlanId) (listed : ∀ step ∈ steps, step ∈ plan.steps)
      (current : Network) (wired : current.Wired) (placed : Table SubPlanId NodeId)
      (known : Placed current.skeleton plan placed) (begun : keeps current) :
      Building.Ensures (steps.foldlM (Network.placeStep checks plan) placed) current
        (fun _ changed => keeps changed) bad := by
    induction steps generalizing current placed with
    | nil => exact begun
    | cons step rest ih =>
      have here := listed step List.mem_cons_self
      rw [List.foldlM_cons]
      refine Building.Ensures.bind (((placeStep_spec checks wired known here).and
        (adds.placeStep malformed wired member known here (grounded step here) begun)).mono
          (fun _ _ both => both) fun _ _ both => both.2) ?_
      intro placed changed both
      exact ih (fun other member => listed other (List.mem_cons_of_mem _ member)) changed
        both.1.1.wired placed both.1.2 both.2
  refine Building.Ensures.bind (all plan.steps (fun _ member => member) network wired .empty
    (fun _ _ found => by cases found) begun) fun placed changed kept => ?_
  split
  · exact kept
  · exact malformed _ _ ⟨_, rfl⟩ kept

theorem Adds.placePlans (adds : Adds checks plans keeps bad)
    (malformed : ∀ error network, Malformed error → keeps network → bad error network)
    (wired : network.Wired)
    (placing : List Plan) (subset : ∀ plan ∈ placing, plan ∈ plans)
    (grounded : ∀ plan ∈ placing, ∀ step ∈ plan.steps, plan.Grounded step)
    (begun : keeps network) :
    Building.Ensures (placing.mapM (Network.placePlan checks)) network
      (fun _ changed => keeps changed) bad := by
  induction placing generalizing network with
  | nil => exact begun
  | cons plan rest ih =>
    rw [List.mapM_cons]
    refine Building.Ensures.bind (((placePlan_spec checks wired plan).and
      (adds.placePlan malformed wired (subset plan List.mem_cons_self)
        (grounded plan List.mem_cons_self) begun)).mono
          (fun _ _ both => both) fun _ _ both => both.2) fun top changed both => ?_
    refine Building.Ensures.bind (ih both.1.1.wired
      (fun other member => subset other (List.mem_cons_of_mem _ member))
      (fun other member => grounded other (List.mem_cons_of_mem _ member)) both.2) ?_
    exact fun _ _ kept => kept

/-- What is kept whenever a node is added is kept by building, wherever it stops. -/
theorem Adds.build (adds : Adds checks plans keeps bad)
    (malformed : ∀ error network, Malformed error → keeps network → bad error network)
    {done : Network → Prop}
    (registered : ∀ network queries, keeps network → done { network with queries })
    (wired : network.Wired) (name : String) (arity : Nat)
    (grounded : ∀ plan ∈ plans, ∀ step ∈ plan.steps, plan.Grounded step) (begun : keeps network) :
    (build checks name arity plans).Ensures network (fun _ changed => done changed) bad := by
  refine Building.Ensures.bind (((placePlans_spec checks wired plans).and
    (adds.placePlans malformed wired plans (fun _ member => member) grounded begun)).mono
      (fun _ _ both => both) fun _ _ both => both.2) fun tops changed both => ?_
  obtain ⟨⟨extends_, implement⟩, kept⟩ := both
  refine Building.Ensures.bind (adds changed _ extends_.wired kept rfl ?_ fun operates =>
    absurd rfl operates) fun production final kept => ?_
  · refine ⟨rfl, tops, rfl, fun top member => ?_⟩
    obtain ⟨plan, _, _, implements⟩ := exists_of_forall₂ implement member
    exact implements.operates
  · exact registered final _ kept

theorem Adds.and {better : Network → Prop} {worse : Error → Network → Prop}
    (first : Adds checks plans keeps bad) (second : Adds checks plans better worse) :
    Adds checks plans (fun network => keeps network ∧ better network)
      fun error unfinished => bad error unfinished ∧ worse error unfinished := by
  intro network node wired both blank fits works
  exact ((first network node wired both.1 blank fits works).and
    (second network node wired both.2 blank fits works)).mono (fun _ _ kept => kept)
      fun _ _ kept => kept

/-- The nodes fit together also when the last one cannot be primed. -/
theorem adds_wired (checks : Checks) (plans : List Plan) :
    Adds checks plans Wired fun _ unfinished => unfinished.Wired := by
  intro network node wired _ blank fits _
  have pushed := wired.append blank fits
  refine Building.Ensures.get (Building.Ensures.set ?_)
  refine Building.Ensures.bind ((prime_shape checks _ _).mono (fun _ _ same => same.wired pushed)
    fun _ _ same => same.wired pushed) ?_
  exact fun _ _ wired => wired

theorem addNode_skeleton (checks : Checks) (network : Network) {node : Node}
    (blank : node.cell.cleared = node.cell) :
    (addNode checks node).Ensures network
      (fun _ changed => changed.skeleton = network.skeleton ++ [node])
      (fun _ unfinished => unfinished.skeleton = network.skeleton ++ [node]) := by
  have pushed : skeleton { network with nodes := network.nodes ++ [node] } =
      network.skeleton ++ [node] := by
    simp [skeleton, Node.cleared, blank]
  refine Building.Ensures.get (Building.Ensures.set ?_)
  refine Building.Ensures.bind ((prime_shape checks _ _).mono
    (fun _ _ same => same.skeleton.trans pushed) fun _ _ same => same.skeleton.trans pushed) ?_
  exact fun _ _ same => same

/-- The nodes that building adds are those of steps of the plans. -/
theorem adds_staffed (checks : Checks) (known plans : List Plan) :
    Adds checks plans (fun network => Staffed (known ++ plans) network.skeleton)
      fun _ unfinished => Staffed (known ++ plans) unfinished.skeleton := by
  intro network node _ staffed blank _ works
  have grown : Staffed (known ++ plans) (network.skeleton ++ [node]) := by
    refine staffed.append fun operates => ?_
    obtain ⟨plan, member, found⟩ := works operates
    exact ⟨plan, List.mem_append_right _ member, found⟩
  refine (addNode_skeleton checks network blank).mono (fun _ changed same => ?_)
    fun _ unfinished same => ?_
  · show Staffed _ changed.skeleton
    rwa [same]
  · show Staffed _ unfinished.skeleton
    rwa [same]

/-- Wherever building stops, the nodes are those from before and nodes for steps of the plans. -/
theorem build_staffed (checks : Checks) (wired : network.Wired) (name : String) (arity : Nat)
    {known : List Plan} (grounded : ∀ plan ∈ plans, ∀ step ∈ plan.steps, plan.Grounded step)
    (staffed : Staffed known network.skeleton) :
    (build checks name arity plans).Ensures network
      (fun _ changed => Staffed (known ++ plans) changed.skeleton)
      (fun _ unfinished => Staffed (known ++ plans) unfinished.skeleton) := by
  have begun := staffed.subset fun plan member => List.mem_append_left plans member
  exact (adds_staffed checks known plans).build (fun _ _ _ kept => kept) (fun _ _ kept => kept) wired
    name arity grounded begun

end Building

end Network

/-! ## Sessions -/

namespace Session

variable {session : Session} {checks : Checks}

/-- The nodes are those of the installed plans, each of which was accepted and has a node for its
root. -/
structure Attended (session : Session) : Prop where
  wired : session.network.Wired
  staffed : Staffed session.plans.flatten session.network.skeleton
  accepted : ∀ plan ∈ session.plans.flatten, plan.isAdorned = false ∧ plan.demandSound = .ok ()
  placed : ∀ plan ∈ session.plans.flatten,
    ∃ top, Implements session.network.skeleton plan plan.root top

theorem attended_new (id : NetworkId) : (new id).Attended where
  wired := Network.wired_new id
  staffed := by
    rintro id ⟨node, found, _⟩
    cases found
  accepted := nofun
  placed := nofun

theorem Attended.sameWiring (attended : session.Attended) {after : Session}
    (plans : after.plans = session.plans)
    (same : Network.SameWiring session.network after.network) : after.Attended where
  wired := same.wired attended.wired
  staffed := by
    rw [plans, same.skeleton]
    exact attended.staffed
  accepted := by
    rw [plans]
    exact attended.accepted
  placed := by
    rw [plans, same.skeleton]
    exact attended.placed

theorem Attended.install (attended : session.Attended) {plans : List Plan} {query : QueryId}
    {after : Session} (recorded : after.plans = session.plans ++ [plans])
    (installed : session.network.install checks plans = (after.network, .ok query)) :
    after.Attended := by
  obtain ⟨_, ⟨_, _, _, _, _, tops, _, _, _, implement⟩, grown, wired, _⟩ :=
    Network.Installed.of_install attended.wired installed
  obtain ⟨name, arity, demanded, ran⟩ := Network.run_of_install installed
  obtain ⟨_, sound⟩ := (Network.demandInstall_spec session.network plans).of_ok demanded
  have built := Network.build_staffed checks attended.wired name arity
    (fun plan member => Plan.grounded_of_demandSound (sound plan member).2) attended.staffed
  have flat : after.plans.flatten = session.plans.flatten ++ plans := by
    rw [recorded]
    simp
  refine ⟨wired, flat ▸ built.of_ok ran, fun plan member => ?_, fun plan member => ?_⟩
  · rw [flat] at member
    exact (List.mem_append.mp member).elim (attended.accepted plan) (sound plan)
  · rw [flat] at member
    rcases List.mem_append.mp member with old | new
    · obtain ⟨top, implements⟩ := attended.placed plan old
      exact ⟨top, implements.mono (grown.map _)⟩
    · obtain ⟨index, inside, rfl⟩ := List.mem_iff_getElem.mp new
      exact ⟨_, (implement.get inside (implement.length_eq ▸ inside)).2⟩

theorem Attended.step (attended : session.Attended) (checks : Checks) (action : Action) :
    (session.step checks action).Attended := by
  rcases step_cases attended.wired checks action with ⟨plans, same⟩ | ⟨plans, query, recorded, done⟩
  · exact attended.sameWiring plans same
  · exact attended.install recorded done

theorem attended_run (id : NetworkId) (steps : List (Checks × Action)) :
    ((new id).run steps).Attended :=
  run_induction (attended_new id) fun step _ _ attended => attended.step step.1 step.2

end Session
end LiveQuery
