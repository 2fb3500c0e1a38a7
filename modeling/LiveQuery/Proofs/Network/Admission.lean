import LiveQuery.Proofs.Network.Answering
import LiveQuery.Proofs.Plan.Reading

/-!
# Installs that succeed

An install of plans without input steps can only fail because the plans are refused or because a
node cannot be primed.  If the batch evaluator finds the matches of all plans, neither happens: it
refuses the same plans, every step that it evaluates becomes a node (`placeStep_succeeds`), and what
the new nodes are primed from can be told, because the batch evaluator has rows for it
(`tells_of_evaluate`).
-/

namespace LiveQuery

theorem Node.exists_ofOperator {operator : Operator} {children : List NodeId}
    (inner : ∀ columns, operator ≠ .input columns) (breadth : children.length = operator.breadth) :
    ∃ made, Node.ofOperator operator children = .ok made := by
  cases operator with
  | source | closure | unit => exact ⟨_, rfl⟩
  | input columns => exact absurd rfl (inner columns)
  | filter | project | antiJoin =>
    obtain ⟨child, rfl⟩ := List.length_eq_one_iff.mp breadth
    exact ⟨_, rfl⟩
  | join =>
    obtain ⟨left, right, rfl⟩ := List.length_eq_two.mp breadth
    exact ⟨_, rfl⟩

theorem Plan.ne_input_of_lower {plan : Plan} {step : SubPlanId} {lowered : Lowered}
    (lowers : plan.lower step = .ok lowered)
    (inner : ∀ subjects, plan.operation? step ≠ some (.input subjects)) (columns : List Nat) :
    lowered.operator ≠ .input columns := by
  intro waits
  cases known : plan.operation? step with
  | none =>
    unfold lower at lowers
    rw [known] at lowers
    cases lowers
  | some operation =>
    obtain ⟨operator, operated, rfl⟩ := lower_ok known lowers
    obtain rfl : operator = .input columns := waits
    obtain ⟨subjects, rfl, _⟩ := input_of_operator operated
    exact inner subjects known

namespace Network

variable {checks : Checks} {truth : CheckId → Tuple → Bool} {network : Network} {plan : Plan}
  {plans : List Plan} {step : SubPlanId} {id : NodeId}

/-! ## Building -/

theorem Tells.inside (tells : network.Tells checks id) : id.index < network.nodes.length := by
  obtain ⟨rows, told⟩ := tells
  by_contra outside
  rw [output, List.getElem?_eq_none (Nat.not_lt.mp outside)] at told
  cases told

theorem addNode_succeeds {node : Node} (told : network.ReadsTold checks node) :
    (addNode checks node).Ensures network (fun _ _ => True) (fun _ _ => False) := by
  set pushed : Network := { network with nodes := network.nodes ++ [node] }
  have here : pushed.nodes[(⟨network.nodes.length⟩ : NodeId).index]? = some node :=
    List.getElem?_concat_length
  have still : pushed.ReadsTold checks node := by
    intro child inlet member
    have tells := told child inlet member
    exact tells.congr rfl fun place early => List.getElem?_append_left (early.trans_lt tells.inside)
  obtain ⟨cell, primed⟩ := exists_primed still
  refine Building.Ensures.get (Building.Ensures.set ?_)
  refine Building.Ensures.bind ((prime_cases checks pushed here).mono (fun _ _ _ => trivial) ?_)
    fun _ _ _ => trivial
  rintro error _ ⟨failed, _⟩
  rw [primed] at failed
  cases failed

theorem nodeFor_succeeds {lowered : Lowered} {children : List NodeId} (share : Bool)
    (inner : ∀ columns, lowered.operator ≠ .input columns)
    (breadth : children.length = lowered.operator.breadth)
    (told : ∀ child ∈ children, network.Tells checks child) :
    (nodeFor checks lowered children share).Ensures network (fun _ _ => True)
      (fun _ _ => False) := by
  obtain ⟨⟨cell, inputs⟩, made⟩ := Node.exists_ofOperator inner breadth
  refine Building.Ensures.get (Building.Ensures.lift_ok made ?_)
  dsimp only
  split
  · trivial
  · refine addNode_succeeds fun child inlet member => told child ?_
    have blank := (Node.of_ofOperator made).2
    have reads := @Node.children_of_made ⟨cell, lowered.label, inputs, share⟩ _ _
      (blank.symm ▸ made) breadth
    rw [← reads]
    exact Node.mem_children.mpr ⟨inlet, member⟩

/-- The nodes of the steps of a plan can tell if the batch evaluator finds its matches. -/
theorem tells_of_evaluate (agree : checks.Agree truth) (wired : network.Wired)
    (settled : network.Settled truth) {found : OrderedSet Tuple}
    (evaluated : plan.evaluate checks network.facts [] = .ok found) (listed : step ∈ plan.steps)
    (implements : Implements network.skeleton plan step id) : network.Tells checks id := by
  obtain ⟨_, below⟩ := settled_iff.mp settled
  obtain ⟨_, yields⟩ := Plan.exists_yields evaluated listed
  exact tells_of_yields agree wired below implements yields

/-- A step is placed if the batch evaluator finds the matches of the plan and the children are
placed. -/
theorem placeStep_succeeds (agree : checks.Agree truth) (wired : network.Wired)
    (settled : network.Settled truth) {found : OrderedSet Tuple}
    (evaluated : plan.evaluate checks network.facts [] = .ok found) (listed : step ∈ plan.steps)
    (inner : ∀ subjects, plan.operation? step ≠ some (.input subjects))
    {placed : Table SubPlanId NodeId} (known : Placed network.skeleton plan placed)
    (kept : ∀ child ∈ plan.childrenOf step, (placed.get? child).isSome = true) :
    (placeStep checks plan placed step).Ensures network
      (fun after _ => ∃ node, after = placed.insert step node) (fun _ _ => False) := by
  obtain ⟨_, yields⟩ := Plan.exists_yields evaluated listed
  obtain ⟨lowered, lowers⟩ : ∃ lowered, plan.lower step = .ok lowered := by
    cases yields with
    | intro lowers => exact ⟨_, lowers⟩
  obtain ⟨children, inputs, length⟩ := Plan.exists_inputsOf kept
  refine Building.Ensures.lift_ok lowers (Building.Ensures.lift_ok inputs ?_)
  refine Building.Ensures.bind (nodeFor_succeeds _ (Plan.ne_input_of_lower lowers inner)
    (length.trans (Plan.breadth_of_lower lowers)) fun child member => ?_)
    fun node _ _ => ⟨node, rfl⟩
  obtain ⟨other, _, there⟩ := exists_of_forall₂ (inputsOf_ok inputs) member
  obtain ⟨otherListed, implements⟩ := known other child there
  exact tells_of_evaluate agree wired settled evaluated otherListed implements

theorem placePlan_succeeds (agree : checks.Agree truth) (wired : network.Wired)
    (settled : network.Settled truth) {found : OrderedSet Tuple}
    (evaluated : plan.evaluate checks network.facts [] = .ok found)
    (inner : ∀ step ∈ plan.steps, ∀ subjects, plan.operation? step ≠ some (.input subjects)) :
    (placePlan checks plan).Ensures network (fun _ _ => True) (fun _ _ => False) := by
  have all (steps : List SubPlanId) (subset : ∀ step ∈ steps, step ∈ plan.steps)
      (done : SubPlanId → Prop) (ordered : plan.Ordered done steps) (current : Network)
      (extends_ : Extends checks network current) (placed : Table SubPlanId NodeId)
      (known : Placed current.skeleton plan placed)
      (kept : ∀ step, done step → (placed.get? step).isSome = true) :
      Building.Ensures (steps.foldlM (placeStep checks plan) placed) current
        (fun after _ => ∀ step, step ∈ steps ∨ done step → (after.get? step).isSome = true)
        (fun _ _ => False) := by
    induction steps generalizing done current placed with
    | nil => exact fun step here => kept step (here.resolve_left List.not_mem_nil)
    | cons step rest ih =>
      have here := subset step List.mem_cons_self
      rw [List.foldlM_cons]
      refine Building.Ensures.bind (((placeStep_spec checks extends_.wired known here).and
        (placeStep_succeeds agree extends_.wired (extends_.settled truth agree settled)
          (extends_.facts ▸ evaluated) here (inner step here) known fun child member =>
            kept child (ordered.1 child member))).mono
          (fun _ _ both => both) fun _ _ both => both.2) ?_
      rintro _ changed ⟨⟨next, placed⟩, node, rfl⟩
      refine (ih (fun other member => subset other (List.mem_cons_of_mem _ member)) _ ordered.2
        changed (extends_.trans next) _ placed (Plan.isSome_insert kept)).mono ?_
        fun _ _ failed => failed
      intro after _ later other there
      refine later other ?_
      rw [List.mem_cons, or_assoc] at there
      exact or_left_comm.mp there
  obtain ⟨sound, _, _⟩ := evaluate_eq_ok_iff.mp evaluated
  refine Building.Ensures.bind (all plan.steps (fun _ member => member) _ (Plan.ordered_steps sound)
    network (.refl wired) .empty (fun _ _ absent => by cases absent) fun _ absent =>
      absent.elim) ?_
  intro placed _ kept
  split
  · trivial
  next absent =>
    have there := kept plan.root (.inl (Arena.self_mem_postOrder plan.arena plan.root))
    rw [absent] at there
    cases there

theorem placePlans_succeeds (agree : checks.Agree truth) (wired : network.Wired)
    (settled : network.Settled truth)
    (evaluated : ∀ plan ∈ plans, ∃ found, plan.evaluate checks network.facts [] = .ok found)
    (inner : ∀ plan ∈ plans, ∀ step ∈ plan.steps, ∀ subjects,
      plan.operation? step ≠ some (.input subjects)) :
    Building.Ensures (plans.mapM (placePlan checks)) network (fun _ _ => True)
      (fun _ _ => False) := by
  induction plans generalizing network with
  | nil => trivial
  | cons plan rest ih =>
    obtain ⟨found, first⟩ := evaluated plan List.mem_cons_self
    rw [List.mapM_cons]
    refine Building.Ensures.bind (((placePlan_spec checks wired plan).and (placePlan_succeeds agree
      wired settled first (inner plan List.mem_cons_self))).mono (fun _ _ both => both)
        fun _ _ both => both.2) ?_
    rintro top changed ⟨⟨extends_, _⟩, _⟩
    refine Building.Ensures.bind (ih extends_.wired (extends_.settled truth agree settled)
      (fun other member => ?_) fun other member => inner other (List.mem_cons_of_mem _ member))
      fun _ _ _ => trivial
    rw [extends_.facts]
    exact evaluated other (List.mem_cons_of_mem _ member)

theorem build_succeeds (agree : checks.Agree truth) (wired : network.Wired)
    (settled : network.Settled truth) (name : String) (arity : Nat)
    (evaluated : ∀ plan ∈ plans, ∃ found, plan.evaluate checks network.facts [] = .ok found)
    (inner : ∀ plan ∈ plans, ∀ step ∈ plan.steps, ∀ subjects,
      plan.operation? step ≠ some (.input subjects)) :
    (build checks name arity plans).Ensures network (fun _ _ => True) (fun _ _ => False) := by
  refine Building.Ensures.bind (((placePlans_spec checks wired plans).and (placePlans_succeeds agree
    wired settled evaluated inner)).mono (fun _ _ both => both) fun _ _ both => both.2) ?_
  rintro tops changed ⟨⟨extends_, implement⟩, _⟩
  refine Building.Ensures.bind (addNode_succeeds fun child inlet member => ?_) fun _ _ _ => trivial
  obtain ⟨top, listed, same⟩ := List.mem_map.mp member
  cases same
  obtain ⟨plan, planMember, rootListed, implements⟩ := exists_of_forall₂ implement listed
  obtain ⟨found, evaluated⟩ := evaluated plan planMember
  exact tells_of_evaluate agree extends_.wired (extends_.settled truth agree settled)
    (extends_.facts ▸ evaluated) rootListed implements

theorem demandInstall_ok (usable : network.reported = none) (nonempty : plans ≠ []) {name : String}
    {arity : Nat} (alike : ∀ plan ∈ plans, plan.body.query = name ∧
      plan.body.parameters.length = arity)
    (accepted : ∀ plan ∈ plans, plan.isAdorned = false ∧ plan.demandSound = .ok ()) :
    network.demandInstall plans = .ok (name, arity) := by
  have all (plans : List Plan) (alike : ∀ plan ∈ plans, plan.body.query = name ∧
      plan.body.parameters.length = arity)
      (accepted : ∀ plan ∈ plans, plan.isAdorned = false ∧ plan.demandSound = .ok ()) :
      plans.forM (demandInstallable name arity) = .ok () := by
    induction plans with
    | nil => rfl
    | cons plan rest ih =>
      obtain ⟨sameName, sameArity⟩ := alike plan List.mem_cons_self
      obtain ⟨unadorned, sound⟩ := accepted plan List.mem_cons_self
      have first : demandInstallable name arity plan = .ok () := by
        unfold demandInstallable
        simp only [sameName, sameArity, unadorned, sound, ne_eq, not_true_eq_false, if_false,
          Bool.false_eq_true]
      show (demandInstallable name arity plan >>= fun _ => rest.forM _) = _
      rw [first]
      exact ih (fun other member => alike other (List.mem_cons_of_mem _ member))
        fun other member => accepted other (List.mem_cons_of_mem _ member)
  obtain ⟨first, rest, rfl⟩ := List.exists_cons_of_ne_nil nonempty
  obtain ⟨rfl, rfl⟩ := alike first List.mem_cons_self
  have usable' : network.demandUsable = .ok () := by simp [demandUsable, isPoisoned, usable]
  unfold demandInstall
  rw [usable', List.head?_cons]
  show ((first :: rest).forM (demandInstallable _ _) >>= _) = _
  rw [all _ alike accepted]
  rfl

/-- Plans without input steps that belong together are installed if the batch evaluator finds their
matches. -/
theorem install_succeeds (agree : checks.Agree truth) (wired : network.Wired)
    (settled : network.Settled truth) (usable : network.reported = none) (nonempty : plans ≠ [])
    {name : String} {arity : Nat}
    (alike : ∀ plan ∈ plans, plan.body.query = name ∧ plan.body.parameters.length = arity)
    (unadorned : ∀ plan ∈ plans, plan.isAdorned = false)
    (inner : ∀ plan ∈ plans, ∀ step ∈ plan.steps, ∀ subjects,
      plan.operation? step ≠ some (.input subjects))
    (evaluated : ∀ plan ∈ plans, ∃ found, plan.evaluate checks network.facts [] = .ok found) :
    ∃ query, (network.install checks plans).2 = .ok query := by
  have accepted : ∀ plan ∈ plans, plan.isAdorned = false ∧ plan.demandSound = .ok () := by
    intro plan member
    obtain ⟨_, evaluates⟩ := evaluated plan member
    exact ⟨unadorned plan member, (evaluate_eq_ok_iff.mp evaluates).1⟩
  have built := build_succeeds agree wired settled name arity evaluated inner
  unfold install
  rw [demandInstall_ok usable nonempty alike accepted]
  dsimp only
  unfold Building.Ensures at built
  split at built
  next query changed ran =>
    rw [ran]
    exact ⟨query, rfl⟩
  · exact built.elim

end Network
end LiveQuery
