import LiveQuery.Proofs.Network.Reporting

/-!
# The wiring that plans lead to

The rows in a network and the answers of checks decide whether an install succeeds, but not which
nodes it adds.  `Building.Together` compares two computations that begin with the same wiring: if
both succeed, they give the same answer and leave the same wiring.  Every step of an install passes
this on (`nodeFor_together`, `placePlan_together`, `build_together`), because a node is looked for,
and made, without regard to memories.

`Laid plans network` says that the wiring of a network comes from installing plans one query after
another.  Networks that the same plans have been installed into have the same wiring
(`Laid.sameWiring`), and the network of a session always comes from the plans of the session
(`Session.laid_run`).
-/

namespace LiveQuery

namespace Network

/-! ## Building side by side -/

/-- Two computations that both succeed give the same answer and leave the same wiring. -/
def Building.Together {α : Type} (first second : Building α) (left right : Network) : Prop :=
  ∀ answer leftAfter other rightAfter, first.run left = .ok answer leftAfter →
    second.run right = .ok other rightAfter → answer = other ∧ SameWiring leftAfter rightAfter

namespace Building.Together

variable {α β : Type} {first second : Building α} {next later : α → Building β}
  {left right : Network}

theorem pure (same : SameWiring left right) (answer : α) :
    Building.Together (Pure.pure answer) (Pure.pure answer) left right := by
  intro _ _ _ _ found otherFound
  cases found
  cases otherFound
  exact ⟨rfl, same⟩

theorem bind (begins : Building.Together first second left right)
    (continues : ∀ answer left right, SameWiring left right →
      Building.Together (next answer) (later answer) left right) :
    Building.Together (first >>= next) (second >>= later) left right := by
  intro _ _ _ _ found otherFound
  rw [EStateM.run_bind] at found otherFound
  cases one : first.run left with
  | error => rw [one] at found; cases found
  | ok answer leftMiddle =>
    cases two : second.run right with
    | error => rw [two] at otherFound; cases otherFound
    | ok other rightMiddle =>
      rw [one] at found
      rw [two] at otherFound
      obtain ⟨rfl, same⟩ := begins _ _ _ _ one two
      exact continues answer leftMiddle rightMiddle same _ _ _ _ found otherFound

theorem lift {result : Except Error α}
    (continues : ∀ answer, result = .ok answer →
      Building.Together (next answer) (later answer) left right) :
    Building.Together (liftExcept result >>= next) (liftExcept result >>= later) left right := by
  cases result with
  | ok answer => exact continues answer rfl
  | error error =>
    intro _ _ _ _ found
    cases found

theorem get {next later : Network → Building β}
    (continues : Building.Together (next left) (later right) left right) :
    Building.Together (MonadState.get >>= next) (MonadState.get >>= later) left right := continues

theorem set {leftChanged rightChanged : Network} {next later : PUnit → Building β}
    (continues : Building.Together (next ⟨⟩) (later ⟨⟩) leftChanged rightChanged) :
    Building.Together (MonadStateOf.set leftChanged >>= next)
      (MonadStateOf.set rightChanged >>= later) left right := continues

theorem foldlM {step other : α → β → Building α}
    (together : ∀ start value left right, SameWiring left right →
      Building.Together (step start value) (other start value) left right)
    (same : SameWiring left right) (values : List β) (start : α) :
    Building.Together (values.foldlM step start) (values.foldlM other start) left right := by
  induction values generalizing start left right with
  | nil => exact pure same start
  | cons value rest ih =>
    rw [List.foldlM_cons, List.foldlM_cons]
    exact (together start value left right same).bind fun start _ _ same => ih same start

theorem mapM {step other : α → Building β}
    (together : ∀ value left right, SameWiring left right →
      Building.Together (step value) (other value) left right)
    (same : SameWiring left right) (values : List α) :
    Building.Together (values.mapM step) (values.mapM other) left right := by
  induction values generalizing left right with
  | nil => exact pure same []
  | cons value rest ih =>
    rw [List.mapM_cons, List.mapM_cons]
    exact (together value left right same).bind fun _ _ _ same =>
      (ih same).bind fun _ _ _ same => pure same _

end Building.Together

open Building (Together)

variable {left right : Network} {checks others : Checks}

/-! ## Nodes -/

theorem prime_together (same : SameWiring left right) (id : NodeId) :
    Together (prime checks id) (prime others id) left right := by
  intro _ leftAfter _ rightAfter found otherFound
  have leftShape := prime_shape checks left id
  have rightShape := prime_shape others right id
  unfold Building.Ensures at leftShape rightShape
  rw [found] at leftShape
  rw [otherFound] at rightShape
  exact ⟨rfl, leftShape.sameWiring.symm.trans (same.trans rightShape.sameWiring)⟩

theorem addNode_together (same : SameWiring left right) (node : Node) :
    Together (addNode checks node) (addNode others node) left right := by
  have pushed : SameWiring { left with nodes := left.nodes ++ [node] }
      { right with nodes := right.nodes ++ [node] } := by
    refine ⟨?_, same.queries⟩
    have before : right.nodes.map Node.cleared = left.nodes.map Node.cleared := same.skeleton
    simp only [skeleton, List.map_append, before]
  unfold addNode
  refine Together.get (Together.set ?_)
  rw [same.length]
  exact (prime_together pushed _).bind fun _ _ _ primed => .pure primed _

/-- Memories do not matter for the search of a node. -/
theorem findShared?_congr (same : SameWiring left right) (operator : Operator)
    (inputs : List (NodeInput × Inlet)) :
    right.findShared? operator inputs = left.findShared? operator inputs := by
  have blank (network : Network) : network.findShared? operator inputs =
      (network.skeleton.findIdx? fun node => node.isShared &&
        node.cell.operator? = some operator && node.inputs = inputs).map Id.mk := by
    unfold findShared? skeleton
    rw [List.findIdx?_map]
    refine congrArg (fun search => (List.findIdx? search network.nodes).map Id.mk) ?_
    funext node
    rw [Function.comp_apply, Node.cleared, Cell.operator?_cleared]
  rw [blank, blank, same.skeleton]

theorem nodeFor_together (same : SameWiring left right) (step : Lowered) (children : List NodeId)
    (share : Bool) :
    Together (nodeFor checks step children share) (nodeFor others step children share)
      left right := by
  refine Together.get (Together.lift ?_)
  rintro ⟨cell, inputs⟩ made
  dsimp only
  rw [findShared?_congr same]
  split
  · exact .pure same _
  · exact addNode_together same _

/-! ## Plans -/

theorem placeStep_together (plan : Plan) (placed : Table SubPlanId NodeId) (step : SubPlanId)
    (same : SameWiring left right) :
    Together (placeStep checks plan placed step) (placeStep others plan placed step) left right :=
  .lift fun lowered _ => .lift fun children _ =>
    (nodeFor_together same lowered children plan.hints.shareNodes).bind fun _ _ _ placed =>
      .pure placed _

theorem placePlan_together (plan : Plan) (same : SameWiring left right) :
    Together (placePlan checks plan) (placePlan others plan) left right := by
  refine Together.bind (Together.foldlM (fun placed step _ _ => placeStep_together plan placed step)
    same plan.steps .empty) ?_
  intro placed left right same
  split
  · exact .pure same _
  · intro _ _ _ _ found
    cases found

theorem build_together (same : SameWiring left right) (name : String) (arity : Nat)
    (plans : List Plan) :
    Together (build checks name arity plans) (build others name arity plans) left right := by
  refine Together.bind (Together.mapM (fun plan _ _ => placePlan_together plan) same plans) ?_
  intro tops left right same
  refine (addNode_together same _).bind fun production left right same => ?_
  refine Together.get (Together.set ?_)
  rw [same.queries]
  refine .pure ?_ _
  exact ⟨same.skeleton, rfl⟩

/-- Installing the same plans leaves the same wiring, whatever facts are there and whatever the
checks answer, as long as both installs succeed. -/
theorem sameWiring_install (same : SameWiring left right) {plans : List Plan}
    {leftAfter rightAfter : Network} {query other : QueryId}
    (leftInstalled : left.install checks plans = (leftAfter, .ok query))
    (rightInstalled : right.install others plans = (rightAfter, .ok other)) :
    SameWiring leftAfter rightAfter := by
  obtain ⟨_, _, leftDemanded, leftRan⟩ := run_of_install leftInstalled
  obtain ⟨_, _, rightDemanded, rightRan⟩ := run_of_install rightInstalled
  obtain ⟨first, head, rfl, rfl⟩ := head_of_demandInstall leftDemanded
  obtain ⟨again, headAgain, rfl, rfl⟩ := head_of_demandInstall rightDemanded
  obtain rfl := Option.some.inj (head.symm.trans headAgain)
  exact (build_together same _ _ _ _ _ _ _ leftRan rightRan).2

/-! ## Wiring that comes from plans -/

/-- The wiring of the network comes from installing the plans, one query after another. -/
inductive Laid : List (List Plan) → Network → Prop where
  | new {id : NetworkId} {network : Network} (same : SameWiring (.new id) network) : Laid [] network
  | install {earlier : List (List Plan)} {plans : List Plan} {before after network : Network}
      {checks : Checks} {query : QueryId} (laid : Laid earlier before)
      (installed : before.install checks plans = (after, .ok query))
      (same : SameWiring after network) : Laid (earlier ++ [plans]) network

theorem Laid.rewired {plans : List (List Plan)} {before after : Network} (laid : Laid plans before)
    (same : SameWiring before after) : Laid plans after := by
  cases laid with
  | new first => exact .new (first.trans same)
  | install laid installed first => exact .install laid installed (first.trans same)

/-- The plans determine the wiring. -/
theorem Laid.sameWiring {plans : List (List Plan)} {first second : Network}
    (firstLaid : Laid plans first) (secondLaid : Laid plans second) : SameWiring first second := by
  induction firstLaid generalizing second with
  | new same =>
    generalize none_ : ([] : List (List Plan)) = plans at secondLaid
    cases secondLaid with
    | new other => exact same.symm.trans ⟨other.skeleton, other.queries⟩
    | install => exact absurd none_.symm (by simp)
  | @install earlier last _ _ _ _ _ _ installed same ih =>
    generalize all : earlier ++ [last] = plans at secondLaid
    cases secondLaid with
    | new => exact absurd all (by simp)
    | install otherLaid otherInstalled other =>
      obtain ⟨rfl, only⟩ := List.append_inj' all rfl
      cases only
      exact same.symm.trans
        ((sameWiring_install (ih otherLaid) installed otherInstalled).trans other)

end Network

namespace Session

variable {session : Session} {checks : Checks}

/-! ## Sessions -/

theorem laid_step (wired : session.network.Wired) (laid : Network.Laid session.plans session.network)
    (action : Action) :
    Network.Laid (session.step checks action).plans (session.step checks action).network := by
  rcases step_cases wired checks action with ⟨plans, same⟩ | ⟨plans, query, more, installed⟩
  · rw [plans]
    exact laid.rewired same
  · rw [more]
    exact .install laid installed (.refl _)

/-- The wiring of the network comes from the plans of the session. -/
theorem laid_run (id : NetworkId) (steps : List (Checks × Action)) :
    Network.Laid ((new id).run steps).plans ((new id).run steps).network := by
  have kept := run_induction
    (P := fun session => session.Tracked ∧ Network.Laid session.plans session.network)
    ⟨tracked_new id, .new (.refl _)⟩ fun step (_ : step ∈ steps) session before =>
      ⟨before.1.step step.2, laid_step before.1.wired before.2 step.2⟩
  exact kept.2

end Session
end LiveQuery
