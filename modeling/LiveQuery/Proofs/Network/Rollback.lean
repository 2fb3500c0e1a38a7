import LiveQuery.Proofs.Network.Directory
import LiveQuery.Proofs.Network.Reporting

/-!
# Installs that fail

A failed install leaves no trace: the network is the same, its tables are restored, and whatever is
done later has the same answers, events and observations as if the install had not been attempted
(`Session.install_failed`).

Nodes are only added at the end, so taking the new ones away restores the list of nodes.  The tables
beside the nodes need an argument.  An entry that the install made has to go, and an entry from
before may not have been replaced.  No step of an install adds a node that could be shared where
there is one already (`build_once`), so every key of sharing belongs to one node (`Once`), and the
entries of the new nodes are entries of their own.  This holds wherever building stops, also when
the last node could not be primed (`rollback_unfinished`), and in every session, since failed
installs keep it too (`once_run`).
-/

namespace LiveQuery

/-! ## Shared nodes -/

theorem Node.sharingKey?_cleared (node : Node) : node.cleared.sharingKey? = node.sharingKey? := by
  simp [sharingKey?, cleared]

namespace Network

/-- No two nodes of the network can be shared by the same steps. -/
def Once (network : Network) : Prop := SharedOnce network.skeleton

theorem once_iff {network : Network} : network.Once ↔ SharedOnce network.nodes := by
  unfold Once SharedOnce skeleton
  simp only [List.pairwise_map, Node.sharingKey?_cleared]

theorem SameWiring.once {before after : Network} (same : SameWiring before after)
    (once : before.Once) : after.Once := by
  unfold Once
  rwa [same.skeleton]

/-- A computation that goes on with, or stops at, a network with a property of the network
before. -/
def Keeps {α : Type} (holds : Network → Prop) (computation : Building α) : Prop :=
  ∀ network : Network, holds network →
    computation.Ensures network (fun _ changed => holds changed)
      (fun _ unfinished => holds unfinished)

section Keeps

variable {α β : Type} {checks : Checks} {holds : Network → Prop}

theorem Keeps.pure (answer : α) : Keeps holds (pure answer) := fun _ begun => begun

theorem Keeps.bind {computation : Building α} {next : α → Building β}
    (first : Keeps holds computation) (second : ∀ answer, Keeps holds (next answer)) :
    Keeps holds (computation >>= next) :=
  fun network begun => (first network begun).bind fun answer changed => second answer changed

theorem Keeps.lift {result : Except Error α} {next : α → Building β}
    (later : ∀ answer, Keeps holds (next answer)) : Keeps holds (liftExcept result >>= next) :=
  fun network begun => Building.Ensures.lift (fun answer _ => later answer network begun)
    fun _ _ => begun

theorem Keeps.foldlM {step : β → α → Building β} (values : List α) (start : β)
    (keeps : ∀ before value, Keeps holds (step before value)) :
    Keeps holds (values.foldlM step start) := by
  induction values generalizing start with
  | nil => exact .pure start
  | cons value rest ih =>
    rw [List.foldlM_cons]
    exact (keeps start value).bind ih

theorem Keeps.mapM {step : α → Building β} (values : List α)
    (keeps : ∀ value ∈ values, Keeps holds (step value)) : Keeps holds (values.mapM step) := by
  induction values with
  | nil => exact .pure []
  | cons value rest ih =>
    rw [List.mapM_cons]
    refine (keeps value List.mem_cons_self).bind fun _ => Keeps.bind ?_ fun _ => .pure _
    exact ih fun other member => keeps other (List.mem_cons_of_mem _ member)

theorem Keeps.placePlan {plan : Plan}
    (place : ∀ lowered children,
      Keeps holds (nodeFor checks lowered children plan.hints.shareNodes)) :
    Keeps holds (placePlan checks plan) := by
  refine Keeps.bind (Keeps.foldlM _ _ fun placed step => ?_) fun placed => ?_
  · refine .lift fun lowered => .lift fun children => ?_
    exact (place lowered children).bind fun _ => .pure _
  · intro network begun
    split
    · exact begun
    · exact begun

/-- What every step of the plans and the production keep holds after an install, whether it succeeds
or not. -/
theorem Keeps.install {plans : List Plan} {network : Network} (wired : network.Wired)
    (keeps : ∀ name arity, Keeps holds (build checks name arity plans)) (begun : holds network) :
    holds (network.install checks plans).1 := by
  have spec := install_spec checks wired plans
  unfold Network.install at spec ⊢
  split
  · exact begun
  next name arity demanded =>
    rw [demanded] at spec
    dsimp only at spec
    have built := keeps name arity network begun
    unfold Building.Ensures at built
    split
    next query changed found =>
      rw [found] at built
      exact built
    next error unfinished found =>
      rw [found] at spec
      dsimp only at spec
      rwa [spec]

/-- A node may be added if no node can be shared by the same steps. -/
theorem addNode_once (checks : Checks) {network : Network} (once : network.Once) {node : Node}
    (fresh : ∀ key, node.sharingKey? = some key →
      ∀ other ∈ network.nodes, other.sharingKey? ≠ some key) :
    (addNode checks node).Ensures network (fun _ changed => changed.Once)
      (fun _ unfinished => unfinished.Once) := by
  have pushed : Once { network with nodes := network.nodes ++ [node] } := by
    rw [once_iff] at once ⊢
    refine List.pairwise_append.mpr ⟨once, List.pairwise_singleton _ _, ?_⟩
    intro other member new listed key found same
    obtain rfl := List.mem_singleton.mp listed
    exact fresh key same other member found
  -- the node is there before it is primed, and priming only fills its memory
  refine Building.Ensures.get (Building.Ensures.set ?_)
  refine Building.Ensures.bind ((prime_shape checks _ _).mono
    (fun _ _ same => same.sameWiring.once pushed) fun _ _ same => same.sameWiring.once pushed) ?_
  exact fun _ _ once => once

theorem findShared?_eq_none {network : Network} {operator : Operator}
    {inputs : List (NodeInput × Inlet)} (absent : network.findShared? operator inputs = none)
    (other : Node) (member : other ∈ network.nodes) :
    other.sharingKey? ≠ some (operator, inputs) := by
  unfold findShared? at absent
  rw [Option.map_eq_none_iff, List.findIdx?_eq_none_iff] at absent
  intro found
  rw [Node.sharingKey?_eq_some, absent other member] at found
  cases found

/-- A step that may share gets a new node only if there is none to share. -/
theorem nodeFor_once (checks : Checks) (step : Lowered) (children : List NodeId) (share : Bool) :
    Keeps Once (nodeFor checks step children share) := by
  intro network once
  refine Building.Ensures.get (Building.Ensures.lift ?_ fun _ _ => once)
  rintro ⟨cell, inputs⟩ made
  obtain ⟨operator, _⟩ := Node.of_ofOperator made
  dsimp only
  split
  · exact once
  next absent =>
    refine addNode_once checks once fun key found other member => ?_
    unfold Node.sharingKey? at found
    dsimp only at found
    split at found
    next shares =>
      rw [operator, Option.map_some] at found
      rw [if_pos shares] at absent
      rw [← found]
      exact findShared?_eq_none absent other member
    · cases found

theorem build_once (checks : Checks) (name : String) (arity : Nat) (plans : List Plan) :
    Keeps Once (build checks name arity plans) := by
  have placed (plan : Plan) : Keeps Once (placePlan checks plan) :=
    .placePlan fun lowered children => nodeFor_once checks lowered children _
  refine Keeps.bind (Keeps.mapM plans fun plan _ => placed plan) fun tops => ?_
  intro network once
  refine Building.Ensures.bind (addNode_once checks once fun key found => ?_) fun _ _ once => ?_
  · cases found
  · exact Building.Ensures.get once

end Keeps

/-- The tables of an install that stops on the way, rolled back, are those from before. -/
theorem rollback_unfinished {checks : Checks} {network unfinished : Network}
    (wired : network.Wired) (once : network.Once) {name : String} {arity : Nat}
    {plans : List Plan} {error : Error}
    (stopped : (build checks name arity plans).run network = .error error unfinished)
    (finished : NodeId → Bool) :
    (((Directory.of network.nodes).extend finished
      (unfinished.nodes.drop network.nodes.length)).rollback network.nodes.length).Same
        (Directory.of network.nodes) := by
  have grows := build_spec checks wired name arity plans
  have still := build_once checks name arity plans network once
  unfold Building.Ensures at grows still
  rw [stopped] at grows still
  dsimp only at grows still
  obtain ⟨more, same⟩ := grows.nodes
  rw [once_iff, ← same] at still
  rw [← same, List.drop_left]
  exact Directory.rollback_extend finished still

end Network

/-! ## Sessions -/

/-- What a user is told about an action. -/
inductive Answer where
  | installed (result : Except Error QueryId)
  | changed (result : Except Error (List MatchEvent))
  | subscribed (result : Except Error Unit)

namespace Session

variable {session : Session} {checks : Checks}

/-- The answer to an action. -/
def answer (checks : Checks) (session : Session) : Action → Answer
  | .install plans => .installed (session.network.install checks plans).2
  | .change change => .changed (session.network.change checks change).2
  | .apply changes => .changed (session.network.apply checks changes).2
  | .reset => .changed (session.network.reset checks).2
  | .subscribe query => .subscribed ((session.network.subscribe query).map fun _ => ())

/-- The answers to actions that are performed in order. -/
def answers (session : Session) : List (Checks × Action) → List Answer
  | [] => []
  | (checks, action) :: rest =>
    session.answer checks action :: (session.step checks action).answers rest

theorem wired_run (id : NetworkId) (steps : List (Checks × Action)) :
    ((new id).run steps).network.Wired := ((tracked_new id).run steps).wired

theorem once_step (wired : session.network.Wired) (once : session.network.Once) (action : Action) :
    (session.step checks action).network.Once := by
  rcases step_cases wired checks action with ⟨_, same⟩ | ⟨plans, query, _, installed⟩
  · exact same.once once
  · have kept := Network.Keeps.install wired
      (fun name arity => Network.build_once checks name arity plans) once
    rwa [installed] at kept

theorem once_run (id : NetworkId) (steps : List (Checks × Action)) :
    ((new id).run steps).network.Once := by
  have kept := run_induction (P := fun session => session.Tracked ∧ session.network.Once)
    ⟨tracked_new id, List.Pairwise.nil⟩ fun step (_ : step ∈ steps) session before =>
      ⟨before.1.step step.2, once_step before.1.wired before.2 step.2⟩
  exact kept.2

/-- A failed install leaves everything as it was: the facts, the nodes with their memories, the
queries, the observers and the mark of poison are fields of the network, and the tables beside the
nodes, which answer as the network does, are restored wherever the install stopped and whichever new
nodes it had registered.  So everything that is done later is answered as if the install had not
been attempted, and leads to the same session. -/
theorem install_failed (id : NetworkId) (steps : List (Checks × Action)) (checks : Checks)
    (plans : List Plan) {error : Error}
    (failed : (((new id).run steps).network.install checks plans).2 = .error error) :
    let session := (new id).run steps
    let nodes := session.network.nodes
    (session.network.install checks plans).1 = session.network ∧
    (Directory.of nodes).Reflects session.network ∧
    (∀ name arity cause unfinished,
      (Network.build checks name arity plans).run session.network = .error cause unfinished →
      ∀ finished, (((Directory.of nodes).extend finished
        (unfinished.nodes.drop nodes.length)).rollback nodes.length).Same (Directory.of nodes)) ∧
    ∀ later, session.answers ((checks, .install plans) :: later) =
        .installed (.error error) :: session.answers later ∧
      session.run ((checks, .install plans) :: later) = session.run later := by
  have wired := wired_run id steps
  have once := once_run id steps
  generalize (new id).run steps = session at wired once failed ⊢
  intro session nodes
  have unchanged : (session.network.install checks plans).1 = session.network := by
    have spec := Network.install_spec checks wired plans
    generalize session.network.install checks plans = outcome at spec failed
    obtain ⟨network, answer⟩ := outcome
    cases failed
    exact spec
  have undone : session.step checks (.install plans) = session := by
    have whole : session.network.install checks plans = (session.network, .error error) :=
      Prod.ext unchanged failed
    unfold step
    dsimp only
    rw [whole]
  refine ⟨unchanged, Directory.of_reflects session.network (Network.once_iff.mp once), ?_,
    fun later => ⟨?_, ?_⟩⟩
  · intro name arity cause unfinished stopped finished
    exact Network.rollback_unfinished wired once stopped finished
  · show session.answer checks (.install plans) :: _ = _
    rw [undone]
    exact congrArg (fun result => Answer.installed result :: session.answers later) failed
  · show (session.step checks (.install plans)).run later = _
    rw [undone]

/-- The values of the first relation that a check accepts, with nodes that can be shared. -/
def guarded : Plan where
  body := ⟨⟨"guarded", 0, ["x"], [.relation ⟨0⟩ [⟨0⟩] [], .check "guard" ⟨0⟩ [⟨0⟩]], [⟨0⟩], {}⟩,
    by decide⟩
  arena := ⟨[⟨.enumerate ⟨0⟩, .singleton ⟨0⟩, .singleton ⟨0⟩⟩,
    ⟨.apply ⟨0⟩ ⟨1⟩, .ofList [⟨0⟩, ⟨1⟩], .singleton ⟨0⟩⟩,
    ⟨.project ⟨1⟩ [⟨0⟩], .ofList [⟨0⟩, ⟨1⟩], .singleton ⟨0⟩⟩]⟩
  root := ⟨2⟩
  adornment := .empty
  hints := { shareNodes := true }

/-- The production of the query meets the failing check after three nodes have been added for the
plan, and all of them are taken away again. -/
theorem install_failed_guarded :
    (((new ⟨0⟩).run listingSteps).network.install (fun _ _ => .error "closed") [guarded]).2 =
        .error (.evaluationFault "check guard(x)" "closed") ∧
      (((new ⟨0⟩).run listingSteps).network.install (fun _ _ => .error "closed") [guarded]).1 =
        ((new ⟨0⟩).run listingSteps).network := by
  have failed : (((new ⟨0⟩).run listingSteps).network.install (fun _ _ => .error "closed")
      [guarded]).2 = .error (.evaluationFault "check guard(x)" "closed") :=
    of_decide_eq_true (by decide +kernel)
  exact ⟨failed, (install_failed ⟨0⟩ listingSteps _ [guarded] failed).1⟩

end Session
end LiveQuery
