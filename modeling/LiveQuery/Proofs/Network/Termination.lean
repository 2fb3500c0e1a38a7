import LiveQuery.Proofs.Network.Rollback
import Mathlib.Data.Multiset.DershowitzManna

/-!
# Changes come to an end

One activation takes a message out of the queue and may put any number of new ones into it, so the
queue need not get shorter.  But whoever is noted as a reader of a node comes after it
(`Directory.Forward`): a new node has the largest number so far, and taking nodes away only strikes
readers out, so that numbers that are given again are the largest ones again.  An activation
therefore replaces one message by messages to later nodes, of which there are only finitely many;
this lowers the queue as a multiset of distances to the last node (`Activates.lowers`), and no
sequence of activations goes on for ever, whatever the checks answer on the way.

`Recorded` is a session together with the tables beside its nodes, which grow with every install and
are rolled back when an install stops.  In all of them draining the queue by the tables is what the
network does by searching its nodes (`Lists.drains`).
-/

namespace LiveQuery

namespace Directory

variable {directory first second : Directory} {finished : NodeId → Bool}

/-! ## Readers come later -/

/-- Whoever is noted as a reader of a node comes after it. -/
def Forward (directory : Directory) : Prop :=
  ∀ child, ∀ entry ∈ directory.readersOf (.node child), child.index < entry.1.index

theorem lt_length_of_mem {child : NodeId} {entry : NodeId × Inlet}
    (member : entry ∈ directory.readersOf (.node child)) :
    child.index < directory.successors.length := by
  by_contra outside
  rw [readersOf, List.getElem?_eq_none (Nat.le_of_not_lt outside)] at member
  cases member

theorem forward_empty : empty.Forward := nofun

theorem Forward.add (forward : directory.Forward) (finished : NodeId → Bool) (node : Node) :
    (directory.add finished node).Forward := by
  intro child entry member
  rw [readersOf_add] at member
  rcases List.mem_append.mp member with old | new
  · exact forward child entry old
  · rw [mem_inletsOf new]
    unfold Node.inletsOf at new
    split at new
    next inside => simpa [NodeInput.precedes] using inside
    next => cases new

theorem Forward.extend (forward : directory.Forward) (finished : NodeId → Bool)
    (nodes : List Node) : (directory.extend finished nodes).Forward := by
  unfold Directory.extend
  induction nodes generalizing directory with
  | nil => exact forward
  | cons node rest ih => exact ih (forward.add finished node)

/-- Taking nodes away only strikes readers out. -/
theorem Forward.rollback (forward : directory.Forward) (mark : Nat) :
    (directory.rollback mark).Forward := by
  intro child entry member
  refine forward child entry ?_
  simp only [readersOf, Directory.rollback, List.getElem?_map, List.getElem?_take] at member ⊢
  split at member
  · cases successors : directory.successors[child.index]? with
    | none => simp [successors] at member
    | some readers =>
      rw [successors] at member
      exact List.mem_of_mem_filter member
  · cases member

/-! ## Tables that are the same -/

/-- The tables are told apart by what they answer. -/
theorem same_iff : first.Same second ↔
    first.successors.length = second.successors.length ∧
      (∀ input, first.readersOf input = second.readersOf input) ∧ first.shared = second.shared := by
  constructor
  · intro same
    refine ⟨congrArg _ same.successors, fun input => ?_, same.shared⟩
    cases input with
    | node child => rw [readersOf, readersOf, same.successors]
    | facts relation => exact same.listeners relation
  · rintro ⟨length, readers, shared⟩
    refine ⟨List.ext_getElem length fun place inside inside' => ?_, fun relation => readers _, shared⟩
    have here := readers (.node ⟨place⟩)
    simpa [readersOf, List.getElem?_eq_getElem inside, List.getElem?_eq_getElem inside'] using here

theorem Same.refl (directory : Directory) : directory.Same directory := ⟨rfl, fun _ => rfl, rfl⟩

theorem Same.trans {third : Directory} (same : first.Same second) (later : second.Same third) :
    first.Same third :=
  ⟨same.successors.trans later.successors,
    fun relation => (same.listeners relation).trans (later.listeners relation),
    same.shared.trans later.shared⟩

theorem Same.add (same : first.Same second) (finished : NodeId → Bool) (node : Node) :
    (first.add finished node).Same (second.add finished node) := by
  obtain ⟨length, readers, shared⟩ := same_iff.mp same
  refine same_iff.mpr ⟨?_, fun input => ?_, ?_⟩
  · rw [length_add, length_add, length]
  · rw [readersOf_add, readersOf_add, readers, length]
  · rw [shared_add, shared_add, length, shared]

theorem Same.extend (same : first.Same second) (finished : NodeId → Bool) (nodes : List Node) :
    (first.extend finished nodes).Same (second.extend finished nodes) := by
  unfold Directory.extend
  induction nodes generalizing first second with
  | nil => exact same
  | cons node rest ih => exact ih (same.add finished node)

theorem Same.rollback (same : first.Same second) (mark : Nat) :
    (first.rollback mark).Same (second.rollback mark) := by
  have listeners (directory : Directory) (relation : RelationId) :
      (directory.rollback mark).readersOf (.facts relation) =
        (directory.readersOf (.facts relation)).filter (·.1.index < mark) := by
    simp only [readersOf, Directory.rollback, Table.get?_mapValues]
    cases directory.listeners.get? relation <;> rfl
  refine ⟨?_, fun relation => ?_, ?_⟩
  · simp only [Directory.rollback, same.successors]
  · rw [listeners, listeners, same.listeners]
  · simp only [Directory.rollback, same.shared]

theorem of_append (nodes more : List Node) :
    of (nodes ++ more) = (of nodes).extend (fun _ => true) more :=
  List.foldl_append

theorem of_cleared (nodes : List Node) : of (nodes.map Node.cleared) = of nodes := by
  have add (directory : Directory) (node : Node) :
      directory.add (fun _ => true) node.cleared = directory.add (fun _ => true) node := by
    unfold Directory.add enter register
    rw [node.sharingKey?_cleared]
    rfl
  unfold of extend
  rw [List.foldl_map]
  simp only [add]

end Directory

/-! ## Sessions with their tables -/

/-- A session with the tables that are kept beside its nodes. -/
structure Recorded where
  session : Session
  directory : Directory

/-- The tables after an install.  If it has stopped on the way, some of the new nodes had been
finished, and all of them are taken away again. -/
def Directory.install (checks : Checks) (finished : NodeId → Bool) (network : Network)
    (plans : List Plan) (directory : Directory) : Directory :=
  let new (after : Network) : List Node := after.nodes.drop network.nodes.length
  match network.demandInstall plans with
  | .error _ => directory
  | .ok (name, arity) =>
    match (Network.build checks name arity plans).run network with
    | .ok _ built => directory.extend (fun _ => true) (new built)
    | .error _ unfinished =>
      (directory.extend finished (new unfinished)).rollback network.nodes.length

namespace Recorded

def new (id : NetworkId) : Recorded := ⟨.new id, .empty⟩

/-- Performs one action.  An install that stops may have finished any of its nodes. -/
def step (recorded : Recorded) (checks : Checks) (action : Action) (finished : NodeId → Bool) :
    Recorded where
  session := recorded.session.step checks action
  directory := match action with
    | .install plans =>
      recorded.directory.install checks finished recorded.session.network plans
    | _ => recorded.directory

/-- Performs actions in order. -/
def run (recorded : Recorded) (steps : List (Checks × Action × (NodeId → Bool))) : Recorded :=
  steps.foldl (fun recorded (checks, action, finished) => recorded.step checks action finished)
    recorded

theorem session_run (recorded : Recorded) (steps : List (Checks × Action × (NodeId → Bool))) :
    (recorded.run steps).session =
      recorded.session.run (steps.map fun (checks, action, _) => (checks, action)) := by
  induction steps generalizing recorded with
  | nil => rfl
  | cons step rest ih => exact ih _

/-- The tables are exact, and readers come later. -/
structure Exact (recorded : Recorded) : Prop where
  wired : recorded.session.network.Wired
  once : recorded.session.network.Once
  same : recorded.directory.Same (Directory.of recorded.session.network.nodes)
  forward : recorded.directory.Forward

variable {recorded : Recorded}

theorem exact_new (id : NetworkId) : (new id).Exact where
  wired := Network.wired_new id
  once := List.Pairwise.nil
  same := .refl _
  forward := Directory.forward_empty

theorem forward_install (forward : recorded.directory.Forward) (checks : Checks)
    (finished : NodeId → Bool) (network : Network) (plans : List Plan) :
    (recorded.directory.install checks finished network plans).Forward := by
  unfold Directory.install
  dsimp only
  split
  · exact forward
  · split
    · exact forward.extend _ _
    · exact (forward.extend _ _).rollback _

/-- The tables after an install are those of the nodes that are there then. -/
theorem same_install (exact_ : recorded.Exact) (checks : Checks) (finished : NodeId → Bool)
    (plans : List Plan) :
    (recorded.directory.install checks finished recorded.session.network plans).Same
      (Directory.of (recorded.session.network.install checks plans).1.nodes) := by
  unfold Directory.install Network.install
  dsimp only
  cases recorded.session.network.demandInstall plans with
  | error error => exact exact_.same
  | ok demanded =>
    obtain ⟨name, arity⟩ := demanded
    have built := Network.build_spec checks exact_.wired name arity plans
    unfold Network.Building.Ensures at built
    dsimp only
    cases ran : (Network.build checks name arity plans).run recorded.session.network with
    | ok query after =>
      rw [ran] at built
      obtain ⟨more, nodes⟩ := built.nodes
      dsimp only
      rw [← nodes, List.drop_left, Directory.of_append]
      exact exact_.same.extend _ more
    | error error unfinished =>
      rw [ran] at built
      dsimp only
      rw [built.toGrows.rollback]
      exact ((exact_.same.extend finished _).rollback _).trans
        (Network.rollback_unfinished exact_.wired exact_.once ran finished)

theorem Exact.step (exact_ : recorded.Exact) (checks : Checks) (action : Action)
    (finished : NodeId → Bool) : (recorded.step checks action finished).Exact := by
  have wired : (recorded.session.step checks action).network.Wired := by
    rcases Session.step_cases exact_.wired checks action with ⟨_, same⟩ | ⟨plans, query, _, installed⟩
    · exact same.wired exact_.wired
    · have spec := Network.install_spec checks exact_.wired plans
      rw [installed] at spec
      exact spec.wired
  have once : (recorded.session.step checks action).network.Once :=
    Session.once_step exact_.wired exact_.once action
  by_cases installs : ∃ plans, action = .install plans
  · obtain ⟨plans, rfl⟩ := installs
    refine ⟨wired, once, ?_, forward_install exact_.forward checks finished _ plans⟩
    have same := same_install exact_ checks finished plans
    rwa [← Session.network_install] at same
  · -- only what nodes remember has changed, and no table
    have other (plans : List Plan) : action ≠ .install plans := fun same => installs ⟨plans, same⟩
    have untouched : (recorded.step checks action finished).directory = recorded.directory := by
      cases action with
      | install plans => exact absurd rfl (other plans)
      | _ => rfl
    refine ⟨wired, once, ?_, untouched ▸ exact_.forward⟩
    have skeleton := (Session.sameWiring_step checks recorded.session other).2.skeleton
    rw [untouched, ← Directory.of_cleared]
    show recorded.directory.Same
      (Directory.of (recorded.session.step checks action).network.skeleton)
    rw [skeleton, Network.skeleton, Directory.of_cleared]
    exact exact_.same

theorem Exact.run (exact_ : recorded.Exact) (steps : List (Checks × Action × (NodeId → Bool))) :
    (recorded.run steps).Exact := by
  induction steps generalizing recorded with
  | nil => exact exact_
  | cons step rest ih => exact ih (exact_.step step.1 step.2.1 step.2.2)

end Recorded

/-! ## Activations -/

/-- One activation by the tables: the first message of the queue is received by its node.  Unless
the node is the production of a query, what it sends goes to the end of the queue, once for every
reader that is noted. -/
inductive Activates (checks : Checks) (directory : Directory) :
    Network × List Message → Network × List Message → Prop where
  | intro {network : Network} {message : Message} {rest : List Message} {node : Node} {cell : Cell}
      {sent : List RowDelta} (found : network.nodes[message.node.index]? = some node)
      (received : node.cell.receive checks node.label message.inlet message.delta =
        .ok (cell, sent)) :
      Activates checks directory (network, message :: rest)
        ({ network with nodes := network.nodes.set message.node.index { node with cell } },
          rest ++ match network.queryOf? message.node with
            | some _ => []
            | none => broadcast (directory.readersOf (.node message.node)) sent)

/-- How far the messages of a queue are from the last node. -/
def Directory.distances (directory : Directory) (queue : List Message) : Multiset Nat :=
  Multiset.ofList (queue.map fun message => directory.successors.length - message.node.index)

variable {checks : Checks} {directory : Directory} {before after : Network × List Message}

/-- An activation replaces one message by messages that are nearer to the last node. -/
theorem Activates.lowers (activates : Activates checks directory before after)
    (forward : directory.Forward) :
    (directory.distances after.2).IsDershowitzMannaLT (directory.distances before.2) := by
  obtain ⟨found, received⟩ := activates
  next network message rest node cell sent =>
    -- the production of a query sends nothing, every other node to its readers
    obtain ⟨readers, sends, noted⟩ : ∃ further, (match network.queryOf? message.node with
        | some _ => []
        | none => broadcast (directory.readersOf (.node message.node)) sent) = further ∧
        ∀ other ∈ further, ∃ entry ∈ directory.readersOf (.node message.node),
          other.node = entry.1 := by
      refine ⟨_, rfl, fun other member => ?_⟩
      split at member
      · cases member
      · obtain ⟨delta, _, member⟩ := List.mem_flatMap.mp member
        obtain ⟨entry, listed, rfl⟩ := List.mem_map.mp member
        exact ⟨entry, listed, rfl⟩
    rw [sends]
    refine ⟨directory.distances rest, directory.distances readers,
      {directory.successors.length - message.node.index}, Multiset.singleton_ne_zero _, ?_, ?_, ?_⟩
    · simp [Directory.distances]
    · rw [add_comm]
      rfl
    · intro distance member
      refine ⟨_, Multiset.mem_singleton_self _, ?_⟩
      obtain ⟨other, listed, rfl⟩ := List.mem_map.mp (Multiset.mem_coe.mp member)
      obtain ⟨entry, reads, same⟩ := noted other listed
      have later := forward message.node entry reads
      have inside := Directory.lt_length_of_mem reads
      rw [same]
      omega

/-- No sequence of activations goes on for ever, whatever the checks answer on the way. -/
theorem wellFounded_activates (forward : directory.Forward) :
    WellFounded fun after before => ∃ checks, Activates checks directory before after :=
  Subrelation.wf (fun ⟨_, activates⟩ => activates.lowers forward)
    (InvImage.wf (fun state : Network × List Message => directory.distances state.2)
      Multiset.wellFounded_isDershowitzMannaLT)

/-! ## Draining the queue -/

/-- The tables list the readers that the network finds. -/
def Directory.Lists (directory : Directory) (network : Network) : Prop :=
  ∀ input, directory.readersOf input = network.readers input

theorem Directory.Same.lists {network : Network}
    (same : directory.Same (Directory.of network.nodes)) : directory.Lists network :=
  fun input => ((Directory.same_iff.mp same).2.1 input).trans (Directory.readersOf_of network input)

/-- Who reads what does not depend on what nodes remember. -/
theorem Directory.Lists.sameShape {network changed : Network} (lists : directory.Lists network)
    (same : Network.SameShape network changed) : directory.Lists changed := by
  intro input
  rw [lists, ← Directory.readersOf_of, ← Directory.readersOf_of, ← Directory.of_cleared,
    ← Directory.of_cleared changed.nodes]
  exact congrArg (fun nodes => (Directory.of nodes).readersOf input) same.skeleton.symm

theorem Directory.Lists.deliver {network changed : Network} (lists : directory.Lists network)
    {message : Message} {further : List Message} {caused : List MatchEvent} (rest : List Message)
    (delivered : network.deliver checks message = .ok (changed, further, caused)) :
    Activates checks directory (network, message :: rest) (changed, rest ++ further) := by
  obtain ⟨node, cell, sent, found, received, rfl, outcome⟩ := Network.deliver_cases delivered
  have activates := @Activates.intro checks directory _ _ rest _ _ _ found received
  rcases outcome with ⟨query, production, rfl, _⟩ | ⟨inner, rfl, _⟩
  · rwa [production] at activates
  · rwa [inner, lists] at activates

theorem Directory.Lists.drains {network final : Network} (lists : directory.Lists network)
    {queue left : List Message} (drains : Network.Drains checks network queue final left) :
    Relation.ReflTransGen (Activates checks directory) (network, queue) (final, left) := by
  induction drains with
  | refl => exact .refl
  | deliver delivered _ ih =>
    exact .head (lists.deliver _ delivered) (ih (lists.sameShape (Network.deliver_shape delivered)))

namespace Recorded

/-- If the checks agree, a change of a network that is not poisoned can only be stopped by a
check. -/
theorem ends_spreadOf {truth : CheckId → Tuple → Bool} {checks : Checks} {session : Session}
    (sound : session.Sound truth) (agree : checks.Agree truth)
    (usable : session.network.reported = none) {change : FactChange} {facts : FactStore}
    {presence : Presence} (applied : session.network.facts.apply change = .ok (facts, presence)) :
    (Network.spreadOf checks session.network facts change).Ends True := by
  obtain ⟨received, flight⟩ := (sound.settled usable).changeFacts sound.wired applied
  have same : Network.SameWiring session.network { session.network with facts } := ⟨rfl, rfl⟩
  have ends : (Network.spreadOf checks session.network facts change).Ends _ :=
    flight.propagate agree (same.wired sound.wired)
  unfold Spread.Ends at ends ⊢
  split
  · trivial
  next found => rwa [found] at ends

/-- In whatever way a network has come about, readers come after the nodes that they read, and no
sequence of activations goes on for ever.  A change is put into the queue for the noted listeners of
its relation, and finitely many activations by the tables lead to what the network makes of it: an
empty queue, or a message whose delivery fails.  If the checks agree and the network is not
poisoned, that can only be the fault of a check. -/
theorem drains_of_change (id : NetworkId) (steps : List (Checks × Action × (NodeId → Bool)))
    (checks : Checks) (facts : FactStore) (change : FactChange) :
    let recorded := (new id).run steps
    let network := recorded.session.network
    let spread := Network.spreadOf checks network facts change
    (∀ child, ∀ entry ∈ recorded.directory.readersOf (.node child), child.index < entry.1.index) ∧
    WellFounded (fun after before => ∃ checks, Activates checks recorded.directory before after) ∧
    (∃ left, Relation.ReflTransGen (Activates checks recorded.directory)
        ({ network with facts },
          broadcast (recorded.directory.readersOf (.facts change.fact.relation))
            [⟨change.kind, change.fact.tuple⟩])
        (spread.network, left) ∧
      match spread.failure with
      | none => left = []
      | some error => ∃ message rest, left = message :: rest ∧
        spread.network.deliver checks message = .error error) ∧
    ∀ truth, (∀ step ∈ steps, step.1.Agree truth) → checks.Agree truth → network.reported = none →
      ∀ presence, network.facts.apply change = .ok (facts, presence) →
        spread.failure = none ∨ ∃ label detail,
          spread.failure = some (.evaluationFault label detail) := by
  intro recorded network spread
  have exact_ : recorded.Exact := (exact_new id).run steps
  have lists : recorded.directory.Lists network := exact_.same.lists
  have listsNow : recorded.directory.Lists { network with facts } := lists
  refine ⟨exact_.forward, wellFounded_activates exact_.forward, ?_, ?_⟩
  · rw [lists (.facts change.fact.relation)]
    have drains : Network.DrainsTo checks { network with facts }
        (broadcast (network.readers (.facts change.fact.relation))
          [⟨change.kind, change.fact.tuple⟩]) spread [] :=
      Network.propagate_drains checks _ _
    unfold Network.DrainsTo at drains
    cases failure : spread.failure with
    | none =>
      rw [failure] at drains
      exact ⟨[], listsNow.drains drains, rfl⟩
    | some error =>
      rw [failure] at drains
      obtain ⟨message, rest, reaches, fails⟩ := drains
      exact ⟨message :: rest, listsNow.drains reaches, message, rest, rfl, fails⟩
  · intro truth agrees agree usable presence applied
    have sound : recorded.session.Sound truth := by
      rw [session_run]
      refine (Session.sound_new truth id).run fun step member => ?_
      obtain ⟨whole, listed, rfl⟩ := List.mem_map.mp member
      exact agrees whole listed
    have ends : spread.Ends True := ends_spreadOf sound agree usable applied
    unfold Spread.Ends at ends
    split at ends
    next finished => exact .inl finished
    next error failed =>
      obtain ⟨label, detail, rfl⟩ := ends
      exact .inr ⟨label, detail, failed⟩

/-- A plan is installed while a check fails, again, and once more over the shared nodes, and then
the network is rebuilt. -/
def reinstalling : List (Checks × Action × (NodeId → Bool)) :=
  [(fun _ _ => .ok true, .change ⟨.insert, ⟨⟨0⟩, [.bool true]⟩⟩, fun _ => true),
    (fun _ _ => .error "closed", .install [Session.guarded], (·.index < 2)),
    (fun _ _ => .ok true, .install [Session.guarded], fun _ => true),
    (fun _ _ => .ok true, .install [Session.guarded], fun _ => true),
    (fun _ _ => .ok true, .reset, fun _ => true)]

/-- The numbers of the nodes that were taken away have been given again.  A second fact passes the
check and reaches both productions, and nothing is left in the queue. -/
theorem drains_of_change_reinstalling :
    let recorded := (new ⟨0⟩).run reinstalling
    let network := recorded.session.network
    let change : FactChange := ⟨.insert, ⟨⟨0⟩, [.bool false]⟩⟩
    let facts : FactStore := network.facts.add change.fact
    let spread := Network.spreadOf (fun _ _ => .ok true) network facts change
    recorded.directory.successors = [[(⟨1⟩, .single)], [(⟨2⟩, .single)],
      [(⟨3⟩, .single), (⟨4⟩, .single)], [], []] ∧
    2 < 4 ∧ spread.failure = none ∧
    Relation.ReflTransGen (Activates (fun _ _ => .ok true) recorded.directory)
      ({ network with facts }, [⟨⟨0⟩, .single, ⟨.insert, [.bool false]⟩⟩]) (spread.network, []) := by
  intro recorded network change facts spread
  have agree : ∀ step ∈ reinstalling, step.1.Agree fun _ _ => true := by
    intro step member
    simp only [reinstalling, List.mem_cons, List.not_mem_nil, or_false] at member
    rcases member with rfl | rfl | rfl | rfl | rfl <;> intro check row answer answered <;>
      cases answered <;> rfl
  obtain ⟨later, _, ⟨left, reaches, ends⟩, faults⟩ :=
    drains_of_change ⟨0⟩ reinstalling (fun _ _ => .ok true) facts change
  have passes : spread.failure.isSome = false := by decide +kernel
  have finished : spread.failure = none := by
    rcases faults (fun _ _ => true) agree (fun _ _ _ answered => (Except.ok.inj answered).symm)
      (by decide +kernel) (network.facts.presenceOnAdd change.fact) rfl with finished | ⟨_, _, failed⟩
    · exact finished
    · rw [show spread.failure = _ from failed] at passes
      cases passes
  have listened : recorded.directory.readersOf (.facts change.fact.relation) =
      [(⟨0⟩, .single)] := by decide +kernel
  change match spread.failure with | none => left = [] | some _ => _ at ends
  rw [finished] at ends
  subst ends
  refine ⟨by decide +kernel, later ⟨2⟩ (⟨4⟩, .single) (by decide +kernel), finished, ?_⟩
  change Relation.ReflTransGen _ ({ network with facts }, broadcast (recorded.directory.readersOf _) _)
    (spread.network, []) at reaches
  rwa [listened] at reaches

end Recorded
end LiveQuery
