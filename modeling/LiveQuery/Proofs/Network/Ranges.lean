import LiveQuery.Proofs.Network.Carrying
import LiveQuery.Proofs.Network.Staffing
import LiveQuery.Proofs.Plan.Ranges

/-!
# Positions in range in a network

Every node carries out a step of a plan, and the rows that it may send have a value for every column
of this step (`closes_wide`).  No operation on a network lets a node remember other rows, whatever
the checks answer and wherever the operation stops (`Session.kept_run`):

* A node that is primed receives what its inputs supply, which has a value for every column
  (`supply_wide`, `primed_wide`).
* An install is one priming after another (`Kept.build`), and so is a reset (`Kept.reset`).
* Rows that spread are rows that the nodes may send (`Kept.propagate`).

So no node reads a position of a row that is not there (`Network.inRange_of_kept`), also while an
install builds (`Network.Kept.build_inRange`).  The plans may have been built by hand, as long as
their steps were described over verified bodies and ask for no row from outside
(`accesses_in_range`).  A plan that asks for one can read beyond its end (`evaluate_unsupplied`).
-/

namespace LiveQuery

/-! ## Wide rows -/

/-- What an input may bring: any fact, and rows of a node that have a value for every column of the
steps that the node carries out. -/
def Wide (nodes : List Node) : NodeInput → Tuple → Prop := Meant (fun _ _ => True) Plan.Spans nodes

theorem closes_wide (truth : CheckId → Tuple → Bool) (nodes : List Node) :
    Closes truth (fun _ _ => False) (Wide nodes) nodes :=
  closes_meant (fun _ _ _ _ _ => Plan.spans_of_emits) nodes

namespace Cell

theorem bars_nothing (cell : Cell) : cell.Bars fun _ _ => False := by
  cases cell with
  | antiJoin => exact nofun
  | _ => trivial

end Cell

namespace Network

variable {checks : Checks} {network : Network} {final : List Node}

/-- Whichever nodes may be added, the memories hold rows with a value for every column. -/
def Kept (network : Network) : Prop :=
  ∀ final, network.skeleton <+: final → ∀ (place : Nat) (node : Node),
    network.nodes[place]? = some node → node.cell.Keeps (node.Arrives (Wide final))

/-! ## What nodes supply -/

theorem output_wide (checks : Checks) (wired : network.Wired) (kept : network.Kept)
    (longer : network.skeleton <+: final) {id : NodeId} (operates : Operates network.skeleton id) :
    Fulfils (network.output checks id) (fun rows => ∀ row ∈ rows, Wide final (.node id) row)
      (· ≠ .outOfRange) := by
  induction place : id.index using Nat.strongRecOn generalizing id with
  | _ index ih =>
    obtain ⟨blank, blankFound, carries⟩ := operates
    obtain ⟨node, found, rfl⟩ := of_getElem?_skeleton blankFound
    have keeps := kept final longer id.index node found
    have wide {row : Tuple} (sends : node.cell.Sends checks.accepts (fun _ _ => False)
        (node.Arrives (Wide final)) row) : Wide final (.node id) row :=
      may_of_sends wired ((closes_wide checks.accepts final).shorten longer)
        ⟨node.cleared, blankFound, carries⟩ found sends
    obtain ⟨operator, carries⟩ := Option.ne_none_iff_exists'.mp carries
    rw [Node.cleared, Cell.operator?_cleared] at carries
    obtain ⟨children, made, below⟩ := wired.ofOperator found carries
    -- a node with one input puts out what its child brings, restricted or projected
    have single (child : NodeId) (inputs : node.inputs = [(.node child, .single)])
        (member : child ∈ children) :
        Fulfils (network.output checks child)
          (fun rows => ∀ row ∈ rows, node.Arrives (Wide final) .single row) (· ≠ .outOfRange) := by
      obtain ⟨earlier, operates⟩ := below child member
      refine (ih child.index (place ▸ earlier) operates rfl).mono fun rows brings row member => ?_
      exact ⟨.node child, inputs ▸ List.mem_cons_self, brings row member⟩
    rw [output, found]
    dsimp only
    cases cell : node.cell with
    | source relation arity columns equal =>
      rw [cell] at made carries
      cases carries
      have inputs : node.inputs = [(.facts relation, .single)] :=
        (Prod.ext_iff.mp (Except.ok.inj made)).2.symm
      intro row member
      obtain ⟨fact, _, same⟩ := List.mem_filterMap.mp member
      refine wide ?_
      rw [cell]
      exact ⟨fact, ⟨.facts relation, inputs ▸ List.mem_cons_self, trivial⟩, same⟩
    | unit fixed =>
      refine List.forall_mem_singleton.mpr (wide ?_)
      rw [cell]
      rfl
    | filter test =>
      rw [cell] at made carries
      cases carries
      obtain ⟨child, rfl, inputs⟩ := inputs_of_single (.inl ⟨test, rfl⟩) made
      have before := (below child List.mem_cons_self).1
      simp only [inputs, before, if_true]
      refine (single child inputs List.mem_cons_self).bind fun rows arrives => ?_
      have selected := test.select_spec checks.agree_accepts node.label rows
      cases passed : test.select checks node.label rows with
      | error error =>
        rw [passed] at selected
        obtain ⟨_, _, rfl⟩ := selected
        exact Error.noConfusion
      | ok passed' =>
        obtain rfl := selected.of_ok passed
        intro row member
        obtain ⟨here, holds⟩ := List.mem_filter.mp member
        refine wide ?_
        rw [cell]
        exact ⟨arrives row here, holds⟩
    | project columns =>
      rw [cell] at made carries
      cases carries
      obtain ⟨child, rfl, inputs⟩ := inputs_of_single (.inr ⟨columns, rfl⟩) made
      have before := (below child List.mem_cons_self).1
      simp only [inputs, before, if_true]
      refine (single child inputs List.mem_cons_self).bind fun rows arrives row member => ?_
      obtain ⟨whole, here, same⟩ := List.mem_map.mp member
      refine wide ?_
      rw [cell]
      exact ⟨whole, arrives whole here, same⟩
    -- the other cells answer from their memories
    | join | antiJoin | closure =>
      intro row member
      exact wide (cell ▸ Cell.sends_of_stored (cell ▸ keeps) (Cell.bars_nothing _) member)
    | production produced =>
      rw [cell] at carries
      cases carries

theorem supply_wide (checks : Checks) (wired : network.Wired) (kept : network.Kept)
    (longer : network.skeleton <+: final) {input : NodeInput}
    (operates : ∀ id, input = .node id → Operates network.skeleton id) :
    Fulfils (network.supply checks input) (fun rows => ∀ row ∈ rows, Wide final input row)
      (· ≠ .outOfRange) := by
  cases input with
  | facts relation => exact fun _ _ => trivial
  | node id => exact output_wide checks wired kept longer (operates id rfl)

/-! ## Priming -/

/-- A node that receives what its inputs supply remembers rows with a value for every column. -/
theorem primed_wide (checks : Checks) (wired : network.Wired) (kept : network.Kept)
    (longer : network.skeleton <+: final) {place : Nat} {node : Node}
    (found : network.nodes[place]? = some node) :
    Fulfils (network.primed checks node) (fun cell => cell.Keeps (node.Arrives (Wide final)))
      (· ≠ .outOfRange) := by
  have begun := kept final longer place node found
  unfold primed
  split
  · -- along the way only the memories change, so that rows are taken on the same inlets
    refine Fulfils.mono (?_ : Fulfils _ (fun cell => cell.cleared = node.cell.cleared ∧
      cell.Keeps (node.Arrives (Wide final))) _) fun _ both => both.2
    refine Fulfils.foldlM node.inputs (fun entry connected cell before => ?_) ⟨rfl, begun⟩
    obtain ⟨input, inlet⟩ := entry
    obtain ⟨accepts, _, operates⟩ := wired.of_mem_inputs found connected
    refine (supply_wide checks wired kept longer operates).bind fun rows brings => ?_
    refine Fulfils.foldlM rows (fun row member cell before => ?_) before
    cases received : cell.receive checks node.label inlet ⟨.insert, row⟩ with
    | error error => exact ((cell.fulfils_receive ..).of_error received).ne_outOfRange
    | ok answer =>
      obtain ⟨changed, sent⟩ := answer
      refine ⟨(Cell.cleared_receive received).trans before.1, ?_⟩
      exact (before.2.receive checks.agree_accepts ((Cell.accepts_congr before.1 inlet).mpr accepts)
        ⟨input, connected, brings row member⟩ (Cell.bars_nothing _) received
        (Cell.bars_nothing _)).1
  · exact begun

theorem Kept.prime (checks : Checks) (wired : network.Wired) (kept : network.Kept) {id : NodeId}
    (inside : id.index < network.nodes.length) :
    (prime checks id).Ensures network (fun _ changed => changed.Kept)
      (fun error unfinished => error ≠ .outOfRange ∧ unfinished.Kept) := by
  have found : network.nodes[id.index]? = some network.nodes[id.index] :=
    List.getElem?_eq_getElem inside
  generalize network.nodes[id.index] = node at found
  refine (prime_cases checks network found).mono ?_ ?_
  · rintro _ _ ⟨cell, primed, rfl⟩ final longer place other otherFound
    rw [(sameShape_set found (cleared_primed primed)).skeleton] at longer
    rcases getElem?_set_cases otherFound with ⟨rfl, rfl⟩ | ⟨_, old⟩
    · exact (primed_wide checks wired kept longer found).of_ok primed
    · exact kept final longer place other old
  · rintro error _ ⟨failed, rfl⟩
    exact ⟨(primed_wide checks wired kept List.prefix_rfl found).of_error failed, kept⟩

theorem adds_kept (checks : Checks) (plans : List Plan) :
    Adds checks plans Kept fun error unfinished => error ≠ .outOfRange ∧ unfinished.Kept := by
  intro network node wired kept blank fits _
  have pushed : Kept { network with nodes := network.nodes ++ [node] } := by
    intro final longer place other found
    have older : network.skeleton <+: final :=
      ((List.prefix_append network.nodes [node]).map Node.cleared).trans longer
    rcases Nat.lt_trichotomy place network.nodes.length with inside | rfl | outside
    · rw [List.getElem?_append_left inside] at found
      exact kept final older place other found
    · rw [List.getElem?_concat_length] at found
      cases found
      exact Cell.keeps_of_blank blank
    · rw [List.getElem?_eq_none (by simp; omega)] at found
      cases found
  -- the node is there before it is primed
  refine Building.Ensures.get (Building.Ensures.set ?_)
  refine Building.Ensures.bind ((pushed.prime checks (wired.append blank fits) (by simp)).mono
    (fun _ _ kept => kept) fun _ _ both => both) ?_
  exact fun _ _ kept => kept

/-! ## Operations -/

theorem Kept.congr {other : Network} (kept : network.Kept) (nodes : other.nodes = network.nodes) :
    other.Kept := by
  intro final longer
  have skeleton : other.skeleton = network.skeleton := by simp only [skeleton, nodes]
  rw [skeleton] at longer
  rw [nodes]
  exact kept final longer

/-- An install asks for nothing that is not there, and leaves wide rows wherever it stops. -/
theorem Kept.build (checks : Checks) (wired : network.Wired) (kept : network.Kept)
    {plans : List Plan} {name : String} {arity : Nat}
    (demanded : network.demandInstall plans = .ok (name, arity)) :
    (build checks name arity plans).Ensures network (fun _ changed => changed.Kept)
      (fun error unfinished => error ≠ .outOfRange ∧ unfinished.Kept) := by
  obtain ⟨_, sound⟩ := (demandInstall_spec network plans).of_ok demanded
  exact (adds_kept checks plans).build (fun _ _ malformed kept => ⟨malformed.ne_outOfRange, kept⟩)
    (fun _ _ kept => kept.congr rfl) wired name arity
    (fun plan member => Plan.grounded_of_demandSound (sound plan member).2) kept

theorem Kept.install (checks : Checks) (wired : network.Wired) (kept : network.Kept)
    (plans : List Plan) : (network.install checks plans).1.Kept ∧
      (network.install checks plans).2 ≠ .error .outOfRange := by
  have spec := install_spec checks wired plans
  unfold Network.install at spec ⊢
  cases demanded : network.demandInstall plans with
  | error error =>
    refine ⟨kept, fun failed => ?_⟩
    have fails := (demandInstall_spec network plans).of_error demanded
    cases failed
    cases fails with
    | stopped stops => cases stops
  | ok answer =>
    obtain ⟨name, arity⟩ := answer
    have built := kept.build checks wired demanded
    unfold Building.Ensures at built
    rw [demanded] at spec
    dsimp only at spec ⊢
    split at built
    next query changed ran =>
      rw [ran]
      exact ⟨built, nofun⟩
    next error unfinished ran =>
      rw [ran] at spec ⊢
      dsimp only at spec ⊢
      rw [spec]
      exact ⟨kept, fun failed => built.1 (Except.error.inj failed)⟩

/-- Rows that spread are wide, wherever the spread stops. -/
theorem Kept.propagate (checks : Checks) (wired : network.Wired) (kept : network.Kept)
    (relation : RelationId) (deltas : List RowDelta) :
    (network.propagate checks
      (broadcast (network.readers (.facts relation)) deltas)).network.Kept := by
  set wave := broadcast (network.readers (.facts relation)) deltas
  have drains := propagate_drains checks network wave
  have all {after : Network} {later : List Message}
      (reaches : Drains checks network wave after later) : after.Kept := by
    intro final longer
    rw [reaches.shape.skeleton] at longer
    have brings : ∀ other ∈ deltas, Wide final (.facts relation) other.row := fun _ _ => trivial
    have begun : network.Carries (Wide final) wave :=
      ⟨kept final longer, fun message member => arrives_of_mem_broadcast brings member⟩
    exact (begun.drains checks.agree_accepts wired
      ((closes_wide checks.accepts final).shorten longer) reaches
      fun _ _ _ _ node _ => node.cell.bars_nothing).keeps
  unfold DrainsTo at drains
  split at drains
  · exact all drains
  · obtain ⟨message, rest, reaches, _⟩ := drains
    exact all reaches

theorem Kept.change (checks : Checks) (wired : network.Wired) (kept : network.Kept)
    (change : FactChange) : (network.change checks change).1.Kept := by
  have outcome := change_outcome checks network change
  have spread (facts : FactStore) : (spreadOf checks network facts change).network.Kept := by
    have same : SameWiring network { network with facts } := ⟨rfl, rfl⟩
    have begun : Kept { network with facts } := kept.congr rfl
    exact begun.propagate checks (same.wired wired) change.fact.relation
      [⟨change.kind, change.fact.tuple⟩]
  generalize network.change checks change = result at outcome
  cases outcome with
  | refused => exact kept
  | faulted => exact (spread _).congr rfl
  | done => exact (spread _).congr rfl

theorem Kept.reset (checks : Checks) (wired : network.Wired) :
    (network.reset checks).1.Kept := by
  have outcome := reset_outcome checks network
  have same := cleared_sameWiring network
  have blank : Kept { network with nodes := network.nodes.map Node.cleared } := by
    intro final _ place node found
    obtain ⟨old, _, rfl⟩ := List.mem_map.mp (List.mem_of_getElem? found)
    exact Cell.keeps_of_blank (Cell.cleared_cleared _)
  have all (places : List Nat) (current : Network) (wired : current.Wired) (kept : current.Kept)
      (inside : ∀ place ∈ places, place < current.nodes.length) :
      Building.Ensures (places.forM fun place => Network.prime checks ⟨place⟩) current
        (fun _ changed => changed.Kept) (fun _ unfinished => unfinished.Kept) := by
    induction places generalizing current with
    | nil => exact kept
    | cons place rest ih =>
      show Building.Ensures (Network.prime checks ⟨place⟩ >>= fun _ =>
        rest.forM fun place => Network.prime checks ⟨place⟩) current _ _
      have here : (⟨place⟩ : NodeId).index < current.nodes.length := inside place List.mem_cons_self
      refine Building.Ensures.bind (((prime_shape checks current ⟨place⟩).and
        (kept.prime checks wired here)).mono
          (fun _ _ both => both) fun _ _ both => both.2.2) fun _ changed both => ?_
      refine ih changed (both.1.wired wired) both.2 fun other member => ?_
      rw [both.1.length]
      exact inside other (List.mem_cons_of_mem _ member)
  have rebuilt := all _ _ (same.wired wired) blank fun place member => List.mem_range.mp member
  unfold Building.Ensures at rebuilt
  generalize network.reset checks = result at outcome
  cases outcome with
  | faulted ran =>
    unfold rebuild at ran
    rw [EStateM.run_bind, EStateM.run_get] at ran
    dsimp only at ran
    rw [ran] at rebuilt
    exact Kept.congr rebuilt rfl
  | done ran =>
    unfold rebuild at ran
    rw [EStateM.run_bind, EStateM.run_get] at ran
    dsimp only at ran
    rw [ran] at rebuilt
    exact Kept.congr rebuilt rfl

end Network

/-! ## Sessions -/

namespace Session

variable {session : Session} {checks : Checks}

theorem kept_step (wired : session.network.Wired) (kept : session.network.Kept) (checks : Checks)
    (action : Action) : (session.step checks action).network.Kept := by
  have record (session : Session) (wired : session.network.Wired) (kept : session.network.Kept)
      (change : FactChange) :
      (session.record (session.network.change checks change)).network.Wired ∧
        (session.record (session.network.change checks change)).network.Kept := by
    refine ⟨(sameWiring_change checks session change).wired wired, ?_⟩
    rw [network_record]
    exact kept.change checks wired change
  cases action with
  | install plans =>
    have installed := (kept.install checks wired plans).1
    unfold step
    dsimp only
    split
    next found =>
      rw [found] at installed
      exact installed
    next found =>
      rw [found] at installed
      exact installed
  | change change => exact (record session wired kept change).2
  | apply changes =>
    exact (applyAll_induction (P := fun now => now.network.Wired ∧ now.network.Kept)
      (fun now change both => record now both.1 both.2 change) ⟨wired, kept⟩ changes).2
  | reset =>
    show (session.record (session.network.reset checks)).network.Kept
    rw [network_record]
    exact Network.Kept.reset checks wired
  | subscribe query =>
    unfold step Network.subscribe
    dsimp only
    cases session.network.demandQuery query with
    | error error => exact kept
    | ok installed => exact kept.congr rfl

/-- In every session, whatever the checks answer, the nodes remember rows with a value for every
column only. -/
theorem kept_run (id : NetworkId) (steps : List (Checks × Action)) :
    ((new id).run steps).network.Kept := by
  have begun : (new id).network.Kept := by
    intro final _ place node found
    cases found
  have both := run_induction (P := fun session => session.Attended ∧ session.network.Kept)
    ⟨attended_new id, begun⟩ fun step (_ : step ∈ steps) session now =>
      ⟨now.1.step step.1 step.2, kept_step now.1.wired now.2 step.1 step.2⟩
  exact both.2

theorem Attended.wellBuilt (attended : session.Attended)
    (pushed : ∀ plan ∈ session.plans.flatten, plan.arena.Pushed fun _ => True) :
    ∀ plan ∈ session.plans.flatten, plan.WellBuilt := by
  intro plan member
  obtain ⟨_, sound⟩ := attended.accepted plan member
  obtain ⟨top, implements⟩ := attended.placed plan member
  refine ⟨pushed plan member, Plan.grounded_of_demandSound sound, ?_⟩
  refine Plan.sourcesFit_of_verify (pushed plan member) (Plan.verify_of_demandSound sound) ?_
  intro step listed subjects
  obtain ⟨_, below⟩ := implements.of_mem_postOrder listed
  exact below.ne_input subjects

end Session

/-! ## Positions in range -/

/-- The nodes that a node reads, in the order of its inputs. -/
def Node.children (node : Node) : List NodeId :=
  node.inputs.filterMap fun
    | (.node id, _) => some id
    | (.facts _, _) => none

/-- The rows that a cell remembers of each of the nodes it reads, if it remembers any. -/
def Cell.memories? : Cell → Option (List (List Tuple))
  | .join _ _ _ left right => some [left.occurrences, right.occurrences]
  | .antiJoin _ _ kept _ => some [kept.occurrences]
  | _ => none

/-- No node reads a position that is not there: not of a fact, nor of the rows that the nodes it
reads put out at present, nor of those that it remembers of them. -/
def Network.InRange (checks : Checks) (network : Network) : Prop :=
  ∀ node ∈ network.nodes, ∀ operator, node.cell.operator? = some operator →
    (∀ rows, node.children.mapM (network.output checks) = .ok rows → operator.InRange rows) ∧
      ∀ rows, node.cell.memories? = some rows → operator.InRange rows

section InRange

variable {network : Network} {plans : List Plan}

theorem Node.children_of_made {node : Node} {operator : Operator} {children : List NodeId}
    (made : Node.ofOperator operator children = .ok (node.cell.cleared, node.inputs))
    (breadth : children.length = operator.breadth) : node.children = children := by
  obtain ⟨cell, label, inputs, shared⟩ := node
  unfold Node.children
  cases operator with
  | source | unit | closure =>
    obtain rfl := List.length_eq_zero_iff.mp breadth
    obtain rfl := congrArg Prod.snd (Except.ok.inj made)
    rfl
  | input => cases made
  | filter | project | antiJoin =>
    obtain ⟨child, rfl⟩ := List.length_eq_one_iff.mp breadth
    obtain rfl := congrArg Prod.snd (Except.ok.inj made)
    rfl
  | join =>
    obtain ⟨left, right, rfl⟩ := List.length_eq_two.mp breadth
    obtain rfl := congrArg Prod.snd (Except.ok.inj made)
    rfl

theorem Node.forall₂_memories {node : Node} {operator : Operator} {children : List NodeId}
    {may : NodeInput → Tuple → Prop}
    (made : Node.ofOperator operator children = .ok (node.cell.cleared, node.inputs))
    (keeps : node.cell.Keeps (node.Arrives may)) {memories : List (List Tuple)}
    (remembered : node.cell.memories? = some memories) :
    List.Forall₂ (fun child rows => ∀ row ∈ rows, may (.node child) row) children memories := by
  obtain ⟨cell, label, inputs, shared⟩ := node
  have carries := (Node.of_ofOperator made).1
  rw [Cell.operator?_cleared] at carries
  cases cell with
  | join leftKey rightKey output left right =>
    cases carries
    cases remembered
    rcases children with _ | ⟨first, _ | ⟨second, _ | ⟨_, _⟩⟩⟩ <;> cases made
    refine .cons (fun row member => ?_) (.cons (fun row member => ?_) .nil)
    · exact Node.Arrives.of_only (keeps.1 row member) (by simp)
    · exact Node.Arrives.of_only (keeps.2 row member) (by simp)
  | antiJoin relation key kept blocked =>
    cases carries
    cases remembered
    rcases children with _ | ⟨child, _ | ⟨_, _⟩⟩ <;> cases made
    exact .cons (fun row member => Node.Arrives.of_only (keeps row member) (by simp)) .nil
  | source | unit | filter | project | closure | production => cases remembered

/-- In a network whose nodes carry out steps of well-built plans no position is read that is not
there. -/
theorem Network.inRange_of_kept (checks : Checks) (wired : network.Wired) (kept : network.Kept)
    (staffed : Staffed plans network.skeleton) (built : ∀ plan ∈ plans, plan.WellBuilt) :
    network.InRange checks := by
  intro node listedNode operator carries
  obtain ⟨place, found⟩ := List.mem_iff_getElem?.mp listedNode
  have blank := getElem?_skeleton found
  obtain ⟨plan, member, step, listed, implements⟩ := staffed ⟨place⟩
    ⟨node.cleared, blank, by simp [Node.cleared, carries]⟩
  obtain @⟨_, _, lowered, other, children, lowers, again, made, length, below⟩ := implements
  rw [blank] at again
  cases again
  obtain rfl : operator = lowered.operator := by
    have same := (Node.of_ofOperator made).1
    rw [Node.cleared, Cell.operator?_cleared, carries] at same
    exact Option.some.inj same
  have grounded := (built plan member).grounded step listed
  have breadth := (Plan.formed_lower grounded).of_ok lowers
  have carried : List.Forall₂ (Implements network.skeleton plan) (plan.childrenOf step) children :=
    List.forall₂_iff_zip.mpr ⟨length, fun pair => below _ _ pair⟩
  -- rows that a child may bring are long enough for the step that the child carries out
  have inRange {rows : List (List Tuple)} (wide : List.Forall₂ (fun child rows => ∀ row ∈ rows,
      Operates network.skeleton child → Wide network.skeleton (.node child) row) children rows) :
      lowered.operator.InRange rows := by
    refine (built plan member).inRange listed lowers (forall₂_trans carried wide ?_)
    exact fun child place rows implements brings row member =>
      brings row member implements.operates plan child implements
  refine ⟨fun rows supplied => inRange ?_, fun rows remembered => inRange ?_⟩
  · rw [Node.children_of_made made (length.symm.trans breadth)] at supplied
    exact (mapM_ok supplied).imp fun child rows found row member operates =>
      (output_wide checks wired kept List.prefix_rfl operates).of_ok found row member
  · exact (Node.forall₂_memories made (kept _ List.prefix_rfl place node found)
      remembered).imp fun child rows brings row member _ => brings row member

theorem Network.Kept.build_inRange (checks : Checks) (wired : network.Wired) (kept : network.Kept)
    {known : List Plan} (staffed : Staffed known network.skeleton)
    (built : ∀ plan ∈ known ++ plans, plan.WellBuilt) (name : String) (arity : Nat) :
    (Network.build checks name arity plans).Ensures network
      (fun _ changed => changed.InRange checks)
      (fun error unfinished => error ≠ .outOfRange ∧ unfinished.InRange checks) := by
  have adds := (adds_wired checks plans).and
    ((adds_kept checks plans).and (adds_staffed checks known plans))
  have begun := staffed.subset fun plan member => List.mem_append_left plans member
  have ensures : (Network.build checks name arity plans).Ensures network
      (fun _ changed => changed.Kept ∧ Staffed (known ++ plans) changed.skeleton) _ :=
    adds.build (fun _ _ malformed all => ⟨all.1, ⟨malformed.ne_outOfRange, all.2.1⟩, all.2.2⟩)
      (fun _ _ all => ⟨all.2.1.congr rfl, all.2.2⟩) wired name arity
      (fun plan member => (built plan (List.mem_append_right _ member)).grounded)
      ⟨wired, kept, begun⟩
  refine ((build_spec checks wired name arity plans).and ensures).mono ?_ ?_
  · exact fun _ changed both =>
      inRange_of_kept checks both.1.wired both.2.1 both.2.2 built
  · exact fun error unfinished both => ⟨both.2.2.1.1,
      inRange_of_kept checks both.2.1 both.2.2.1.2 both.2.2.2 built⟩

end InRange

/-! ## Plans built by hand -/

/-- Plans that were built by hand, step by step and over whatever bodies, can be evaluated and
installed without asking for a constraint, a step or a position that is not there: in the batch
evaluator if a value is supplied for every variable of an input step, and in the network of every
session, wherever an install stops.  That a source shows only variables of its constraint is not
checked either. -/
theorem accesses_in_range {plan : Plan} (pushed : plan.arena.Pushed fun _ => True)
    (sources : plan.SourcesFit) (inputs : plan.InputsFit) {plans : List Plan}
    (allPushed : ∀ plan ∈ plans, plan.arena.Pushed fun _ => True)
    (allSources : ∀ plan ∈ plans, plan.SourcesFit) (id : NetworkId)
    (steps : List (Checks × Action))
    (earlier : ∀ step ∈ steps, ∀ plans, step.2 = .install plans →
      ∀ plan ∈ plans, plan.arena.Pushed fun _ => True)
    (checks : Checks) :
    (∀ facts input, plan.evaluate checks facts input ≠ .error .outOfRange ∧
      ∀ lowered children, plan.Reaches checks facts input lowered children →
        lowered.operator.InRange (children.map OrderedSet.toList) ∧
          ∀ columns, lowered.operator = .input columns → input.Covers columns) ∧
    let network := ((Session.new id).run steps).network
    network.InRange checks ∧ (network.install checks plans).2 ≠ .error .outOfRange ∧
      ∀ name arity, network.demandInstall plans = .ok (name, arity) →
        (Network.build checks name arity plans).Ensures network
          (fun _ built => built.InRange checks)
          (fun error unfinished => error ≠ .outOfRange ∧ unfinished.InRange checks) := by
  refine ⟨fun facts input => ⟨Plan.evaluate_ne_outOfRange inputs checks facts input,
    fun lowered children reaches => reaches.inRange pushed sources inputs⟩, ?_⟩
  have attended := Session.attended_run id steps
  have kept := Session.kept_run id steps
  have built := attended.wellBuilt (Session.forall_plans id steps earlier)
  intro network
  refine ⟨Network.inRange_of_kept checks attended.wired kept attended.staffed built,
    (kept.install checks attended.wired plans).2, fun name arity demanded => ?_⟩
  obtain ⟨_, sound⟩ := (Network.demandInstall_spec network plans).of_ok demanded
  have grounded (plan : Plan) (member : plan ∈ plans) :=
    Plan.grounded_of_demandSound (sound plan member).2
  refine kept.build_inRange checks attended.wired attended.staffed ?_ name arity
  intro plan member
  rcases List.mem_append.mp member with old | new
  · exact built plan old
  · exact ⟨allPushed plan new, grounded plan new, allSources plan new⟩

/-- The values of a relation. -/
def lookup : Body :=
  ⟨⟨"lookup", 0, ["x"], [.relation ⟨0⟩ [⟨0⟩] []], [⟨0⟩], {}⟩, by decide⟩

/-- Looks the supplied value up. -/
def supplied : Plan :=
  { Plan.allocate lookup [.input [⟨0⟩], .enumerate ⟨0⟩, .join ⟨0⟩ ⟨1⟩, .project ⟨2⟩ [⟨0⟩]] with
    adornment := .singleton 0 }

theorem accesses_in_range_supplied :
    let checks : Checks := fun _ _ => .ok true
    let facts : FactStore := ⟨[⟨⟨0⟩, [.bool true]⟩]⟩
    let network := ((Session.new ⟨0⟩).run [(checks, .install [filteredFirst])]).network
    supplied.evaluate checks facts [.bool true] = .ok (.singleton [.bool true]) ∧
      (∀ lowered children, supplied.Reaches checks facts [.bool true] lowered children →
        lowered.operator.InRange (children.map OrderedSet.toList) ∧
          ∀ columns, lowered.operator = .input columns → Tuple.Covers [.bool true] columns) ∧
      network.InRange checks ∧ (network.install checks [filteredFirst]).2 = .ok ⟨1⟩ := by
  intro checks facts network
  have suppliedSteps : supplied.steps = [⟨0⟩, ⟨1⟩, ⟨2⟩, ⟨3⟩] := of_decide_eq_true (by decide +kernel)
  have allocated : supplied.arena.Allocated supplied.body := Plan.allocated_allocate lookup _
  have grounded := (Plan.verify_eq_ok_iff.mp
    (of_decide_eq_true (by decide +kernel) : supplied.verify = .ok ())).1
  have inputs : supplied.InputsFit := by
    intro step listed subjects known subject place indexed
    rw [suppliedSteps] at listed
    simp only [List.mem_cons, List.not_mem_nil, or_false] at listed
    -- only the first step is an input step
    rcases listed with rfl | rfl | rfl | rfl <;> cases known
    exact (List.idxOf?_eq_some_iff.mp indexed).1
  have filtered : ∀ plan ∈ [filteredFirst],
      plan.arena.Pushed (fun _ => True) ∧ plan.SourcesFit := by
    refine List.forall_mem_singleton.mpr ?_
    have allocated : filteredFirst.arena.Allocated filteredFirst.body :=
      Plan.allocated_allocate turned _
    exact ⟨allocated.pushed.mono fun _ _ => trivial, Plan.sourcesFit_of_allocated allocated
      (Plan.verify_eq_ok_iff.mp
        (of_decide_eq_true (by decide +kernel) : filteredFirst.verify = .ok ())).1⟩
  obtain ⟨batch, inRange, _, _⟩ := accesses_in_range
    (allocated.pushed.mono fun _ _ => trivial) (Plan.sourcesFit_of_allocated allocated grounded)
    inputs (fun plan member => (filtered plan member).1)
    (fun plan member => (filtered plan member).2) ⟨0⟩ [(checks, .install [filteredFirst])]
    (fun step member plans installs plan listed => by
      obtain rfl := List.mem_singleton.mp member
      cases installs
      exact (filtered plan listed).1) checks
  exact ⟨of_decide_eq_true (by decide +kernel), (batch facts [.bool true]).2, inRange,
    of_decide_eq_true (by decide +kernel)⟩

/-- The same steps, in a plan to which no value has to be supplied. -/
def unsupplied : Plan := { supplied with adornment := .empty }

/-- The plan is verified and the empty row has the right arity, but the input step asks for its
first value. -/
theorem evaluate_unsupplied : unsupplied.arena.Allocated unsupplied.body ∧
    unsupplied.verify = .ok () ∧ ([] : Tuple).length = unsupplied.adornment.size ∧
    unsupplied.evaluate (fun _ _ => .ok true) .empty [] = .error .outOfRange :=
  ⟨Plan.allocated_allocate lookup _, of_decide_eq_true (by decide +kernel), rfl,
    of_decide_eq_true (by decide +kernel)⟩

/-- A constant, whose source is allocated for a body in which the constraint at this place has two
variables. -/
def misled : Plan where
  body := ⟨⟨"misled", 0, ["x", "y"], [.constant ⟨0⟩ .nil], [⟨0⟩], {}⟩, by decide⟩
  arena := [Operation.input [⟨1⟩], .join ⟨0⟩ ⟨1⟩, .project ⟨2⟩ [⟨0⟩]].foldl
    (fun arena operation => (arena.push lookup operation).1)
    (Arena.empty.push turned (.enumerate ⟨0⟩)).1
  root := ⟨3⟩
  adornment := .singleton 0
  hints := {}

/-- The plan is verified and a value is supplied for its input step, but the join looks for a second
value in the rows of the constant. -/
theorem reads_misled : misled.arena.Pushed (fun _ => True) ∧ misled.verify = .ok () ∧
    misled.InputsFit ∧ ∃ lowered children,
      misled.Reaches (fun _ _ => .ok true) .empty [.nil] lowered children ∧
      ¬lowered.operator.InRange (children.map OrderedSet.toList) := by
  have pushed : misled.arena.Pushed fun _ => True :=
    .push (.push (.push (.push .empty trivial _) trivial _) trivial _) trivial _
  have verified : misled.verify = .ok () := of_decide_eq_true (by decide +kernel)
  have steps : misled.steps = [⟨0⟩, ⟨1⟩, ⟨2⟩, ⟨3⟩] := of_decide_eq_true (by decide +kernel)
  refine ⟨pushed, verified, ?_, ?_⟩
  · intro step listed subjects known subject place indexed
    rw [steps] at listed
    simp only [List.mem_cons, List.not_mem_nil, or_false] at listed
    rcases listed with rfl | rfl | rfl | rfl <;> cases known
    exact (List.idxOf?_eq_some_iff.mp indexed).1
  · -- rows of the constant have one value, and the join reads the second one
    have next : [⟨0⟩, ⟨1⟩] ++ [⟨2⟩] <+: misled.steps := by
      rw [steps]
      exact ⟨[⟨3⟩], rfl⟩
    have evaluated : [⟨0⟩, ⟨1⟩].foldlM
        (misled.evaluateStep (fun _ _ => .ok true) .empty [.nil]) .empty =
          .ok ((Table.empty.insert ⟨0⟩ (.singleton [.nil])).insert ⟨1⟩ (.singleton [.nil])) :=
      of_decide_eq_true (by decide +kernel)
    refine ⟨⟨.join [1] [0] [(.left, 0), (.left, 1)], "join"⟩,
      [.singleton [.nil], .singleton [.nil]],
      .intro (of_decide_eq_true (by decide +kernel)) rfl next evaluated
        (of_decide_eq_true (by decide +kernel)) (of_decide_eq_true (by decide +kernel)), ?_⟩
    · rintro ⟨_, rows⟩
      cases rows with
      | cons covers _ => exact absurd (covers [.nil] (by decide) 1 (by decide)) (by decide)

end LiveQuery
