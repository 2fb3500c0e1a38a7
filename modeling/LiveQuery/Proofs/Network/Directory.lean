import LiveQuery.Network.Install

/-!
# Tables beside the nodes

A network finds the readers of an input and the nodes that can be shared by going through its nodes.
The same answers can be kept in tables that grow with every node and shrink when nodes are taken
away: lists of successors, lists of fact listeners, and the shared nodes by operator and inputs
(`Directory`).  The tables answer as the network does (`Directory.of_reflects`), and taking away all
nodes from a place on restores them, whichever of these nodes had been registered for sharing
(`Directory.rollback_extend`).
-/

namespace LiveQuery

/-! ## Sharing -/

/-- What later steps have to ask for to share the node. -/
def Node.sharingKey? (node : Node) : Option (Operator × List (NodeInput × Inlet)) :=
  if node.isShared then node.cell.operator?.map (·, node.inputs) else none

/-- No two nodes can be shared by the same steps. -/
def SharedOnce (nodes : List Node) : Prop :=
  nodes.Pairwise fun first second => ∀ key, first.sharingKey? = some key →
    second.sharingKey? ≠ some key

theorem Node.sharingKey?_eq_some {node : Node} {operator : Operator}
    {inputs : List (NodeInput × Inlet)} : node.sharingKey? = some (operator, inputs) ↔
      (node.isShared && decide (node.cell.operator? = some operator) &&
        decide (node.inputs = inputs)) = true := by
  unfold sharingKey?
  cases node.isShared with
  | false => simp
  | true => cases node.cell.operator? <;> simp

/-- A new key comes last. -/
theorem Table.entries_insert {κ ν : Type} [DecidableEq κ] {table : Table κ ν} {key : κ}
    (absent : table.get? key = none) (value : ν) :
    (table.insert key value).entries = table.entries ++ [(key, value)] := by
  obtain ⟨entries⟩ := table
  induction entries with
  | nil => rfl
  | cons entry rest ih =>
    simp only [get?, insert, insertEntry] at ih absent ⊢
    grind

theorem Table.get?_mapValues {κ ν μ : Type} [DecidableEq κ] (change : ν → μ) (table : Table κ ν)
    (key : κ) : (table.mapValues change).get? key = (table.get? key).map change := by
  simp [mapValues, get?, List.find?_map, Function.comp_def]

/-! ## Directories -/

/-- What is kept of the nodes in tables. -/
structure Directory where
  /-- For every node, who reads it. -/
  successors : List (List (NodeId × Inlet))
  listeners : Table RelationId (List (NodeId × Inlet))
  shared : Table (Operator × List (NodeInput × Inlet)) NodeId

namespace Directory

def empty : Directory := ⟨[], .empty, .empty⟩

/-- Who reads an input. -/
def readersOf (directory : Directory) : NodeInput → List (NodeId × Inlet)
  | .node child => directory.successors[child.index]?.getD []
  | .facts relation => (directory.listeners.get? relation).getD []

/-- Notes a reader of an input. -/
def connect (reader : NodeId) (directory : Directory) : NodeInput × Inlet → Directory
  | (.node child, inlet) =>
    { directory with
      successors := directory.successors.modify child.index (· ++ [(reader, inlet)]) }
  | (.facts relation, inlet) =>
    { directory with
      listeners := directory.listeners.insert relation
        (directory.readersOf (.facts relation) ++ [(reader, inlet)]) }

/-- Notes a new node as a reader of its inputs. -/
def enter (directory : Directory) (node : Node) : Directory :=
  let connected := node.inputs.foldl (connect ⟨directory.successors.length⟩) directory
  { connected with successors := connected.successors ++ [[]] }

/-- Notes a node that can be shared. -/
def register (directory : Directory) (id : NodeId) (node : Node) : Directory :=
  match node.sharingKey? with
  | some key => { directory with shared := directory.shared.insert key id }
  | none => directory

/-- Notes a new node, which is registered for sharing as soon as it is finished. -/
def add (finished : NodeId → Bool) (directory : Directory) (node : Node) : Directory :=
  let id : NodeId := ⟨directory.successors.length⟩
  if finished id then (directory.enter node).register id node else directory.enter node

/-- Notes nodes one after another. -/
def extend (finished : NodeId → Bool) (directory : Directory) (nodes : List Node) : Directory :=
  nodes.foldl (add finished) directory

/-- The tables of a list of nodes. -/
def of (nodes : List Node) : Directory := empty.extend (fun _ => true) nodes

/-- The tables without the nodes from a place on. -/
def rollback (directory : Directory) (mark : Nat) : Directory where
  successors := (directory.successors.take mark).map (·.filter (·.1.index < mark))
  listeners := directory.listeners.mapValues (·.filter (·.1.index < mark))
  shared := ⟨directory.shared.entries.filter (·.2.index < mark)⟩

/-- Tables that are equal, except that nobody may listen to a relation in two ways: without a list
of listeners or with an empty one. -/
structure Same (first second : Directory) : Prop where
  successors : first.successors = second.successors
  listeners : ∀ relation, first.readersOf (.facts relation) = second.readersOf (.facts relation)
  shared : first.shared = second.shared

/-- The tables answer as the network does. -/
structure Reflects (directory : Directory) (network : Network) : Prop where
  readers : ∀ input, directory.readersOf input = network.readers input
  shared : ∀ operator inputs,
    directory.shared.get? (operator, inputs) = network.findShared? operator inputs

variable {directory : Directory} {finished : NodeId → Bool}

/-! ## Readers -/

theorem length_connect (reader : NodeId) (directory : Directory) (entry : NodeInput × Inlet) :
    (connect reader directory entry).successors.length = directory.successors.length := by
  obtain ⟨child | relation, inlet⟩ := entry
  · exact List.length_modify _ _ _
  · rfl

theorem readersOf_connect (reader : NodeId) (directory : Directory) (source input : NodeInput)
    (inlet : Inlet) : (connect reader directory (source, inlet)).readersOf input =
      directory.readersOf input ++
        if source = input ∧ input.precedes directory.successors.length = true then
          [(reader, inlet)]
        else [] := by
  cases source with
  | node child =>
    cases input with
    | node other =>
      simp only [connect, readersOf, List.getElem?_modify, NodeInput.node.injEq, NodeInput.precedes,
        decide_eq_true_eq]
      by_cases inside : other.index < directory.successors.length
      · rw [List.getElem?_eq_getElem inside]
        by_cases same : child = other
        · simp [same, inside]
        · have different : child.index ≠ other.index := fun equal => same (Id.ext equal)
          simp [same, different]
      · rw [List.getElem?_eq_none (Nat.le_of_not_lt inside)]
        simp [inside]
    | facts relation => simp [connect, readersOf]
  | facts relation =>
    cases input with
    | node other => simp [connect, readersOf]
    | facts other =>
      simp only [connect, readersOf, Table.get?_insert, NodeInput.facts.injEq, NodeInput.precedes]
      by_cases same : relation = other
      · simp [same]
      · simp [same, Ne.symm same]

theorem length_connectAll (reader : NodeId) (inputs : List (NodeInput × Inlet))
    (directory : Directory) :
    (inputs.foldl (connect reader) directory).successors.length =
      directory.successors.length := by
  induction inputs generalizing directory with
  | nil => rfl
  | cons entry rest ih => rw [List.foldl_cons, ih, length_connect]

theorem readersOf_connectAll (reader : NodeId) (inputs : List (NodeInput × Inlet))
    (directory : Directory) (input : NodeInput) :
    (inputs.foldl (connect reader) directory).readersOf input = directory.readersOf input ++
      if input.precedes directory.successors.length then
        (inputs.filter (·.1 = input)).map fun (_, inlet) => (reader, inlet)
      else [] := by
  induction inputs generalizing directory with
  | nil => simp
  | cons entry rest ih =>
    obtain ⟨source, inlet⟩ := entry
    rw [List.foldl_cons, ih, length_connect, readersOf_connect, List.append_assoc]
    by_cases before : input.precedes directory.successors.length = true
    · by_cases same : source = input <;> simp [before, same]
    · simp [before]

theorem length_enter (directory : Directory) (node : Node) :
    (directory.enter node).successors.length = directory.successors.length + 1 := by
  simp [enter, length_connectAll]

theorem readersOf_append (directory : Directory) (input : NodeInput) :
    { directory with successors := directory.successors ++ [[]] }.readersOf input =
      directory.readersOf input := by
  cases input with
  | facts relation => rfl
  | node child =>
    simp only [readersOf, List.getElem?_append]
    split
    · rfl
    next outside =>
      rw [List.getElem?_eq_none (Nat.le_of_not_lt outside)]
      cases child.index - directory.successors.length <;> rfl

theorem readersOf_enter (directory : Directory) (node : Node) (input : NodeInput) :
    (directory.enter node).readersOf input =
      directory.readersOf input ++ node.inletsOf directory.successors.length input :=
  calc
    (directory.enter node).readersOf input =
        (node.inputs.foldl (connect ⟨directory.successors.length⟩) directory).readersOf input :=
      readersOf_append _ input
    _ = _ := readersOf_connectAll ⟨directory.successors.length⟩ node.inputs directory input

theorem register_successors (directory : Directory) (id : NodeId) (node : Node) :
    (directory.register id node).successors = directory.successors := by
  unfold register
  split <;> rfl

theorem register_listeners (directory : Directory) (id : NodeId) (node : Node) :
    (directory.register id node).listeners = directory.listeners := by
  unfold register
  split <;> rfl

theorem length_add (directory : Directory) (node : Node) :
    (directory.add finished node).successors.length = directory.successors.length + 1 := by
  unfold add
  dsimp only
  split
  · rw [register_successors, length_enter]
  · rw [length_enter]

theorem readersOf_add (directory : Directory) (node : Node) (input : NodeInput) :
    (directory.add finished node).readersOf input =
      directory.readersOf input ++ node.inletsOf directory.successors.length input := by
  rw [← readersOf_enter]
  unfold add
  dsimp only
  split
  · cases input <;> simp only [readersOf, register_successors, register_listeners]
  · rfl

theorem length_extend (directory : Directory) (nodes : List Node) :
    (directory.extend finished nodes).successors.length =
      directory.successors.length + nodes.length := by
  unfold extend
  induction nodes generalizing directory with
  | nil => rfl
  | cons node rest ih =>
    rw [List.foldl_cons, ih, length_add, List.length_cons]
    omega

/-- The readers among new nodes are noted in the order of these nodes. -/
theorem readersOf_extend (directory : Directory) (nodes : List Node) (input : NodeInput) :
    (directory.extend finished nodes).readersOf input = directory.readersOf input ++
      (nodes.zipIdx directory.successors.length).flatMap fun (node, place) =>
        node.inletsOf place input := by
  unfold extend
  induction nodes generalizing directory with
  | nil => simp
  | cons node rest ih =>
    rw [List.foldl_cons, ih, length_add, readersOf_add, List.zipIdx_cons, List.flatMap_cons,
      List.append_assoc]

theorem length_of (nodes : List Node) : (of nodes).successors.length = nodes.length := by
  rw [of, length_extend]
  exact Nat.zero_add _

/-- The tables know the readers that the network finds among its nodes. -/
theorem readersOf_of (network : Network) (input : NodeInput) :
    (of network.nodes).readersOf input = network.readers input := by
  rw [of, readersOf_extend]
  cases input <;> rfl

/-! ## Shared nodes -/

theorem shared_enter (directory : Directory) (node : Node) :
    (directory.enter node).shared = directory.shared := by
  have all (reader : NodeId) (inputs : List (NodeInput × Inlet)) (directory : Directory) :
      (inputs.foldl (connect reader) directory).shared = directory.shared := by
    induction inputs generalizing directory with
    | nil => rfl
    | cons entry rest ih =>
      rw [List.foldl_cons, ih]
      obtain ⟨child | relation, inlet⟩ := entry <;> rfl
  exact all _ node.inputs directory

theorem shared_add (directory : Directory) (node : Node) :
    (directory.add finished node).shared =
      match node.sharingKey? with
      | some key =>
        if finished ⟨directory.successors.length⟩ then
          directory.shared.insert key ⟨directory.successors.length⟩
        else directory.shared
      | none => directory.shared := by
  unfold add register
  dsimp only
  cases node.sharingKey? <;> split <;> simp only [shared_enter]

theorem get?_shared_extend (directory : Directory) {nodes : List Node} (once : SharedOnce nodes)
    (key : Operator × List (NodeInput × Inlet)) :
    (directory.extend (fun _ => true) nodes).shared.get? key =
      ((nodes.findIdx? (·.sharingKey? = some key)).map fun place =>
        ⟨directory.successors.length + place⟩).or (directory.shared.get? key) := by
  unfold extend
  induction nodes generalizing directory with
  | nil => rfl
  | cons node rest ih =>
    obtain ⟨apart, once⟩ := List.pairwise_cons.mp once
    rw [List.foldl_cons, ih _ once, length_add, shared_add, List.findIdx?_cons]
    by_cases here : node.sharingKey? = some key
    · -- no later node can be shared by the same steps
      have later : rest.findIdx? (·.sharingKey? = some key) = none := by
        refine List.findIdx?_eq_none_iff.mpr fun other member => ?_
        simpa using apart other member key here
      simp [here, later]
    · have old : (match node.sharingKey? with
          | some key =>
            if true = true then directory.shared.insert key ⟨directory.successors.length⟩
            else directory.shared
          | none => directory.shared).get? key = directory.shared.get? key := by
        split
        next other found =>
          have different : key ≠ other := fun same => here (same ▸ found)
          simp [different]
        · rfl
      rw [old]
      simp [here, Nat.add_comm 1, Nat.add_assoc, Function.comp_def]

/-- The tables know the shared nodes that the network finds among its nodes. -/
theorem shared_of (network : Network) (once : SharedOnce network.nodes) (operator : Operator)
    (inputs : List (NodeInput × Inlet)) :
    (of network.nodes).shared.get? (operator, inputs) = network.findShared? operator inputs := by
  have same : (fun node : Node => decide (node.sharingKey? = some (operator, inputs))) =
      fun node => node.isShared && node.cell.operator? = some operator && node.inputs = inputs := by
    funext node
    rw [Bool.eq_iff_iff, decide_eq_true_eq, Node.sharingKey?_eq_some]
  rw [of, get?_shared_extend _ once, same]
  unfold Network.findShared?
  simp [empty]

theorem of_reflects (network : Network) (once : SharedOnce network.nodes) :
    (of network.nodes).Reflects network :=
  ⟨readersOf_of network, shared_of network once⟩

/-- New nodes only add entries of their own. -/
theorem exists_shared_extend (finished : NodeId → Bool) (directory : Directory) {nodes : List Node}
    (once : SharedOnce nodes)
    (fresh : ∀ node ∈ nodes, ∀ key, node.sharingKey? = some key →
      directory.shared.get? key = none) :
    ∃ more, (directory.extend finished nodes).shared.entries = directory.shared.entries ++ more ∧
      ∀ entry ∈ more, directory.successors.length ≤ entry.2.index ∧
        entry.2.index < directory.successors.length + nodes.length := by
  unfold extend
  induction nodes generalizing directory with
  | nil => exact ⟨[], (List.append_nil _).symm, fun _ nothing => absurd nothing List.not_mem_nil⟩
  | cons node rest ih =>
    obtain ⟨apart, once⟩ := List.pairwise_cons.mp once
    -- the table after one node: as before, or with one entry more, whose key no later node has
    obtain ⟨first, entries, own, later⟩ : ∃ first,
        (directory.add finished node).shared.entries = directory.shared.entries ++ first ∧
        (∀ entry ∈ first, entry.2 = ⟨directory.successors.length⟩) ∧
        ∀ other ∈ rest, ∀ key, other.sharingKey? = some key →
          (directory.add finished node).shared.get? key = none := by
      have old := fun other member => fresh other (List.mem_cons_of_mem node member)
      rw [shared_add]
      cases found : node.sharingKey? with
      | none => exact ⟨[], by simp, by simp, old⟩
      | some key =>
        dsimp only
        split
        · refine ⟨[(key, ⟨directory.successors.length⟩)], ?_, by simp, ?_⟩
          · exact Table.entries_insert (fresh node List.mem_cons_self key found) _
          · intro other member otherKey otherFound
            have different : otherKey ≠ key := fun same =>
              apart other member key found (same ▸ otherFound)
            rw [Table.get?_insert, if_neg different]
            exact old other member otherKey otherFound
        · exact ⟨[], by simp, by simp, old⟩
    obtain ⟨more, all, bounds⟩ := ih (directory.add finished node) once later
    refine ⟨first ++ more, ?_, fun entry member => ?_⟩
    · rw [List.foldl_cons, all, entries, List.append_assoc]
    · rw [List.length_cons]
      rcases List.mem_append.mp member with member | member
      · rw [own entry member]
        exact ⟨Nat.le_refl _, by dsimp only; omega⟩
      · have bound := bounds entry member
        rw [length_add] at bound
        omega

/-! ## Taking nodes away -/

theorem mem_inletsOf {node : Node} {place : Nat} {input : NodeInput} {entry : NodeId × Inlet}
    (member : entry ∈ node.inletsOf place input) : entry.1.index = place := by
  unfold Node.inletsOf at member
  split at member
  · obtain ⟨_, _, rfl⟩ := List.mem_map.mp member
    rfl
  · cases member

/-- Without the readers from a place on, the readers are those among the nodes before it. -/
theorem filter_readersOf (finished : NodeId → Bool) (nodes more : List Node) (input : NodeInput) :
    (((of nodes).extend finished more).readersOf input).filter (·.1.index < nodes.length) =
      (of nodes).readersOf input := by
  have early : ∀ entry ∈ (of nodes).readersOf input, entry.1.index < nodes.length := by
    intro entry member
    have none_ : empty.readersOf input = [] := by cases input <;> rfl
    rw [of, readersOf_extend, none_, List.nil_append] at member
    obtain ⟨⟨node, place⟩, listed, member⟩ := List.mem_flatMap.mp member
    rw [mem_inletsOf member]
    have inside := (List.mem_zipIdx listed).2.1
    simpa [empty] using inside
  have late : ∀ entry ∈ (more.zipIdx (of nodes).successors.length).flatMap
      fun (node, place) => node.inletsOf place input, nodes.length ≤ entry.1.index := by
    intro entry member
    obtain ⟨⟨node, place⟩, listed, member⟩ := List.mem_flatMap.mp member
    rw [mem_inletsOf member, ← length_of nodes]
    exact (List.mem_zipIdx listed).1
  rw [readersOf_extend, List.filter_append,
    List.filter_eq_self.mpr (by simpa using early),
    List.filter_eq_nil_iff.mpr (by simpa using late), List.append_nil]

/-- Taking away all nodes from a place on restores the tables, whichever of these nodes had been
registered for sharing. -/
theorem rollback_extend (finished : NodeId → Bool) {nodes more : List Node}
    (once : SharedOnce (nodes ++ more)) :
    (((of nodes).extend finished more).rollback nodes.length).Same (of nodes) := by
  obtain ⟨nodesOnce, moreOnce, apart⟩ := List.pairwise_append.mp once
  have total : ((of nodes).extend finished more).successors.length =
      nodes.length + more.length := by rw [length_extend, length_of]
  refine ⟨?_, fun relation => ?_, ?_⟩
  · -- the successors of an older node are its readers
    refine List.ext_getElem (by simp [rollback, total, length_of]) fun place inside inside' => ?_
    have bound : place < nodes.length := by rwa [length_of] at inside'
    have filtered := filter_readersOf finished nodes more (.node ⟨place⟩)
    simp only [readersOf, List.getElem?_eq_getElem inside', Option.getD_some] at filtered
    rw [List.getElem?_eq_getElem (by omega), Option.getD_some] at filtered
    simpa [rollback] using filtered
  · rw [← filter_readersOf finished nodes more (.facts relation)]
    show (Table.get? _ relation).getD [] = List.filter _ ((Table.get? _ relation).getD [])
    rw [rollback, Table.get?_mapValues]
    cases ((of nodes).extend finished more).listeners.get? relation <;> rfl
  · -- older entries stay, and those of the new nodes go
    have fresh : ∀ node ∈ more, ∀ key, node.sharingKey? = some key →
        (of nodes).shared.get? key = none := by
      intro node member key found
      rw [of, get?_shared_extend _ nodesOnce, Option.or_eq_none_iff, Option.map_eq_none_iff]
      refine ⟨List.findIdx?_eq_none_iff.mpr fun other listed => ?_, rfl⟩
      have other_ : other.sharingKey? ≠ some key := fun same =>
        apart other listed node member key same found
      simpa using other_
    obtain ⟨early, earlyEntries, earlyBounds⟩ :=
      exists_shared_extend (fun _ => true) empty nodesOnce fun _ _ _ _ => rfl
    obtain ⟨late, lateEntries, lateBounds⟩ := exists_shared_extend finished (of nodes)
      moreOnce fresh
    have kept : ∀ entry ∈ (of nodes).shared.entries, entry.2.index < nodes.length := by
      intro entry member
      rw [of, earlyEntries] at member
      have bound := (earlyBounds entry member).2
      simpa [empty] using bound
    have gone : ∀ entry ∈ late, nodes.length ≤ entry.2.index := by
      intro entry member
      rw [← length_of nodes]
      exact (lateBounds entry member).1
    unfold rollback
    rw [lateEntries, List.filter_append, List.filter_eq_self.mpr (by simpa using kept),
      List.filter_eq_nil_iff.mpr (by simpa using gone), List.append_nil]

end Directory
end LiveQuery
