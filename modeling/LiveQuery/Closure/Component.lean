import LiveQuery.Closure.Graph

/-!
# Strongly connected components

The components of the graph that some nodes of a counted graph induce, found by one depth-first
search.  Nodes are numbered as they are entered and stay on a stack until their component is
complete.  Every node has a bound, the smallest number on the stack that it is known to reach; a
node that is left with its own number as its bound completes a component, which consists of itself
and the nodes above it on the stack.  The nodes whose successors are being looked at are kept in a
list of visits, so the search needs no recursion of its own.
-/

namespace LiveQuery

/-- A node whose successors are being looked at, with those that are still to come. -/
structure Visit (ν : Type) where
  node : ν
  waiting : List ν

/-- What a depth-first search remembers. -/
structure DepthSearch (ν : Type) where
  /-- The number of the next node that is entered. -/
  next : Nat
  /-- The numbers of the nodes that have been entered. -/
  index : Table ν Nat
  low : Table ν Nat
  /-- The nodes that have been entered and are in no component yet, newest first. -/
  stack : List ν
  /-- The nodes of the stack as a set. -/
  onStack : List ν
  /-- The complete components, oldest first. -/
  found : List (List ν)

namespace DepthSearch

variable {ν : Type}

/-- No node has been entered. -/
def start : DepthSearch ν := ⟨0, .empty, .empty, [], [], []⟩

variable [DecidableEq ν]

/-- Gives the next number to a node and puts it on the stack. -/
def enter (search : DepthSearch ν) (node : ν) : DepthSearch ν :=
  { search with
    next := search.next + 1
    index := search.index.insert node search.next
    low := search.low.insert node search.next
    stack := node :: search.stack
    onStack := node :: search.onStack }

/-- Lowers the bound of a node to a number, unless it is as low already. -/
def lower (search : DepthSearch ν) (node : ν) (number : Nat) : DepthSearch ν :=
  { search with
    low := search.low.insert node (min ((search.low.get? node).getD number) number) }

/-- Looks at a node that has been entered before: its number bounds that of the visited node, as
long as it is on the stack. -/
def revisit (search : DepthSearch ν) (node target : ν) (number : Nat) : DepthSearch ν :=
  if search.onStack.contains target then search.lower node number else search

/-- The upper part of a stack down to a node, which it includes, and the lower part. -/
def cut (node : ν) : List ν → List ν × List ν
  | [] => ([], [])
  | top :: rest =>
    if top = node then ([top], rest)
    else
      let (upper, lower) := cut node rest
      (top :: upper, lower)

/-- Makes a component of a node and the nodes above it on the stack. -/
def complete (search : DepthSearch ν) (node : ν) : DepthSearch ν :=
  let (component, rest) := cut node search.stack
  { search with
    stack := rest
    onStack := search.onStack.filter (!component.contains ·)
    found := search.found ++ [component] }

/-- Leaves a node all of whose successors have been looked at: its bound goes on to the node that it
was entered from, and it may complete a component.  There is no answer for a node without a number
or without a bound. -/
def leave? (search : DepthSearch ν) (node : ν) (caller? : Option ν) :
    Option (DepthSearch ν) := do
  let bound ← search.low.get? node
  let lowered := match caller? with
    | some caller => search.lower caller bound
    | none => search
  let number ← lowered.index.get? node
  return if bound = number then lowered.complete node else lowered

@[simp] theorem index_lower (search : DepthSearch ν) (node : ν) (number : Nat) :
    (search.lower node number).index = search.index := rfl

@[simp] theorem index_revisit (search : DepthSearch ν) (node target : ν) (number : Nat) :
    (search.revisit node target number).index = search.index := by
  unfold revisit
  split <;> rfl

theorem index_leave? {search left : DepthSearch ν} {node : ν} {caller? : Option ν}
    (found : search.leave? node caller? = some left) : left.index = search.index := by
  obtain ⟨bound, _, found⟩ := Option.bind_eq_some_iff.mp found
  obtain ⟨number, _, found⟩ := Option.bind_eq_some_iff.mp found
  cases found
  split <;> cases caller? <;> rfl

theorem contains_enter (search : DepthSearch ν) (node other : ν) :
    (search.enter node).index.contains other =
      (decide (other = node) || search.index.contains other) := by
  simp only [enter, Table.contains, Table.get?_insert]
  split <;> simp_all

/-- The number of turns that the visits of listed nodes take which have not been entered. -/
def untaken (successors : ν → List ν) (search : DepthSearch ν) : List ν → Nat
  | [] => 0
  | node :: rest =>
    (if search.index.contains node then 0 else (successors node).length + 1) +
      untaken successors search rest

theorem untaken_congr {successors : ν → List ν} {search other : DepthSearch ν}
    (same : other.index = search.index) (nodes : List ν) :
    other.untaken successors nodes = search.untaken successors nodes := by
  induction nodes with
  | nil => rfl
  | cons node rest ih => rw [untaken, untaken, ih, same]

theorem untaken_enter_le (successors : ν → List ν) (search : DepthSearch ν) (node : ν)
    (nodes : List ν) :
    (search.enter node).untaken successors nodes ≤ search.untaken successors nodes := by
  induction nodes with
  | nil => exact Nat.le_refl _
  | cons head rest ih =>
    refine Nat.add_le_add ?_ ih
    rw [contains_enter]
    cases search.index.contains head
    · split <;> simp
    · simp

/-- Whoever enters a node takes the turns of its visit. -/
theorem untaken_enter {successors : ν → List ν} {search : DepthSearch ν} {node : ν}
    {nodes : List ν} (listed : node ∈ nodes) (fresh : search.index.get? node = none) :
    (search.enter node).untaken successors nodes + ((successors node).length + 1) ≤
      search.untaken successors nodes := by
  induction nodes with
  | nil => cases listed
  | cons head rest ih =>
    simp only [untaken, contains_enter]
    by_cases same : head = node
    · have absent : search.index.contains node = false := by simp [Table.contains, fresh]
      have later := untaken_enter_le successors search node rest
      simp only [same, absent, decide_true, Bool.true_or, if_true, Bool.false_eq_true, if_false]
      omega
    · have later := ih ((List.mem_cons.mp listed).resolve_left (Ne.symm same))
      simp only [same, decide_false, Bool.false_or]
      omega

/-- The number of turns that visits take if no further node is entered. -/
def turns : List (Visit ν) → Nat
  | [] => 0
  | visit :: callers => visit.waiting.length + 1 + turns callers

/-- Goes on until all visits have ended.  Every turn looks at a successor or ends a visit. -/
def explore {nodes : List ν} (all : ∀ node, node ∈ nodes) (successors : ν → List ν) :
    List (Visit ν) → DepthSearch ν → Option (DepthSearch ν)
  | [], search => some search
  | ⟨node, target :: waiting⟩ :: callers, search =>
    match _known : search.index.get? target with
    | some number =>
      explore all successors (⟨node, waiting⟩ :: callers) (search.revisit node target number)
    | none =>
      explore all successors (⟨target, successors target⟩ :: ⟨node, waiting⟩ :: callers)
        (search.enter target)
  | ⟨node, []⟩ :: callers, search =>
    match _left : search.leave? node (callers.head?.map Visit.node) with
    | some left => explore all successors callers left
    | none => none
termination_by visits search => search.untaken successors nodes + turns visits
decreasing_by
  · rw [untaken_congr (index_revisit search node target number)]
    simp only [turns, List.length_cons]
    omega
  · have taken := @untaken_enter _ _ successors _ _ _ (all target) _known
    simp only [turns, List.length_cons]
    omega
  · rw [untaken_congr (index_leave? _left)]
    simp only [turns]
    omega

/-- Enters a node and explores what it leads to, unless it has been entered already. -/
def visitRoot {nodes : List ν} (all : ∀ node, node ∈ nodes) (successors : ν → List ν)
    (search : DepthSearch ν) (root : ν) : Option (DepthSearch ν) :=
  if search.index.contains root then some search
  else explore all successors [⟨root, successors root⟩] (search.enter root)

end DepthSearch

namespace EdgeGraph

variable {α : Type} [DecidableEq α]

/-- The successors of a node among some members, in the order of the members. -/
def successorsWithin (graph : EdgeGraph α) (members : List α) (node : { node // node ∈ members }) :
    List { node // node ∈ members } :=
  members.attach.filter fun other => (graph.successors node.val).contains other.val

/-- The nodes of a component in the order of the members. -/
def listing (members : List α) (component : List { node // node ∈ members }) : List α :=
  members.filter (component.map Subtype.val).contains

/-- The place of the first member that is in a group. -/
def placeOf (members group : List α) : Nat := members.findIdx group.contains

/-- The strongly connected components of the graph that the members induce.  Members and components
are listed in the order of the members, components in the order of their first members. -/
def components? (graph : EdgeGraph α) (members : List α) : Option (List (List α)) := do
  let search ← members.attach.foldlM
    (DepthSearch.visitRoot members.mem_attach (graph.successorsWithin members)) .start
  return (search.found.map (listing members)).mergeSort fun first second =>
    placeOf members first ≤ placeOf members second

end EdgeGraph
end LiveQuery
