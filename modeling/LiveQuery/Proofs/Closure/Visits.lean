import Mathlib.Data.List.Nodup
import Mathlib.Logic.Relation
import LiveQuery.Closure.Component

/-!
# The stack of a depth-first search

The stack of a search is cut into one segment for every visit.  A segment consists of the visited
node and of newer nodes that reach it and are reached by it; none of its nodes leads to an older
segment below the bound of the visited node (`Segment`).  Every turn of the search keeps the
segments: looking at a node that has been entered (`Stacked.revisit`), entering a node
(`Stacked.enter`), leaving a node that reaches an older one, whose segment is then joined to that of
its caller (`Stacked.join`), and leaving a node that reaches no older one, whose segment is a
component (`Segment.mem_iff`, `Coherent.complete`).
-/

namespace LiveQuery

variable {ν : Type}

/-- A walk along successors, perhaps of no step at all, leads from one node to another. -/
def Walk (successors : ν → List ν) : ν → ν → Prop :=
  Relation.ReflTransGen fun source target => target ∈ successors source

/-- Two nodes that lead to each other. -/
def Mutual (successors : ν → List ν) (first second : ν) : Prop :=
  Walk successors first second ∧ Walk successors second first

namespace Mutual

variable {successors : ν → List ν} {first second third : ν}

theorem refl (successors : ν → List ν) (node : ν) : Mutual successors node node := ⟨.refl, .refl⟩

theorem symm (both : Mutual successors first second) : Mutual successors second first :=
  And.symm both

theorem trans (left : Mutual successors first second) (right : Mutual successors second third) :
    Mutual successors first third :=
  ⟨left.1.trans right.1, right.2.trans left.2⟩

end Mutual

/-- Whoever starts in a region and leaves it comes through one of the exits. -/
theorem Walk.leaves {successors : ν → List ν} {region exits : List ν} {first second : ν}
    (closed : ∀ node ∈ region, ∀ target ∈ successors node, target ∈ region ∨ target ∈ exits)
    (walk : Walk successors first second) (start : first ∈ region) :
    second ∈ region ∨ ∃ exit ∈ exits, Walk successors exit second := by
  induction walk with
  | refl => exact .inl start
  | tail _ edge ih =>
    rcases ih with inside | ⟨exit, member, walk⟩
    · exact (closed _ inside _ edge).imp id fun member => ⟨_, member, .refl⟩
    · exact .inr ⟨exit, member, walk.tail edge⟩

theorem Walk.stays {successors : ν → List ν} {region : List ν} {first second : ν}
    (closed : ∀ node ∈ region, ∀ target ∈ successors node, target ∈ region)
    (walk : Walk successors first second) (start : first ∈ region) : second ∈ region := by
  have leaves : second ∈ region ∨ ∃ exit ∈ [], Walk successors exit second :=
    walk.leaves (fun node member target edge => .inl (closed node member target edge)) start
  simpa using leaves

namespace DepthSearch

variable [DecidableEq ν]

/-- The tables and lists of a search fit together, and what has been found are components that no
edge leaves for a node that is not in one. -/
structure Coherent (successors : ν → List ν) (search : DepthSearch ν) : Prop where
  below : ∀ node number, search.index.get? node = some number → number < search.next
  entered : ∀ node, search.index.contains node = true ↔
    node ∈ search.stack ∨ node ∈ search.found.flatten
  newestFirst : search.stack.Pairwise fun newer older => ∀ high low,
    search.index.get? newer = some high → search.index.get? older = some low → low < high
  once : (search.stack ++ search.found.flatten).Nodup
  onStack : ∀ node, node ∈ search.onStack ↔ node ∈ search.stack
  closed : ∀ node ∈ search.found.flatten, ∀ target ∈ successors node,
    target ∈ search.found.flatten
  components : ∀ component ∈ search.found, component ≠ [] ∧
    ∀ first ∈ component, ∀ second, second ∈ component ↔ Mutual successors first second

/-- The part of the stack that belongs to a visit: the visited node and the nodes above it, up to
the next visited node.  The bound of the node is the number of a node that it reaches, and every
successor of a node of the segment has been looked at and respects the bound, unless it still
waits. -/
structure Segment (successors : ν → List ν) (search : DepthSearch ν) (visit : Visit ν)
    (newer older : List ν) (bound : Nat) : Prop where
  connected : ∀ node ∈ newer, Mutual successors node visit.node
  stored : search.low.get? visit.node = some bound
  reached : ∃ node ∈ visit.node :: older, search.index.get? node = some bound ∧
    Walk successors visit.node node
  waiting : ∀ target ∈ visit.waiting, target ∈ successors visit.node
  looked : ∀ node ∈ visit.node :: newer, ∀ target ∈ successors node,
    (node = visit.node ∧ target ∈ visit.waiting) ∨
      ∃ number, search.index.get? target = some number ∧ (target ∈ older → bound ≤ number)

/-- The stack consists of the segments of the visits, and every visited node is a successor of the
node of the visit below it. -/
def Stacked (successors : ν → List ν) (search : DepthSearch ν) : List (Visit ν) → List ν → Prop
  | [], stack => stack = []
  | visit :: callers, stack => ∃ newer older bound, stack = newer ++ visit.node :: older ∧
      Segment successors search visit newer older bound ∧
      (∀ caller ∈ callers.head?, visit.node ∈ successors caller.node) ∧
      Stacked successors search callers older

section Turns

variable {successors : ν → List ν} {search other : DepthSearch ν} {visit : Visit ν}
  {visits callers : List (Visit ν)} {newer older stack waiting : List ν} {bound number : Nat}
  {node target : ν}

/-! ## What segments depend on -/

theorem Segment.congr (segment : Segment successors search visit newer older bound)
    (index : ∀ node number, search.index.get? node = some number →
      other.index.get? node = some number)
    (low : other.low.get? visit.node = search.low.get? visit.node) :
    Segment successors other visit newer older bound := by
  refine { segment with stored := low.trans segment.stored, reached := ?_, looked := ?_ }
  · obtain ⟨node, member, found, walk⟩ := segment.reached
    exact ⟨node, member, index node bound found, walk⟩
  · intro node member target edge
    rcases segment.looked node member target edge with waits | ⟨number, found, bounded⟩
    · exact .inl waits
    · exact .inr ⟨number, index target number found, bounded⟩

/-- Further numbers, and the bounds of nodes that are not on the stack, do not matter. -/
theorem Stacked.congr (stacked : Stacked successors search visits stack)
    (index : ∀ node number, search.index.get? node = some number →
      other.index.get? node = some number)
    (low : ∀ node ∈ stack, other.low.get? node = search.low.get? node) :
    Stacked successors other visits stack := by
  induction visits generalizing stack with
  | nil => exact stacked
  | cons visit callers ih =>
    obtain ⟨newer, older, bound, rfl, segment, edge, below⟩ := stacked
    refine ⟨newer, older, bound, rfl, segment.congr index (low _ (by simp)), edge, ?_⟩
    exact ih below fun node member => low node (by simp [member])

/-- Every node of the stack leads to the node of the newest visit. -/
theorem Stacked.walk (stacked : Stacked successors search (visit :: callers) stack)
    (member : node ∈ stack) : Walk successors node visit.node := by
  induction callers generalizing visit stack with
  | nil =>
    obtain ⟨newer, older, bound, rfl, segment, _, rfl⟩ := stacked
    rcases List.mem_append.mp member with above | here
    · exact (segment.connected node above).1
    · rw [List.mem_singleton.mp here]
      exact .refl
  | cons caller rest ih =>
    obtain ⟨newer, older, bound, rfl, segment, edge, below⟩ := stacked
    rcases List.mem_append.mp member with above | here
    · exact (segment.connected node above).1
    · rcases List.mem_cons.mp here with rfl | under
      · exact .refl
      · exact (ih below under).tail (edge caller rfl)

/-! ## Looking at a node that has been entered -/

theorem Segment.advance
    (segment : Segment successors search ⟨node, target :: waiting⟩ newer older bound)
    (known : search.index.get? target = some number) (bounded : target ∈ older → bound ≤ number) :
    Segment successors search ⟨node, waiting⟩ newer older bound := by
  refine { segment with waiting := ?_, looked := ?_ }
  · exact fun other member => segment.waiting other (List.mem_cons_of_mem _ member)
  · intro origin member other edge
    rcases segment.looked origin member other edge with ⟨same, waits⟩ | seen
    · rcases List.mem_cons.mp waits with rfl | later
      · exact .inr ⟨number, known, bounded⟩
      · exact .inl ⟨same, later⟩
    · exact .inr seen

theorem Segment.lower (segment : Segment successors search visit newer older bound) (number : Nat)
    (reached : number < bound → ∃ node ∈ visit.node :: older,
      search.index.get? node = some number ∧ Walk successors visit.node node) :
    Segment successors (search.lower visit.node number) visit newer older (min bound number) := by
  refine { segment with stored := ?_, reached := ?_, looked := ?_ }
  · simp [DepthSearch.lower, segment.stored]
  · rcases Nat.lt_or_ge number bound with less | more
    · rw [Nat.min_eq_right (Nat.le_of_lt less)]
      exact reached less
    · rw [Nat.min_eq_left more]
      exact segment.reached
  · intro node member target edge
    rcases segment.looked node member target edge with waits | ⟨place, found, bounded⟩
    · exact .inl waits
    · exact .inr ⟨place, found, fun under => Nat.le_trans (Nat.min_le_left _ _) (bounded under)⟩

theorem Coherent.exists_number (coherent : Coherent successors search)
    (member : node ∈ search.stack) : ∃ number, search.index.get? node = some number :=
  Table.contains_iff.mp ((coherent.entered node).mpr (.inl member))

/-- Above a node of the stack the numbers are larger, below it they are smaller. -/
theorem Coherent.ordered (coherent : Coherent successors search)
    (shape : search.stack = newer ++ node :: older) (own : search.index.get? node = some number) :
    (∀ above ∈ newer, ∀ high, search.index.get? above = some high → number < high) ∧
      ∀ under ∈ older, ∀ low, search.index.get? under = some low → low < number := by
  have descending := coherent.newestFirst
  rw [shape, List.pairwise_append, List.pairwise_cons] at descending
  obtain ⟨_, ⟨front, _⟩, across⟩ := descending
  refine ⟨fun above member high found => ?_, fun under member low found => ?_⟩
  · exact across above member node List.mem_cons_self high number found own
  · exact front under member number low own found

theorem Segment.bound_le (segment : Segment successors search visit newer older bound)
    (coherent : Coherent successors search) (shape : search.stack = above ++ visit.node :: older)
    (own : search.index.get? visit.node = some number) : bound ≤ number := by
  obtain ⟨node, member, found, _⟩ := segment.reached
  rcases List.mem_cons.mp member with rfl | under
  · exact Nat.le_of_eq (Option.some.inj (found.symm.trans own))
  · exact Nat.le_of_lt ((coherent.ordered shape own).2 node under bound found)

theorem Coherent.split (coherent : Coherent successors search)
    (shape : search.stack = newer ++ node :: older) :
    node ∉ newer ∧ node ∉ older ∧ ∀ above ∈ newer, above ∉ older := by
  have once := (List.nodup_append.mp coherent.once).1
  rw [shape, List.nodup_append, List.nodup_cons] at once
  obtain ⟨_, ⟨absent, _⟩, apart⟩ := once
  exact ⟨fun above => apart node above node List.mem_cons_self rfl, absent,
    fun above member under => apart above member above (List.mem_cons_of_mem _ under) rfl⟩

theorem get?_lower_of_ne (different : target ≠ node) :
    (search.lower node number).low.get? target = search.low.get? target := by
  simp [DepthSearch.lower, different]

theorem Coherent.lower (coherent : Coherent successors search) (node : ν) (number : Nat) :
    Coherent successors (search.lower node number) :=
  { coherent with }

theorem Coherent.revisit (coherent : Coherent successors search) (node target : ν)
    (number : Nat) : Coherent successors (search.revisit node target number) := by
  unfold DepthSearch.revisit
  split
  · exact coherent.lower node number
  · exact coherent

/-- A number on the stack bounds the visited node from then on, and any other one can be
forgotten. -/
theorem Stacked.revisit
    (stacked : Stacked successors search (⟨node, target :: waiting⟩ :: callers) search.stack)
    (coherent : Coherent successors search) (known : search.index.get? target = some number) :
    Stacked successors (search.revisit node target number) (⟨node, waiting⟩ :: callers)
      (search.revisit node target number).stack := by
  obtain ⟨newer, older, bound, shape, segment, edge, below⟩ := stacked
  obtain ⟨_, absent, _⟩ := coherent.split shape
  unfold DepthSearch.revisit
  split
  next here =>
    have here : target ∈ search.stack :=
      (coherent.onStack target).mp (List.contains_iff_mem.mp here)
    obtain ⟨own, found⟩ :=
      coherent.exists_number (shape ▸ List.mem_append_right _ List.mem_cons_self)
    have lowered := segment.lower number fun less => by
      refine ⟨target, ?_, known, .single (segment.waiting target List.mem_cons_self)⟩
      rw [shape] at here
      refine (List.mem_append.mp here).resolve_left fun above => ?_
      -- newer nodes have numbers above the bound
      have larger := (coherent.ordered shape found).1 target above number known
      have bounded := segment.bound_le coherent shape found
      omega
    refine ⟨newer, older, _, shape, lowered.advance known fun _ => Nat.min_le_right _ _, edge, ?_⟩
    refine below.congr (fun _ _ found => found) fun other member => get?_lower_of_ne ?_
    rintro rfl
    exact absent member
  next elsewhere =>
    refine ⟨newer, older, bound, shape, segment.advance known fun under => ?_, edge, below⟩
    have here : target ∈ search.stack :=
      shape ▸ List.mem_append_right _ (List.mem_cons_of_mem _ under)
    exact absurd (List.contains_iff_mem.mpr ((coherent.onStack target).mpr here)) elsewhere

/-! ## Entering a node -/

theorem get?_enter (fresh : search.index.get? target = none) (other : ν) (number : Nat)
    (found : search.index.get? other = some number) :
    (search.enter target).index.get? other = some number := by
  have different : other ≠ target := by
    rintro rfl
    rw [fresh] at found
    cases found
  simpa [DepthSearch.enter, different] using found

theorem Coherent.notMem_of_fresh (coherent : Coherent successors search)
    (fresh : search.index.get? target = none) :
    target ∉ search.stack ∧ target ∉ search.found.flatten := by
  have unknown : ¬search.index.contains target = true := by simp [Table.contains, fresh]
  exact not_or.mp (mt (coherent.entered target).mpr unknown)

theorem Coherent.enter (coherent : Coherent successors search)
    (fresh : search.index.get? target = none) : Coherent successors (search.enter target) := by
  obtain ⟨offStack, unfound⟩ := coherent.notMem_of_fresh fresh
  refine { coherent with
    below := fun node number found => ?_
    entered := fun node => ?_
    newestFirst := List.pairwise_cons.mpr ⟨fun older member high low newest found => ?_, ?_⟩
    once := List.nodup_cons.mpr ⟨?_, coherent.once⟩
    onStack := fun node => ?_ }
  · simp only [DepthSearch.enter, Table.get?_insert] at found ⊢
    split at found
    · cases found
      exact Nat.lt_succ_self _
    · exact Nat.lt_succ_of_lt (coherent.below node number found)
  · rw [contains_enter]
    simp [coherent.entered, DepthSearch.enter, or_assoc]
  · have different : older ≠ target := fun same => offStack (same ▸ member)
    simp only [DepthSearch.enter, Table.get?_insert, if_true, if_neg different] at newest found
    cases newest
    exact coherent.below older low found
  · refine coherent.newestFirst.imp_of_mem fun {newer older} first second ordered high low => ?_
    have newerOther : newer ≠ target := fun same => offStack (same ▸ first)
    have olderOther : older ≠ target := fun same => offStack (same ▸ second)
    simp only [DepthSearch.enter, Table.get?_insert, if_neg newerOther, if_neg olderOther]
    exact ordered high low
  · exact fun member => (List.mem_append.mp member).elim offStack unfound
  · simp [DepthSearch.enter, coherent.onStack]

theorem segment_enter (successors : ν → List ν) (search : DepthSearch ν) (target : ν)
    (older : List ν) :
    Segment successors (search.enter target) ⟨target, successors target⟩ [] older search.next where
  connected _ member := absurd member List.not_mem_nil
  stored := by simp [DepthSearch.enter]
  reached := ⟨target, List.mem_cons_self, by simp [DepthSearch.enter], .refl⟩
  waiting _ member := member
  looked node member other edge := by
    obtain rfl := List.mem_singleton.mp member
    exact .inl ⟨rfl, edge⟩

theorem Stacked.enter
    (stacked : Stacked successors search (⟨node, target :: waiting⟩ :: callers) search.stack)
    (coherent : Coherent successors search) (fresh : search.index.get? target = none) :
    Stacked successors (search.enter target)
      (⟨target, successors target⟩ :: ⟨node, waiting⟩ :: callers) (search.enter target).stack := by
  obtain ⟨offStack, _⟩ := coherent.notMem_of_fresh fresh
  have kept : Stacked successors (search.enter target) (⟨node, target :: waiting⟩ :: callers)
      search.stack := stacked.congr (get?_enter fresh) fun other member => by
    have different : other ≠ target := fun same => offStack (same ▸ member)
    simp [DepthSearch.enter, different]
  obtain ⟨newer, older, bound, shape, segment, edge, below⟩ := kept
  refine ⟨[], search.stack, _, rfl, segment_enter successors search target _, ?_, ?_⟩
  · intro caller first
    cases first
    exact segment.waiting target List.mem_cons_self
  · have known : (search.enter target).index.get? target = some search.next := by
      simp [DepthSearch.enter]
    refine ⟨newer, older, bound, shape, segment.advance known fun under => ?_, edge, below⟩
    exact absurd (shape ▸ List.mem_append_right _ (List.mem_cons_of_mem _ under)) offStack

/-! ## Leaving a node -/

/-- The segment of a node that leads back to its caller becomes part of that of the caller, whose
bound is as low already. -/
theorem Segment.join {newerBelow olderBelow : List ν} {lower : Nat}
    (caller : Segment successors search visit newerBelow olderBelow lower)
    (segment : Segment successors other ⟨node, []⟩ newer (newerBelow ++ visit.node :: olderBelow)
      bound) (index : other.index = search.index) (least : lower ≤ bound)
    (there : Walk successors visit.node node) (back : Walk successors node visit.node) :
    Segment successors search visit (newer ++ node :: newerBelow) olderBelow lower := by
  refine { caller with connected := ?_, looked := ?_ }
  · intro above member
    rcases List.mem_append.mp member with member | member
    · exact (segment.connected above member).trans ⟨back, there⟩
    · rcases List.mem_cons.mp member with rfl | member
      · exact ⟨back, there⟩
      · exact caller.connected above member
  · intro origin member target leads
    have old : origin ∈ visit.node :: newerBelow ∨ origin ∈ node :: newer := by
      simp only [List.mem_cons, List.mem_append] at member ⊢
      tauto
    rcases old with old | old
    · exact caller.looked origin old target leads
    · rcases segment.looked origin old target leads with ⟨_, waits⟩ | ⟨place, seen, bounded⟩
      · cases waits
      · refine .inr ⟨place, index ▸ seen, fun deepest => ?_⟩
        exact Nat.le_trans least
          (bounded (List.mem_append_right _ (List.mem_cons_of_mem _ deepest)))

/-- A node that is left and reaches an older one is joined to the segment of its caller. -/
theorem Stacked.join
    (stacked : Stacked successors search (⟨node, []⟩ :: visit :: callers) search.stack)
    (coherent : Coherent successors search) (stored : search.low.get? node = some bound)
    (own : search.index.get? node = some number) (raised : bound ≠ number) :
    Stacked successors (search.lower visit.node bound) (visit :: callers) search.stack := by
  obtain ⟨newer, older, _, shape, segment, edge, below⟩ := stacked
  obtain rfl := Option.some.inj (stored.symm.trans segment.stored)
  obtain ⟨lowest, member, found, walk⟩ := segment.reached
  have under : lowest ∈ older := by
    refine (List.mem_cons.mp member).resolve_left ?_
    rintro rfl
    exact raised (Option.some.inj (found.symm.trans own))
  -- the older node leads back to the caller, whose successor the node is
  have back : Walk successors node visit.node := walk.trans (below.walk under)
  have there : Walk successors visit.node node := .single (edge visit rfl)
  obtain ⟨newerBelow, olderBelow, callerBound, rfl, caller, callerEdge, deeper⟩ := below
  have deep : search.stack = (newer ++ node :: newerBelow) ++ visit.node :: olderBelow := by
    rw [shape]
    simp
  obtain ⟨callerNumber, callerOwn⟩ :=
    coherent.exists_number (deep ▸ List.mem_append_right _ List.mem_cons_self)
  have lowered := caller.lower bound fun less => by
    refine ⟨lowest, ?_, found, there.trans walk⟩
    refine (List.mem_append.mp under).resolve_left fun above => ?_
    have larger := (coherent.ordered deep callerOwn).1 lowest (by simp [above]) bound found
    have bounded := caller.bound_le coherent deep callerOwn
    omega
  refine ⟨newer ++ node :: newerBelow, olderBelow, min callerBound bound, deep,
    lowered.join segment rfl (Nat.min_le_right _ _) there back, callerEdge, ?_⟩
  refine deeper.congr (fun _ _ found => found) fun other member => get?_lower_of_ne ?_
  rintro rfl
  exact (coherent.split deep).2.1 member

/-! ## Completing a component -/

theorem cut_append (absent : node ∉ newer) :
    cut node (newer ++ node :: older) = (newer ++ [node], older) := by
  induction newer with
  | nil => simp [cut]
  | cons top rest ih =>
    obtain ⟨different, absent⟩ := not_or.mp (mt List.mem_cons.mpr absent)
    simp [cut, ih absent, Ne.symm different]

/-- A completed component consists of the node and those above it. -/
theorem complete_eq (shape : search.stack = newer ++ node :: older) (absent : node ∉ newer) :
    search.complete node = { search with
      stack := older
      onStack := search.onStack.filter (!(newer ++ [node]).contains ·)
      found := search.found ++ [newer ++ [node]] } := by
  rw [DepthSearch.complete, shape, cut_append absent]

/-- From a segment that is bounded by the number of its own node, edges only lead to itself and to
components that have been found. -/
theorem Segment.closed (segment : Segment successors search ⟨node, []⟩ newer older number)
    (coherent : Coherent successors search) (shape : search.stack = newer ++ node :: older)
    (own : search.index.get? node = some number) :
    ∀ origin ∈ (newer ++ [node]) ++ search.found.flatten, ∀ target ∈ successors origin,
      target ∈ (newer ++ [node]) ++ search.found.flatten := by
  intro origin member target edge
  rcases List.mem_append.mp member with inside | found
  · have inside : origin ∈ node :: newer := by simpa [or_comm] using inside
    rcases segment.looked origin inside target edge with ⟨_, waits⟩ | ⟨place, known, bounded⟩
    · cases waits
    · rcases (coherent.entered target).mp (Table.contains_iff.mpr ⟨place, known⟩) with on | found
      · have notUnder : target ∉ older := fun under => by
          have less := (coherent.ordered shape own).2 target under place known
          have respects := bounded under
          omega
        rw [shape] at on
        simp only [List.mem_append, List.mem_cons, notUnder, or_false, List.not_mem_nil] at on ⊢
        exact .inl on
      · exact List.mem_append_right _ found
  · exact List.mem_append_right _ (coherent.closed origin found target edge)

/-- A segment that is bounded by the number of its own node is a component. -/
theorem Segment.mem_iff (segment : Segment successors search ⟨node, []⟩ newer older number)
    (coherent : Coherent successors search) (shape : search.stack = newer ++ node :: older)
    (own : search.index.get? node = some number) {first second : ν}
    (member : first ∈ newer ++ [node]) :
    second ∈ newer ++ [node] ↔ Mutual successors first second := by
  have central {other : ν} (inside : other ∈ newer ++ [node]) : Mutual successors other node := by
    rcases List.mem_append.mp inside with above | here
    · exact segment.connected other above
    · rw [List.mem_singleton.mp here]
      exact .refl _ _
  constructor
  · exact fun inside => (central member).trans (central inside).symm
  · rintro ⟨there, back⟩
    have kept := there.stays (segment.closed coherent shape own) (List.mem_append_left _ member)
    refine (List.mem_append.mp kept).resolve_right fun found => ?_
    -- no edge leads from a component that has been found back to the stack
    have backFound := back.stays coherent.closed found
    have onStack : first ∈ search.stack := by
      rw [shape]
      simp only [List.mem_append, List.mem_cons, List.not_mem_nil, or_false] at member ⊢
      tauto
    exact (List.nodup_append.mp coherent.once).2.2 first onStack first backFound rfl

theorem Coherent.complete (coherent : Coherent successors search)
    (segment : Segment successors search ⟨node, []⟩ newer older number)
    (shape : search.stack = newer ++ node :: older)
    (own : search.index.get? node = some number) :
    Coherent successors (search.complete node) := by
  obtain ⟨absent, notUnder, apart⟩ := coherent.split shape
  rw [complete_eq shape absent]
  have moved : (older ++ (search.found ++ [newer ++ [node]]).flatten).Perm
      (search.stack ++ search.found.flatten) := by
    rw [shape, List.perm_iff_count]
    intro other
    simp only [List.flatten_append, List.flatten_singleton, List.count_append, List.count_cons,
      List.count_nil]
    omega
  exact {
    below := coherent.below
    entered := fun other => by
      rw [coherent.entered, ← List.mem_append, ← List.mem_append, moved.mem_iff]
    newestFirst := by
      have descending := coherent.newestFirst
      rw [shape] at descending
      exact (List.pairwise_cons.mp (List.pairwise_append.mp descending).2.1).2
    once := moved.nodup_iff.mpr coherent.once
    onStack := fun other => by
      have above : other ∈ newer → other ∉ older := apart other
      have same : other = node → other ∉ older := fun same => same ▸ notUnder
      simp only [List.mem_filter, coherent.onStack, shape, Bool.not_eq_true', List.contains_eq_mem,
        decide_eq_false_iff_not, List.mem_append, List.mem_cons, List.not_mem_nil, or_false]
      tauto
    closed := by
      have closed := segment.closed coherent shape own
      simpa only [List.flatten_append, List.flatten_singleton, List.mem_append, or_comm]
        using closed
    components := by
      intro component member
      rcases List.mem_append.mp member with old | new
      · exact coherent.components component old
      · rw [List.mem_singleton.mp new]
        exact ⟨by simp, fun first inside second => segment.mem_iff coherent shape own inside⟩ }

theorem Stacked.lower_of_above {rest : List (Visit ν)}
    (stacked : Stacked successors search (visit :: rest) older)
    (coherent : Coherent successors search) (shape : search.stack = newer ++ node :: older)
    (own : search.index.get? node = some number) :
    Stacked successors (search.lower visit.node number) (visit :: rest) older ∧
      (search.lower visit.node number).low.get? node = search.low.get? node := by
  obtain ⟨_, notUnder, _⟩ := coherent.split shape
  obtain ⟨newerBelow, olderBelow, bound, rfl, segment, _, _⟩ := id stacked
  have under : visit.node ∈ newerBelow ++ visit.node :: olderBelow :=
    List.mem_append_right _ List.mem_cons_self
  have deep : search.stack = (newer ++ node :: newerBelow) ++ visit.node :: olderBelow := by
    rw [shape]
    simp
  obtain ⟨place, found⟩ :=
    coherent.exists_number (deep ▸ List.mem_append_right _ List.mem_cons_self)
  have bounded := segment.bound_le coherent deep found
  have less := (coherent.ordered shape own).2 visit.node under place found
  refine ⟨stacked.congr (fun _ _ found => found) fun other _ => ?_, get?_lower_of_ne ?_⟩
  · by_cases same : other = visit.node
    · have least : min bound number = bound := by omega
      simp [same, DepthSearch.lower, segment.stored, least]
    · exact get?_lower_of_ne same
  · rintro rfl
    exact notUnder under

/-- A visit that has ended is left without fail, and what remains of the stack belongs to the other
visits. -/
theorem Stacked.leave
    (stacked : Stacked successors search (⟨node, []⟩ :: callers) search.stack)
    (coherent : Coherent successors search) :
    ∃ left, search.leave? node (callers.head?.map Visit.node) = some left ∧
      Coherent successors left ∧ Stacked successors left callers left.stack := by
  obtain ⟨newer, older, bound, shape, segment, edge, below⟩ := id stacked
  replace shape : search.stack = newer ++ node :: older := shape
  have stored : search.low.get? node = some bound := segment.stored
  obtain ⟨number, own⟩ :=
    coherent.exists_number (shape ▸ List.mem_append_right _ List.mem_cons_self)
  obtain ⟨absent, _, _⟩ := coherent.split shape
  cases callers with
  | nil =>
    -- without an older node the bound is the number of the node itself
    obtain rfl : older = [] := below
    obtain ⟨lowest, member, found, _⟩ := segment.reached
    obtain rfl := List.mem_singleton.mp member
    obtain rfl : bound = number := Option.some.inj (found.symm.trans own)
    refine ⟨search.complete lowest, ?_, coherent.complete segment shape own, ?_⟩
    · simp [leave?, stored, own]
    · rw [complete_eq shape absent]
      rfl
  | cons caller rest =>
    by_cases highest : bound = number
    · subst highest
      obtain ⟨lowered, kept⟩ := below.lower_of_above coherent shape own
      have segment : Segment successors (search.lower caller.node bound) ⟨node, []⟩ newer older
          bound := segment.congr (fun _ _ found => found) kept
      refine ⟨(search.lower caller.node bound).complete node, ?_,
        (coherent.lower _ _).complete segment shape own, ?_⟩
      · simp [leave?, stored, own]
      · have same : (search.lower caller.node bound).stack = newer ++ node :: older := shape
        rw [complete_eq same absent]
        exact lowered.congr (fun _ _ found => found) fun _ _ => rfl
    · refine ⟨search.lower caller.node bound, ?_, coherent.lower _ _,
        stacked.join coherent stored own highest⟩
      simp [leave?, stored, own, highest]

end Turns

end DepthSearch
end LiveQuery
