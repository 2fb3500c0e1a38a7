import LiveQuery.Proofs.Plan.Tree

/-!
# Outlines of sub-plans

The outline of a sub-plan lists the operations below it, each with what the steps that it reads
show.  From it follow the first steps that the sub-plan starts from (`Arena.leaves`), how often it
joins (`Arena.joins`), and how often without a common variable (`Arena.products`).  A sub-plan that
is built in the right way joins once less than it has first steps (`Built.joins_add_one`), and
depends on exactly the variables that these supply (`Built.touches_iff`).
-/

namespace LiveQuery

/-- The variables that a first step supplies. -/
def Operation.supplies (body : Body) : Operation → OrderedSet VarId
  | .input subjects => .ofList subjects
  | .enumerate constraint => body.variablesOf constraint
  | _ => .empty

/-- An operation with what the steps that it reads show. -/
structure OutlineEntry where
  operation : Operation
  shown : List (OrderedSet VarId)

namespace OutlineEntry

/-- The operation reads no other step. -/
def isLeaf (entry : OutlineEntry) : Bool := entry.operation.children.isEmpty

def isJoin (entry : OutlineEntry) : Bool :=
  match entry.operation with
  | .join .. => true
  | _ => false

/-- The operation joins steps that show no common variable. -/
def isProduct (entry : OutlineEntry) : Bool :=
  match entry.operation, entry.shown with
  | .join .., [first, second] => (first.inter second).isEmpty
  | _, _ => false

end OutlineEntry

namespace Arena

variable {arena : Arena} {body : Body} {operation : Operation} {id child : SubPlanId}

def entryAt (arena : Arena) (id : SubPlanId) : Option OutlineEntry :=
  (arena.get? id).map fun step => ⟨step.operation, step.operation.children.map arena.visible⟩

/-- The operations below a sub-plan, each after those that it reads. -/
def outline (arena : Arena) (id : SubPlanId) : List OutlineEntry :=
  (arena.postOrder id).filterMap arena.entryAt

/-- The first steps that a sub-plan starts from. -/
def leaves (arena : Arena) (id : SubPlanId) : List Operation :=
  ((arena.outline id).filter OutlineEntry.isLeaf).map OutlineEntry.operation

/-- How often the steps below a sub-plan join. -/
def joins (arena : Arena) (id : SubPlanId) : Nat := (arena.outline id).countP OutlineEntry.isJoin

/-- How often the steps below a sub-plan join without a common variable. -/
def products (arena : Arena) (id : SubPlanId) : Nat :=
  (arena.outline id).countP OutlineEntry.isProduct

/-! ## Growing arenas -/

/-- All steps below a sub-plan, and all that they read, are there. -/
def Closed (arena : Arena) (id : SubPlanId) : Prop :=
  ∀ below ∈ arena.postOrder id, ∃ step, arena.get? below = some step ∧
    ∀ child ∈ step.operation.children, ∃ read, arena.get? child = some read

theorem Closed.exists_step (closed : arena.Closed id) : ∃ step, arena.get? id = some step := by
  obtain ⟨step, found, _⟩ := closed id (self_mem_postOrder arena id)
  exact ⟨step, found⟩

theorem Closed.push (closed : arena.Closed id) (body : Body) (operation : Operation) :
    (arena.push body operation).1.Closed id := by
  obtain ⟨_, there⟩ := closed.exists_step
  intro below listed
  rw [postOrder_push there] at listed
  obtain ⟨step, found, known⟩ := closed below listed
  refine ⟨step, get?_push_of_get? found body operation, fun child member => ?_⟩
  obtain ⟨read, readFound⟩ := known child member
  exact ⟨read, get?_push_of_get? readFound body operation⟩

theorem Closed.push_new (body : Body) (closed : ∀ child ∈ operation.children, arena.Closed child) :
    (arena.push body operation).1.Closed (arena.push body operation).2 := by
  have known : ∀ child ∈ operation.children, ∃ step, arena.get? child = some step :=
    fun child member => (closed child member).exists_step
  intro below listed
  rw [postOrder_push_new body known] at listed
  rcases List.mem_append.mp listed with listed | listed
  · obtain ⟨child, member, below_⟩ := List.mem_flatMap.mp listed
    obtain ⟨_, there⟩ := known child member
    refine (closed child member).push body operation below ?_
    rwa [postOrder_push there]
  · obtain rfl := List.mem_singleton.mp listed
    refine ⟨_, get?_push_new arena body operation, fun child member => ?_⟩
    rw [operation_describe] at member
    obtain ⟨step, found⟩ := known child member
    exact ⟨step, get?_push_of_get? found body operation⟩

/-- A sub-plan stays as it is when more steps are built. -/
theorem outline_push (closed : arena.Closed id) (body : Body) (operation : Operation) :
    (arena.push body operation).1.outline id = arena.outline id := by
  obtain ⟨_, there⟩ := closed.exists_step
  unfold outline
  rw [postOrder_push there]
  refine List.filterMap_congr fun below listed => ?_
  obtain ⟨step, found, known⟩ := closed below listed
  unfold entryAt
  rw [found, get?_push_of_get? found]
  refine congrArg (fun shown => some (OutlineEntry.mk step.operation shown))
    (List.map_congr_left fun child member => ?_)
  obtain ⟨_, read⟩ := known child member
  exact visible_push read body operation

/-- Below a step there is what is below the steps that it reads, and the step itself. -/
theorem outline_of_found (found : arena.get? id = some (arena.describe body operation))
    (earlier : ∀ child ∈ operation.children, child.index < id.index) :
    arena.outline id = operation.children.flatMap arena.outline ++
      [⟨operation, operation.children.map arena.visible⟩] := by
  have children : arena.childrenOf id = operation.children := by
    rw [childrenOf, found, Option.map_some, operation_describe]
    rfl
  have here : arena.entryAt id = some ⟨operation, operation.children.map arena.visible⟩ := by
    rw [entryAt, found, Option.map_some, operation_describe]
  unfold outline
  rw [postOrder_eq (by rwa [children]), children, List.filterMap_append, List.filterMap_flatMap,
    List.filterMap_cons_some here, List.filterMap_nil]

/-- Below a new step there is what is below the steps that it reads, and the step itself. -/
theorem outline_push_new (body : Body)
    (closed : ∀ child ∈ operation.children, arena.Closed child) :
    (arena.push body operation).1.outline (arena.push body operation).2 =
      operation.children.flatMap (arena.push body operation).1.outline ++
        [⟨operation, operation.children.map (arena.push body operation).1.visible⟩] := by
  have known : ∀ child ∈ operation.children, ∃ step, arena.get? child = some step :=
    fun child member => (closed child member).exists_step
  refine outline_of_found (get?_push_eq known) fun child member => ?_
  obtain ⟨_, there⟩ := known child member
  exact lt_size there

end Arena

/-! ## What steps count for -/

section Counts

variable {arena : Arena} {operation : Operation} {id : SubPlanId}
  (unfolded : arena.outline id = operation.children.flatMap arena.outline ++
    [⟨operation, operation.children.map arena.visible⟩])

include unfolded

theorem Arena.counts_leaf (alone : operation.children = []) :
    arena.leaves id = [operation] ∧ arena.joins id = 0 ∧ arena.products id = 0 := by
  unfold leaves joins products
  rw [unfolded, alone]
  cases operation <;> first | exact ⟨rfl, rfl, rfl⟩ | cases alone

theorem Arena.counts_over {child : SubPlanId} (reads : operation.children = [child]) :
    arena.leaves id = arena.leaves child ∧ arena.joins id = arena.joins child ∧
      arena.products id = arena.products child := by
  have leaf : OutlineEntry.isLeaf ⟨operation, [arena.visible child]⟩ = false := by
    simp [OutlineEntry.isLeaf, reads]
  have join : OutlineEntry.isJoin ⟨operation, [arena.visible child]⟩ = false := by
    cases operation <;> first | rfl | cases reads
  have product : OutlineEntry.isProduct ⟨operation, [arena.visible child]⟩ = false := by
    cases operation <;> rfl
  unfold leaves joins products
  rw [unfolded, reads]
  simp [leaf, join, product]

end Counts

theorem Arena.counts_push {arena : Arena} {operation : Operation} {child : SubPlanId} (body : Body)
    (closed : arena.Closed child) (reads : operation.children = [child]) :
    let pushed := arena.push body operation
    pushed.1.leaves pushed.2 = arena.leaves child ∧ pushed.1.joins pushed.2 = arena.joins child ∧
      pushed.1.products pushed.2 = arena.products child := by
  have children : ∀ other ∈ operation.children, arena.Closed other := by simpa [reads] using closed
  have counts := counts_over (outline_push_new body children) reads
  unfold leaves joins products at counts ⊢
  rwa [outline_push closed] at counts

theorem Arena.counts_first {arena : Arena} {body : Body} {operation : Operation} {id : SubPlanId}
    (found : arena.get? id = some (arena.describe body operation))
    (alone : operation.children = []) :
    arena.leaves id = [operation] ∧ arena.joins id = 0 ∧ arena.products id = 0 :=
  counts_leaf (outline_of_found found (by simp [alone])) alone

theorem Arena.counts_join {arena : Arena} {id primary secondary : SubPlanId}
    (unfolded : arena.outline id = [primary, secondary].flatMap arena.outline ++
      [⟨.join primary secondary, [primary, secondary].map arena.visible⟩]) :
    arena.leaves id = arena.leaves primary ++ arena.leaves secondary ∧
      arena.joins id = arena.joins primary + arena.joins secondary + 1 ∧
      arena.products id = arena.products primary + arena.products secondary +
        if ((arena.visible primary).inter (arena.visible secondary)).isEmpty then 1 else 0 := by
  unfold leaves joins products
  rw [unfolded]
  by_cases apart : ((arena.visible primary).inter (arena.visible secondary)).isEmpty = true <;>
    simp [OutlineEntry.isLeaf, OutlineEntry.isJoin, OutlineEntry.isProduct, Operation.children,
      List.countP_cons, Nat.add_assoc, apart]

/-! ## Steps that are built in the right way -/

section Built

variable {body : Body} {inputs : List VarId} {arena : Arena} {supplied : Prop} {id : SubPlanId}

theorem Built.closed (built : Built body inputs arena supplied id) : arena.Closed id := by
  intro below listed
  obtain ⟨_, belowBuilt⟩ := built.of_mem_postOrder listed
  obtain ⟨operation, found, children⟩ := belowBuilt.children
  refine ⟨_, found, fun child member => ?_⟩
  rw [Arena.operation_describe] at member
  obtain ⟨_, _, childBuilt⟩ := children child member
  exact childBuilt.exists_step

theorem Built.joins_add_one (built : Built body inputs arena supplied id) :
    arena.joins id + 1 = (arena.leaves id).length := by
  induction built with
  | start found =>
    obtain ⟨leaves, joins, _⟩ := Arena.counts_first found rfl
    rw [leaves, joins, List.length_singleton]
  | input found =>
    obtain ⟨leaves, joins, _⟩ := Arena.counts_first found rfl
    rw [leaves, joins, List.length_singleton]
  | enumerate found _ _ =>
    obtain ⟨leaves, joins, _⟩ := Arena.counts_first found rfl
    rw [leaves, joins, List.length_singleton]
  | apply found earlier _ _ _ _ ih =>
    obtain ⟨leaves, joins, _⟩ := Arena.counts_over
      (Arena.outline_of_found found (by simpa [Operation.children] using earlier)) rfl
    rw [leaves, joins, ih]
  | join found earlier _ _ _ leftIh rightIh =>
    obtain ⟨leaves, joins, _⟩ := Arena.counts_join
      (Arena.outline_of_found found (by simpa [Operation.children] using earlier))
    rw [leaves, joins, List.length_append]
    omega
  | trim found earlier _ _ ih =>
    obtain ⟨leaves, joins, _⟩ := Arena.counts_over
      (Arena.outline_of_found found (by simpa [Operation.children] using earlier)) rfl
    rw [leaves, joins, ih]

/-- A step depends on the variables that its first steps supply: constraints are applied where their
variables are shown. -/
theorem Built.touches_iff (built : Built body inputs arena supplied id) (subject : VarId) :
    Touches body inputs arena supplied id subject ↔
      ∃ leaf ∈ arena.leaves id, subject ∈ leaf.supplies body := by
  unfold Touches
  induction built with
  | start found =>
    obtain ⟨leaves, _⟩ := Arena.counts_first found rfl
    rw [leaves, Arena.enforced_of_get? found]
    simp [Arena.describe, Operation.supplies, OrderedSet.notMem_empty]
  | input found =>
    obtain ⟨leaves, _⟩ := Arena.counts_first found rfl
    rw [leaves, Arena.enforced_of_get? found]
    simp [Arena.describe, Operation.supplies, OrderedSet.notMem_empty, OrderedSet.mem_ofList]
  | enumerate found _ _ =>
    obtain ⟨leaves, _⟩ := Arena.counts_first found rfl
    rw [leaves, Arena.enforced_of_get? found]
    simp [Arena.describe, Operation.supplies, OrderedSet.mem_singleton]
  | @apply id child place constraint supplied found earlier below known _ shown ih =>
    obtain ⟨leaves, _⟩ := Arena.counts_over
      (Arena.outline_of_found found (by simpa [Operation.children] using earlier)) rfl
    rw [leaves, ← ih, Arena.enforced_of_get? found]
    refine ⟨?_, ?_⟩
    · rintro (⟨other, member, touched⟩ | given)
      · rcases OrderedSet.mem_insert.mp member with rfl | member
        · exact below.touches (shown subject ((Body.mem_variablesOf known).mp touched))
        · exact .inl ⟨other, member, touched⟩
      · exact .inr given
    · rintro (⟨other, member, touched⟩ | given)
      · exact .inl ⟨other, OrderedSet.mem_insert.mpr (.inr member), touched⟩
      · exact .inr given
  | @join id primary secondary first second found earlier _ _ _ leftIh rightIh =>
    obtain ⟨leaves, _⟩ := Arena.counts_join
      (Arena.outline_of_found found (by simpa [Operation.children] using earlier))
    have both : (∃ leaf ∈ arena.leaves primary ++ arena.leaves secondary,
        subject ∈ leaf.supplies body) ↔
          (∃ leaf ∈ arena.leaves primary, subject ∈ leaf.supplies body) ∨
            ∃ leaf ∈ arena.leaves secondary, subject ∈ leaf.supplies body := by
      simp only [List.mem_append, or_and_right, exists_or]
    rw [leaves, both, ← leftIh, ← rightIh, Arena.enforced_of_get? found]
    simp only [Arena.describe, OrderedSet.mem_union, or_and_right, exists_or]
    exact or_or_or_comm
  | trim found earlier _ _ ih =>
    obtain ⟨leaves, _⟩ := Arena.counts_over
      (Arena.outline_of_found found (by simpa [Operation.children] using earlier)) rfl
    rw [leaves, ← ih, Arena.enforced_of_get? found]
    rfl

end Built
end LiveQuery
