import LiveQuery.Proofs.Plan.PostOrder

/-!
# Verified plans

What `verify` accepts, told without the order in which it looks for defects: the references of every
step lead somewhere (`Plan.Grounded`), the bookkeeping of every step fits that of its children
(`Plan.Consistent`), and the root projects onto the parameters (`Plan.verify_eq_ok_iff`).  The steps
of a plan are all sub-plans below the root (`children_mem_postOrder`).

A plan is verified if it projects a step that was built in the right way onto the parameters and
that step shows them all (`verify_of_built`).  What a built step enforces are constraints of the
body, and what it shows are variables that these or the inputs bind (`bound_of_touches`), so its
references lead somewhere (`grounded_of_built`).  Its bookkeeping fits because it was described when
it was built, by the same rules that `verify` goes by (`consistent_of_built`).
-/

namespace LiveQuery

/-! ## What is verified -/

namespace Plan

/-- The step and everything that it refers to exist, and its children come before it. -/
def Grounded (plan : Plan) (step : SubPlanId) : Prop :=
  ∃ subPlan, plan.get? step = some subPlan ∧
    (∀ child ∈ subPlan.operation.children, child.index < step.index) ∧
    (∀ constraint ∈ subPlan.operation.constraint?.toList ++ subPlan.enforced.toList,
      constraint.index < plan.body.constraints.length) ∧
    ∀ subject ∈ subPlan.operation.listed ++ subPlan.visible.toList,
      subject.index < plan.body.names.length

/-- A step enforces what a child enforces.  It shows less than the child if it narrows it, and no
less otherwise. -/
structure Extends (plan : Plan) (step : SubPlanId) (narrows : Bool) (child : SubPlanId) : Prop where
  enforced : ∀ constraint ∈ plan.arena.enforced child, constraint ∈ plan.arena.enforced step
  narrowed : narrows = true →
    ∀ subject ∈ plan.arena.visible step, subject ∈ plan.arena.visible child
  kept : narrows = false →
    ∀ subject ∈ plan.arena.visible child, subject ∈ plan.arena.visible step

/-- The variables shown are bound, and the bookkeeping fits that of the children. -/
def Consistent (plan : Plan) (step : SubPlanId) : Prop :=
  (∀ subject ∈ plan.arena.visible step, subject ∈ plan.bound step) ∧
    ∀ operation, plan.operation? step = some operation →
      ∀ child ∈ operation.children, plan.Extends step operation.narrows child

variable {plan : Plan} {step child : SubPlanId} {narrows : Bool}

theorem referenceDefect?_eq_none_iff : plan.referenceDefect? step = none ↔ plan.Grounded step := by
  unfold referenceDefect? Grounded
  cases plan.get? step with
  | none => simp
  | some subPlan =>
    simp only [Option.or_eq_none_iff, Option.map_eq_none_iff, List.find?_eq_none,
      decide_eq_true_eq, Nat.not_le, Option.some.injEq, exists_eq_left']

theorem childDefect?_eq_none_iff :
    plan.childDefect? step narrows child = none ↔ plan.Extends step narrows child := by
  unfold childDefect?
  constructor
  · intro none_
    cases narrows <;> grind [OrderedSet.isSubset_iff, Extends]
  · rintro ⟨enforced, narrowed, kept⟩
    rw [← OrderedSet.isSubset_iff] at enforced
    cases narrows with
    | true => simp [enforced, OrderedSet.isSubset_iff.mpr (narrowed rfl)]
    | false => simp [enforced, OrderedSet.isSubset_iff.mpr (kept rfl)]

theorem bookkeepingDefect?_eq_none_iff :
    plan.bookkeepingDefect? step = none ↔ plan.Consistent step := by
  unfold bookkeepingDefect? Consistent
  simp only [Option.or_eq_none_iff, Option.map_eq_none_iff, List.find?_eq_none, OrderedSet.contains,
    Bool.not_eq_true', decide_eq_false_iff_not, not_not, Option.bind_eq_none_iff,
    List.findSome?_eq_none_iff, childDefect?_eq_none_iff, OrderedSet.mem_toList]

theorem rootDefect?_eq_none_iff : plan.rootDefect? = none ↔
    ∃ child, plan.operation? plan.root = some (.project child plan.body.parameters) := by
  unfold rootDefect?
  split
  next child parameters found =>
    rw [found]
    by_cases same : parameters = plan.body.parameters
    · simp [same]
    · simp [same]
  next other =>
    constructor
    · intro none_
      cases none_
    · rintro ⟨child, found⟩
      exact absurd found (other child _)

/-- What a verified plan is. -/
theorem verify_eq_ok_iff : plan.verify = .ok () ↔
    (∀ step ∈ plan.steps, plan.Grounded step) ∧ (∀ step ∈ plan.steps, plan.Consistent step) ∧
      ∃ child, plan.operation? plan.root = some (.project child plan.body.parameters) := by
  have defects : plan.verify = .ok () ↔ plan.defect? = none := by
    unfold verify
    cases plan.defect? <;> simp
  rw [defects, defect?]
  simp only [Option.or_eq_none_iff, List.findSome?_eq_none_iff, referenceDefect?_eq_none_iff,
    bookkeepingDefect?_eq_none_iff, rootDefect?_eq_none_iff]

end Plan

/-! ## Bodies without defects -/

namespace Body

variable {body : Body} {subject : VarId}

theorem knows_argument {constraint : Constraint} (member : constraint ∈ body.constraints)
    (argument : subject ∈ constraint.arguments) : subject.index < body.names.length := by
  have sound := body.sound
  unfold Draft.defect? at sound
  have none_ := (Option.or_eq_none_iff.mp sound).1
  rw [List.findSome?_eq_none_iff] at none_
  obtain ⟨place, inside, here⟩ := List.mem_iff_getElem.mp member
  have defect := none_ (constraint, place)
    (List.mem_zipIdx_iff_getElem?.mpr (by simp [here, inside]))
  unfold Draft.constraintDefect? at defect
  dsimp only at defect
  split at defect
  · cases defect
  next known =>
    have all : ∀ argument ∈ constraint.arguments, body.knows argument = true := by simpa using known
    exact of_decide_eq_true (all subject argument)

theorem knows_parameter (parameter : subject ∈ body.parameters) :
    subject.index < body.names.length := by
  have sound := body.sound
  unfold Draft.defect? at sound
  have none_ := (Option.or_eq_none_iff.mp sound).2
  rw [List.findSome?_eq_none_iff] at none_
  obtain ⟨place, inside, here⟩ := List.mem_iff_getElem.mp parameter
  have defect := none_ (subject, place) (List.mem_zipIdx_iff_getElem?.mpr (by simp [here, inside]))
  unfold Draft.parameterDefect? at defect
  dsimp only at defect
  split at defect
  · cases defect
  next known => simpa [Draft.knows] using known

theorem knows_variable {place : ConstraintId} (member : subject ∈ body.variablesOf place) :
    subject.index < body.names.length := by
  unfold variablesOf at member
  cases known : body.constraint? place with
  | none =>
    rw [known] at member
    exact absurd member OrderedSet.notMem_empty
  | some constraint =>
    rw [known] at member
    exact knows_argument (List.mem_of_getElem? known) (Constraint.mem_subjects.mp member)

end Body

/-! ## Built plans -/

section Built

variable {body : Body} {inputs : List VarId} {arena : Arena} {supplied : Prop}
  {id root : SubPlanId}

theorem Built.known (built : Built body inputs arena supplied id) :
    ∀ place ∈ arena.enforced id, place.index < body.constraints.length := by
  have inside {place : ConstraintId} {constraint : Constraint}
      (known : body.constraint? place = some constraint) :
      place.index < body.constraints.length := (List.getElem?_eq_some_iff.mp known).1
  induction built with
  | start found =>
    rw [Arena.enforced_of_get? found]
    exact fun _ member => absurd member OrderedSet.notMem_empty
  | input found =>
    rw [Arena.enforced_of_get? found]
    exact fun _ member => absurd member OrderedSet.notMem_empty
  | enumerate found known role =>
    rw [Arena.enforced_of_get? found]
    intro place member
    obtain rfl := OrderedSet.mem_singleton.mp member
    exact inside known
  | apply found _ _ known _ _ ih =>
    rw [Arena.enforced_of_get? found]
    intro place member
    rcases OrderedSet.mem_insert.mp member with rfl | member
    · exact inside known
    · exact ih place member
  | join found _ _ _ _ leftIh rightIh =>
    rw [Arena.enforced_of_get? found]
    intro place member
    exact (OrderedSet.mem_union.mp member).elim (leftIh place) (rightIh place)
  | trim found _ _ _ ih =>
    rw [Arena.enforced_of_get? found]
    exact ih

theorem Built.children (built : Built body inputs arena supplied id) :
    ∃ operation, arena.get? id = some (arena.describe body operation) ∧
      ∀ child ∈ operation.children, child.index < id.index ∧
        ∃ given, Built body inputs arena given child := by
  cases built with
  | start found => exact ⟨_, found, by simp [Operation.children]⟩
  | input found => exact ⟨_, found, by simp [Operation.children]⟩
  | enumerate found known role => exact ⟨_, found, by simp [Operation.children]⟩
  | apply found earlier below _ _ _ =>
    refine ⟨_, found, fun child member => ?_⟩
    obtain rfl := List.mem_singleton.mp member
    exact ⟨earlier, _, below⟩
  | join found earlier left right _ =>
    refine ⟨_, found, fun child member => ?_⟩
    rcases List.mem_cons.mp member with rfl | member
    · exact ⟨earlier.1, _, left⟩
    · obtain rfl := List.mem_singleton.mp member
      exact ⟨earlier.2, _, right⟩
  | trim found earlier below _ =>
    refine ⟨_, found, fun child member => ?_⟩
    obtain rfl := List.mem_singleton.mp member
    exact ⟨earlier, _, below⟩

theorem Built.of_mem_postOrder (built : Built body inputs arena supplied id) {step : SubPlanId}
    (below : step ∈ arena.postOrder id) : ∃ given, Built body inputs arena given step := by
  induction place : id.index using Nat.strongRecOn generalizing id supplied with
  | _ place ih =>
    obtain ⟨operation, found, children⟩ := built.children
    rcases (Arena.mem_postOrder found).mp below with rfl | ⟨child, member, earlier, there⟩
    · exact ⟨_, built⟩
    · rw [Arena.operation_describe] at member
      obtain ⟨_, childBuilt⟩ := (children child member).2
      exact ih child.index (place ▸ earlier) childBuilt there rfl

/-- A built step that makes use of the supplied row has an input step below it. -/
theorem Built.exists_input (built : Built body inputs arena supplied id)
    (listed : id ∈ arena.postOrder root) (use : supplied) :
    ∃ step ∈ arena.postOrder root,
      arena.get? step = some (arena.describe body (.input inputs)) := by
  induction built with
  | start found => exact use.elim
  | input found => exact ⟨_, listed, found⟩
  | enumerate found known role => exact use.elim
  | apply found earlier _ _ _ _ ih =>
    exact ih (Arena.children_mem_postOrder listed found List.mem_cons_self earlier) use
  | join found earlier _ _ _ leftIh rightIh =>
    rcases use with use | use
    · exact leftIh (Arena.children_mem_postOrder listed found List.mem_cons_self earlier.1) use
    · exact rightIh (Arena.children_mem_postOrder listed found
        (List.mem_cons_of_mem _ List.mem_cons_self) earlier.2) use
  | trim found earlier _ _ ih =>
    exact ih (Arena.children_mem_postOrder listed found List.mem_cons_self earlier) use

end Built

namespace Plan

variable {plan : Plan} {inputs : List VarId} {supplied : Prop} {step last : SubPlanId}
  {subject : VarId}

theorem mem_supplied : subject ∈ plan.supplied ↔ ∃ step ∈ plan.steps, ∃ subjects,
    plan.operation? step = some (.input subjects) ∧ subject ∈ subjects := by
  unfold supplied
  rw [OrderedSet.mem_ofList, List.mem_flatMap]
  refine exists_congr fun step => and_congr_right fun _ => ?_
  split
  next subjects found => simp [found]
  next other =>
    constructor
    · exact fun nothing => absurd nothing List.not_mem_nil
    · rintro ⟨subjects, found, _⟩
      exact absurd found (other subjects)

theorem mem_bound : subject ∈ plan.bound step ↔ subject ∈ plan.supplied ∨
    ∃ place ∈ plan.arena.enforced step, subject ∈ plan.body.variablesOf place := by
  have all (places : List ConstraintId) (known : OrderedSet VarId) :
      subject ∈ places.foldl (fun known place => known.union (plan.body.variablesOf place)) known ↔
        subject ∈ known ∨ ∃ place ∈ places, subject ∈ plan.body.variablesOf place := by
    induction places generalizing known with
    | nil => simp
    | cons place rest ih =>
      rw [List.foldl_cons, ih, OrderedSet.mem_union]
      simp [or_assoc]
  exact all (plan.arena.enforced step).toList plan.supplied

/-- A built step of a plan binds what it depends on. -/
theorem bound_of_touches (built : Built plan.body inputs plan.arena supplied step)
    (listed : step ∈ plan.steps)
    (touched : Touches plan.body inputs plan.arena supplied step subject) :
    subject ∈ plan.bound step := by
  rw [mem_bound]
  rcases touched with enforced | ⟨use, given⟩
  · exact .inr enforced
  · obtain ⟨input, there, found⟩ := built.exists_input listed use
    exact .inl (mem_supplied.mpr ⟨input, there, inputs, operation?_of_get? found, given⟩)

/-- A step that was described refers to nothing unknown, if what it enforces and shows is known. -/
theorem grounded_of_described {operation : Operation}
    (found : plan.arena.get? step = some (plan.arena.describe plan.body operation))
    (earlier : ∀ child ∈ operation.children, child.index < step.index)
    (enforced : ∀ place ∈ plan.arena.enforced step, place.index < plan.body.constraints.length)
    (visible : ∀ subject ∈ plan.arena.visible step, subject.index < plan.body.names.length) :
    plan.Grounded step := by
  rw [Arena.enforced_of_get? found] at enforced
  rw [Arena.visible_of_get? found] at visible
  refine ⟨_, found, ?_, fun place member => enforced place ?_,
    fun subject member => visible subject ?_⟩
  · rwa [Arena.operation_describe]
  · rw [Arena.operation_describe] at member
    rcases List.mem_append.mp member with member | member
    · cases operation <;> simp_all [Operation.constraint?, Arena.describe]
    · exact member
  · rw [Arena.operation_describe] at member
    rcases List.mem_append.mp member with member | member
    · cases operation <;> simp_all [Operation.listed, Arena.describe, OrderedSet.mem_toList]
    · exact member

/-- The bookkeeping of a step that was described fits that of its children, if it shows nothing new
where it narrows them. -/
theorem extends_of_described {operation : Operation} {child : SubPlanId}
    (found : plan.arena.get? step = some (plan.arena.describe plan.body operation))
    (member : child ∈ operation.children)
    (narrowed : operation.narrows = true →
      ∀ subject ∈ plan.arena.visible step, subject ∈ plan.arena.visible child) :
    plan.Extends step operation.narrows child := by
  have enforced := Arena.enforced_of_get? found
  have visible := Arena.visible_of_get? found
  refine ⟨fun place before => ?_, narrowed, fun kept subject before => ?_⟩
  · rw [enforced]
    cases operation <;>
      grind [Operation.children, Arena.describe, OrderedSet.mem_insert, OrderedSet.mem_union]
  · rw [visible]
    cases operation <;>
      grind [Operation.children, Operation.narrows, Arena.describe, OrderedSet.mem_union]

theorem grounded_of_built (exported : ∀ subject ∈ inputs, subject ∈ plan.body.parameters)
    (built : Built plan.body inputs plan.arena supplied step) : plan.Grounded step := by
  obtain ⟨operation, found, children⟩ := built.children
  refine grounded_of_described found (fun child member => (children child member).1) built.known ?_
  intro subject shown
  rcases built.touches shown with ⟨place, _, touched⟩ | ⟨_, given⟩
  · exact Body.knows_variable touched
  · exact Body.knows_parameter (exported subject given)

theorem consistent_of_built (built : Built plan.body inputs plan.arena supplied step)
    (listed : step ∈ plan.steps) : plan.Consistent step := by
  refine ⟨fun subject shown => bound_of_touches built listed (built.touches shown), ?_⟩
  intro operation known child member
  have fits {other : Operation}
      (found : plan.arena.get? step = some (plan.arena.describe plan.body other))
      (narrowed : other.narrows = true → ∀ below ∈ other.children,
        ∀ subject ∈ plan.arena.visible step, subject ∈ plan.arena.visible below) :
      plan.Extends step operation.narrows child := by
    rw [operation?_of_get? found] at known
    cases known
    exact extends_of_described found member fun narrows => narrowed narrows child member
  cases built with
  | start found => exact fits found nofun
  | input found => exact fits found nofun
  | enumerate found _ _ => exact fits found nofun
  | apply found _ _ _ _ _ => exact fits found nofun
  | join found _ _ _ _ => exact fits found nofun
  | @trim _ below kept _ found _ _ shown =>
    refine fits found fun _ other member subject visible => ?_
    obtain rfl := List.mem_singleton.mp member
    rw [Arena.visible_of_get? found] at visible
    exact shown subject visible

/-- The projection of a built step onto the parameters makes a verified plan. -/
theorem verify_of_built
    (found : plan.arena.get? plan.root =
      some (plan.arena.describe plan.body (.project last plan.body.parameters)))
    (earlier : last.index < plan.root.index)
    (exported : ∀ subject ∈ inputs, subject ∈ plan.body.parameters)
    (built : Built plan.body inputs plan.arena supplied last)
    (shown : ∀ parameter ∈ plan.body.parameters, parameter ∈ plan.arena.visible last) :
    plan.verify = .ok () := by
  have enforced : plan.arena.enforced plan.root = plan.arena.enforced last :=
    Arena.enforced_of_get? found
  have visible : plan.arena.visible plan.root = .ofList plan.body.parameters :=
    Arena.visible_of_get? found
  have listed : last ∈ plan.steps := Arena.children_mem_postOrder
    (Arena.self_mem_postOrder plan.arena plan.root) found List.mem_cons_self earlier
  have below (step : SubPlanId) (member : step ∈ plan.steps) : step = plan.root ∨
      ∃ given, Built plan.body inputs plan.arena given step := by
    rcases (Arena.mem_postOrder found).mp member with same | ⟨child, child_, _, there⟩
    · exact .inl same
    · obtain rfl := List.mem_singleton.mp child_
      exact .inr (built.of_mem_postOrder there)
  refine verify_eq_ok_iff.mpr ⟨fun step member => ?_, fun step member => ?_,
    last, operation?_of_get? found⟩
  · rcases below step member with rfl | ⟨_, built⟩
    · refine grounded_of_described found (fun child member => ?_) ?_ ?_
      · obtain rfl := List.mem_singleton.mp member
        exact earlier
      · rw [enforced]
        exact built.known
      · rw [visible]
        exact fun subject member => Body.knows_parameter (OrderedSet.mem_ofList.mp member)
    · exact grounded_of_built exported built
  · rcases below step member with rfl | ⟨_, built⟩
    · have parameters (subject : VarId) (member : subject ∈ plan.arena.visible plan.root) :
          subject ∈ plan.arena.visible last := by
        rw [visible] at member
        exact shown subject (OrderedSet.mem_ofList.mp member)
      refine ⟨fun subject member => ?_, fun operation known child member => ?_⟩
      · have bound := bound_of_touches built listed (built.touches (parameters subject member))
        rw [mem_bound] at bound ⊢
        rwa [enforced]
      · rw [operation?_of_get? found] at known
        cases known
        refine extends_of_described found member fun _ => ?_
        obtain rfl := List.mem_singleton.mp member
        exact parameters
    · exact consistent_of_built built member

end Plan
end LiveQuery
