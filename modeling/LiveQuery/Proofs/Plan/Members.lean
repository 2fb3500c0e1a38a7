import Mathlib.Data.List.Perm.Basic
import LiveQuery.Plan.Planner
import LiveQuery.Proofs.Plan.PostOrder

/-!
# Sub-plans that wait to be joined

`Member` says of a sub-plan that it is built in the right way and hides only variables that nothing
else needs: no parameter, and no variable of a constraint that the sub-plan does not enforce itself.
`Sound` says of the sub-plans in play that they are members, that no constraint is enforced by two
of them, and that the constraints in the pool still wait to be applied.  What the planner does with
a sub-plan keeps this: it may start new ones (`Sound.start`, `Sound.input`, `Sound.enumerate`),
apply a waiting constraint (`Sound.apply`), trim (`Sound.trim`) and join (`Sound.join`).
-/

namespace LiveQuery

section Growth

variable {body : Body} {inputs : List VarId} {arena : Arena} {supplied : Prop} {id : SubPlanId}

theorem Built.exists_step (built : Built body inputs arena supplied id) :
    ∃ step, arena.get? id = some step := by
  cases built <;> exact ⟨_, ‹_›⟩

/-- A step of a larger arena touches what it touched before. -/
theorem touches_push {step : SubPlan} (found : arena.get? id = some step) (operation : Operation)
    {subject : VarId} :
    Touches body inputs (arena.push body operation).1 supplied id subject ↔
      Touches body inputs arena supplied id subject := by
  unfold Touches
  rw [Arena.enforced_push found]

theorem Built.push (built : Built body inputs arena supplied id) (operation : Operation) :
    Built body inputs (arena.push body operation).1 supplied id := by
  induction built with
  | start found => exact .start (Arena.found_push found (by simp [Operation.children]))
  | input found => exact .input (Arena.found_push found (by simp [Operation.children]))
  | enumerate found known role =>
    exact .enumerate (Arena.found_push found (by simp [Operation.children])) known role
  | apply found earlier below known role shown ih =>
    obtain ⟨_, there⟩ := below.exists_step
    refine .apply (Arena.found_push found ?_) earlier ih known role ?_
    · simp [Operation.children, there]
    · rwa [Arena.visible_push there]
  | join found earlier left right meet leftIh rightIh =>
    obtain ⟨_, leftThere⟩ := left.exists_step
    obtain ⟨_, rightThere⟩ := right.exists_step
    refine .join (Arena.found_push found ?_) earlier leftIh rightIh fun subject inLeft inRight => ?_
    · simp [Operation.children, leftThere, rightThere]
    · rw [touches_push leftThere] at inLeft
      rw [touches_push rightThere] at inRight
      rw [Arena.visible_push leftThere, Arena.visible_push rightThere]
      exact meet subject inLeft inRight
  | trim found earlier below shown ih =>
    obtain ⟨_, there⟩ := below.exists_step
    refine .trim (Arena.found_push found ?_) earlier ih ?_
    · simp [Operation.children, there]
    · rwa [Arena.visible_push there]

end Growth

/-! ## Introducing constraints -/

namespace Arena

variable {arena : Arena}

/-- The operation enforces what its children enforce and what it introduces, and none of that is
the same constraint. -/
def AddsUp (arena : Arena) (body : Body) (operation : Operation) : Prop :=
  (operation.children.flatMap (fun child => (arena.enforced child).toList) ++
    operation.constraint?.toList).Perm (arena.describe body operation).enforced.toList

/-- The step introduces what it enforces once, if the steps that it reads do. -/
theorem AddsUp.introduced_push {body : Body} {operation : Operation}
    (addsUp : arena.AddsUp body operation)
    (known : ∀ child ∈ operation.children, ∃ step, arena.get? child = some step)
    (introduced : ∀ child ∈ operation.children,
      (arena.introduced child).Perm (arena.enforced child).toList) :
    ((arena.push body operation).1.introduced (arena.push body operation).2).Perm
      ((arena.push body operation).1.enforced (arena.push body operation).2).toList := by
  rw [introduced_push_new body known, enforced_push_new]
  exact ((List.Perm.flatMap_left _ introduced).append_right _).trans addsUp

theorem addsUp_apply (body : Body) {child : SubPlanId} {place : ConstraintId}
    (absent : place ∉ arena.enforced child) : arena.AddsUp body (.apply child place) := by
  show (((arena.enforced child).toList ++ []) ++ [place]).Perm
    ((arena.enforced child).insert place).toList
  rw [List.append_nil]
  exact (List.perm_append_singleton _ _).trans (OrderedSet.perm_toList_insert absent).symm

theorem addsUp_trim (arena : Arena) (body : Body) (child : SubPlanId) (kept : OrderedSet VarId) :
    arena.AddsUp body (.trim child kept) := by
  show (((arena.enforced child).toList ++ []) ++ []).Perm (arena.enforced child).toList
  rw [List.append_nil, List.append_nil]

theorem addsUp_project (arena : Arena) (body : Body) (child : SubPlanId)
    (parameters : List VarId) : arena.AddsUp body (.project child parameters) :=
  addsUp_trim arena body child .empty

theorem addsUp_join (body : Body) {primary secondary : SubPlanId}
    (disjoint : ∀ place ∈ arena.enforced primary, place ∉ arena.enforced secondary) :
    arena.AddsUp body (.join primary secondary) := by
  show (((arena.enforced primary).toList ++ ((arena.enforced secondary).toList ++ [])) ++ []).Perm
    ((arena.enforced primary).union (arena.enforced secondary)).toList
  rw [List.append_nil, List.append_nil]
  have apart : ((arena.enforced primary).toList ++ (arena.enforced secondary).toList).Nodup := by
    refine List.nodup_append.mpr ⟨OrderedSet.nodup_toList _, OrderedSet.nodup_toList _, ?_⟩
    rintro place left _ right rfl
    exact disjoint place left right
  rw [List.perm_ext_iff_of_nodup apart (OrderedSet.nodup_toList _)]
  intro place
  exact List.mem_append.trans OrderedSet.mem_union.symm

end Arena

/-! ## Members -/

/-- The sub-plan is built in the right way and hides only variables that nothing else needs. -/
structure Member (task : PlanningTask) (arena : Arena) (supplied : Prop) (id : SubPlanId) :
    Prop where
  built : Built task.body task.inputs arena supplied id
  hidden : ∀ subject, Touches task.body task.inputs arena supplied id subject →
    subject ∉ arena.visible id → subject ∉ task.body.parameters ∧
      ∀ place, place ∉ arena.enforced id → subject ∉ task.body.variablesOf place

/-- The sub-plans in play and the constraints that still wait to be applied to one of them.  One of
the sub-plans makes use of the supplied row if there is one.  Together they are made of trees that
have no step in common, and a sub-plan introduces what it enforces once. -/
structure Sound (task : PlanningTask) (given : Prop) (arena : Arena) (live : List SubPlanId)
    (pool : List ConstraintId) : Prop where
  members : ∀ id ∈ live, ∃ supplied, Member task arena supplied id
  supplied : given → ∃ id ∈ live, ∃ supplied, Member task arena supplied id ∧ supplied
  distinct : live.Nodup
  trees : (live.flatMap arena.postOrder).Nodup
  introduced : ∀ id ∈ live, (arena.introduced id).Perm (arena.enforced id).toList
  apart : live.Pairwise fun one other => ∀ place ∈ arena.enforced one, place ∉ arena.enforced other
  once : pool.Nodup
  waiting : ∀ place ∈ pool,
    (∃ constraint, task.body.constraint? place = some constraint ∧ constraint.role ≠ .enumerable) ∧
      ∀ id ∈ live, place ∉ arena.enforced id

variable {task : PlanningTask} {given supplied : Prop} {arena : Arena} {id : SubPlanId}
  {live consumed : List SubPlanId} {pool kept : List ConstraintId} {operation : Operation}

theorem Member.push (member : Member task arena supplied id) (operation : Operation) :
    Member task (arena.push task.body operation).1 supplied id := by
  obtain ⟨_, there⟩ := member.built.exists_step
  refine ⟨member.built.push operation, ?_⟩
  intro subject touched invisible
  rw [touches_push there] at touched
  rw [Arena.visible_push there] at invisible
  rw [Arena.enforced_push there]
  exact member.hidden subject touched invisible

/-- A member makes as much use of the supplied row as can be shown. -/
theorem exists_strongest (member : ∃ supplied, Member task arena supplied id) :
    ∃ supplied, Member task arena supplied id ∧
      ((∃ other, Member task arena other id ∧ other) → supplied) := by
  by_cases used : ∃ other, Member task arena other id ∧ other
  · obtain ⟨other, isMember, holds⟩ := used
    exact ⟨other, isMember, fun _ => holds⟩
  · obtain ⟨supplied, isMember⟩ := member
    exact ⟨supplied, isMember, fun other => absurd other used⟩

theorem Sound.perm (sound : Sound task given arena live pool) {others : List SubPlanId}
    {left : List ConstraintId} (liveSame : live.Perm others) (poolSame : pool.Perm left) :
    Sound task given arena others left where
  members id member := sound.members id (liveSame.mem_iff.mpr member)
  supplied use := by
    obtain ⟨id, member, uses⟩ := sound.supplied use
    exact ⟨id, liveSame.mem_iff.mp member, uses⟩
  distinct := (liveSame.nodup_iff).mp sound.distinct
  trees := ((liveSame.flatMap_right _).nodup_iff).mp sound.trees
  introduced id member := sound.introduced id (liveSame.mem_iff.mpr member)
  apart := by
    refine (liveSame.pairwise_iff ?_).mp sound.apart
    exact fun disjoint place member there => disjoint place there member
  once := (poolSame.nodup_iff).mp sound.once
  waiting place member := by
    obtain ⟨known, absent⟩ := sound.waiting place (poolSame.mem_iff.mpr member)
    exact ⟨known, fun id there => absent id (liveSame.mem_iff.mpr there)⟩

theorem Sound.weaken (sound : Sound task given arena live pool) {less : Prop}
    (weaker : less → given) : Sound task less arena live pool :=
  { sound with supplied := fun use => sound.supplied (weaker use) }

/-- A new member takes the place of those that it was made of, and may enforce constraints that were
enforced nowhere else. -/
theorem Sound.push (sound : Sound task given arena (consumed ++ live) pool)
    (member : Member task (arena.push task.body operation).1 supplied
      (arena.push task.body operation).2)
    (passes : ∀ id ∈ consumed, (∃ other, Member task arena other id ∧ other) → supplied)
    (fresh : ∀ place ∈ (arena.push task.body operation).1.enforced
        (arena.push task.body operation).2,
      (∃ id ∈ consumed, place ∈ arena.enforced id) ∨
        (place ∉ kept ∧ ∀ id ∈ live, place ∉ arena.enforced id))
    (rest : kept.Sublist pool) (parts : operation.children = consumed)
    (addsUp : arena.AddsUp task.body operation) :
    Sound task given (arena.push task.body operation).1
      ((arena.push task.body operation).2 :: live) kept := by
  subst parts
  have known (other : SubPlanId) (listed : other ∈ operation.children ++ live) :
      ∃ step, arena.get? other = some step := by
    obtain ⟨_, isMember⟩ := sound.members other listed
    exact isMember.built.exists_step
  have old (other : SubPlanId) (listed : other ∈ live) : ∃ step, arena.get? other = some step :=
    known other (List.mem_append_right _ listed)
  have children (child : SubPlanId) (listed : child ∈ operation.children) :
      ∃ step, arena.get? child = some step := known child (List.mem_append_left _ listed)
  obtain ⟨_, _, disjoint⟩ := List.pairwise_append.mp sound.apart
  have same (other : SubPlanId) (listed : other ∈ live) :
      (arena.push task.body operation).1.enforced other = arena.enforced other := by
    obtain ⟨_, there⟩ := old other listed
    exact Arena.enforced_push there _ _
  refine ⟨?_, ?_, ?_, ?_, ?_, ?_, sound.once.sublist rest, ?_⟩
  · -- the other members stay as they are
    intro other listed
    rcases List.mem_cons.mp listed with rfl | listed
    · exact ⟨supplied, member⟩
    · obtain ⟨uses, isMember⟩ := sound.members other (List.mem_append_right _ listed)
      exact ⟨uses, isMember.push operation⟩
  · intro use
    obtain ⟨other, listed, uses, isMember, holds⟩ := sound.supplied use
    -- if a member that was used up made use of the supplied row, the new one does
    rcases List.mem_append.mp listed with listed | listed
    · exact ⟨_, List.mem_cons_self, supplied, member, passes other listed ⟨uses, isMember, holds⟩⟩
    · exact ⟨other, List.mem_cons_of_mem _ listed, uses, isMember.push operation, holds⟩
  · -- the new member has a number that was not used before
    refine List.nodup_cons.mpr ⟨fun listed => ?_, (List.nodup_append.mp sound.distinct).2.1⟩
    obtain ⟨_, there⟩ := old _ listed
    exact absurd (Arena.lt_size there) (Nat.lt_irrefl _)
  · exact Arena.nodup_push task.body known sound.trees
  · intro other listed
    rcases List.mem_cons.mp listed with rfl | listed
    · refine addsUp.introduced_push children fun child member => ?_
      exact sound.introduced child (List.mem_append_left _ member)
    · obtain ⟨_, there⟩ := old other listed
      rw [Arena.introduced_push there, Arena.enforced_push there]
      exact sound.introduced other (List.mem_append_right _ listed)
  · refine List.pairwise_cons.mpr ⟨fun other listed place enforced => ?_, ?_⟩
    · rw [same other listed]
      rcases fresh place enforced with ⟨source, wasThere, before⟩ | ⟨_, absent⟩
      · exact disjoint source wasThere other listed place before
      · exact absent other listed
    · refine (List.pairwise_append.mp sound.apart).2.1.imp_of_mem
        fun {one other} first second apart => ?_
      rwa [same one first, same other second]
  · intro place waits
    obtain ⟨known, absent⟩ := sound.waiting place (rest.subset waits)
    refine ⟨known, ?_⟩
    intro other listed enforced
    rcases List.mem_cons.mp listed with rfl | listed
    · rcases fresh place enforced with ⟨source, wasThere, before⟩ | ⟨notKept, _⟩
      · exact absent source (List.mem_append_left _ wasThere) before
      · exact notKept waits
    · rw [same other listed] at enforced
      exact absent other (List.mem_append_right _ listed) enforced

/-! ## What the planner does with members -/

/-- A sub-plan that is not made of others: it shows everything that it depends on, and what it
enforces is enforced nowhere else. -/
theorem Sound.seed (sound : Sound task given arena live pool)
    (built : Built task.body task.inputs (arena.push task.body operation).1 supplied
      (arena.push task.body operation).2)
    (shown : ∀ subject, Touches task.body task.inputs (arena.push task.body operation).1 supplied
      (arena.push task.body operation).2 subject →
        subject ∈ (arena.push task.body operation).1.visible (arena.push task.body operation).2)
    (fresh : ∀ place ∈ (arena.push task.body operation).1.enforced
        (arena.push task.body operation).2,
      place ∉ pool ∧ ∀ id ∈ live, place ∉ arena.enforced id)
    (alone : operation.children = []) (addsUp : arena.AddsUp task.body operation) :
    Sound task (given ∨ supplied) (arena.push task.body operation).1
      ((arena.push task.body operation).2 :: live) pool := by
  have member : Member task (arena.push task.body operation).1 supplied
      (arena.push task.body operation).2 :=
    ⟨built, fun subject touched invisible => absurd (shown subject touched) invisible⟩
  have whole : Sound task given arena ([] ++ live) pool := sound
  have pushed := whole.push member (fun _ nothing => absurd nothing List.not_mem_nil)
    (fun place enforced => .inr (fresh place enforced)) (List.Sublist.refl pool) alone
    addsUp
  refine { pushed with supplied := ?_ }
  rintro (use | use)
  · exact pushed.supplied use
  · exact ⟨_, List.mem_cons_self, supplied, member, use⟩

theorem Sound.start (sound : Sound task given arena live pool) :
    Sound task given (arena.push task.body .start).1
      ((arena.push task.body .start).2 :: live) pool := by
  have found : (arena.push task.body .start).1.get? (arena.push task.body .start).2 = some _ :=
    Arena.get?_push_eq (by simp [Operation.children])
  have enforced := Arena.enforced_push_new arena task.body .start
  have seeded := sound.seed (.start found) ?_ ?_ rfl (.refl _)
  · exact seeded.weaken Or.inl
  · rintro subject (⟨place, member, _⟩ | ⟨use, _⟩)
    · rw [enforced] at member
      exact absurd member OrderedSet.notMem_empty
    · exact use.elim
  · intro place member
    rw [enforced] at member
    exact absurd member OrderedSet.notMem_empty

theorem Sound.input (sound : Sound task given arena live pool) :
    Sound task True (arena.push task.body (.input task.inputs)).1
      ((arena.push task.body (.input task.inputs)).2 :: live) pool := by
  have found : (arena.push task.body (.input task.inputs)).1.get?
      (arena.push task.body (.input task.inputs)).2 = some _ :=
    Arena.get?_push_eq (by simp [Operation.children])
  have enforced := Arena.enforced_push_new arena task.body (.input task.inputs)
  have seeded := sound.seed (.input found) ?_ ?_ rfl (.refl _)
  · exact seeded.weaken Or.inr
  · rintro subject (⟨place, member, _⟩ | ⟨_, listed⟩)
    · rw [enforced] at member
      exact absurd member OrderedSet.notMem_empty
    · rw [Arena.visible_of_get? found]
      exact OrderedSet.mem_ofList.mpr listed
  · intro place member
    rw [enforced] at member
    exact absurd member OrderedSet.notMem_empty

theorem Sound.enumerate (sound : Sound task given arena live pool) {place : ConstraintId}
    {constraint : Constraint} (known : task.body.constraint? place = some constraint)
    (role : constraint.role ≠ .deferred) (fresh : place ∉ pool)
    (absent : ∀ id ∈ live, place ∉ arena.enforced id) :
    Sound task given (arena.push task.body (.enumerate place)).1
      ((arena.push task.body (.enumerate place)).2 :: live) pool := by
  have found : (arena.push task.body (.enumerate place)).1.get?
      (arena.push task.body (.enumerate place)).2 = some _ :=
    Arena.get?_push_eq (by simp [Operation.children])
  have enforced := Arena.enforced_push_new arena task.body (.enumerate place)
  have seeded := sound.seed (.enumerate found known role) ?_ ?_ rfl (.refl _)
  · exact seeded.weaken Or.inl
  · rintro subject (⟨other, member, touched⟩ | ⟨use, _⟩)
    · rw [enforced] at member
      obtain rfl := OrderedSet.mem_singleton.mp member
      rwa [Arena.visible_of_get? found]
    · exact use.elim
  · intro other member
    rw [enforced] at member
    obtain rfl := OrderedSet.mem_singleton.mp member
    exact ⟨fresh, absent⟩

theorem Sound.apply {child : SubPlanId} {place : ConstraintId}
    (sound : Sound task given arena (child :: live) (place :: pool))
    (ready : ∀ subject ∈ task.body.variablesOf place, subject ∈ arena.visible child) :
    Sound task given (arena.push task.body (.apply child place)).1
      ((arena.push task.body (.apply child place)).2 :: live) pool := by
  obtain ⟨supplied, member, strongest⟩ :=
    exists_strongest (sound.members child List.mem_cons_self)
  obtain ⟨⟨constraint, known, role⟩, _⟩ := sound.waiting place List.mem_cons_self
  obtain ⟨_, there⟩ := member.built.exists_step
  have found : (arena.push task.body (.apply child place)).1.get?
      (arena.push task.body (.apply child place)).2 = some _ :=
    Arena.get?_push_eq (by simp [Operation.children, there])
  have enforced : _ = (arena.enforced child).insert place :=
    Arena.enforced_push_new arena task.body (.apply child place)
  have visible : _ = arena.visible child :=
    Arena.visible_push_new arena task.body (.apply child place)
  have whole : Sound task given arena ([child] ++ live) (place :: pool) := sound
  have absent := (sound.waiting place List.mem_cons_self).2 child List.mem_cons_self
  refine whole.push (⟨?_, ?_⟩ : Member task _ supplied _) ?_ ?_ (List.sublist_cons_self _ _) rfl
    (Arena.addsUp_apply task.body absent)
  · refine .apply found (Arena.lt_size there) (member.built.push _) known role ?_
    intro subject argument
    rw [Arena.visible_push there]
    exact ready subject ((Body.mem_variablesOf known).mpr argument)
  · intro subject touched invisible
    rw [visible] at invisible
    -- the variables of the new constraint are shown
    have before : Touches task.body task.inputs arena supplied child subject := by
      rcases touched with ⟨other, member, touched⟩ | use
      · rw [enforced] at member
        rcases OrderedSet.mem_insert.mp member with rfl | member
        · exact absurd (ready subject touched) invisible
        · exact .inl ⟨other, member, touched⟩
      · exact .inr use
    obtain ⟨unexported, unneeded⟩ := member.hidden subject before invisible
    refine ⟨unexported, fun other absent => unneeded other fun present => absent ?_⟩
    rw [enforced]
    exact OrderedSet.mem_insert.mpr (.inr present)
  · intro id consumed use
    obtain rfl := List.mem_singleton.mp consumed
    exact strongest use
  · intro other member
    rw [enforced] at member
    rcases OrderedSet.mem_insert.mp member with rfl | member
    · refine .inr ⟨(List.nodup_cons.mp sound.once).1, ?_⟩
      intro id listed
      exact (sound.waiting other List.mem_cons_self).2 id (List.mem_cons_of_mem _ listed)
    · exact .inl ⟨child, List.mem_singleton.mpr rfl, member⟩

theorem Sound.trim {child : SubPlanId} (sound : Sound task given arena (child :: live) pool)
    {kept : OrderedSet VarId} (shown : ∀ subject ∈ kept, subject ∈ arena.visible child)
    (unneeded : ∀ subject ∈ arena.visible child, subject ∉ kept →
      subject ∉ task.body.parameters ∧
        ∀ place, place ∉ arena.enforced child → subject ∉ task.body.variablesOf place) :
    Sound task given (arena.push task.body (.trim child kept)).1
      ((arena.push task.body (.trim child kept)).2 :: live) pool := by
  obtain ⟨supplied, member, strongest⟩ :=
    exists_strongest (sound.members child List.mem_cons_self)
  obtain ⟨_, there⟩ := member.built.exists_step
  have found : (arena.push task.body (.trim child kept)).1.get?
      (arena.push task.body (.trim child kept)).2 = some _ :=
    Arena.get?_push_eq (by simp [Operation.children, there])
  have enforced : _ = arena.enforced child :=
    Arena.enforced_push_new arena task.body (.trim child kept)
  have whole : Sound task given arena ([child] ++ live) pool := sound
  refine whole.push (⟨?_, ?_⟩ : Member task _ supplied _) ?_ ?_ (List.Sublist.refl pool) rfl
    (Arena.addsUp_trim arena task.body child kept)
  · refine .trim found (Arena.lt_size there) (member.built.push _) ?_
    rwa [Arena.visible_push there]
  · intro subject touched invisible
    rw [Arena.visible_of_get? found] at invisible
    rw [enforced]
    have before : Touches task.body task.inputs arena supplied child subject := by
      unfold Touches at touched
      rwa [enforced] at touched
    -- a variable is hidden now or was hidden before
    by_cases wasShown : subject ∈ arena.visible child
    · exact unneeded subject wasShown invisible
    · exact member.hidden subject before wasShown
  · intro id consumed use
    obtain rfl := List.mem_singleton.mp consumed
    exact strongest use
  · intro other member
    rw [enforced] at member
    exact .inl ⟨child, List.mem_singleton.mpr rfl, member⟩

/-- What two members have in common is shown by both. -/
theorem Member.visible_of_touches {one other : SubPlanId} {first second : Prop}
    (member : Member task arena first one)
    (exported : ∀ subject ∈ task.inputs, subject ∈ task.body.parameters)
    (disjoint : ∀ place ∈ arena.enforced other, place ∉ arena.enforced one) {subject : VarId}
    (here : Touches task.body task.inputs arena first one subject)
    (there : Touches task.body task.inputs arena second other subject) :
    subject ∈ arena.visible one := by
  by_contra invisible
  obtain ⟨unexported, unneeded⟩ := member.hidden subject here invisible
  rcases there with ⟨place, enforced, touched⟩ | ⟨_, listed⟩
  · exact unneeded place (disjoint place enforced) touched
  · exact unexported (exported subject listed)

theorem Sound.join {primary secondary : SubPlanId}
    (sound : Sound task given arena (primary :: secondary :: live) pool)
    (exported : ∀ subject ∈ task.inputs, subject ∈ task.body.parameters) :
    Sound task given (arena.push task.body (.join primary secondary)).1
      ((arena.push task.body (.join primary secondary)).2 :: live) pool := by
  obtain ⟨first, left, leftStrongest⟩ :=
    exists_strongest (sound.members primary List.mem_cons_self)
  obtain ⟨second, right, rightStrongest⟩ :=
    exists_strongest (sound.members secondary (List.mem_cons_of_mem _ List.mem_cons_self))
  have disjoint := (List.pairwise_cons.mp sound.apart).1 secondary List.mem_cons_self
  obtain ⟨_, leftThere⟩ := left.built.exists_step
  obtain ⟨_, rightThere⟩ := right.built.exists_step
  have found : (arena.push task.body (.join primary secondary)).1.get?
      (arena.push task.body (.join primary secondary)).2 = some _ :=
    Arena.get?_push_eq (by simp [Operation.children, leftThere, rightThere])
  have enforced : _ = (arena.enforced primary).union (arena.enforced secondary) :=
    Arena.enforced_push_new arena task.body (.join primary secondary)
  have visible : _ = (arena.visible primary).union (arena.visible secondary) :=
    Arena.visible_push_new arena task.body (.join primary secondary)
  have whole : Sound task given arena ([primary, secondary] ++ live) pool := sound
  refine whole.push (⟨?_, ?_⟩ : Member task _ (first ∨ second) _) ?_ ?_
    (List.Sublist.refl pool) rfl (Arena.addsUp_join task.body disjoint)
  · refine .join found ⟨Arena.lt_size leftThere, Arena.lt_size rightThere⟩ (left.built.push _)
      (right.built.push _) fun subject inLeft inRight => ?_
    rw [touches_push leftThere] at inLeft
    rw [touches_push rightThere] at inRight
    rw [Arena.visible_push leftThere, Arena.visible_push rightThere]
    refine ⟨?_, ?_⟩
    · exact left.visible_of_touches exported (fun place enforced there =>
        disjoint place there enforced) inLeft inRight
    · exact right.visible_of_touches exported disjoint inRight inLeft
  · intro subject touched invisible
    rw [visible, OrderedSet.mem_union, not_or] at invisible
    have origin : Touches task.body task.inputs arena first primary subject ∨
        Touches task.body task.inputs arena second secondary subject := by
      rcases touched with ⟨place, member, touched⟩ | ⟨use | use, listed⟩
      · rw [enforced] at member
        rcases OrderedSet.mem_union.mp member with member | member
        · exact .inl (.inl ⟨place, member, touched⟩)
        · exact .inr (.inl ⟨place, member, touched⟩)
      · exact .inl (.inr ⟨use, listed⟩)
      · exact .inr (.inr ⟨use, listed⟩)
    rw [enforced]
    -- what one side hides is needed by no constraint that it does not enforce
    rcases origin with origin | origin
    · obtain ⟨unexported, unneeded⟩ := left.hidden subject origin invisible.1
      exact ⟨unexported, fun place absent => unneeded place fun present =>
        absent (OrderedSet.mem_union.mpr (.inl present))⟩
    · obtain ⟨unexported, unneeded⟩ := right.hidden subject origin invisible.2
      exact ⟨unexported, fun place absent => unneeded place fun present =>
        absent (OrderedSet.mem_union.mpr (.inr present))⟩
  · intro id consumed use
    simp only [List.mem_cons, List.not_mem_nil, or_false] at consumed
    rcases consumed with rfl | rfl
    · exact .inl (leftStrongest use)
    · exact .inr (rightStrongest use)
  · intro place member
    rw [enforced] at member
    rcases OrderedSet.mem_union.mp member with member | member
    · exact .inl ⟨primary, List.mem_cons_self, member⟩
    · exact .inl ⟨secondary, List.mem_cons_of_mem _ List.mem_cons_self, member⟩

end LiveQuery
