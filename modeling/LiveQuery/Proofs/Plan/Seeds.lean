import Mathlib.Combinatorics.SimpleGraph.Connectivity.Connected
import Mathlib.SetTheory.Cardinal.Finite
import LiveQuery.Proofs.Plan.Exact
import LiveQuery.Proofs.Plan.Outline

/-!
# Components of first steps

A plan starts from the supplied row, if there is one, and from the constraints that supply rows of
their own (`Seed`).  Two of these are neighbours if they supply a common variable
(`Body.sharing`).  Joining brings the first steps together in groups: first each component becomes
one group, without a Cartesian product, and then every join is one.  `Tallied` is the invariant of
this; it holds of the single first steps (`tallied_start`), joins keep it (`Tallied.join_sharing`,
`Tallied.join_apart`), and for the group of all first steps it gives the number of products
(`Tallied.products_add_one`).
-/

namespace LiveQuery

/-- The steps that the plan of a body starts from: the supplied row if parameters are adorned, every
enumerable constraint, and every constant that is not used as a filter. -/
inductive Seed (hints : Hints) (body : Body) (adornment : OrderedSet Nat) : Operation → Prop where
  | input (adorned : adornment ≠ .empty) :
      Seed hints body adornment (.input (body.inputs adornment))
  | enumerable {place : ConstraintId} {constraint : Constraint}
      (known : body.constraint? place = some constraint) (role : constraint.role = .enumerable) :
      Seed hints body adornment (.enumerate place)
  | constant {place : ConstraintId} {constraint : Constraint}
      (known : body.constraint? place = some constraint) (role : constraint.role = .constant)
      (unfiltered : PlanningTask.isFilter ⟨body, hints.merge body.hints, body.inputs adornment⟩
        constraint = false) :
      Seed hints body adornment (.enumerate place)

/-- Two first steps are neighbours if they supply a common variable. -/
def Body.sharing (body : Body) (first : Operation → Prop) :
    SimpleGraph {operation // first operation} where
  Adj one other := one ≠ other ∧ ∃ subject ∈ one.1.supplies body, subject ∈ other.1.supplies body
  symm := ⟨fun _ _ neighbours =>
    ⟨neighbours.1.symm, neighbours.2.elim fun subject both => ⟨subject, both.2, both.1⟩⟩⟩
  loopless := ⟨fun _ neighbours => neighbours.1 rfl⟩

/-! ## Groups -/

/-- No variable is supplied by both groups. -/
def Apart (body : Body) (group others : List Operation) : Prop :=
  ∀ one ∈ group, ∀ other ∈ others, ∀ subject ∈ one.supplies body,
    subject ∉ other.supplies body

/-- A group lies within one component. -/
def Linked (body : Body) (first : Operation → Prop) (group : List Operation) : Prop :=
  ∀ one other : {operation // first operation}, one.1 ∈ group → other.1 ∈ group →
    (body.sharing first).Reachable one other

section Groups

variable {body : Body} {first : Operation → Prop} {group others : List Operation}
  {groups : List (List Operation)}

theorem Apart.symm (apart : Apart body group others) : Apart body others group :=
  fun one member other listed subject here there =>
    apart other listed one member subject there here

instance : Std.Symm (Apart body) := ⟨fun _ _ => Apart.symm⟩

theorem Apart.append_left {more : List Operation} (left : Apart body group others)
    (right : Apart body more others) : Apart body (group ++ more) others :=
  fun one member => (List.mem_append.mp member).elim (left one) (right one)

theorem Linked.append (left : Linked body first group) (right : Linked body first others)
    (known : ∀ operation ∈ group ++ others, first operation) (different : group.Disjoint others)
    (sharing : ¬Apart body group others) : Linked body first (group ++ others) := by
  unfold Apart at sharing
  push Not at sharing
  obtain ⟨one, here, other, there, subject, suppliedHere, suppliedThere⟩ := sharing
  have bridge : (body.sharing first).Adj ⟨one, known one (List.mem_append_left _ here)⟩
      ⟨other, known other (List.mem_append_right _ there)⟩ := by
    refine ⟨fun same => ?_, subject, suppliedHere, suppliedThere⟩
    rw [Subtype.mk.injEq] at same
    exact different here (same ▸ there)
  have across (left_ right_ : {operation // first operation}) (inLeft : left_.1 ∈ group)
      (inRight : right_.1 ∈ others) : (body.sharing first).Reachable left_ right_ :=
    ((left _ _ inLeft here).trans bridge.reachable).trans (right _ _ there inRight)
  intro left_ right_ leftMember rightMember
  rcases List.mem_append.mp leftMember with inLeft | inLeft <;>
    rcases List.mem_append.mp rightMember with inRight | inRight
  · exact left _ _ inLeft inRight
  · exact across _ _ inLeft inRight
  · exact (across _ _ inRight inLeft).symm
  · exact right _ _ inLeft inRight

/-- Groups that lie within one component each and have no variable in common are the components. -/
theorem card_components (inhabited : [] ∉ groups)
    (known : ∀ operation, first operation ↔ operation ∈ groups.flatten)
    (distinct : groups.flatten.Nodup) (linked : ∀ group ∈ groups, Linked body first group)
    (apart : groups.Pairwise (Apart body)) :
    Nat.card (body.sharing first).ConnectedComponent = groups.length := by
  have disjoint := (List.nodup_flatten.mp distinct).2
  have member (place : Fin groups.length) :
      ∃ one : {operation // first operation}, one.1 ∈ groups[place] := by
    have listed : groups[place] ∈ groups := List.getElem_mem place.2
    obtain ⟨one, here⟩ := List.exists_mem_of_ne_nil _ fun none_ => inhabited (none_ ▸ listed)
    exact ⟨⟨one, (known one).mpr (List.mem_flatten_of_mem listed here)⟩, here⟩
  choose chosen chosenMember using member
  -- no walk leads out of a group
  have stays {group : List Operation} (listed : group ∈ groups)
      {one other : {operation // first operation}} (here : one.1 ∈ group)
      (reachable : (body.sharing first).Reachable one other) : other.1 ∈ group := by
    obtain ⟨walk⟩ := reachable
    induction walk with
    | nil => exact here
    | @cons one next other neighbours _ ih =>
      obtain ⟨around, aroundListed, there⟩ := List.mem_flatten.mp ((known next).mp next.2)
      obtain ⟨_, subject, suppliedHere, suppliedThere⟩ := neighbours
      by_cases same : group = around
      · exact ih (same ▸ there)
      · have separate := apart.forall listed aroundListed same
        exact absurd suppliedThere (separate one here next there subject suppliedHere)
  have bijective : Function.Bijective fun place =>
      (body.sharing first).connectedComponentMk (chosen place) := by
    refine ⟨fun place other same => ?_, fun component => ?_⟩
    · have reachable := SimpleGraph.ConnectedComponent.exact same
      have both := stays (List.getElem_mem place.2) (chosenMember place) reachable
      rcases lt_trichotomy place other with less | same | greater
      · exact absurd (chosenMember other)
          (List.pairwise_iff_getElem.mp disjoint place other place.2 other.2 less both)
      · exact same
      · exact absurd both
          (List.pairwise_iff_getElem.mp disjoint other place other.2 place.2 greater
            (chosenMember other))
    · induction component using SimpleGraph.ConnectedComponent.ind with
      | h one =>
        obtain ⟨group, listed, here⟩ := List.mem_flatten.mp ((known one).mp one.2)
        obtain ⟨place, inside, rfl⟩ := List.mem_iff_getElem.mp listed
        exact ⟨⟨place, inside⟩, SimpleGraph.ConnectedComponent.sound
          (linked _ listed _ _ (chosenMember ⟨place, inside⟩) here)⟩
  rw [← Nat.card_congr (Equiv.ofBijective _ bijective), Nat.card_fin]

end Groups

/-! ## Joining groups -/

/-- The first steps of a sub-plan, and how many products are below it. -/
structure Tally where
  leaves : List Operation
  products : Nat

/-- Until each component is one group, there is no product and every group lies within a component;
from then on, every join is a product. -/
structure Tallied (body : Body) (operations : List Operation) (tallies : List Tally) : Prop where
  inhabited : ∀ tally ∈ tallies, tally.leaves ≠ []
  whole : (tallies.flatMap Tally.leaves).Perm operations
  progress :
    (∀ tally ∈ tallies, tally.products = 0 ∧ Linked body (· ∈ operations) tally.leaves) ∨
      (tallies.Pairwise fun tally other => Apart body tally.leaves other.leaves) ∧
        (tallies.map Tally.products).sum + tallies.length =
          Nat.card (body.sharing (· ∈ operations)).ConnectedComponent

section Tallied

variable {body : Body} {operations : List Operation} {tallies rest : List Tally}
  {tally other : Tally}

theorem Tallied.perm (tallied : Tallied body operations tallies) {others : List Tally}
    (same : tallies.Perm others) : Tallied body operations others where
  inhabited tally member := tallied.inhabited tally (same.mem_iff.mpr member)
  whole := (same.flatMap_right _).symm.trans tallied.whole
  progress := by
    refine tallied.progress.imp (fun early tally member => early tally (same.mem_iff.mpr member)) ?_
    rintro ⟨apart, count⟩
    refine ⟨(same.pairwise_iff Apart.symm).mp apart, ?_⟩
    rw [← (same.map _).sum_eq, ← same.length_eq, count]

theorem tallied_start (body : Body) (operations : List Operation) :
    Tallied body operations (operations.map fun operation => ⟨[operation], 0⟩) where
  inhabited := by simp
  whole := by simp [List.flatMap_map]
  progress := by
    refine .inl fun tally member => ?_
    obtain ⟨operation, _, rfl⟩ := List.mem_map.mp member
    refine ⟨rfl, fun one other here there => ?_⟩
    have same : one = other :=
      Subtype.ext ((List.mem_singleton.mp here).trans (List.mem_singleton.mp there).symm)
    rw [same]

theorem Tallied.known (tallied : Tallied body operations tallies) (member : tally ∈ tallies) :
    ∀ operation ∈ tally.leaves, operation ∈ operations := fun _ listed =>
  tallied.whole.mem_iff.mp (List.mem_flatMap.mpr ⟨tally, member, listed⟩)

/-- If all groups are apart, products make up for the groups that are missing to the components. -/
theorem Tallied.counts (tallied : Tallied body operations tallies) (distinct : operations.Nodup)
    (apart : tallies.Pairwise fun tally other => Apart body tally.leaves other.leaves) :
    (tallies.map Tally.products).sum + tallies.length =
      Nat.card (body.sharing (· ∈ operations)).ConnectedComponent := by
  rcases tallied.progress with early | ⟨_, count⟩
  · have none_ : (tallies.map Tally.products).sum = 0 := by
      refine List.sum_eq_zero fun products listed => ?_
      obtain ⟨tally, member, rfl⟩ := List.mem_map.mp listed
      exact (early tally member).1
    have flat : (tallies.map Tally.leaves).flatten = tallies.flatMap Tally.leaves :=
      (List.flatMap_def ..).symm
    have components := @card_components body (· ∈ operations) (tallies.map Tally.leaves)
      (by simpa using tallied.inhabited)
      (fun operation => by rw [flat]; exact tallied.whole.mem_iff.symm)
      (by rw [flat]; exact tallied.whole.nodup_iff.mpr distinct)
      (by simpa using fun tally member => (early tally member).2) (List.pairwise_map.mpr apart)
    rw [none_, components, List.length_map, Nat.zero_add]
  · exact count

variable (tallied : Tallied body operations (tally :: other :: rest))
  (distinct : operations.Nodup)

include tallied

theorem Tallied.whole_join (products : Nat) :
    ((⟨tally.leaves ++ other.leaves, products⟩ :: rest : List Tally).flatMap Tally.leaves).Perm
      operations := by
  have whole := tallied.whole
  rwa [List.flatMap_cons, List.flatMap_cons, ← List.append_assoc] at whole

theorem Tallied.inhabited_join (products : Nat) :
    ∀ group ∈ (⟨tally.leaves ++ other.leaves, products⟩ :: rest : List Tally),
      group.leaves ≠ [] := by
  intro group member
  rcases List.mem_cons.mp member with rfl | member
  · exact List.append_ne_nil_of_left_ne_nil (tallied.inhabited tally List.mem_cons_self) _
  · exact tallied.inhabited group (List.mem_cons_of_mem _ (List.mem_cons_of_mem _ member))

include distinct

/-- Joining two groups with a common variable brings steps of one component together. -/
theorem Tallied.join_sharing (sharing : ¬Apart body tally.leaves other.leaves) :
    Tallied body operations
      (⟨tally.leaves ++ other.leaves, tally.products + other.products⟩ :: rest) := by
  refine ⟨tallied.inhabited_join _, tallied.whole_join _, .inl fun group member => ?_⟩
  rcases tallied.progress with early | ⟨apart, _⟩
  · obtain ⟨leftNone, left⟩ := early tally List.mem_cons_self
    obtain ⟨rightNone, right⟩ := early other (List.mem_cons_of_mem _ List.mem_cons_self)
    rcases List.mem_cons.mp member with rfl | member
    · have parts := tallied.whole.nodup_iff.mpr distinct
      rw [List.flatMap_cons, List.flatMap_cons, ← List.append_assoc] at parts
      have disjoint := List.disjoint_of_nodup_append (List.nodup_append.mp parts).1
      refine ⟨by simp [leftNone, rightNone], left.append right (fun operation listed => ?_) disjoint
        sharing⟩
      exact (List.mem_append.mp listed).elim (tallied.known List.mem_cons_self operation)
        (tallied.known (List.mem_cons_of_mem _ List.mem_cons_self) operation)
    · exact early group (List.mem_cons_of_mem _ (List.mem_cons_of_mem _ member))
  · exact absurd ((List.pairwise_cons.mp apart).1 other List.mem_cons_self) sharing

/-- Once all groups are apart, a join is one more product and one group less. -/
theorem Tallied.join_apart
    (apart : (tally :: other :: rest).Pairwise fun tally other =>
      Apart body tally.leaves other.leaves) :
    Tallied body operations
      (⟨tally.leaves ++ other.leaves, tally.products + other.products + 1⟩ :: rest) := by
  refine ⟨tallied.inhabited_join _, tallied.whole_join _, .inr ⟨?_, ?_⟩⟩
  · obtain ⟨left, below⟩ := List.pairwise_cons.mp apart
    obtain ⟨right, below⟩ := List.pairwise_cons.mp below
    refine List.pairwise_cons.mpr ⟨fun group member => ?_, below⟩
    exact (left group (List.mem_cons_of_mem _ member)).append_left (right group member)
  · have count := tallied.counts distinct apart
    simp only [List.map_cons, List.sum_cons, List.length_cons] at count ⊢
    omega

omit tallied

theorem Tallied.products_add_one (tallied : Tallied body operations [tally]) :
    tally.products + 1 = Nat.card (body.sharing (· ∈ operations)).ConnectedComponent := by
  have count := tallied.counts distinct (List.pairwise_singleton _ _)
  simpa using count

end Tallied
end LiveQuery
