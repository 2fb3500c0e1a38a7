import LiveQuery.Batch
import LiveQuery.Proofs.Checks
import LiveQuery.Proofs.Closure.Path

/-!
# Rows of operators

`Operator.Rows` says which rows an operator has over a fact store, given which rows its children
have.  It does not mention the tables, keys and columns by which the batch evaluator gets there; the
batch evaluator computes exactly these rows, whenever it computes any (`Lowered.evaluate_spec`).
The rows of a closure are the pairs that are joined by edges of its relation, which the facts of the
relation are when they have two places (`path_iff_linked`).

While facts change, an operator may have rows of different moments.  `Operator.Emits` takes apart
which facts there may be to draw from and which facts are sure to block, and has more rows the more
there are of the former and the fewer of the latter (`Emits.mono`).  Over one store the two are the
same (`rows_iff_emits`).
-/

namespace LiveQuery

/-! ## Facts -/

namespace FactStore

variable {facts : FactStore} {relation : RelationId}

/-- Whether a tuple is a fact of a relation. -/
def Has (facts : FactStore) (relation : RelationId) (tuple : Tuple) : Prop :=
  (⟨relation, tuple⟩ : Fact) ∈ facts.occurrences

/-- Whether a path of at least one binary fact of a relation leads from one value to another. -/
def Linked (facts : FactStore) (relation : RelationId) : Value → Value → Prop :=
  Relation.TransGen fun source target => facts.Has relation [source, target]

theorem mem_occurrencesOf {tuple : Tuple} :
    tuple ∈ facts.occurrencesOf relation ↔ facts.Has relation tuple := by
  simp only [occurrencesOf, List.mem_filterMap, tupleOf?, Has]
  constructor
  · intro found
    obtain ⟨fact, member, found⟩ := found
    split at found
    next same =>
      cases found
      rwa [← same]
    · cases found
  · intro member
    exact ⟨_, member, by simp⟩

theorem mem_tuplesOf {tuple : Tuple} :
    tuple ∈ facts.tuplesOf relation ↔ facts.Has relation tuple := by
  rw [tuplesOf, OrderedSet.mem_ofList, mem_occurrencesOf]

theorem contains_iff_has {tuple : Tuple} :
    facts.contains ⟨relation, tuple⟩ = true ↔ facts.Has relation tuple :=
  Bag.contains_iff

theorem edge?_eq_some {tuple : Tuple} {source target : Value} :
    Operator.edge? tuple = some (source, target) ↔ tuple = [source, target] := by
  unfold Operator.edge?
  split
  · simp
  next other =>
    constructor
    · intro found
      cases found
    · intro same
      subst same
      exact absurd rfl (other source target)

theorem mem_edgesOf {source target : Value} :
    (source, target) ∈ facts.edgesOf relation ↔ facts.Has relation [source, target] := by
  simp only [edgesOf, List.mem_filterMap, edge?_eq_some, OrderedSet.mem_toList, mem_tuplesOf]
  constructor
  · intro found
    obtain ⟨_, member, rfl⟩ := found
    exact member
  · exact fun member => ⟨_, member, rfl⟩

/-- Paths over a list of edges that are the binary facts of a relation. -/
theorem path_iff_linked {edges : List (Value × Value)}
    (same : ∀ source target, (source, target) ∈ edges ↔ facts.Has relation [source, target])
    {source target : Value} :
    Reach.Path edges source target ↔ facts.Linked relation source target := by
  have steps : Reach.Step edges =
      fun source target => facts.Has relation [source, target] := by
    funext source target
    exact propext (same source target)
  unfold Reach.Path Linked
  rw [steps]

theorem mem_reachablePairs {source target : Value} :
    (source, target) ∈ facts.reachablePairs relation ↔ facts.Linked relation source target := by
  rw [← path_iff_linked fun _ _ => mem_edgesOf]
  simp only [reachablePairs, List.mem_flatMap, List.mem_map, Prod.mk.injEq, List.mem_eraseDups,
    Reach.mem_after]
  constructor
  · intro found
    obtain ⟨_, _, _, path, rfl, rfl⟩ := found
    exact path
  · intro path
    obtain ⟨⟨next, first⟩, _⟩ := path.ends
    exact ⟨source, ⟨_, first, rfl⟩, target, path, rfl, rfl⟩

end FactStore

/-! ## Operators -/

/-- Whether an operator has a row, given which rows its children have. -/
def Operator.Rows (truth : CheckId → Tuple → Bool) (facts : FactStore) (input : Tuple) :
    Operator → List (Tuple → Prop) → Tuple → Prop
  | .source relation arity columns equal, _, row => ∃ fact, facts.Has relation fact ∧
    Operator.sourceRow? arity columns equal fact = some row
  | .unit fixed, _, row => row = fixed
  | .input columns, _, row => input.project? columns = some row
  | .closure relation single swap, _, row => ∃ source target, facts.Linked relation source target ∧
    Operator.closureRow? single swap (source, target) = some row
  | .filter test, [child], row => child row ∧ test.holds truth row = true
  | .antiJoin relation key, [child], row => child row ∧ ¬facts.Has relation (row.project key)
  | .join leftKey rightKey output, [left, right], row => ∃ first second, left first ∧ right second ∧
    second.project rightKey = first.project leftKey ∧ Operator.joinRow output first second = row
  | .project columns, [child], row => ∃ whole, child whole ∧ whole.project columns = row
  | _, _, _ => False

/-- The batch evaluator computes the rows of an operator. -/
theorem Lowered.evaluate_spec {checks : Checks} {truth : CheckId → Tuple → Bool}
    (agree : checks.Agree truth) {facts : FactStore} {input : Tuple} {step : Lowered}
    {children : List (OrderedSet Tuple)} {rows : OrderedSet Tuple}
    (found : step.evaluate checks facts input children = .ok rows) (row : Tuple) :
    row ∈ rows ↔
      step.operator.Rows truth facts input (children.map fun child row => row ∈ child) row := by
  unfold evaluate at found
  split at found
  next fixed operator =>
    cases found
    simp [operator, Operator.Rows]
  next columns operator =>
    simp only [operator, Operator.Rows]
    split at found
    next known projected =>
      cases found
      rw [projected, OrderedSet.mem_singleton, Option.some.injEq, eq_comm]
    · cases found
  next relation arity columns equal operator =>
    cases found
    simp only [operator, Operator.Rows, OrderedSet.mem_ofList, List.mem_filterMap,
      OrderedSet.mem_toList, FactStore.mem_tuplesOf]
  next relation single swap operator =>
    cases found
    simp only [operator, Operator.Rows, OrderedSet.mem_ofList, List.mem_filterMap, Prod.exists,
      FactStore.mem_reachablePairs]
  next test child operator =>
    simp only [operator, Operator.Rows, List.map_cons, List.map_nil]
    cases selected : test.select checks step.label child.toList with
    | error error =>
      rw [selected] at found
      cases found
    | ok passed =>
      rw [selected] at found
      cases found
      rw [OrderedSet.mem_ofList, (test.select_spec agree step.label _).of_ok selected,
        List.mem_filter, OrderedSet.mem_toList]
  next relation key child operator =>
    cases found
    simp [operator, Operator.Rows, ← FactStore.contains_iff_has]
  next leftKey rightKey output left right operator =>
    cases found
    simp only [operator, Operator.Rows, List.map_cons, List.map_nil, OrderedSet.mem_ofList,
      List.mem_flatMap, List.mem_map, List.mem_filter, OrderedSet.mem_toList, decide_eq_true_eq]
    constructor
    · intro found
      obtain ⟨first, leftMember, second, ⟨rightMember, key⟩, same⟩ := found
      exact ⟨first, second, leftMember, rightMember, key, same⟩
    · intro found
      obtain ⟨first, second, leftMember, rightMember, key, same⟩ := found
      exact ⟨first, leftMember, second, ⟨rightMember, key⟩, same⟩
  next columns child operator =>
    cases found
    simp [operator, Operator.Rows, OrderedSet.mem_toList]
  · cases found

/-! ## Operators while facts change -/

namespace Operator

/-- The rows come from facts of the relation. -/
def DrawsFrom (relation : RelationId) : Operator → Prop
  | .source drawn _ _ _ | .closure drawn _ _ => drawn = relation
  | _ => False

/-- Facts of the relation take rows away. -/
def BlockedBy (relation : RelationId) : Operator → Prop
  | .antiJoin blocking _ => blocking = relation
  | _ => False

/-- Whether an operator may have a row while facts change, given which rows its children may have:
every fact that is given may be there, and only the facts that are barred surely are. -/
def Emits (truth : CheckId → Tuple → Bool) (given barred : RelationId → Tuple → Prop)
    (input : Tuple) : Operator → List (Tuple → Prop) → Tuple → Prop
  | .source relation arity columns equal, _, row => ∃ fact, given relation fact ∧
    sourceRow? arity columns equal fact = some row
  | .unit fixed, _, row => row = fixed
  | .input columns, _, row => input.project? columns = some row
  | .closure relation single swap, _, row => ∃ source target,
    Relation.TransGen (fun source target => given relation [source, target]) source target ∧
      closureRow? single swap (source, target) = some row
  | .filter test, [child], row => child row ∧ test.holds truth row = true
  | .antiJoin relation key, [child], row => child row ∧ ¬barred relation (row.project key)
  | .join leftKey rightKey output, [left, right], row => ∃ first second, left first ∧ right second ∧
    second.project rightKey = first.project leftKey ∧ joinRow output first second = row
  | .project columns, [child], row => ∃ whole, child whole ∧ whole.project columns = row
  | _, _, _ => False

variable {truth : CheckId → Tuple → Bool} {given barred more fewer : RelationId → Tuple → Prop}
  {input : Tuple} {operator : Operator} {children others : List (Tuple → Prop)} {row : Tuple}

/-- The facts of a store are those that may be there and those that surely are. -/
theorem rows_iff_emits {facts : FactStore} :
    operator.Rows truth facts input children row ↔
      operator.Emits truth facts.Has facts.Has input children row := by
  cases operator with
  | source | unit | input | closure => exact Iff.rfl
  | filter | antiJoin | project => rcases children with _ | ⟨_, _ | ⟨_, _⟩⟩ <;> exact Iff.rfl
  | join => rcases children with _ | ⟨_, _ | ⟨_, _ | ⟨_, _⟩⟩⟩ <;> exact Iff.rfl

/-- With more rows of its children, more facts to draw from and fewer to be blocked by, an operator
may have more rows. -/
theorem Emits.mono (emits : operator.Emits truth given barred input children row)
    (drawn : ∀ relation, operator.DrawsFrom relation →
      ∀ fact, given relation fact → more relation fact)
    (blocking : ∀ relation, operator.BlockedBy relation →
      ∀ fact, fewer relation fact → barred relation fact)
    (below : List.Forall₂ (fun child other => ∀ row, child row → other row) children others) :
    operator.Emits truth more fewer input others row := by
  cases operator with
  | source relation arity columns equal =>
    obtain ⟨fact, here, same⟩ := emits
    exact ⟨fact, drawn relation rfl fact here, same⟩
  | unit fixed => exact emits
  | input columns => exact emits
  | closure relation single swap =>
    obtain ⟨source, target, path, same⟩ := emits
    have edges (source target : Value) (edge : given relation [source, target]) :
        more relation [source, target] := drawn relation rfl _ edge
    exact ⟨source, target, Relation.TransGen.mono edges source target path, same⟩
  | filter test =>
    rcases below with _ | ⟨first, _ | _⟩
    · exact emits.elim
    · exact ⟨first row emits.1, emits.2⟩
    · exact emits.elim
  | antiJoin relation key =>
    rcases below with _ | ⟨first, _ | _⟩
    · exact emits.elim
    · exact ⟨first row emits.1, fun here => emits.2 (blocking relation rfl _ here)⟩
    · exact emits.elim
  | join leftKey rightKey output =>
    rcases below with _ | ⟨first, _ | ⟨second, _ | _⟩⟩
    · exact emits.elim
    · exact emits.elim
    · obtain ⟨one, other, left, right, key, same⟩ := emits
      exact ⟨one, other, first one left, second other right, key, same⟩
    · exact emits.elim
  | project columns =>
    rcases below with _ | ⟨first, _ | _⟩
    · exact emits.elim
    · obtain ⟨whole, member, same⟩ := emits
      exact ⟨whole, first whole member, same⟩
    · exact emits.elim

end Operator

end LiveQuery
