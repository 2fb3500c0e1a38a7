import Mathlib.Data.List.Nodup
import LiveQuery.Row.Lowering
import LiveQuery.Proofs.Checks

/-!
# Layouts

The rows of a step are `layout.map values`, for a layout of variables and an assignment of values to
all variables.  The column positions that a step is lowered to pick the values of the variables that
they stand for (`positions_spec`), in joins from either side (`joinColumns_spec`).  A tuple that
repeats its values where the arguments of a constraint are repeated gives values to the arguments
(`map_valuesOf`).
-/

namespace LiveQuery

/-! ## Positions -/

theorem value_of_idxOf? {layout : List VarId} {subject : VarId} {place : Nat}
    (found : layout.idxOf? subject = some place) :
    place < layout.length ∧
      ∀ values : VarId → Value, Tuple.value (layout.map values) place = values subject := by
  obtain ⟨inside, here, _⟩ := List.idxOf?_eq_some_iff.mp found
  refine ⟨inside, ?_⟩
  intro values
  simp [Tuple.value, inside, here]

theorem exists_place {layout : List VarId} {subject : VarId} (shown : subject ∈ layout) :
    ∃ place, layout.idxOf? subject = some place :=
  Option.isSome_iff_exists.mp (by simpa using shown)

theorem position_of_idxOf? {layout : List VarId} {subject : VarId} {place : Nat}
    (found : layout.idxOf? subject = some place) : position layout subject = .ok place := by
  unfold position
  rw [found]

theorem positions_spec {layout subjects : List VarId}
    (shown : ∀ subject ∈ subjects, subject ∈ layout) :
    ∃ places, positions layout subjects = .ok places ∧ (∀ place ∈ places, place < layout.length) ∧
      ∀ values : VarId → Value, Tuple.project (layout.map values) places = subjects.map values := by
  induction subjects with
  | nil => exact ⟨[], rfl, by simp, fun _ => rfl⟩
  | cons subject rest ih =>
    obtain ⟨place, found⟩ := exists_place (shown subject List.mem_cons_self)
    obtain ⟨inside, value⟩ := value_of_idxOf? found
    obtain ⟨places, others, insides, project⟩ :=
      ih fun other member => shown other (List.mem_cons_of_mem _ member)
    refine ⟨place :: places, ?_, ?_, fun values => ?_⟩
    · unfold positions at others ⊢
      rw [List.mapM_cons, position_of_idxOf? found, others]
      rfl
    · simpa using ⟨inside, insides⟩
    · have tail := project values
      unfold Tuple.project at tail ⊢
      rw [List.map_cons, List.map_cons, value, tail]

/-- Two joined rows show the values of the left side for its variables, and those of the right side
for the others. -/
theorem joinColumns_spec {left right layout : List VarId}
    (shown : ∀ subject ∈ layout, subject ∈ left ∨ subject ∈ right) :
    ∃ output, layout.mapM (joinColumn left right) = .ok output ∧
      ∀ first second : VarId → Value,
        Operator.joinRow output (left.map first) (right.map second) =
          layout.map fun subject => if subject ∈ left then first subject else second subject := by
  induction layout with
  | nil => exact ⟨[], rfl, fun _ _ => rfl⟩
  | cons subject rest ih =>
    obtain ⟨output, others, row⟩ :=
      ih fun other member => shown other (List.mem_cons_of_mem _ member)
    have column : ∃ place, joinColumn left right subject = .ok place ∧
        ∀ first second : VarId → Value,
          Operator.joinRow [place] (left.map first) (right.map second) =
            [if subject ∈ left then first subject else second subject] := by
      by_cases here : subject ∈ left
      · obtain ⟨place, found⟩ := exists_place here
        have value := (value_of_idxOf? found).2
        refine ⟨(.left, place), ?_, fun first second => ?_⟩
        · unfold joinColumn
          rw [found]
        · simp [Operator.joinRow, here, value]
      · obtain ⟨place, found⟩ := exists_place ((shown subject List.mem_cons_self).resolve_left here)
        have value := (value_of_idxOf? found).2
        refine ⟨(.right, place), ?_, fun first second => ?_⟩
        · unfold joinColumn
          rw [List.idxOf?_eq_none_iff.mpr here, position_of_idxOf? found]
          rfl
        · simp [Operator.joinRow, here, value]
    obtain ⟨place, found, value⟩ := column
    refine ⟨place :: output, ?_, fun first second => ?_⟩
    · rw [List.mapM_cons, found, others]
      rfl
    · have head := value first second
      have tail := row first second
      simp only [Operator.joinRow, List.map_cons, List.map_nil] at head tail ⊢
      rw [tail, List.singleton_inj.mp head]

/-! ## Repeated arguments -/

/-- The values that a tuple gives to a list of arguments, each by its first place. -/
def valuesOf (arguments : List VarId) (tuple : Tuple) (subject : VarId) : Value :=
  tuple.value ((arguments.idxOf? subject).getD 0)

/-- A tuple that repeats values where the arguments are repeated gives values to the arguments. -/
theorem map_valuesOf {arguments : List VarId} {tuple : Tuple}
    (length : tuple.length = arguments.length)
    (repeats : ∀ pair ∈ repetitions arguments, tuple.value pair.1 = tuple.value pair.2) :
    arguments.map (valuesOf arguments tuple) = tuple := by
  refine List.ext_getElem (by simp [length]) ?_
  intro place inside inside'
  rw [List.length_map] at inside
  have value : tuple.value place = tuple[place] := by simp [Tuple.value, inside']
  obtain ⟨first, found⟩ := exists_place (List.getElem_mem inside)
  rw [List.getElem_map, ← value, valuesOf, found, Option.getD_some]
  -- the value is read at the first place of the argument, where the tuple repeats it
  by_cases same : first = place
  · rw [same]
  · refine repeats (first, place) (List.mem_filterMap.mpr ⟨(arguments[place], place), ?_, ?_⟩)
    · exact List.mem_zipIdx_iff_getElem?.mpr (List.getElem?_eq_getElem inside)
    · simp [found, same]

/-- An assignment repeats its values where the arguments are repeated. -/
theorem value_of_mem_repetitions {arguments : List VarId} {pair : Nat × Nat}
    (member : pair ∈ repetitions arguments) (values : VarId → Value) :
    Tuple.value (arguments.map values) pair.1 = Tuple.value (arguments.map values) pair.2 := by
  obtain ⟨⟨argument, place⟩, listed, found⟩ := List.mem_filterMap.mp member
  have here : arguments[place]? = some argument := List.mem_zipIdx_iff_getElem?.mp listed
  dsimp only at found
  split at found
  next first known =>
    split at found
    · cases found
    · cases found
      rw [(value_of_idxOf? known).2]
      simp [Tuple.value, here]
  · cases found

theorem repetitions_of_nodup {arguments : List VarId} (nodup : arguments.Nodup) :
    repetitions arguments = [] := by
  refine List.filterMap_eq_nil_iff.mpr fun ⟨argument, place⟩ listed => ?_
  have here : arguments[place]? = some argument := List.mem_zipIdx_iff_getElem?.mp listed
  dsimp only
  split
  next first found =>
    obtain ⟨inside, same, _⟩ := List.idxOf?_eq_some_iff.mp found
    rw [if_pos]
    refine (List.getElem?_inj inside nodup).mp ?_
    rw [here, List.getElem?_eq_getElem inside, same]
  · rfl

end LiveQuery
