import Mathlib.Data.List.Forall2
import LiveQuery.Row.Operator

/-!
# Computations that checks can make fail

Checks are the only part of a network that is not fixed.  They are told by the answers they give
when they do not fail (`Checks.Agree`).  `Answers` is the contract of a computation that nothing but
a failing check can stop; a test of rows and the selection by it have it (`RowTest.select_spec`).
Rows can be selected if and only if the test answers on each of them (`RowTest.exists_select_iff`).
-/

namespace LiveQuery

/-! ## Contracts -/

/-- The computation gives an answer with a property, unless a check fails. -/
def Answers {α : Type} (result : Except Error α) (post : α → Prop) : Prop :=
  match result with
  | .ok answer => post answer
  | .error error => ∃ label detail, error = .evaluationFault label detail

namespace Answers

variable {α β : Type} {result : Except Error α} {post : α → Prop}

theorem of_eq {answer : α} (same : result = .ok answer) (holds : post answer) :
    Answers result post := by
  rw [same]
  exact holds

theorem of_ok {answer : α} (answers : Answers result post) (found : result = .ok answer) :
    post answer := by
  rwa [found] at answers

theorem mono {weaker : α → Prop} (answers : Answers result post)
    (implies : ∀ answer, post answer → weaker answer) : Answers result weaker := by
  cases result with
  | error error => exact answers
  | ok answer => exact implies answer answers

theorem bind {next : α → Except Error β} {final : β → Prop} (answers : Answers result post)
    (later : ∀ answer, post answer → Answers (next answer) final) :
    Answers (result >>= next) final := by
  cases result with
  | error error => exact answers
  | ok answer => exact later answer answers

end Answers

theorem ok_of_bind {ε α β : Type} {first : Except ε α} {next : α → Except ε β} {result : β}
    (found : (first >>= next) = .ok result) :
    ∃ answer, first = .ok answer ∧ next answer = .ok result := by
  cases first with
  | error error => cases found
  | ok answer => exact ⟨answer, rfl, found⟩

/-- What every step keeps holds of the result of all steps. -/
theorem foldlM_ok {ε α β : Type} {step : β → α → Except ε β} {values : List α}
    (keeps : β → Prop)
    (preserved : ∀ value ∈ values, ∀ before after, keeps before →
      step before value = .ok after → keeps after)
    {start result : β} (holds : keeps start) (found : values.foldlM step start = .ok result) :
    keeps result := by
  induction values generalizing start with
  | nil =>
    cases found
    exact holds
  | cons value rest ih =>
    rw [List.foldlM_cons] at found
    obtain ⟨middle, first, later⟩ := ok_of_bind found
    exact ih (fun other member => preserved other (List.mem_cons_of_mem _ member))
      (preserved value List.mem_cons_self start middle holds first) later

theorem mapM_ok {ε α β : Type} {step : α → Except ε β} {values : List α} {results : List β}
    (found : values.mapM step = .ok results) :
    List.Forall₂ (fun value result => step value = .ok result) values results := by
  induction values generalizing results with
  | nil =>
    cases found
    exact .nil
  | cons value rest ih =>
    rw [List.mapM_cons] at found
    obtain ⟨first, answered, later⟩ := ok_of_bind found
    obtain ⟨others, rest, same⟩ := ok_of_bind later
    cases same
    exact .cons answered (ih rest)

theorem forall₂_trans {α β γ : Type} {first : α → β → Prop} {second : β → γ → Prop}
    {both : α → γ → Prop} {left : List α} {middle : List β} {right : List γ}
    (one : List.Forall₂ first left middle) (other : List.Forall₂ second middle right)
    (compose : ∀ a b c, first a b → second b c → both a c) : List.Forall₂ both left right := by
  induction one generalizing right with
  | nil =>
    cases other
    exact .nil
  | cons head _ ih =>
    cases other with
    | cons next rest => exact .cons (compose _ _ _ head next) (ih rest)

theorem exists_of_forall₂ {α β : Type} {related : α → β → Prop} {first : List α} {second : List β}
    (pairs : List.Forall₂ related first second) {right : β} (member : right ∈ second) :
    ∃ left ∈ first, related left right := by
  induction pairs with
  | nil => cases member
  | cons head _ ih =>
    rcases List.mem_cons.mp member with rfl | member
    · exact ⟨_, List.mem_cons_self, head⟩
    · obtain ⟨left, leftMember, pair⟩ := ih member
      exact ⟨left, List.mem_cons_of_mem _ leftMember, pair⟩

theorem exists_mapM_ok {ε α β : Type} {step : α → Except ε β} {values : List α}
    (all : ∀ value ∈ values, ∃ result, step value = .ok result) :
    ∃ results, values.mapM step = .ok results ∧ results.length = values.length := by
  induction values with
  | nil => exact ⟨[], rfl, rfl⟩
  | cons value rest ih =>
    obtain ⟨result, answered⟩ := all value List.mem_cons_self
    obtain ⟨results, others, length⟩ :=
      ih fun other member => all other (List.mem_cons_of_mem _ member)
    refine ⟨result :: results, ?_, by rw [List.length_cons, List.length_cons, length]⟩
    rw [List.mapM_cons, answered, others]
    rfl

/-! ## Checks that answer as told -/

/-- The checks answer as told whenever they do not fail. -/
def Checks.Agree (checks : Checks) (truth : CheckId → Tuple → Bool) : Prop :=
  ∀ id row answer, checks id row = .ok answer → answer = truth id row

/-- Whether a row passes a test, if checks answer as told. -/
def RowTest.holds (truth : CheckId → Tuple → Bool) (row : Tuple) : RowTest → Bool
  | .constant column value => row.value column = value
  | .equal first second => row.value first = row.value second
  | .different first second => row.value first ≠ row.value second
  | .check id columns => truth id (row.project columns)

theorem RowTest.passes_spec {checks : Checks} {truth : CheckId → Tuple → Bool}
    (agree : checks.Agree truth) (label : String) (row : Tuple) (test : RowTest) :
    Answers (test.passes checks label row) (· = test.holds truth row) := by
  cases test with
  | check id columns =>
    simp only [passes, holds]
    cases answer : checks id (row.project columns) with
    | ok accepted => exact agree _ _ _ answer
    | error detail => exact ⟨label, detail, rfl⟩
  | _ => rfl

/-- Rows that are selected without a failure are those that pass the test. -/
theorem RowTest.select_spec {checks : Checks} {truth : CheckId → Tuple → Bool}
    (agree : checks.Agree truth) (label : String) (test : RowTest) (rows : List Tuple) :
    Answers (test.select checks label rows) (· = rows.filter (test.holds truth)) := by
  induction rows with
  | nil => rfl
  | cons row rest ih =>
    refine (test.passes_spec agree label row).bind ?_
    intro accepted passed
    refine ih.bind ?_
    intro selected later
    show (if accepted then row :: selected else selected) = _
    rw [passed, later, List.filter_cons]

/-! ## Tests that answer -/

namespace RowTest

variable {checks : Checks} {label : String} {test : RowTest} {row : Tuple}

/-- The check of the test, if there is one, does not fail on the row. -/
def Decides (checks : Checks) (row : Tuple) (test : RowTest) : Prop :=
  ∃ accepted, ∀ label, test.passes checks label row = .ok accepted

theorem decides_of_passes {accepted : Bool}
    (passed : test.passes checks label row = .ok accepted) : test.Decides checks row := by
  cases test with
  | check id columns =>
    cases answered : checks id (row.project columns) with
    | ok answer => exact ⟨answer, fun label => by simp only [passes, answered]⟩
    | error detail =>
      simp only [passes, answered] at passed
      cases passed
  | _ => exact ⟨_, fun _ => rfl⟩

/-- Only checks can fail. -/
theorem decides_check {id : CheckId} {columns : List Nat} :
    (check id columns).Decides checks row ↔
      ∃ accepted, checks id (row.project columns) = .ok accepted := by
  constructor
  · rintro ⟨accepted, passed⟩
    have passed := passed ""
    simp only [passes] at passed
    split at passed
    next accepted answered => exact ⟨accepted, answered⟩
    · cases passed
  · rintro ⟨accepted, answered⟩
    exact ⟨accepted, fun label => by simp only [passes, answered]⟩

/-- Rows can be selected if the test answers on each of them. -/
theorem exists_select_iff {rows : List Tuple} :
    (∃ passed, test.select checks label rows = .ok passed) ↔
      ∀ row ∈ rows, test.Decides checks row := by
  induction rows with
  | nil => exact iff_of_true ⟨[], rfl⟩ (List.forall_mem_nil _)
  | cons row rest ih =>
    rw [List.forall_mem_cons, ← ih]
    constructor
    · rintro ⟨_, selected⟩
      obtain ⟨accepted, passed, later⟩ := ok_of_bind selected
      obtain ⟨others, rest, _⟩ := ok_of_bind later
      exact ⟨decides_of_passes passed, others, rest⟩
    · rintro ⟨⟨accepted, passed⟩, others, rest⟩
      refine ⟨if accepted then row :: others else others, ?_⟩
      rw [select, passed label, rest]
      rfl

end RowTest

end LiveQuery
