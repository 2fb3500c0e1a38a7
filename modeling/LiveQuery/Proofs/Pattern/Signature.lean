import LiveQuery.Network.Cache
import LiveQuery.Proofs.Plan.Exact
import LiveQuery.Proofs.Plan.Verified
import LiveQuery.Proofs.Text.Reading

/-!
# What a signature tells

A signature is written in the names of variables and checks.  `Constraint.statement` is what a
constraint says in these names.  If no name can be taken for something else (`Body.Plain`), a
signature tells the names of the parameters and the statements of a body (`Body.read_signature`).

The reading goes along the text.  A statement is written in words, after which comes a bracket, a
quote or the end (`endsAt_afterWords`), and from the words and what comes after them it can be read
back (`readable_statement`).  Names are words that do not start like a number (`isName_of_head`), so
that none is taken for a written value (`IsName.ne_word`), and values can be read back from how they
are written (`read_afterWord`).

What matches a body can be told from its parameters and statements (`Body.matches_iff_statements`),
apart from what its checks do.  If every check has a name of its own, bodies of the same signature
therefore have the same matches (`Body.matches_iff_of_signature`).
-/

namespace LiveQuery

open Text

/-! ## Values -/

namespace Value

/-- The word that the written form of a value starts with. -/
def word : Value → String
  | .string _ => ""
  | .element _ => "ElementId"
  | value => value.render

/-- What follows the word in the written form of a value. -/
def afterWord : Value → String
  | .string text => quoted text
  | .element id => "(" ++ toString id.toNat ++ ")"
  | _ => ""

theorem literal_eq (value : Value) : value.literal = value.word ++ value.afterWord := by
  cases value with
  | element id => simp [literal, word, afterWord, ← String.append_assoc]
  | _ => simp [literal, word, afterWord]

theorem isWord_word (value : Value) : IsWord value.word := by
  cases value with
  | nil => decide
  | bool truth => cases truth <;> decide
  | int number => exact isWord_int number.toInt
  | string text => exact (by decide : IsWord "")
  | element id => exact (by decide : IsWord "ElementId")

/-- The kind of value whose written form starts with a word. -/
def rankOfWord (word : String) : Nat :=
  match word.toList.head? with
  | none => 3
  | some 'n' => 0
  | some 't' => 1
  | some 'f' => 1
  | some 'E' => 4
  | _ => 2

theorem rankOfWord_word (value : Value) : rankOfWord value.word = value.rank := by
  cases value with
  | bool truth => cases truth <;> rfl
  | int number =>
    obtain ⟨char, head, sort⟩ := head_int number.toInt
    show rankOfWord (toString number.toInt) = 2
    unfold rankOfWord
    rw [Option.mem_def.mp head]
    split <;> simp_all
  | element id => exact (by decide : rankOfWord "ElementId" = 4)
  | _ => rfl

/-- A value can be read back from its word and what follows. -/
theorem read_afterWord {first second : Value} {rest other : List Char}
    (words : first.word = second.word)
    (same : first.afterWord.toList ++ rest = second.afterWord.toList ++ other) :
    first = second ∧ rest = other := by
  -- the word tells the kind of the value
  have ranks : first.rank = second.rank := by
    rw [← rankOfWord_word, ← rankOfWord_word, words]
  cases first with
  | nil =>
    cases second with
    | nil => exact ⟨rfl, same⟩
    | _ => cases ranks
  | bool truth =>
    cases second with
    | bool another =>
      have apart : ∀ truth another : Bool, toString truth = toString another → truth = another := by
        decide
      exact ⟨congrArg bool (apart truth another words), same⟩
    | _ => cases ranks
  | int number =>
    cases second with
    | int another =>
      exact ⟨congrArg int (Int64.toInt_inj.mp (int_inj words)), same⟩
    | _ => cases ranks
  | string text =>
    cases second with
    | string another =>
      obtain ⟨rfl, rest⟩ := read_quoted same
      exact ⟨rfl, rest⟩
    | _ => cases ranks
  | element id =>
    cases second with
    | element another =>
      simp only [afterWord, String.toList_append, List.append_assoc] at same
      obtain ⟨numbers, later⟩ := readable_word _ _ (")".toList ++ rest) (")".toList ++ other)
        (isWord_nat id.toNat) (isWord_nat another.toNat) (endsAt_cons.mpr (by decide))
        (endsAt_cons.mpr (by decide)) (List.append_cancel_left same)
      obtain rfl : id = another := UInt64.toNat_inj.mp (nat_inj numbers)
      exact ⟨rfl, List.append_cancel_left later⟩
    | _ => cases ranks

end Value

/-! ## Statements -/

/-- What a constraint says in the names of variables and checks.  The keys of a relation are left
out: they say which plans are good, not what matches. -/
inductive Statement where
  | relation (relation : RelationId) (arguments : List String)
  | closure (relation : RelationId) (source target : String)
  | equal (left right : String)
  | different (left right : String)
  | absent (relation : RelationId) (arguments : List String)
  | check (label : String) (arguments : List String)
  | constant (subject : String) (value : Value)
  deriving DecidableEq, Repr

/-- What the constraint says under the given variable names. -/
def Constraint.statement (name : VarId → String) : Constraint → Statement
  | .relation id arguments _ => .relation id (arguments.map name)
  | .closure id source target => .closure id (name source) (name target)
  | .equal left right => .equal (name left) (name right)
  | .different left right => .different (name left) (name right)
  | .absent id arguments => .absent id (arguments.map name)
  | .check label _ arguments => .check label (arguments.map name)
  | .constant subject value => .constant (name subject) value

/-- A name that cannot be taken for a value. -/
def IsName (name : String) : Prop := IsWord name ∧ name ≠ "" ∧ ∀ value : Value, name ≠ value.literal

/-- Every other word is a name if it does not start like a number. -/
theorem isName_of_head {name : String} (word : IsWord name)
    (other : name ∉ ["", "nil", "true", "false"])
    (head : ∀ char ∈ name.toList.head?, char ≠ '-' ∧ char.isDigit = false) : IsName name := by
  refine ⟨word, fun same => other (by rw [same]; decide), fun value same => ?_⟩
  cases value with
  | nil => exact other (same ▸ by decide)
  | bool truth => cases truth <;> exact other (same ▸ by decide)
  | int number =>
    obtain ⟨char, first, sort⟩ := head_int number.toInt
    obtain ⟨unsigned, noDigit⟩ := head char (same ▸ first)
    rcases sort with sign | digit
    · exact unsigned sign
    · rw [noDigit] at digit
      cases digit
  | string text =>
    refine word '"' ?_ (by decide)
    rw [same]
    simp [Value.literal, quoted]
  | element id =>
    refine word '(' ?_ (by decide)
    rw [same]
    simp [Value.literal]

/-- The names between round brackets. -/
def bracketed (names : List String) : String := "(" ++ ", ".intercalate names ++ ")"

namespace Statement

/-- The words that the written form of the statement starts with. -/
def words : Statement → List String
  | relation id _ => [id.render]
  | closure id _ _ => [id.render ++ "+"]
  | equal left right => [left, "==", right]
  | different left right => [left, "!=", right]
  | absent id _ => ["neg", id.render]
  | check label _ => ["check", label]
  | constant subject value => [subject, "==", value.word]

/-- What follows the words. -/
def afterWords : Statement → String
  | relation _ arguments | absent _ arguments | check _ arguments => bracketed arguments
  | closure _ source target => bracketed [source, target]
  | equal .. | different .. => ""
  | constant _ value => value.afterWord

/-- The written form of the statement. -/
def write (statement : Statement) : String :=
  " ".intercalate statement.words ++ statement.afterWords

/-- The statement can be told from every other one by its written form. -/
def Plain : Statement → Prop
  | relation _ arguments | absent _ arguments => ∀ name ∈ arguments, IsName name
  | check label arguments => IsWord label ∧ ∀ name ∈ arguments, IsName name
  | closure _ left right | equal left right | different left right => IsName left ∧ IsName right
  | constant subject _ => IsName subject

end Statement

theorem Constraint.write_statement (name : VarId → String) (constraint : Constraint) :
    (constraint.statement name).write = constraint.render name := by
  refine String.toList_inj.mp ?_
  cases constraint with
  | constant subject value =>
    simp [statement, Statement.write, Statement.words, Statement.afterWords, render,
      Value.literal_eq]
  | _ =>
    simp [statement, Statement.write, Statement.words, Statement.afterWords, render, render.list,
      bracketed]

/-! ## Reading statements back -/

theorem RelationId.render_inj {first second : RelationId} (same : first.render = second.render) :
    first = second := by
  unfold render at same
  exact Id.ext (nat_inj ((String.append_right_inj "rel#").mp same))

theorem RelationId.isWord_render (id : RelationId) : IsWord id.render := by
  have start : IsWord "rel#" := by decide
  exact start.append (isWord_nat id.index)

/-- A relation is not written like the closure of one. -/
theorem RelationId.render_ne_closure (first second : RelationId) :
    first.render ≠ second.render ++ "+" := by
  intro same
  unfold render at same
  rw [String.append_assoc, String.append_right_inj] at same
  have member : '+' ∈ (toString first.index).toList := by simp [same]
  cases isDigit_of_mem member

theorem IsName.head {name : String} (isName : IsName name) :
    ∃ char ∈ name.toList.head?, char ∉ stops := by
  obtain ⟨word, some_, _⟩ := isName
  obtain ⟨char, rest, chars⟩ := List.exists_cons_of_ne_nil (mt String.toList_eq_nil_iff.mp some_)
  exact ⟨char, by rw [chars]; rfl, word char (chars ▸ List.mem_cons_self)⟩

/-- A name at the end of a statement is not the start of a written value. -/
theorem IsName.ne_word {name : String} (isName : IsName name) {value : Value}
    {rest other : List Char} (ended : EndsAt [','] rest)
    (same : rest = value.afterWord.toList ++ other) : name ≠ value.word := by
  obtain ⟨_, some_, unlike⟩ := isName
  cases value with
  | string text => exact some_
  | element id =>
    simp only [Value.afterWord, String.toList_append, List.append_assoc] at same
    rw [same] at ended
    exact absurd (endsAt_cons.mp ended) (by decide)
  | nil => exact unlike .nil
  | bool truth => exact unlike (.bool truth)
  | int number => exact unlike (.int number)

/-- Lists of names go up to their closing bracket. -/
theorem readable_names :
    Readable (fun names => ∀ name ∈ names, IsName name) [')', ']'] (", ".intercalate ·) := by
  have word : Readable IsName [',', ')', ']'] id :=
    readable_word.mono (fun _ name => name.1) (by simp [stops])
  have starts (name : String) (isName : IsName name) :
      ∃ char ∈ name.toList.head?, char ∉ [')', ']'] := by
    obtain ⟨char, head, free⟩ := isName.head
    have closing : ∀ char ∈ [')', ']'], char ∈ stops := by simp [stops]
    exact ⟨char, head, fun closes => free (closing char closes)⟩
  have list := word.separated (show ", ".toList = ',' :: [' '] from rfl) (by decide) starts
  simpa using list

theorem readable_bracketed (ends : List Char) :
    Readable (fun names => ∀ name ∈ names, IsName name) ends bracketed := by
  intro first second rest other firstNames secondNames _ _ same
  simp only [bracketed, String.toList_append, List.append_assoc] at same
  obtain ⟨names, later⟩ := readable_names first second (")".toList ++ rest) (")".toList ++ other)
    firstNames secondNames (endsAt_cons.mpr (by decide)) (endsAt_cons.mpr (by decide))
    (List.append_cancel_left same)
  exact ⟨names, List.append_cancel_left later⟩

namespace Statement

theorem isWord_of_mem_words {statement : Statement} (plain : statement.Plain) :
    ∀ word ∈ statement.words, IsWord word := by
  have negation : IsWord "neg" := by decide
  have checking : IsWord "check" := by decide
  have equality : IsWord "==" := by decide
  have difference : IsWord "!=" := by decide
  cases statement with
  | relation id arguments => simpa [words] using id.isWord_render
  | closure id source target =>
    have plus : IsWord "+" := by decide
    simpa [words] using id.isWord_render.append plus
  | equal left right => simp [words, plain.1.1, plain.2.1, equality]
  | different left right => simp [words, plain.1.1, plain.2.1, difference]
  | absent id arguments => simp [words, id.isWord_render, negation]
  | check label arguments => simp [words, plain.1, checking]
  | constant subject value => simp [words, plain.1, value.isWord_word, equality]

theorem head_write {statement : Statement} (plain : statement.Plain) :
    ∃ char, char ∈ statement.write.toList.head? := by
  obtain ⟨word, words, listed, char, head⟩ : ∃ word words, statement.words = word :: words ∧
      ∃ char, char ∈ word.toList.head? := by
    cases statement with
    | relation id arguments => exact ⟨_, _, rfl, 'r', by simp [RelationId.render]⟩
    | closure id source target => exact ⟨_, _, rfl, 'r', by simp [RelationId.render]⟩
    | absent id arguments => exact ⟨_, _, rfl, 'n', by simp⟩
    | check label arguments => exact ⟨_, _, rfl, 'c', by simp⟩
    | constant subject value => exact ⟨_, _, rfl, plain.head.imp fun _ both => both.1⟩
    | _ => exact ⟨_, _, rfl, plain.1.head.imp fun _ both => both.1⟩
  refine ⟨char, ?_⟩
  rw [write, listed, String.toList_append, toList_intercalate_cons, List.append_assoc,
    List.head?_append, Option.mem_def.mp head]
  rfl

/-- After the words comes a bracket, a quote, or the end of the statement. -/
theorem endsAt_afterWords (statement : Statement) {rest : List Char} (ended : EndsAt [','] rest) :
    EndsAt ['(', '"', ','] (statement.afterWords.toList ++ rest) := by
  have brackets (names : List String) :
      EndsAt ['(', '"', ','] ((bracketed names).toList ++ rest) := by
    simp only [bracketed, String.toList_append, List.append_assoc]
    exact endsAt_cons.mpr (by decide)
  have nothing : EndsAt ['(', '"', ','] rest := ended.mono (by simp)
  cases statement with
  | equal left right => exact nothing
  | different left right => exact nothing
  | constant subject value =>
    cases value with
    | string text =>
      simp only [afterWords, Value.afterWord, quoted, String.toList_ofList, List.cons_append]
      exact endsAt_cons.mpr (by decide)
    | element id =>
      simp only [afterWords, Value.afterWord, String.toList_append, List.append_assoc]
      exact endsAt_cons.mpr (by decide)
    | _ => exact nothing
  | _ => exact brackets _

end Statement

theorem readable_statement : Readable Statement.Plain [','] Statement.write := by
  intro first second rest other firstPlain secondPlain ended otherEnded same
  simp only [Statement.write, String.toList_append, List.append_assoc] at same
  have list : Readable (fun words : List String => words ≠ [] ∧ ∀ word ∈ words, IsWord word)
      ['(', '"', ','] (" ".intercalate ·) := by
    have word : Readable IsWord [' ', '(', '"', ','] id :=
      readable_word.mono (fun _ word => word) (by simp [stops])
    simpa using word.separatedSome (show " ".toList = ' ' :: [] from rfl) (by decide)
  obtain ⟨words, tails⟩ := list first.words second.words _ _
    ⟨by cases first <;> exact List.cons_ne_nil _ _, Statement.isWord_of_mem_words firstPlain⟩
    ⟨by cases second <;> exact List.cons_ne_nil _ _, Statement.isWord_of_mem_words secondPlain⟩
    (first.endsAt_afterWords ended) (second.endsAt_afterWords otherEnded) same
  cases first with
  | relation id arguments =>
    cases second with
    | relation another others =>
      obtain ⟨rfl, rest⟩ := readable_bracketed [','] arguments others _ _ firstPlain secondPlain
        ended otherEnded tails
      cases RelationId.render_inj (List.cons.inj words).1
      exact ⟨rfl, rest⟩
    | closure another source target =>
      exact absurd (List.cons.inj words).1 (RelationId.render_ne_closure id another)
    | _ => simp [Statement.words] at words
  | closure id source target =>
    cases second with
    | relation another others =>
      exact absurd (List.cons.inj words).1.symm (RelationId.render_ne_closure another id)
    | closure another start finish =>
      obtain ⟨names, rest⟩ := readable_bracketed [','] [source, target] [start, finish] _ _
        (by simp [firstPlain.1, firstPlain.2]) (by simp [secondPlain.1, secondPlain.2])
        ended otherEnded tails
      cases names
      cases RelationId.render_inj ((String.append_left_inj "+").mp (List.cons.inj words).1)
      exact ⟨rfl, rest⟩
    | _ => simp [Statement.words] at words
  | equal left right =>
    cases second with
    | equal another side =>
      obtain ⟨rfl, rfl⟩ : left = another ∧ right = side := by simpa [Statement.words] using words
      exact ⟨rfl, tails⟩
    | constant subject value =>
      have both : left = subject ∧ right = value.word := by simpa [Statement.words] using words
      exact absurd both.2 (firstPlain.2.ne_word ended tails)
    | _ => simp [Statement.words] at words
  | different left right =>
    cases second with
    | different another side =>
      obtain ⟨rfl, rfl⟩ : left = another ∧ right = side := by simpa [Statement.words] using words
      exact ⟨rfl, tails⟩
    | _ => simp [Statement.words] at words
  | absent id arguments =>
    cases second with
    | absent another others =>
      obtain ⟨rfl, rest⟩ := readable_bracketed [','] arguments others _ _ firstPlain secondPlain
        ended otherEnded tails
      cases RelationId.render_inj (List.cons.inj (List.cons.inj words).2).1
      exact ⟨rfl, rest⟩
    | _ => simp [Statement.words] at words
  | check label arguments =>
    cases second with
    | check another others =>
      obtain ⟨rfl, rest⟩ := readable_bracketed [','] arguments others _ _ firstPlain.2 secondPlain.2
        ended otherEnded tails
      obtain rfl : label = another := (List.cons.inj (List.cons.inj words).2).1
      exact ⟨rfl, rest⟩
    | _ => simp [Statement.words] at words
  | constant subject value =>
    cases second with
    | equal left right =>
      have both : subject = left ∧ value.word = right := by simpa [Statement.words] using words
      exact absurd both.2.symm (secondPlain.2.ne_word otherEnded tails.symm)
    | constant another constant =>
      obtain ⟨rfl, sameWord⟩ : subject = another ∧ value.word = constant.word := by
        simpa [Statement.words] using words
      obtain ⟨rfl, rest⟩ := Value.read_afterWord sameWord tails
      exact ⟨rfl, rest⟩
    | _ => simp [Statement.words] at words

theorem readable_statements :
    Readable (fun statements : List Statement => ∀ statement ∈ statements, statement.Plain) []
      fun statements => ", ".intercalate (statements.map Statement.write) :=
  readable_statement.separated (show ", ".toList = ',' :: [' '] from rfl) (by decide)
    fun _ plain => (Statement.head_write plain).imp fun _ head => ⟨head, List.not_mem_nil⟩

/-! ## Bodies -/

namespace Body

/-- The names of the parameters. -/
def parameterNames (body : Body) : List String := body.parameters.map body.variableName

/-- What the constraints say in names. -/
def statements (body : Body) : List Statement :=
  body.constraints.map (·.statement body.variableName)

/-- Different variables have different names, and no name of a variable or a check can be taken for
something else. -/
structure Plain (body : Body) : Prop where
  nodup : body.names.Nodup
  names : ∀ name ∈ body.names, IsName name
  labels : ∀ label id arguments, Constraint.check label id arguments ∈ body.constraints →
    IsWord label

variable {body first second : Body}

theorem Plain.isName (plain : body.Plain) {subject : VarId}
    (known : subject.index < body.names.length) : IsName (body.variableName subject) := by
  refine plain.names _ ?_
  unfold Draft.variableName
  rw [List.getD_eq_getElem?_getD, List.getElem?_eq_getElem known]
  exact List.getElem_mem known

theorem Plain.statement (plain : body.Plain) :
    ∀ statement ∈ body.statements, statement.Plain := by
  intro statement member
  obtain ⟨constraint, listed, rfl⟩ := List.mem_map.mp member
  have names : ∀ subject ∈ constraint.arguments, IsName (body.variableName subject) :=
    fun subject argument => plain.isName (knows_argument listed argument)
  cases constraint with
  | check label id arguments =>
    exact ⟨plain.labels label id arguments listed,
      by simpa [Constraint.arguments] using names⟩
  | _ => simpa [Constraint.statement, Statement.Plain, Constraint.arguments] using names

theorem signature_eq (body : Body) : body.signature =
    "[" ++ ", ".intercalate body.parameterNames ++ "] " ++
      ", ".intercalate (body.statements.map Statement.write) := by
  have described : (body.numbered.map fun listed => body.describe listed.1) =
      body.statements.map Statement.write := by
    unfold numbered statements
    rw [List.map_map, List.map_map]
    conv => rhs; rw [← List.zipIdx_map_fst 0 body.constraints, List.map_map]
    refine List.map_congr_left fun pair member => ?_
    have here : body.constraint? ⟨pair.2⟩ = some pair.1 := List.mem_zipIdx_iff_getElem?.mp member
    simp only [Function.comp_apply, describe, here, Constraint.write_statement]
  unfold signature listNames
  rw [← described]
  rfl

/-- Plain bodies of the same signature have parameters of the same names and say the same. -/
theorem read_signature (firstPlain : first.Plain) (secondPlain : second.Plain)
    (same : first.signature = second.signature) :
    first.parameterNames = second.parameterNames ∧ first.statements = second.statements := by
  have parameters {body : Body} (plain : body.Plain) :
      ∀ name ∈ body.parameterNames, IsName name := by
    intro name member
    obtain ⟨parameter, listed, rfl⟩ := List.mem_map.mp member
    exact plain.isName (knows_parameter listed)
  have text := congrArg String.toList same
  simp only [signature_eq, String.toList_append, List.append_assoc] at text
  obtain ⟨names, tails⟩ := readable_names first.parameterNames second.parameterNames
    ("] ".toList ++ (", ".intercalate (first.statements.map Statement.write)).toList)
    ("] ".toList ++ (", ".intercalate (second.statements.map Statement.write)).toList)
    (parameters firstPlain) (parameters secondPlain) (endsAt_cons.mpr (by decide))
    (endsAt_cons.mpr (by decide)) (List.append_cancel_left text)
  obtain ⟨statements, _⟩ := readable_statements first.statements second.statements [] []
    firstPlain.statement secondPlain.statement (endsAt_nil []) (endsAt_nil [])
    (congrArg (· ++ []) (List.append_cancel_left tails))
  exact ⟨names, statements⟩

/-- An equality with a variable that is called nil is written like a constant. -/
example : signature ⟨⟨"k", 0, ["x", "nil"], [.equal ⟨0⟩ ⟨1⟩], [⟨0⟩], {}⟩, rfl⟩ =
    signature ⟨⟨"k", 0, ["x", "nil"], [.constant ⟨0⟩ .nil], [⟨0⟩], {}⟩, rfl⟩ := by
  decide +kernel

end Body

/-! ## What matches -/

/-- Whether a statement is true of the named values, given the checks behind their names. -/
def Statement.Holds (checks : Checks) (facts : FactStore) (meaning : String → CheckId)
    (values : String → Value) : Statement → Prop
  | .relation name arguments => facts.Has name (arguments.map values)
  | .closure name source target => facts.Linked name (values source) (values target)
  | .equal left right => values left = values right
  | .different left right => values left ≠ values right
  | .absent name arguments => ¬facts.Has name (arguments.map values)
  | .check label arguments => checks (meaning label) (arguments.map values) = .ok true
  | .constant subject value => values subject = value

/-- The checks of the body are those that their names stand for. -/
def Body.Calls (body : Body) (meaning : String → CheckId) : Prop :=
  ∀ label id arguments, Constraint.check label id arguments ∈ body.constraints → id = meaning label

section Matches

variable {checks : Checks} {facts : FactStore} {meaning : String → CheckId}
  {body first second : Body}

theorem Constraint.holds_statement {name : VarId → String} {values : String → Value}
    {constraint : Constraint} (calls : ∀ label id arguments,
      constraint = .check label id arguments → id = meaning label) :
    (constraint.statement name).Holds checks facts meaning values ↔
      constraint.Holds checks facts fun subject => values (name subject) := by
  cases constraint with
  | check label id arguments =>
    rw [calls label id arguments rfl]
    simp [statement, Statement.Holds, Holds, Function.comp_def]
  | _ => simp [statement, Statement.Holds, Holds, Function.comp_def]

namespace Body

/-- In a body with different names, the value of a variable is the value of its name. -/
theorem value_of_name (nodup : body.names.Nodup) (values : VarId → Value) {subject : VarId}
    (known : subject.index < body.names.length) :
    values ⟨body.names.idxOf (body.variableName subject)⟩ = values subject := by
  unfold Draft.variableName
  rw [List.getD_eq_getElem?_getD, List.getElem?_eq_getElem known, Option.getD_some,
    nodup.idxOf_getElem]

/-- What matches a body can be told from the names of its parameters and what it says. -/
theorem matches_iff_statements (nodup : body.names.Nodup) (calls : body.Calls meaning)
    (tuple : Tuple) : body.Matches checks facts .empty [] tuple ↔
      ∃ values : String → Value,
        (∀ statement ∈ body.statements, statement.Holds checks facts meaning values) ∧
        tuple = body.parameterNames.map values := by
  have same {constraint : Constraint} (member : constraint ∈ body.constraints)
      (values : String → Value) :
      (constraint.statement body.variableName).Holds checks facts meaning values ↔
        constraint.Holds checks facts fun subject => values (body.variableName subject) :=
    Constraint.holds_statement fun label id arguments found =>
      calls label id arguments (found ▸ member)
  unfold statements parameterNames
  constructor
  · rintro ⟨values, holds, _, rfl⟩
    refine ⟨fun name => values ⟨body.names.idxOf name⟩, fun statement member => ?_, ?_⟩
    · obtain ⟨constraint, listed, rfl⟩ := List.mem_map.mp member
      rw [same listed]
      refine (Constraint.holds_congr fun subject argument => ?_).mpr (holds constraint listed)
      exact value_of_name nodup values (knows_argument listed argument)
    · rw [List.map_map]
      exact List.map_congr_left fun parameter listed =>
        (value_of_name nodup values (knows_parameter listed)).symm
  · rintro ⟨values, holds, rfl⟩
    refine ⟨fun subject => values (body.variableName subject), fun constraint listed => ?_, .nil,
      List.map_map⟩
    exact (same listed values).mp (holds _ (List.mem_map_of_mem listed))

/-- Plain bodies of the same signature have the same number of parameters and the same matches, if
every name of a check stands for one check. -/
theorem matches_iff_of_signature (checks : Checks) (firstPlain : first.Plain)
    (secondPlain : second.Plain) (firstCalls : first.Calls meaning)
    (secondCalls : second.Calls meaning) (same : first.signature = second.signature) :
    first.parameters.length = second.parameters.length ∧ ∀ facts tuple,
      first.Matches checks facts .empty [] tuple ↔ second.Matches checks facts .empty [] tuple := by
  obtain ⟨parameters, statements⟩ := read_signature firstPlain secondPlain same
  refine ⟨?_, fun facts tuple => ?_⟩
  · simpa [parameterNames] using congrArg List.length parameters
  · rw [matches_iff_statements firstPlain.nodup firstCalls,
      matches_iff_statements secondPlain.nodup secondCalls, parameters, statements]

end Body

end Matches

end LiveQuery
