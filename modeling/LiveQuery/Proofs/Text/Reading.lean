import Mathlib.Data.List.Basic
import LiveQuery.Text.Quoted

/-!
# Reading texts back

Some parts of the program compare what was written in place of what it was written from.
`Readable` says that this is safe: a text tells what it was written from and where it ends, if what
comes next starts with a character at which it can end.  Words end at any of the `stops`
(`readable_word`), lists at a character that closes them (`Readable.separated`), and quoted texts
at their quotes (`read_quoted`).
-/

namespace LiveQuery.Text

/-! ## Readable texts -/

/-- What comes next is nothing or starts with one of the characters. -/
def EndsAt (ends rest : List Char) : Prop := ∀ char ∈ rest.head?, char ∈ ends

theorem EndsAt.mono {ends more rest : List Char} (ended : EndsAt ends rest)
    (also : ∀ char ∈ ends, char ∈ more) : EndsAt more rest :=
  fun char first => also char (ended char first)

theorem endsAt_cons {ends rest : List Char} {char : Char} :
    EndsAt ends (char :: rest) ↔ char ∈ ends := by
  simp [EndsAt]

theorem endsAt_nil (ends : List Char) : EndsAt ends [] := nofun

/-- Texts that start in the same way up to where they can end were written from the same value and
go on in the same way. -/
def Readable {α : Type} (valid : α → Prop) (ends : List Char) (write : α → String) : Prop :=
  ∀ first second rest other, valid first → valid second → EndsAt ends rest → EndsAt ends other →
    (write first).toList ++ rest = (write second).toList ++ other → first = second ∧ rest = other

theorem Readable.mono {α : Type} {valid only : α → Prop} {ends less : List Char}
    {write : α → String} (reads : Readable valid ends write)
    (fits : ∀ value, only value → valid value) (fewer : ∀ char ∈ less, char ∈ ends) :
    Readable only less write :=
  fun first second rest other firstOnly secondOnly ended otherEnded =>
    reads first second rest other (fits first firstOnly) (fits second secondOnly)
      (ended.mono fewer) (otherEnded.mono fewer)

/-! ## Words -/

/-- The characters that end a word. -/
def stops : List Char := [' ', ',', '(', ')', ']', '"']

/-- A text in which no word ends. -/
def IsWord (text : String) : Prop := ∀ char ∈ text.toList, char ∉ stops

instance (text : String) : Decidable (IsWord text) :=
  decidable_of_iff (text.toList.all (· ∉ stops) = true) (by simp [IsWord])

theorem IsWord.append {first second : String} (early : IsWord first) (late : IsWord second) :
    IsWord (first ++ second) := by
  intro char member
  rw [String.toList_append] at member
  exact (List.mem_append.mp member).elim (early char) (late char)

/-- A word goes up to the first stop. -/
theorem readable_word : Readable IsWord stops id := by
  intro first second rest other firstWord secondWord ended otherEnded same
  have reads (word : String) (tail : List Char) (isWord : IsWord word) (ended : EndsAt stops tail) :
      (word.toList ++ tail).takeWhile (· ∉ stops) = word.toList := by
    rw [List.takeWhile_append_of_pos fun char member => decide_eq_true (isWord char member)]
    cases tail with
    | nil => exact List.append_nil _
    | cons char rest =>
      rw [List.takeWhile_cons_of_neg (by simpa using endsAt_cons.mp ended), List.append_nil]
  have words : first = second := by
    refine String.toList_inj.mp ?_
    rw [← reads first rest firstWord ended, ← reads second other secondWord otherEnded]
    exact congrArg _ same
  subst words
  exact ⟨rfl, List.append_cancel_left same⟩

/-! ## Lists -/

theorem toList_intercalate_cons (separator text : String) (texts : List String) :
    (separator.intercalate (text :: texts)).toList =
      text.toList ++ texts.flatMap fun text => separator.toList ++ text.toList := by
  induction texts generalizing text with
  | nil => simp
  | cons next rest ih =>
    rw [String.intercalate_cons_cons, String.toList_append, String.toList_append, ih next,
      List.flatMap_cons, List.append_assoc]
    simp

section Lists

variable {α : Type} {valid : α → Prop} {closing more : List Char} {mark : Char}
  {separator : String} {write : α → String}

theorem endsAt_following (splits : separator.toList = mark :: more) (items : List α)
    {rest : List Char} (ended : EndsAt closing rest) : EndsAt (mark :: closing)
      ((items.flatMap fun item => separator.toList ++ (write item).toList) ++ rest) := by
  cases items with
  | nil => exact ended.mono fun char => List.mem_cons_of_mem mark
  | cons item items =>
    rw [List.flatMap_cons, splits]
    exact endsAt_cons.mpr List.mem_cons_self

/-- The items after the first one of a list, if every item ends at the separator or where the list
is closed. -/
theorem Readable.following (reads : Readable valid (mark :: closing) write)
    (splits : separator.toList = mark :: more) (apart : mark ∉ closing) :
    ∀ first second : List α, ∀ rest other, (∀ item ∈ first, valid item) →
      (∀ item ∈ second, valid item) → EndsAt closing rest → EndsAt closing other →
      (first.flatMap fun item => separator.toList ++ (write item).toList) ++ rest =
        (second.flatMap fun item => separator.toList ++ (write item).toList) ++ other →
      first = second ∧ rest = other := by
  -- a text that goes on with the separator does not close the list
  have clash (tail rest : List Char) (ended : EndsAt closing rest)
      (same : rest = separator.toList ++ tail) : False := by
    rw [same, splits] at ended
    exact apart (endsAt_cons.mp ended)
  intro first
  induction first with
  | nil =>
    intro second rest other _ _ ended otherEnded same
    cases second with
    | nil => exact ⟨rfl, same⟩
    | cons item items =>
      rw [List.flatMap_cons, List.append_assoc, List.append_assoc] at same
      exact absurd same (clash _ rest ended)
  | cons item items ih =>
    intro second rest other firstValid secondValid ended otherEnded same
    cases second with
    | nil =>
      rw [List.flatMap_cons, List.append_assoc, List.append_assoc] at same
      exact absurd same.symm (clash _ other otherEnded)
    | cons next others =>
      rw [List.flatMap_cons, List.flatMap_cons, List.append_assoc, List.append_assoc,
        List.append_assoc, List.append_assoc] at same
      obtain ⟨rfl, later⟩ := reads item next _ _ (firstValid item List.mem_cons_self)
        (secondValid next List.mem_cons_self) (endsAt_following splits items ended)
        (endsAt_following splits others otherEnded) (List.append_cancel_left same)
      obtain ⟨rfl, rest⟩ := ih others rest other
        (fun item member => firstValid item (List.mem_cons_of_mem _ member))
        (fun item member => secondValid item (List.mem_cons_of_mem _ member)) ended otherEnded later
      exact ⟨rfl, rest⟩

/-- A list that is not empty. -/
theorem Readable.separatedSome (reads : Readable valid (mark :: closing) write)
    (splits : separator.toList = mark :: more) (apart : mark ∉ closing) :
    Readable (fun items : List α => items ≠ [] ∧ ∀ item ∈ items, valid item) closing
      fun items => separator.intercalate (items.map write) := by
  intro first second rest other firstValid secondValid ended otherEnded same
  obtain ⟨item, items, rfl⟩ := List.exists_cons_of_ne_nil firstValid.1
  obtain ⟨next, others, rfl⟩ := List.exists_cons_of_ne_nil secondValid.1
  simp only [List.map_cons, toList_intercalate_cons, List.flatMap_map, List.append_assoc] at same
  obtain ⟨rfl, later⟩ := reads item next _ _ (firstValid.2 item List.mem_cons_self)
    (secondValid.2 next List.mem_cons_self) (endsAt_following splits items ended)
    (endsAt_following splits others otherEnded) same
  obtain ⟨rfl, rest⟩ := reads.following splits apart items others rest other
    (fun item member => firstValid.2 item (List.mem_cons_of_mem _ member))
    (fun item member => secondValid.2 item (List.mem_cons_of_mem _ member)) ended otherEnded later
  exact ⟨rfl, rest⟩

/-- A list of items that do not start like what closes the list. -/
theorem Readable.separated (reads : Readable valid (mark :: closing) write)
    (splits : separator.toList = mark :: more) (apart : mark ∉ closing)
    (starts : ∀ item, valid item → ∃ char ∈ (write item).toList.head?, char ∉ closing) :
    Readable (fun items : List α => ∀ item ∈ items, valid item) closing
      fun items => separator.intercalate (items.map write) := by
  -- an item does not start where a list is closed
  have clash (item : α) (items : List α) (rest tail : List Char) (itemValid : valid item)
      (ended : EndsAt closing rest)
      (same : rest = (separator.intercalate ((item :: items).map write)).toList ++ tail) :
      False := by
    obtain ⟨char, first, free⟩ := starts item itemValid
    refine free (ended char ?_)
    rw [same, List.map_cons, toList_intercalate_cons, List.append_assoc, List.head?_append]
    simp [Option.mem_def.mp first]
  intro first second rest other firstValid secondValid ended otherEnded same
  cases first with
  | nil =>
    cases second with
    | nil => exact ⟨rfl, same⟩
    | cons next others =>
      exact absurd same (clash next others rest other (secondValid next List.mem_cons_self) ended)
  | cons item items =>
    cases second with
    | nil =>
      exact absurd same.symm
        (clash item items other rest (firstValid item List.mem_cons_self) otherEnded)
    | cons next others =>
      exact reads.separatedSome splits apart _ _ _ _ ⟨List.cons_ne_nil _ _, firstValid⟩
        ⟨List.cons_ne_nil _ _, secondValid⟩ ended otherEnded same

end Lists

/-! ## Numbers -/

theorem isDigit_of_mem {number : Nat} {char : Char} (member : char ∈ number.repr.toList) :
    char.isDigit = true := by
  rw [Nat.toList_repr] at member
  exact Nat.isDigit_of_mem_toDigits (by decide) (by decide) member

theorem isWord_nat (number : Nat) : IsWord (toString number) := by
  intro char member stop
  have none_ : ∀ char ∈ stops, char.isDigit = false := by simp [stops]
  have digit := isDigit_of_mem (Nat.toString_eq_repr ▸ member)
  rw [none_ char stop] at digit
  cases digit

theorem isWord_int (number : Int) : IsWord (toString number) := by
  rw [Int.toString_eq_repr, Int.repr_eq_if]
  split
  · exact isWord_nat number.toNat
  · have sign : IsWord "-" := by decide
    exact sign.append (isWord_nat (-number).toNat)

theorem head_nat (number : Nat) : ∃ char ∈ number.repr.toList.head?, char.isDigit = true := by
  obtain ⟨digit, rest, digits⟩ :=
    List.exists_cons_of_ne_nil (Nat.toDigits_ne_nil (n := number) (b := 10))
  rw [← Nat.toList_repr] at digits
  exact ⟨digit, by rw [digits]; rfl, isDigit_of_mem (digits ▸ List.mem_cons_self)⟩

theorem head_int (number : Int) :
    ∃ char ∈ (toString number).toList.head?, char = '-' ∨ char.isDigit = true := by
  rw [Int.toString_eq_repr, Int.repr_eq_if]
  split
  · obtain ⟨char, head, digit⟩ := head_nat number.toNat
    exact ⟨char, head, .inr digit⟩
  · exact ⟨'-', by simp, .inl rfl⟩

theorem nat_inj {first second : Nat} (same : toString first = toString second) :
    first = second := by
  have digits : Nat.toDigits 10 first = Nat.toDigits 10 second := by
    rw [← Nat.toList_repr, ← Nat.toList_repr]
    exact congrArg String.toList same
  rw [← Nat.ofDigitChars_ten_toDigits (n := first), digits, Nat.ofDigitChars_ten_toDigits]

theorem int_inj {first second : Int} (same : toString first = toString second) :
    first = second := by
  -- digits do not start with a sign
  have clash (left right : Nat) (same : left.repr = "-" ++ right.repr) : False := by
    obtain ⟨char, head, digit⟩ := head_nat left
    rw [same] at head
    obtain rfl : '-' = char := by simpa using head
    cases digit
  rw [Int.toString_eq_repr, Int.toString_eq_repr, Int.repr_eq_if, Int.repr_eq_if] at same
  split at same
  next positive =>
    split at same
    next =>
      have numbers := nat_inj same
      omega
    next => exact absurd same (clash _ _)
  next negative =>
    split at same
    next => exact absurd same.symm (clash _ _)
    next =>
      have numbers := nat_inj ((String.append_right_inj "-").mp same)
      omega

/-! ## Quoted texts -/

/-- The number that hexadecimal digits stand for. -/
def hexNumber (digits : List Char) : Nat :=
  digits.foldl (fun total digit => 16 * total + "0123456789abcdef".toList.idxOf digit) 0

theorem digitChar_spec : ∀ digit < 16,
    "0123456789abcdef".toList.idxOf digit.digitChar = digit ∧ digit.digitChar ≠ '\x7d' := by
  decide

theorem hexNumber_toDigits (number : Nat) :
    hexNumber (Nat.toDigits 16 number) = number ∧ '\x7d' ∉ Nat.toDigits 16 number := by
  induction number using Nat.strongRecOn with
  | ind number ih =>
    rw [Nat.toDigits_eq_if (by decide)]
    split
    next small =>
      obtain ⟨value, open_⟩ := digitChar_spec number small
      simpa [hexNumber, open_.symm] using value
    next large =>
      obtain ⟨value, open_⟩ := digitChar_spec (number % 16) (Nat.mod_lt _ (by decide))
      obtain ⟨before, free⟩ := ih (number / 16) (by omega)
      unfold hexNumber at before ⊢
      rw [List.foldl_append, before, List.foldl_cons, List.foldl_nil, value]
      exact ⟨by omega, by simp [free, open_.symm]⟩

/-- The character that is escaped after a backslash, and the escaped text after it. -/
def unescapeMarked : List Char → Option (Char × List Char)
  | 'n' :: rest => some ('\n', rest)
  | 'r' :: rest => some ('\r', rest)
  | 't' :: rest => some ('\t', rest)
  | '0' :: rest => some ('\x00', rest)
  | 'u' :: '\x7b' :: rest =>
    some (.ofNat (hexNumber (rest.takeWhile (· ≠ '\x7d'))), (rest.dropWhile (· ≠ '\x7d')).tail)
  | char :: rest => some (char, rest)
  | [] => none

/-- The first character of an escaped text, and the escaped text after it. -/
def unescape : List Char → Option (Char × List Char)
  | [] => none
  | char :: rest => if char = '\\' then unescapeMarked rest else some (char, rest)

theorem unescape_escape (char : Char) (rest : List Char) :
    unescape (escape char ++ rest) = some (char, rest) := by
  unfold escape
  split
  case h_7 quote backslash newline return_ tab zero =>
    split
    next =>
      obtain ⟨value, open_⟩ := hexNumber_toDigits char.toNat
      have inside : ∀ digit ∈ Nat.toDigits 16 char.toNat, decide (digit ≠ '\x7d') = true :=
        fun digit member => decide_eq_true fun same => open_ (same ▸ member)
      simp only [List.cons_append, List.append_assoc, List.nil_append, unescape, if_true,
        unescapeMarked]
      rw [List.takeWhile_append_of_pos inside, List.dropWhile_append_of_pos inside]
      simp [value]
    next => exact if_neg backslash
  all_goals rfl

/-- An escaped character does not start like the end of a text. -/
theorem head_escape (char : Char) : ∃ first rest, escape char = first :: rest ∧ first ≠ '"' := by
  unfold escape
  split
  case h_7 quote _ _ _ _ _ =>
    split
    · exact ⟨_, _, rfl, by decide⟩
    · exact ⟨_, _, rfl, quote⟩
  all_goals exact ⟨_, _, rfl, by decide⟩

/-- A quoted text goes up to its closing quote, whatever comes next. -/
theorem read_quoted {first second : String} {rest other : List Char}
    (same : (quoted first).toList ++ rest = (quoted second).toList ++ other) :
    first = second ∧ rest = other := by
  have reads (first second : List Char)
      (same : first.flatMap escape ++ '"' :: rest = second.flatMap escape ++ '"' :: other) :
      first = second ∧ rest = other := by
    induction first generalizing second with
    | nil =>
      cases second with
      | nil => exact ⟨rfl, (List.cons.inj same).2⟩
      | cons char chars =>
        obtain ⟨start, more, escaped, inside⟩ := head_escape char
        rw [List.flatMap_cons, escaped] at same
        exact absurd (List.cons.inj same).1.symm inside
    | cons char chars ih =>
      cases second with
      | nil =>
        obtain ⟨start, more, escaped, inside⟩ := head_escape char
        rw [List.flatMap_cons, escaped] at same
        exact absurd (List.cons.inj same).1 inside
      | cons next others =>
        rw [List.flatMap_cons, List.flatMap_cons, List.append_assoc, List.append_assoc] at same
        have both := congrArg unescape same
        rw [unescape_escape, unescape_escape] at both
        obtain ⟨rfl, later⟩ := Prod.mk.inj (Option.some.inj both)
        obtain ⟨rfl, rest⟩ := ih others later
        exact ⟨rfl, rest⟩
  simp only [quoted, String.toList_ofList, List.cons_append, List.append_assoc, List.nil_append,
    List.cons.injEq, true_and] at same
  obtain ⟨texts, rest⟩ := reads first.toList second.toList same
  exact ⟨String.toList_inj.mp texts, rest⟩

end LiveQuery.Text
