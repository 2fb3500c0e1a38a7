import LiveQuery.Text.Quoted

/-!
# Values

The values that facts and matches are made of, with their total order and their two written
forms.  Values of different kinds are ordered by kind: nil, truth values, integers, texts and
element references; texts compare by code point.
-/

namespace LiveQuery

/-- A value of the observed model: nothing, a truth value, a 64-bit integer, a text, or a
reference to an element of the model by number. -/
inductive Value where
  | nil
  | bool (truth : Bool)
  | int (number : Int64)
  | string (text : String)
  | element (id : UInt64)
  deriving DecidableEq, Repr, Inhabited

namespace Value

/-! ## Views by kind -/

def isNil : Value → Bool
  | .nil => true
  | _ => false

def asBool : Value → Option Bool
  | .bool truth => some truth
  | _ => none

def asInt : Value → Option Int64
  | .int number => some number
  | _ => none

def asString : Value → Option String
  | .string text => some text
  | _ => none

def asElement : Value → Option UInt64
  | .element id => some id
  | _ => none

/-! ## Order -/

/-- The place of a value's kind in the order of kinds. -/
def rank : Value → Nat
  | .nil => 0
  | .bool _ => 1
  | .int _ => 2
  | .string _ => 3
  | .element _ => 4

/-- The kind decides first; within one kind the carried value does. -/
protected def compare : Value → Value → Ordering :=
  compareLex (compareOn rank) <| compareLex (compareOn asBool) <|
    compareLex (compareOn asInt) <| compareLex (compareOn asString) (compareOn asElement)

instance : Ord Value := ⟨Value.compare⟩

instance : Std.TransOrd Value :=
  inferInstanceAs (Std.TransCmp (compareLex (compareOn rank) <| compareLex (compareOn asBool) <|
    compareLex (compareOn asInt) <| compareLex (compareOn asString) (compareOn asElement)))

instance : Std.LawfulEqOrd Value where
  eq_of_compare {first second} equal := by
    replace equal : Value.compare first second = .eq := equal
    simp only [Value.compare, compareLex_eq_eq, compareOn,
      Std.LawfulEqOrd.compare_eq_iff_eq] at equal
    obtain ⟨sameRank, sameBool, sameInt, sameString, sameElement⟩ := equal
    cases first <;> cases second <;> simp_all [rank, asBool, asInt, asString, asElement]

/-! ## Written forms -/

/-- The form shown to a reader: texts appear as they are. -/
def render : Value → String
  | .nil => "nil"
  | .bool truth => toString truth
  | .int number => toString number.toInt
  | .string text => text
  | .element id => "#" ++ toString id.toNat

/-- The form that shows the kind: texts are quoted and element references are spelled out. -/
def literal : Value → String
  | .string text => Text.quoted text
  | .element id => "ElementId(" ++ toString id.toNat ++ ")"
  | value => value.render

end Value
end LiveQuery
