import LiveQuery.Value

/-!
# Tuples

Facts, rows and matches are finite sequences of values.  Tuples compare position by position,
and a tuple comes before all of its proper extensions.
-/

namespace LiveQuery

/-- A sequence of values, compared lexicographically. -/
abbrev Tuple := List Value

namespace Tuple

/-- The value at a position; positions past the end hold nil. -/
def value (tuple : Tuple) (position : Nat) : Value :=
  tuple.getD position .nil

/-- The values at the listed positions, in the order of the list. -/
def project (tuple : Tuple) (positions : List Nat) : Tuple :=
  positions.map tuple.value

/-- The projection, or nothing when a listed position lies past the end. -/
def project? (tuple : Tuple) (positions : List Nat) : Option Tuple :=
  positions.mapM fun position => tuple[position]?

/-- The form shown to a reader: the values between round brackets. -/
def render (tuple : Tuple) : String :=
  "(" ++ ", ".intercalate (tuple.map Value.render) ++ ")"

/-- The form that shows the kind of each value. -/
def literal (tuple : Tuple) : String :=
  "Tuple[" ++ ", ".intercalate (tuple.map Value.literal) ++ "]"

end Tuple
end LiveQuery
