import LiveQuery.Fact
import LiveQuery.Pattern.Constraint

/-!
# Row operators

Rows are tuples whose columns stand for variables.  Operators say what a step of a plan does to
rows in terms of column positions alone, so that equal steps of different bodies become equal
operators.
-/

namespace LiveQuery

/-- One of the two inputs of a join. -/
inductive Side where
  | left
  | right
  deriving DecidableEq, Repr

/-- A test of single rows. -/
inductive RowTest where
  | constant (column : Nat) (value : Value)
  | equal (first second : Nat)
  | different (first second : Nat)
  | check (id : CheckId) (columns : List Nat)
  deriving DecidableEq, Repr

/-- Whether a row passes a test.  A check that fails is an evaluation fault at the given label. -/
def RowTest.passes (checks : Checks) (label : String) (row : Tuple) :
    RowTest → Except Error Bool
  | .constant column value => .ok (row.value column = value)
  | .equal first second => .ok (row.value first = row.value second)
  | .different first second => .ok (row.value first ≠ row.value second)
  | .check id columns =>
    match checks id (row.project columns) with
    | .ok accepted => .ok accepted
    | .error detail => .error (.evaluationFault label detail)

/-- The rows that pass a test, unless a check fails on one of them. -/
def RowTest.select (checks : Checks) (label : String) (test : RowTest) :
    List Tuple → Except Error (List Tuple)
  | [] => .ok []
  | row :: rest => do
    let accepted ← test.passes checks label row
    let selected ← test.select checks label rest
    return if accepted then row :: selected else selected

/-- What a step does to rows. -/
inductive Operator where
  /-- The facts of one arity that repeat values at the listed pairs of positions, restricted to
  some columns. -/
  | source (relation : RelationId) (arity : Nat) (columns : List Nat) (equal : List (Nat × Nat))
  /-- One fixed row. -/
  | unit (row : Tuple)
  /-- The supplied row, restricted to some columns. -/
  | input (columns : List Nat)
  /-- The pairs of the transitive closure of a binary relation: in the order of the variables, or
  one value for both if source and target are the same variable. -/
  | closure (relation : RelationId) (single swap : Bool)
  | filter (test : RowTest)
  /-- The rows whose key is not a fact of the relation. -/
  | antiJoin (relation : RelationId) (key : List Nat)
  /-- The pairs of rows with equal keys, put together. -/
  | join (leftKey rightKey : List Nat) (output : List (Side × Nat))
  | project (columns : List Nat)
  deriving DecidableEq, Repr

namespace Operator

/-- The row of a fact, if the fact has the right arity and repeats values as required. -/
def sourceRow? (arity : Nat) (columns : List Nat) (equal : List (Nat × Nat)) (fact : Tuple) :
    Option Tuple :=
  if fact.length = arity && equal.all fun (first, second) => fact.value first = fact.value second
  then some (fact.project columns)
  else none

/-- The row of a reachable pair. -/
def closureRow? (single swap : Bool) (pair : Value × Value) : Option Tuple :=
  if single then if pair.1 = pair.2 then some [pair.1] else none
  else if swap then some [pair.2, pair.1]
  else some [pair.1, pair.2]

/-- Two joined rows put together. -/
def joinRow (output : List (Side × Nat)) (left right : Tuple) : Tuple :=
  output.map fun (side, column) =>
    match side with
    | .left => left.value column
    | .right => right.value column

/-- The ends of a fact of a binary relation. -/
def edge? : Tuple → Option (Value × Value)
  | [first, second] => some (first, second)
  | _ => none

end Operator
end LiveQuery
