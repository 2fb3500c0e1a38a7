import LiveQuery.OrderedSet
import LiveQuery.Relation
import LiveQuery.Tuple

/-!
# Constraints

The conditions that a pattern body puts on its variables.  Enumerable constraints list the values
that satisfy them, deferred constraints can only test values that are already bound, and constant
constraints fix a variable to one value.  Keyed relations, equalities and constants also determine
variables by others.
-/

namespace LiveQuery

/-- The answers of the checks of a program: each check sees the values of its arguments and
accepts them, rejects them, or fails with a message. -/
abbrev Checks := CheckId → Tuple → Except String Bool

/-- One variable set determines another. -/
structure Dependency where
  determining : OrderedSet VarId
  determined : OrderedSet VarId
  deriving DecidableEq

/-- A condition on the variables of a pattern body. -/
inductive Constraint where
  /-- The arguments form a fact; the arguments at the key positions determine the others. -/
  | relation (relation : RelationId) (arguments : List VarId) (keys : List Nat)
  /-- A path of at least one fact of the binary relation leads from source to target. -/
  | closure (relation : RelationId) (source target : VarId)
  | equal (left right : VarId)
  | different (left right : VarId)
  /-- The arguments do not form a fact. -/
  | absent (relation : RelationId) (arguments : List VarId)
  /-- The check accepts the arguments. -/
  | check (name : String) (id : CheckId) (arguments : List VarId)
  | constant (subject : VarId) (value : Value)
  deriving DecidableEq, Repr

/-- How a constraint can take part in a plan. -/
inductive Role where
  | enumerable
  | deferred
  | constant
  deriving DecidableEq, Repr

namespace Constraint

def role : Constraint → Role
  | .relation .. | .closure .. => .enumerable
  | .equal .. | .different .. | .absent .. | .check .. => .deferred
  | .constant .. => .constant

/-- The variables as they are written, with repetitions. -/
def arguments : Constraint → List VarId
  | .relation _ arguments _ => arguments
  | .absent _ arguments => arguments
  | .check _ _ arguments => arguments
  | .closure _ source target => [source, target]
  | .equal left right | .different left right => [left, right]
  | .constant subject _ => [subject]

/-- The variables that the constraint speaks about. -/
def subjects (constraint : Constraint) : OrderedSet VarId :=
  .ofList constraint.arguments

/-- What the constraint says about variables determining others. -/
def dependencies : Constraint → List Dependency
  | .relation _ arguments keys =>
    if keys.isEmpty then []
    else [⟨.ofList (keys.filterMap (arguments[·]?)), .ofList arguments⟩]
  | .equal left right => [⟨.singleton left, .singleton right⟩, ⟨.singleton right, .singleton left⟩]
  | .constant subject _ => [⟨.empty, .singleton subject⟩]
  | _ => []

/-- The written form of the constraint under the given variable names. -/
def render (name : VarId → String) : Constraint → String
  | .relation id arguments _ => id.render ++ list arguments
  | .closure id source target => id.render ++ "+" ++ list [source, target]
  | .equal left right => name left ++ " == " ++ name right
  | .different left right => name left ++ " != " ++ name right
  | .absent id arguments => "neg " ++ id.render ++ list arguments
  | .check label _ arguments => "check " ++ label ++ list arguments
  | .constant subject value => name subject ++ " == " ++ value.literal
where
  /-- The names of an argument list between round brackets. -/
  list (arguments : List VarId) : String :=
    "(" ++ ", ".intercalate (arguments.map name) ++ ")"

end Constraint
end LiveQuery
