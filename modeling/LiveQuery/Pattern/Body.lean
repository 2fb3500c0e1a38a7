import LiveQuery.Error
import LiveQuery.Pattern.Constraint
import LiveQuery.Pattern.Hints

/-!
# Pattern bodies

A body is one conjunction of constraints over named variables, with the variables that it exports
as parameters.  A body is drafted step by step and then built, which checks that every constraint
and parameter speaks about known variables.
-/

namespace LiveQuery

/-- A body under construction.  Variables and constraints are numbered by their place. -/
structure Draft where
  query : String
  /-- The place of the body among the bodies of its query. -/
  index : Nat
  /-- The names of the variables. -/
  names : List String := []
  constraints : List Constraint := []
  parameters : List VarId := []
  hints : HintOverrides := {}
  deriving DecidableEq, Repr

/-- What keeps a draft from being a body. -/
inductive BodyDefect where
  | unknownVariable (constraint : Nat)
  | keyOutOfRange (constraint : Nat)
  | unknownParameter (position : Nat)
  | repeatedParameter (parameter : VarId)
  deriving DecidableEq, Repr

namespace Draft

/-- The number of a named variable, which is added if it is new. -/
def named (draft : Draft) (name : String) : Draft × VarId :=
  match draft.names.idxOf? name with
  | some place => (draft, ⟨place⟩)
  | none => ({ draft with names := draft.names ++ [name] }, ⟨draft.names.length⟩)

/-- The draft with one more constraint. -/
def add (draft : Draft) (constraint : Constraint) : Draft :=
  { draft with constraints := draft.constraints ++ [constraint] }

/-- Variables without a name are shown by a question mark. -/
def variableName (draft : Draft) (subject : VarId) : String :=
  draft.names.getD subject.index "?"

def knows (draft : Draft) (subject : VarId) : Bool := subject.index < draft.names.length

/-- What is wrong with the constraint at a place. -/
def constraintDefect? (draft : Draft) (place : Nat) (constraint : Constraint) :
    Option BodyDefect :=
  if !constraint.arguments.all draft.knows then some (.unknownVariable place)
  else match constraint with
    | .relation _ arguments keys =>
      if keys.all (· < arguments.length) then none else some (.keyOutOfRange place)
    | _ => none

/-- What is wrong with the parameter at a place: it is no variable, or it came before. -/
def parameterDefect? (draft : Draft) (place : Nat) (parameter : VarId) : Option BodyDefect :=
  if !draft.knows parameter then some (.unknownParameter place)
  else if (draft.parameters.take place).contains parameter then some (.repeatedParameter parameter)
  else none

/-- The first thing that keeps the draft from being a body: constraints in order, then
parameters in order. -/
def defect? (draft : Draft) : Option BodyDefect :=
  (draft.constraints.zipIdx.findSome? fun (constraint, place) =>
    draft.constraintDefect? place constraint).or
  (draft.parameters.zipIdx.findSome? fun (parameter, place) =>
    draft.parameterDefect? place parameter)

end Draft

namespace BodyDefect

/-- The wording of a defect of a draft. -/
def message (draft : Draft) : BodyDefect → String
  | .unknownVariable place =>
    s!"constraint #{place} of {draft.query} references an unknown variable"
  | .keyOutOfRange place =>
    s!"constraint #{place} of {draft.query} has a key position out of range"
  | .unknownParameter place => s!"parameter #{place} of {draft.query} is not a variable"
  | .repeatedParameter parameter =>
    s!"parameter {draft.variableName parameter} of {draft.query} is exported twice"

end BodyDefect

/-- A draft without defects. -/
structure Body extends Draft where
  sound : toDraft.defect? = none
  deriving DecidableEq

namespace Body

/-- The body of a draft, unless the draft has a defect. -/
def build (draft : Draft) : Except Error Body :=
  match found : draft.defect? with
  | none => .ok ⟨draft, found⟩
  | some defect => .error (.invalidBody (defect.message draft))

/-- The constraint with a number. -/
def constraint? (body : Body) (id : ConstraintId) : Option Constraint :=
  body.constraints[id.index]?

/-- The constraints with their numbers, in order. -/
def numbered (body : Body) : List (ConstraintId × Constraint) :=
  body.constraints.zipIdx.map fun (constraint, place) => (⟨place⟩, constraint)

/-- The numbers of all constraints. -/
def constraintIds (body : Body) : OrderedSet ConstraintId :=
  .ofList (body.numbered.map Prod.fst)

/-- The variables of a constraint; a number without a constraint has none. -/
def variablesOf (body : Body) (id : ConstraintId) : OrderedSet VarId :=
  ((body.constraint? id).map Constraint.subjects).getD .empty

/-- The dependencies of a constraint; a number without a constraint has none. -/
def dependenciesOf (body : Body) (id : ConstraintId) : List Dependency :=
  ((body.constraint? id).map Constraint.dependencies).getD []

/-- The written form of a constraint. -/
def describe (body : Body) (id : ConstraintId) : String :=
  match body.constraint? id with
  | some constraint => constraint.render body.variableName
  | none => "?#" ++ toString id.index

/-- The names of a list of variables, separated by commas. -/
def listNames (body : Body) (subjects : List VarId) : String :=
  ", ".intercalate (subjects.map body.variableName)

end Body
end LiveQuery
