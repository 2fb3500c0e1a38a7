import LiveQuery.Id

/-!
# Relations

Relations are numbered in the order in which their names are first met, so that facts can be
routed by number.
-/

namespace LiveQuery

namespace RelationId

/-- The form shown to a reader. -/
def render (relation : RelationId) : String := "rel#" ++ toString relation.index

/-- The form that shows the kind of the number. -/
def literal (relation : RelationId) : String := "RelationId(" ++ toString relation.index ++ ")"

end RelationId

/-- The names of the relations known so far; the number of a relation is its place. -/
structure RelationNames where
  names : List String
  deriving Inhabited

namespace RelationNames

/-- No relation is known yet. -/
def empty : RelationNames := ⟨[]⟩

/-- The number of a known name. -/
def lookup? (known : RelationNames) (name : String) : Option RelationId :=
  (known.names.idxOf? name).map Id.mk

/-- The number of a name, which becomes known if it was not. -/
def intern (known : RelationNames) (name : String) : RelationNames × RelationId :=
  match known.lookup? name with
  | some relation => (known, relation)
  | none => (⟨known.names ++ [name]⟩, ⟨known.names.length⟩)

/-- The name of a number. -/
def resolve? (known : RelationNames) (relation : RelationId) : Option String :=
  known.names[relation.index]?

def size (known : RelationNames) : Nat := known.names.length

def isEmpty (known : RelationNames) : Bool := known.names.isEmpty

end RelationNames
end LiveQuery
