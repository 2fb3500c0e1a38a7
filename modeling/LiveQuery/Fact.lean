import LiveQuery.Bag
import LiveQuery.Error
import LiveQuery.Relation
import LiveQuery.Tuple

/-!
# Facts

Facts are tuples of relations.  A store holds every fact as often as it has been inserted and not
yet deleted.
-/

namespace LiveQuery

/-- A tuple of a relation. -/
structure Fact where
  relation : RelationId
  tuple : Tuple
  deriving DecidableEq, Repr

/-- Whether something is added or taken away. -/
inductive ChangeKind where
  | insert
  | delete
  deriving DecidableEq, Repr

/-- One more or one less occurrence of a fact. -/
structure FactChange where
  kind : ChangeKind
  fact : Fact
  deriving DecidableEq, Repr

/-- The facts with their numbers of occurrences. -/
abbrev FactStore := Bag Fact

namespace FactStore

/-- The store with one occurrence less of a fact, which has to be there. -/
def delete (store : FactStore) (fact : Fact) : Except Error (FactStore × Presence) :=
  match store.presenceOnErase? fact with
  | some presence => .ok (store.erase fact, presence)
  | none => .error (.factNotFound fact.relation.render fact.tuple.render)

/-- The store after a change, and what the change means for the presence of the fact. -/
def apply (store : FactStore) (change : FactChange) : Except Error (FactStore × Presence) :=
  match change.kind with
  | .insert => .ok (store.add change.fact, store.presenceOnAdd change.fact)
  | .delete => store.delete change.fact

/-- The tuple of a fact, if it belongs to a relation. -/
def tupleOf? (relation : RelationId) (fact : Fact) : Option Tuple :=
  if fact.relation = relation then some fact.tuple else none

/-- The tuples of a relation, each as often as it occurs. -/
def occurrencesOf (store : FactStore) (relation : RelationId) : List Tuple :=
  store.occurrences.filterMap (tupleOf? relation)

/-- The tuples of a relation, each once. -/
def tuplesOf (store : FactStore) (relation : RelationId) : OrderedSet Tuple :=
  .ofList (store.occurrencesOf relation)

end FactStore
end LiveQuery
