/-
# Type predicates

The rows of an entity type are those that satisfy all conditions of the type or of one derived from
it.  The general form of that predicate is a disjunction of conjunctions; when every type has one
value test on the same column it is a single list test.
-/
import EntityQuery.Model.Basic

namespace EntityQuery

/-- The conjunction of the conditions of a type. -/
def EntityType.predicate? (t : EntityType Condition) : Option Expr :=
  Expr.joinedBy .and (t.conditions.map Condition.predicate)

/-- The value that a type's only condition asks of a column. -/
def EntityType.onlyValue? (column : String) (t : EntityType Condition) : Option Value :=
  match t.conditions with
  | [condition] => if condition.column = column then condition.test.value? else none
  | _ => none

/-- The predicate of some types with conditions, the first of which is on `column`. -/
def unionPredicate? (column : String) (mapped : List (EntityType Condition)) : Option Expr :=
  match mapped.mapM (·.onlyValue? column) with
  | some values => some (.inList (.column column) values.eraseDups)
  | none => Expr.joinedBy .or (mapped.filterMap EntityType.predicate?)

namespace Model

/-- The rows of a type and of everything derived from it, if any of them has a condition. -/
def subtreePredicate? (model : Model) (name : String) : Option Expr :=
  let mapped := (model.subtree name).filter (!·.conditions.isEmpty)
  match mapped.head?.bind (·.conditions.head?) with
  | some first => unionPredicate? first.column mapped
  | none => none

/-- The rows of an entity set whose types are told apart by a discriminator. -/
def extentPredicate? (model : Model) (set : EntitySet) : Option Expr :=
  if set.discriminator.isSome then model.subtreePredicate? set.root else none

/-- The rows of a type within an entity set. -/
def typePredicate (model : Model) (set : EntitySet) (subtype : String) : Except Fault Expr :=
  if (model.entityType subtype).isNone then .error (.unresolvedType subtype .unknownType)
  else if !model.isSubtypeOf subtype set.root then
    .error (.unresolvedType subtype (.outsideHierarchy set.root set.name))
  else match model.subtreePredicate? subtype with
    | some predicate => .ok predicate
    | none => .error (.unresolvedType subtype .noCondition)

end Model

end EntityQuery
