/-
# Entity models

A model lists entity sets and entity types.  An entity set is a table that holds a whole hierarchy
of types; a type has at most one base and inherits its properties.

* `Model.subtree`: a type and everything derived from it.
* `Model.isSubtypeOf`: whether a type is another or derives from it.
* `Model.typeColumns`, `Model.relationColumns`: the columns of a type and of a whole set.

Base chains and subtrees are followed for at most as many steps as there are types, which is enough
for every model without a cycle.
-/
import EntityQuery.Model.Condition

namespace EntityQuery

/-- A property of an entity and the column that stores it. -/
structure Property where
  name : String
  column : String
deriving DecidableEq, Repr, Inhabited

/-- A queryable set of entities: one table for a hierarchy of types. -/
structure EntitySet where
  name : String
  /-- The table, with its schema in front of a dot if it has one. -/
  table : String
  root : String
  /-- The column that tells the types apart, if there is one. -/
  discriminator : Option String := none
deriving DecidableEq, Repr, Inhabited

/-- An entity type; `κ` is the kind of its conditions. -/
structure EntityType (κ : Type) where
  name : String
  base : Option String := none
  properties : List Property := []
  conditions : List κ := []
deriving DecidableEq, Repr, Inhabited

/-! ## Base chains -/

section Chains

variable {κ : Type}

/-- The type of a name. -/
def findType (types : List (EntityType κ)) (name : String) : Option (EntityType κ) :=
  types.find? (·.name = name)

/-- A type, its base, the base of that and so on, at most `limit` of them. -/
def baseChain (types : List (EntityType κ)) : (limit : Nat) → String → List (EntityType κ)
  | 0, _ => []
  | limit + 1, name =>
    match findType types name with
    | none => []
    | some t =>
      match t.base with
      | none => [t]
      | some base => t :: baseChain types limit base

/-- A type and its ancestors, the nearest first. -/
def ancestry (types : List (EntityType κ)) (name : String) : List (EntityType κ) :=
  baseChain types types.length name

/-- Whether a base chain goes on for more than `limit` steps. -/
def outlasts (types : List (EntityType κ)) : (limit : Nat) → Option String → Bool
  | _, none => false
  | 0, some _ => true
  | limit + 1, some base => outlasts types limit ((findType types base).bind (·.base))

/-- The column of the first property of that name, on the type itself or its nearest ancestor. -/
def propertyColumn (types : List (EntityType κ)) (type property : String) : Option String :=
  (ancestry types type).findSome? fun t =>
    (t.properties.find? (·.name = property)).map (·.column)

end Chains

/-! ## Models -/

/-- An entity model. -/
structure Model where
  sets : List EntitySet
  types : List (EntityType Condition)
deriving DecidableEq, Repr, Inhabited

namespace Model

/-- The entity set of a name. -/
def relation (model : Model) (name : String) : Except Fault EntitySet :=
  match model.sets.find? (·.name = name) with
  | some set => .ok set
  | none => .error (.unknownRelation name)

/-- The entity type of a name. -/
def entityType (model : Model) (name : String) : Option (EntityType Condition) :=
  findType model.types name

/-- The types that derive directly from a type, in the order of declaration. -/
def children (model : Model) (t : EntityType Condition) : List (EntityType Condition) :=
  model.types.filter (·.base = some t.name)

/-- A type, then each of its children with everything below it, down to `limit` levels. -/
def descendants (model : Model) : (limit : Nat) → EntityType Condition → List (EntityType Condition)
  | 0, _ => []
  | limit + 1, t => t :: (model.children t).flatMap (descendants model limit)

/-- A type and everything derived from it, each type before its children. -/
def subtree (model : Model) (name : String) : List (EntityType Condition) :=
  match model.entityType name with
  | some t => model.descendants model.types.length t
  | none => []

/-- Whether a type is `ancestor` or derives from it. -/
def isSubtypeOf (model : Model) (name ancestor : String) : Bool :=
  (ancestry model.types name).any (·.name = ancestor)

/-- The columns of the properties of several types, each at its first place. -/
def columnsOf (types : List (EntityType Condition)) : List String :=
  (types.flatMap fun t => t.properties.map (·.column)).eraseDups

/-- The columns of a type, inherited ones first. -/
def typeColumns (model : Model) (name : String) : List String :=
  columnsOf (ancestry model.types name).reverse

/-- The columns of the table of an entity set: those of the whole hierarchy, then the
discriminator. -/
def relationColumns (model : Model) (set : EntitySet) : List String :=
  (columnsOf (model.subtree set.root) ++ set.discriminator.toList).eraseDups

end Model

end EntityQuery
