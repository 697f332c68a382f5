/-
# Drafts of models

A draft collects entity sets and types in any order.  `Draft.freeze` checks it and turns it into a
model: type names are distinct, every base is known and no type derives from itself, set names are
distinct and their root types known, and every condition has a column.
-/
import EntityQuery.Model.Basic

namespace EntityQuery

/-- A model that is still drafted. -/
structure Draft where
  sets : List EntitySet := []
  types : List (EntityType DraftCondition) := []
deriving DecidableEq, Repr, Inhabited

namespace Draft

/-- The draft with another entity set. -/
def addSet (draft : Draft) (set : EntitySet) : Draft :=
  { draft with sets := draft.sets ++ [set] }

/-- The draft with another entity type. -/
def addType (draft : Draft) (type : EntityType DraftCondition) : Draft :=
  { draft with types := draft.types ++ [type] }

/-- The conditions of the first type of a name. -/
def conditions (draft : Draft) (type : String) : Option (List DraftCondition) :=
  (findType draft.types type).map (·.conditions)

/-- The draft with other conditions on the first type of a name. -/
def setConditions (draft : Draft) (type : String) (conditions : List DraftCondition) : Draft :=
  { draft with types := replace draft.types }
where
  /-- The types, with the conditions of the first one of the name replaced. -/
  replace : List (EntityType DraftCondition) → List (EntityType DraftCondition)
    | [] => []
    | t :: ts => if t.name = type then { t with conditions } :: ts else t :: replace ts

/-- The draft with another condition behind those of the first type of a name. -/
def addCondition (draft : Draft) (type : String) (condition : DraftCondition) : Option Draft :=
  (draft.conditions type).map fun conditions => draft.setConditions type (conditions ++ [condition])

/-- Why the column of a condition cannot be bound. -/
inductive BindFault where
  | noSuchType
  | noSuchCondition
  | refused (fault : ModelFault)
deriving DecidableEq, Repr, Inhabited

/-- Binds a column to a condition of the first type of a name: whether it was possible, and the draft
afterwards.  The condition is changed in its place, whatever the answer is. -/
def bindColumn (draft : Draft) (type : String) (index : Nat) (column : String) :
    Except BindFault Unit × Draft :=
  match draft.conditions type with
  | none => (.error .noSuchType, draft)
  | some conditions =>
    match conditions[index]? with
    | none => (.error .noSuchCondition, draft)
    | some condition =>
      let (answer, bound) := condition.bind column
      (answer.mapError .refused, draft.setConditions type (conditions.set index bound))

/-! ## Checks -/

/-- The first member of a list that is in `seen` or stands further to the front. -/
def firstRepeated (seen : List String) : List String → Option String
  | [] => none
  | name :: names => if name ∈ seen then some name else firstRepeated (name :: seen) names

/-- A type whose name is taken. -/
def duplicateType? (draft : Draft) : Option ModelFault :=
  (firstRepeated [] (draft.types.map (·.name))).map .duplicateType

/-- A type whose base is unknown. -/
def unknownBase? (draft : Draft) : Option ModelFault :=
  draft.types.findSome? fun t =>
    match t.base with
    | some base => if (findType draft.types base).isNone then some (.unknownBase t.name base) else none
    | none => none

/-- A type with an endless base chain: one longer than the number of types has to repeat. -/
def cyclicBase? (draft : Draft) : Option ModelFault :=
  draft.types.findSome? fun t =>
    if outlasts draft.types draft.types.length t.base then some (.cyclicBase t.name) else none

/-- An entity set whose root type is unknown or whose name is in `seen`. -/
def setFault? (types : List (EntityType DraftCondition)) (seen : List String) :
    List EntitySet → Option ModelFault
  | [] => none
  | set :: sets =>
    if (findType types set.root).isNone then some (.unknownRoot set.name set.root)
    else if set.name ∈ seen then some (.duplicateSet set.name)
    else setFault? types (set.name :: seen) sets

/-- What is wrong with the types and sets of a draft, conditions apart. -/
def fault? (draft : Draft) : Option ModelFault :=
  draft.duplicateType? <|> draft.unknownBase? <|> draft.cyclicBase? <|>
    setFault? draft.types [] draft.sets

/-- A type with its conditions finished. -/
def finishType (draft : Draft) (t : EntityType DraftCondition) :
    Except ModelFault (EntityType Condition) := do
  let conditions ← t.conditions.mapM (·.finish (propertyColumn draft.types t.name))
  return { name := t.name, base := t.base, properties := t.properties, conditions }

/-- The model of a draft, or the first fault found. -/
def freeze (draft : Draft) : Except ModelFault Model :=
  match draft.fault? with
  | some fault => .error fault
  | none => do
    let types ← draft.types.mapM draft.finishType
    return { sets := draft.sets, types }

end Draft

end EntityQuery
