/-
# Plans as JSON

Every operator, expression and value becomes an object with one field, named for its kind; a plain
choice is its name alone.  Fields stand in alphabetical order.
-/
import EntityQuery.Json
import EntityQuery.Plan.Basic

namespace EntityQuery

/-- An object with one field, named for the kind of the content. -/
def Json.tagged (tag : String) (content : Json) : Json :=
  .object [(tag, content)]

/-- The JSON form of a value. -/
def Value.toJson : Value → Json
  | null => .string "Null"
  | bool b => .tagged "Bool" (.bool b)
  | int n => .tagged "Int" (.int n.toInt)
  | string s => .tagged "String" (.string s)

/-- The name of an operator in JSON. -/
def Op.tag : Op → String
  | add => "Add" | sub => "Sub" | mul => "Mul" | div => "Div" | mod => "Mod"
  | eq => "Eq" | ne => "Ne" | lt => "Lt" | le => "Lte" | gt => "Gt" | ge => "Gte"
  | and => "And" | or => "Or"

/-- The JSON form of an expression. -/
def Expr.toJson : Expr → Json
  | column name => .tagged "Column" (.string name)
  | literal v => .tagged "Literal" v.toJson
  | binary op l r =>
    .tagged "Binary" (.object [("left", l.toJson), ("op", .string op.tag), ("right", r.toJson)])
  | not e => .tagged "Not" e.toJson
  | isNull e => .tagged "IsNull" e.toJson
  | isNotNull e => .tagged "IsNotNull" e.toJson
  | inList e values =>
    .tagged "InList" (.object [("expr", e.toJson), ("values", .array (values.map Value.toJson))])
  | caseWhen c r => .tagged "Case" (.object [("then", r.toJson), ("when", c.toJson)])

/-- The name of a direction in JSON. -/
def Direction.tag : Direction → String
  | asc => "Asc"
  | desc => "Desc"

/-- The JSON form of a sort key. -/
def SortKey.toJson (key : SortKey) : Json :=
  .object [("direction", .string key.direction.tag), ("expr", key.expr.toJson)]

/-- The JSON form of an output column. -/
def OutputColumn.toJson (column : OutputColumn) : Json :=
  .object [("expr", column.expr.toJson), ("hidden", .bool column.hidden), ("name", .string column.name)]

/-- The JSON form of a plan. -/
def Plan.toJson : Plan → Json
  | source relation => .tagged "Source" (.object [("relation", .string relation)])
  | filter predicate p =>
    .tagged "Filter" (.object [("input", p.toJson), ("predicate", predicate.toJson)])
  | project columns p =>
    .tagged "Project" (.object
      [("columns", .array (columns.map OutputColumn.toJson)), ("input", p.toJson)])
  | sort keys p =>
    .tagged "Sort" (.object [("input", p.toJson), ("keys", .array (keys.map SortKey.toJson))])
  | skip count p => .tagged "Skip" (.object [("count", .int count.toNat), ("input", p.toJson)])
  | take count p => .tagged "Take" (.object [("count", .int count.toNat), ("input", p.toJson)])
  | ofType subtype p =>
    .tagged "TypeFilter" (.object [("input", p.toJson), ("subtype", .string subtype)])

end EntityQuery
