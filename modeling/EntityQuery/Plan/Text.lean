/-
# Plans as text

One line per operator, the outermost first, each input two blanks deeper than its consumer.
-/
import EntityQuery.Expr.Text
import EntityQuery.Plan.Basic

namespace EntityQuery

/-- The keyword of a direction. -/
def Direction.text : Direction → String
  | asc => "asc"
  | desc => "desc"

/-- The keyword of a direction in capitals. -/
def Direction.sql : Direction → String
  | asc => "ASC"
  | desc => "DESC"

/-- A sort key in pipeline text. -/
def SortKey.text (key : SortKey) : String :=
  key.expr.text ++ " " ++ key.direction.text

/-- A sort key with its direction in capitals. -/
def SortKey.label (key : SortKey) : String :=
  key.expr.text ++ " " ++ key.direction.sql

/-- An output column: its name alone when it hands on the column of that name. -/
def OutputColumn.text (column : OutputColumn) : String :=
  (if column.expr = .column column.name then column.name
    else column.expr.text ++ " as " ++ column.name)
    ++ (if column.hidden then " (hidden)" else "")

namespace Plan

/-- The line of the outermost operator, without indentation. -/
def headline : Plan → String
  | source relation => "Source " ++ relation
  | filter predicate _ => "Filter " ++ predicate.text
  | project columns _ => "Project " ++ String.intercalate ", " (columns.map OutputColumn.text)
  | sort keys _ => "Sort " ++ String.intercalate ", " (keys.map SortKey.text)
  | skip count _ => "Skip " ++ toString count.toNat
  | take count _ => "Take " ++ toString count.toNat
  | ofType subtype _ => "TypeFilter " ++ subtype

/-- The lines of a plan whose outermost operator stands at the given depth. -/
def textAt (level : Nat) (plan : Plan) : String :=
  let line := Text.repeated "  " level ++ plan.headline ++ "\n"
  match plan with
  | source _ => line
  | filter _ p | project _ p | sort _ p | skip _ p | take _ p | ofType _ p =>
    line ++ p.textAt (level + 1)

/-- The plan as indented lines, each with its line end. -/
def text (plan : Plan) : String :=
  plan.textAt 0

end Plan

end EntityQuery
