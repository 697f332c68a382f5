/-
# SQL text of statements

The outermost statement has a line for every visible column.  A derived table stands one tab deeper
than the statement around it, its columns on one line and hidden ones included.
-/
import EntityQuery.Select.Basic
import EntityQuery.Select.Sql

namespace EntityQuery

/-- A selected column. -/
def OutputColumn.sql (item : String) (column : OutputColumn) : String :=
  column.expr.sql item ++ " AS " ++ Sql.identifier column.name

namespace Clauses

/-- The select list at a depth of nesting. -/
def sqlColumns (clauses : Clauses) (depth : Nat) (item : String) : List String :=
  let shown := if depth = 0 then clauses.columns.filter (!·.hidden) else clauses.columns
  let number := clauses.rowNumber.toList.map fun keys =>
    "row_number() OVER (ORDER BY " ++ sqlKeys item keys ++ ") AS " ++ Sql.identifier rowNumberColumn
  shown.map (·.sql item) ++ number

/-- The text up to the select list. -/
def sqlHead (clauses : Clauses) (depth : Nat) (item : String) : String :=
  let top := match clauses.top with
    | some n => "TOP (" ++ toString n.toNat ++ ") "
    | none => ""
  let columns := clauses.sqlColumns depth item
  "SELECT " ++ top ++
    if depth = 0 then "\n" ++ String.intercalate ", \n" columns else String.intercalate ", " columns

/-- The start of a line at a depth of nesting. -/
def lineStart (depth : Nat) : String :=
  "\n" ++ Text.repeated "\t" depth

/-- The text from the WHERE clause on. -/
def sqlTail (clauses : Clauses) (depth : Nat) (item : String) : String :=
  let condition := match clauses.predicate with
    | some predicate => lineStart depth ++ "WHERE " ++ predicate.sql item
    | none => ""
  let order := if clauses.orderBy.isEmpty then ""
    else lineStart depth ++ "ORDER BY " ++ sqlKeys item clauses.orderBy
  condition ++ order

end Clauses

namespace Select

/-- The text of a statement at a depth of nesting. -/
def sqlAt (depth : Nat) : Select → String
  | ofTable clauses table item =>
    clauses.sqlHead depth item ++ Clauses.lineStart depth ++ "FROM " ++
      Sql.table table ++ " AS " ++ Sql.identifier item ++ clauses.sqlTail depth item
  | ofQuery clauses query item =>
    clauses.sqlHead depth item ++ Clauses.lineStart depth ++ "FROM " ++
      "( " ++ query.sqlAt (depth + 1) ++ Clauses.lineStart depth ++ ")  AS " ++
      Sql.identifier item ++ clauses.sqlTail depth item

/-- The SQL text of a statement. -/
def sql (statement : Select) : String :=
  statement.sqlAt 0

end Select

end EntityQuery
