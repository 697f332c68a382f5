/-
# SELECT statements

A statement selects from a table or from another statement under an alias.  All its expressions
read the columns of that item.
-/
import EntityQuery.Plan.Basic

namespace EntityQuery

/-- What a statement was last shaped by, which also names it when it becomes a derived table. -/
inductive StatementKind where
  | extent
  | filter
  | project
  | skip
  | limit
deriving DecidableEq, Repr, Inhabited

/-- The name of a kind. -/
def StatementKind.label : StatementKind → String
  | extent => "Extent"
  | filter => "Filter"
  | project => "Project"
  | skip => "Skip"
  | limit => "Limit"

/-- The column that numbers the rows of a skipping stage. -/
def rowNumberColumn : String := "row_number"

/-- The clauses of a statement apart from its FROM item. -/
structure Clauses where
  kind : StatementKind
  /-- At most this many rows. -/
  top : Option UInt64 := none
  columns : List OutputColumn
  /-- The keys of the row number that is produced behind the columns. -/
  rowNumber : Option (List SortKey) := none
  predicate : Option Expr := none
  orderBy : List SortKey := []
deriving DecidableEq, Repr, Inhabited

namespace Clauses

/-- Whether another condition can be added to the WHERE clause without changing the meaning. -/
def acceptsFilter (clauses : Clauses) : Bool :=
  (clauses.kind = .extent || clauses.kind = .filter) && clauses.top.isNone &&
    clauses.rowNumber.isNone && clauses.orderBy.isEmpty

/-- Whether the list of columns can be replaced without changing the meaning. -/
def acceptsProjection (clauses : Clauses) : Bool :=
  clauses.top.isNone && clauses.rowNumber.isNone

/-- What an output column stands for in terms of the FROM item. -/
def definition (clauses : Clauses) (name : String) : Expr :=
  OutputColumn.definition clauses.columns name

/-- Keys over the output, stated over the FROM item. -/
def inlineKeys (clauses : Clauses) (keys : List SortKey) : List SortKey :=
  keys.map (·.substitute clauses.definition)

/-- The clauses with a further condition, over the output, in the WHERE clause. -/
def addFilter (clauses : Clauses) (predicate : Expr) : Clauses :=
  let predicate := predicate.substitute clauses.definition
  { clauses with
    kind := .filter
    predicate := some <| match clauses.predicate with
      | some existing => .and existing predicate
      | none => predicate }

/-- The clauses with other columns, stated over the output. -/
def setColumns (clauses : Clauses) (columns : List OutputColumn) : Clauses :=
  { clauses with kind := .project, columns := columns.map (·.substitute clauses.definition) }

/-- The clauses sorted by keys over the output. -/
def setOrder (clauses : Clauses) (keys : List SortKey) : Clauses :=
  { clauses with orderBy := clauses.inlineKeys keys }

/-- The clauses cut to a number of rows. -/
def setTop (clauses : Clauses) (count : UInt64) : Clauses :=
  { clauses with kind := .limit, top := some count }

/-- The clauses with their rows numbered by keys over the output, in no order. -/
def setRowNumber (clauses : Clauses) (keys : List SortKey) : Clauses :=
  { clauses with orderBy := [], rowNumber := some (clauses.inlineKeys keys) }

/-- The clauses without an order that no cut depends on. -/
def dropOrder (clauses : Clauses) : Clauses :=
  if clauses.top.isNone then { clauses with orderBy := [] } else clauses

end Clauses

/-- A SELECT statement. -/
inductive Select where
  /-- From a table. -/
  | ofTable (clauses : Clauses) (table item : String)
  /-- From the rows of another statement. -/
  | ofQuery (clauses : Clauses) (query : Select) (item : String)
deriving DecidableEq, Repr, Inhabited

namespace Select

/-- The clauses of the outermost statement. -/
def clauses : Select → Clauses
  | ofTable clauses _ _ | ofQuery clauses _ _ => clauses

/-- The alias of the FROM item. -/
def item : Select → String
  | ofTable _ _ item | ofQuery _ _ item => item

/-- The statement with its outermost clauses changed. -/
def map (f : Clauses → Clauses) : Select → Select
  | ofTable clauses table item => ofTable (f clauses) table item
  | ofQuery clauses query item => ofQuery (f clauses) query item

end Select

end EntityQuery
