/-
# SQL text of expressions

Identifiers stand in square brackets and columns are qualified by the alias of the item they come
from.  A chain of one connective is written flat; every other operand that is not a single token is
put in round brackets.
-/
import EntityQuery.Plan.Text

namespace EntityQuery

namespace Sql

/-- An identifier in square brackets. -/
def identifier (name : String) : String :=
  "[" ++ Text.doubled ']' name ++ "]"

/-- A character of a table name: a dot ends one identifier and starts the next. -/
def tableChar (c : Char) : List Char :=
  if c = '.' then [']', '.', '['] else if c = ']' then [']', ']'] else [c]

/-- A table name whose parts are divided by dots. -/
def table (name : String) : String :=
  "[" ++ String.ofList (name.toList.flatMap tableChar) ++ "]"

end Sql

/-- The SQL spelling of a value. -/
def Value.sql : Value → String
  | null => "NULL"
  | bool true => "1"
  | bool false => "0"
  | int n => toString n.toInt
  | string s => "N'" ++ Text.doubled '\'' s ++ "'"

/-- The SQL spelling of an operator. -/
def Op.sql : Op → String
  | and => "AND"
  | or => "OR"
  | op => op.text

namespace Expr

/-- Whether the SQL of an expression is a single token or delimited by its own keywords. -/
def isSqlAtom : Expr → Bool
  | column _ | literal _ | caseWhen _ _ => true
  | _ => false

/-- Whether an operand of `op` needs no brackets: it goes on with the same connective, or it is a
single token. -/
def bareUnder (op : Op) : Expr → Bool
  | binary inner _ _ => op.isConnective && inner = op
  | e => e.isSqlAtom

/-- Whether an operand of a null test needs no brackets: arithmetic binds tighter. -/
def bareInNullTest : Expr → Bool
  | binary inner _ _ => inner.isArithmetic
  | e => e.isSqlAtom

/-- The SQL of an expression over the columns of the item called `item`. -/
def sql (item : String) : Expr → String
  | column name => Sql.identifier item ++ "." ++ Sql.identifier name
  | literal v => v.sql
  | binary op l r =>
    bracketed (l.bareUnder op) (l.sql item) ++ " " ++ op.sql ++ " " ++
      bracketed (r.bareUnder op) (r.sql item)
  | not e => "NOT " ++ bracketed e.isSqlAtom (e.sql item)
  | isNull e => bracketed e.bareInNullTest (e.sql item) ++ " IS NULL"
  | isNotNull e => bracketed e.bareInNullTest (e.sql item) ++ " IS NOT NULL"
  | inList e [v] => bracketed e.isSqlAtom (e.sql item) ++ " = " ++ v.sql
  | inList e values =>
    bracketed e.isSqlAtom (e.sql item) ++ " IN (" ++ String.intercalate "," (values.map Value.sql) ++ ")"
  | caseWhen c r =>
    "CASE WHEN (" ++ c.sql item ++ ") THEN " ++ bracketed r.isSqlAtom (r.sql item) ++ " END"

end Expr

/-- The SQL of a sort key. -/
def SortKey.sql (item : String) (key : SortKey) : String :=
  key.expr.sql item ++ " " ++ key.direction.sql

/-- The SQL of a list of sort keys. -/
def sqlKeys (item : String) (keys : List SortKey) : String :=
  String.intercalate ", " (keys.map (·.sql item))

end EntityQuery
