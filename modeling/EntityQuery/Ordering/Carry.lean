/-
# Sort keys above a projection

A sort moves above a projection when its keys are stated over the columns the projection
produces.  A key that the projection computes already becomes that column; for any other key a
hidden column is added under a name that is still free.
-/
import EntityQuery.Plan.Basic

namespace EntityQuery

/-- The `n`-th name tried for a new column: the base name, then the base name with 1, 2, … -/
def numberedName (base : String) (n : Nat) : String :=
  if n = 0 then base else base ++ toString n

/-- The first numbered name that no column has.  Among one more candidates than columns one is
free. -/
def freshName (columns : List OutputColumn) (base : String) : String :=
  let candidates := (List.range (columns.length + 1)).map (numberedName base)
  (candidates.find? fun name => !columns.any (·.name = name)).getD base

/-- The base name of the hidden column for a sort key. -/
def SortKey.baseName (key : SortKey) : String :=
  key.expr.columnName?.getD "OrderKey"

/-- The columns with hidden ones added for the keys they lack, and the keys over their names. -/
def carryKeys : List OutputColumn → List SortKey → List OutputColumn × List SortKey
  | columns, [] => (columns, [])
  | columns, key :: keys =>
    match columns.find? (·.expr = key.expr) with
    | some found =>
      let (carried, lifted) := carryKeys columns keys
      (carried, { expr := .column found.name, direction := key.direction } :: lifted)
    | none =>
      let name := freshName columns key.baseName
      let (carried, lifted) := carryKeys (columns ++ [{ name, expr := key.expr, hidden := true }]) keys
      (carried, { expr := .column name, direction := key.direction } :: lifted)

end EntityQuery
