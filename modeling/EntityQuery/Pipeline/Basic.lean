/-
# Reading pipelines

A pipeline names an entity set and then stages, each behind a bar:
`Owners | order FirstName desc, Id | skip 5 | where Id % 2 = 0`.  A stage that cannot be read ends
the reading with a fault; there is no other way to go on behind a bar.
-/
import EntityQuery.Pipeline.Expr
import EntityQuery.Plan.Basic

namespace EntityQuery.Pipeline

open Reader

/-- One stage of a pipeline. -/
inductive Stage where
  | filter (predicate : Expr)
  | project (columns : List OutputColumn)
  | sort (keys : List SortKey)
  | skip (count : UInt64)
  | take (count : UInt64)
  | ofType (subtype : String)
deriving DecidableEq, Repr

/-- The plan with a stage put on top of it. -/
def Stage.apply (input : Plan) : Stage → Plan
  | filter predicate => .filter predicate input
  | project columns => .project columns input
  | sort keys => .sort keys input
  | skip n => .skip n input
  | take n => .take n input
  | ofType subtype => .ofType subtype input

/-! ## Lists of items -/

/-- A comma between items. -/
def comma : Reader Unit :=
  amidBlanks (symbol ",")

/-- One or more items with commas between them. -/
def items {α : Type} (item : Reader α) : Reader (List α) := do
  let first ← item
  let others ← many do
    comma
    item
  return first :: others

/-- The name given to an expression. -/
def chosenName : Reader String := do
  blanks
  keyword "as"
  blanks
  name

/-- An expression with the name given to it, if any. -/
def selection : Reader (Expr × Option String) := do
  let e ← expression
  let chosen ← optional chosenName
  return (e, chosen)

/-- The output columns of a list of selections.  A column without a name keeps its own, and any
other expression is called `C1`, `C2` and so on; `unnamed` counts those before. -/
def outputColumns (unnamed : Nat) : List (Expr × Option String) → List OutputColumn
  | [] => []
  | (e, some chosen) :: others => { name := chosen, expr := e } :: outputColumns unnamed others
  | (.column c, none) :: others => { name := c, expr := .column c } :: outputColumns unnamed others
  | (e, none) :: others =>
    { name := "C" ++ toString (unnamed + 1), expr := e } :: outputColumns (unnamed + 1) others

/-- The direction of a sort key. -/
def direction : Reader Direction := do
  blanks
  word "desc" .desc <|> word "asc" .asc

/-- A sort key; without a direction it ascends. -/
def sortKey : Reader SortKey := do
  let expr ← expression
  let direction ← optional direction
  return { expr, direction := direction.getD .asc }

/-! ## Stages -/

/-- A keyword and the argument behind it. -/
def argument {α : Type} (text : String) (reader : Reader α) : Reader α := do
  keyword text
  blanks
  reader

/-- Sort keys, with an optional `by` in front. -/
def sortKeys : Reader (List SortKey) := do
  let _ ← optional do
    keyword "by"
    blanks
  items sortKey

/-- A stage.  The kinds of stages are tried in this order. -/
def stage : Reader Stage :=
  Stage.filter <$> argument "where" expression
  <|> (fun chosen => .project (outputColumns 0 chosen)) <$> argument "select" (items selection)
  <|> Stage.sort <$> argument "order" sortKeys
  <|> Stage.skip <$> argument "skip" count
  <|> Stage.take <$> argument "take" count
  <|> Stage.ofType <$> argument "oftype" name

/-- A stage behind a bar.  Behind the bar there has to be one. -/
def furtherStage : Reader Stage := do
  blanks
  symbol "|"
  blanks
  committed stage

/-- A relation and the stages behind it. -/
def plan : Reader Plan := do
  blanks
  let relation ← name
  let stages ← many furtherStage
  blanks
  return stages.foldl Stage.apply (.source relation)

end EntityQuery.Pipeline

namespace EntityQuery

open Pipeline

/-- Reads a text that holds one pipeline. -/
def Plan.parse (text : String) : Parsed Plan :=
  plan.parse text

end EntityQuery
