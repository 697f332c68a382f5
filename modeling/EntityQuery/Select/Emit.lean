/-
# From plans to statements

A plan becomes a statement from the bottom to the top.  An operator is merged into the statement of
its input when that still has a place for it; otherwise the statement becomes a derived table of a
new one.

Aliases are numbered per kind of statement.  The counters are a state that also outlives a plan that
cannot be turned into a statement, so that statements made one after the other share no alias.
-/
import EntityQuery.Fault
import EntityQuery.Model.Basic
import EntityQuery.Select.Basic

namespace EntityQuery

/-- How many aliases of each kind are in use. -/
abbrev AliasCounters := StatementKind → Nat

/-- Before any alias is given. -/
def AliasCounters.initial : AliasCounters := fun _ => 0

/-- The counters with one more alias of a kind in use. -/
def AliasCounters.advance (counters : AliasCounters) (kind : StatementKind) : AliasCounters :=
  fun k => if k = kind then counters k + 1 else counters k

/-- The next alias of a kind. -/
def AliasCounters.next (counters : AliasCounters) (kind : StatementKind) : String :=
  kind.label ++ toString (counters kind + 1)

/-- A computation that hands out aliases and may fail; the counters are kept on failure. -/
abbrev Emission := ExceptT Fault (StateM AliasCounters)

namespace Emission

/-- Hands out the next alias of a kind. -/
def takeAlias (kind : StatementKind) : Emission String :=
  ExceptT.lift do
    let counters ← get
    set (counters.advance kind)
    return counters.next kind

/-- The statement as a derived table of a new one with the same columns. -/
def wrap (kind : StatementKind) (inner : Select) : Emission Select := do
  let item ← takeAlias inner.clauses.kind
  let columns := inner.clauses.columns.map fun c => { c with expr := .column c.name }
  return .ofQuery { kind, columns } (inner.map Clauses.dropOrder) item

/-- The statement itself if its columns can be replaced, else a new one around it. -/
def projectable (statement : Select) : Emission Select :=
  if statement.clauses.acceptsProjection then pure statement else wrap .project statement

/-- All rows of an entity set. -/
def extent (model : Model) (relation : String) : Emission Select := do
  let entities ← liftExcept (model.relation relation)
  let item ← takeAlias .extent
  let columns := (model.relationColumns entities).map OutputColumn.passThrough
  return .ofTable { kind := .extent, columns } entities.table item
where
  /-- A result that hands out no alias. -/
  liftExcept {α : Type} : Except Fault α → Emission α
    | .ok a => pure a
    | .error fault => throw fault

/-- The rows of a statement that satisfy a predicate. -/
def filter (predicate : Expr) (input : Select) : Emission Select := do
  if input.clauses.acceptsFilter then
    return input.map (·.addFilter predicate)
  else
    let outer ← wrap .filter input
    return outer.map (·.addFilter predicate)

/-- The rows of a statement mapped to other columns. -/
def project (columns : List OutputColumn) (input : Select) : Emission Select := do
  let statement ← projectable input
  return statement.map (·.setColumns columns)

/-- The rows of a statement in the order of some keys. -/
def sort (keys : List SortKey) (input : Select) : Emission Select := do
  if input.clauses.acceptsProjection then
    return input.map (·.setOrder keys)
  else if input.clauses.top.isSome && input.clauses.orderBy = input.clauses.inlineKeys keys then
    return input
  else
    let outer ← wrap .project input
    return outer.map (·.setOrder keys)

/-- The rows of a statement behind the first `count` in the order of some keys: the rows are
numbered, and those with a greater number are kept. -/
def window (count : UInt64) (keys : List SortKey) (input : Select) : Emission Select := do
  let statement ← projectable input
  let outer ← wrap .skip (statement.map (·.setRowNumber keys))
  let offset := min count.toNat Int64.maxValue.toInt.toNat
  return outer.map fun clauses =>
    { clauses with
      predicate := some (.binary .gt (.column rowNumberColumn) (.literal (.int (Int64.ofNat offset)))) }

/-- The statement of a plan. -/
def statement (model : Model) : Plan → Emission Select
  | .source relation => extent model relation
  | .filter predicate p => do filter predicate (← statement model p)
  | .project columns p => do project columns (← statement model p)
  | .sort keys p => do sort keys (← statement model p)
  | .skip count (.sort keys p) => do window count keys (← statement model p)
  | .skip _ p => throw (.shape (.emittedSkip p.kind))
  | .take count (.sort keys p) => do
    let input ← projectable (← statement model p)
    return input.map fun clauses => (clauses.setOrder keys).setTop count
  | .take count (.skip offset (.sort keys p)) => do
    let input ← window offset keys (← statement model p)
    return input.map fun clauses => (clauses.setOrder keys).setTop count
  | .take _ (.skip _ p) => throw (.shape (.emittedSkip p.kind))
  | .take _ p => throw (.shape (.emittedTake p.kind))
  | .ofType subtype _ => throw (.shape (.emittedType subtype))

end Emission

/-- The statement of a plan with aliases numbered on from `counters`, and the counters afterwards. -/
def Plan.statementFrom (model : Model) (counters : AliasCounters) (plan : Plan) :
    Except Fault Select × AliasCounters :=
  (Emission.statement model plan).run counters

/-- The statements of several plans, one after the other, with aliases numbered on from `counters`.
A plan that fails does not stop those behind it. -/
def Plan.statementsFrom (model : Model) (counters : AliasCounters) :
    List Plan → List (Except Fault Select)
  | [] => []
  | plan :: plans =>
    let (result, next) := plan.statementFrom model counters
    result :: Plan.statementsFrom model next plans

/-- The statement of a plan. -/
def Plan.statement (model : Model) (plan : Plan) : Except Fault Select :=
  (plan.statementFrom model AliasCounters.initial).1

end EntityQuery
