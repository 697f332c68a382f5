/-
# Query plans

A plan is a chain of operators over one entity set, the outermost operator first.  Sorting fixes
an order that the operators above it keep; skipping and taking cut by position in that order.

* `Plan.orderSource`: the keys of the nearest sort below, which order the rows of the plan.
* `Plan.truncationKeys`: the keys a skip or take cuts by when its sort stands right below it.
-/
import EntityQuery.Expr.Basic

namespace EntityQuery

/-- The direction of a sort key. -/
inductive Direction where
  | asc
  | desc
deriving DecidableEq, Repr, Inhabited

/-- One entry of a list of sort keys; later keys break the ties of earlier ones. -/
structure SortKey where
  expr : Expr
  direction : Direction
deriving DecidableEq, Repr, Inhabited

/-- The key with its expression stated over other columns. -/
def SortKey.substitute (f : String → Expr) (key : SortKey) : SortKey :=
  { key with expr := key.expr.substitute f }

/-- An output column of a projection.  A hidden column only feeds a sort key above the
projection and is no part of the result. -/
structure OutputColumn where
  name : String
  expr : Expr
  hidden : Bool := false
deriving DecidableEq, Repr, Inhabited

namespace OutputColumn

/-- A column handed on under its own name. -/
def passThrough (name : String) : OutputColumn :=
  { name, expr := .column name }

/-- The column with its expression stated over other columns. -/
def substitute (f : String → Expr) (column : OutputColumn) : OutputColumn :=
  { column with expr := column.expr.substitute f }

/-- The expression that the first column of that name stands for, or the bare name. -/
def definition (columns : List OutputColumn) (name : String) : Expr :=
  match columns.find? (fun c => c.name = name) with
  | some c => c.expr
  | none => .column name

end OutputColumn

/-- A query plan. -/
inductive Plan where
  /-- All entities of an entity set. -/
  | source (relation : String)
  | filter (predicate : Expr) (input : Plan)
  | project (columns : List OutputColumn) (input : Plan)
  | sort (keys : List SortKey) (input : Plan)
  | skip (count : UInt64) (input : Plan)
  | take (count : UInt64) (input : Plan)
  /-- The entities of a type or of one derived from it. -/
  | ofType (subtype : String) (input : Plan)
deriving DecidableEq, Repr, Inhabited

namespace Plan

/-- The name of the outermost operator. -/
def kind : Plan → String
  | source _ => "Source"
  | filter _ _ => "Filter"
  | project _ _ => "Project"
  | sort _ _ => "Sort"
  | skip _ _ => "Skip"
  | take _ _ => "Take"
  | ofType _ _ => "TypeFilter"

/-- The number of operators in the chain. -/
def depth : Plan → Nat
  | source _ => 1
  | filter _ p | project _ p | sort _ p | skip _ p | take _ p | ofType _ p => p.depth + 1

/-- The entity set at the bottom of the chain. -/
def relation : Plan → String
  | source name => name
  | filter _ p | project _ p | sort _ p | skip _ p | take _ p | ofType _ p => p.relation

/-- The keys of the nearest sort, looking down through every other operator. -/
def orderSource : Plan → Option (List SortKey)
  | source _ => none
  | sort keys _ => some keys
  | filter _ p | project _ p | skip _ p | take _ p | ofType _ p => p.orderSource

/-- The keys that a skip or take cuts by: a skip right over a sort, a take right over a sort or
over such a skip. -/
def truncationKeys : Plan → Option (List SortKey)
  | skip _ (sort keys _) => some keys
  | take _ (sort keys _) => some keys
  | take _ (skip _ (sort keys _)) => some keys
  | _ => none

end Plan

end EntityQuery
