/-
# Compiling plans

Compiling adjusts the filters to the null mode, resolves type filters, lifts sorts and turns the
resulting plan into a statement.
-/
import EntityQuery.Nulls
import EntityQuery.Ordering.Lift
import EntityQuery.Plan.Text
import EntityQuery.Select.Emit
import EntityQuery.Select.Text
import EntityQuery.TypeFilter.Resolve

namespace EntityQuery

/-- How plans are compiled. -/
structure Options where
  nulls : NullMode := .host
  shaping : Shaping := .uniform
  /-- The greatest number of sweeps that lift sorts. -/
  sweeps : Nat := Plan.defaultSweeps
deriving DecidableEq, Repr, Inhabited

namespace Plan

/-- The plan in the form that becomes a statement.  Missing sorts are refused before anything
else. -/
def prepare (model : Model) (options : Options) (plan : Plan) : Except Fault Plan := do
  plan.checkOrdered
  let resolved ← (plan.adjust options.nulls).resolve model options.shaping
  resolved.lift options.sweeps

/-- The SQL text of a prepared plan. -/
def emit (model : Model) (plan : Plan) : Except Fault String :=
  (plan.statement model).map Select.sql

/-- The SQL text of a plan. -/
def compile (model : Model) (options : Options) (plan : Plan) : Except Fault String := do
  let prepared ← plan.prepare model options
  prepared.emit model

/-- A plan, its prepared form and its SQL. -/
structure Explanation where
  input : Plan
  prepared : Plan
  sql : String

/-- The steps from a plan to its SQL. -/
def explain (model : Model) (options : Options) (plan : Plan) : Except Fault Explanation := do
  let prepared ← plan.prepare model options
  let sql ← prepared.emit model
  return { input := plan, prepared, sql }

/-- An explanation as text. -/
def Explanation.text (e : Explanation) : String :=
  "Input:\n" ++ e.input.text ++ "\nRewritten:\n" ++ e.prepared.text ++ "\nSQL:\n" ++ e.sql ++ "\n"

end Plan

end EntityQuery
