/-
# Resolving type filters

A type filter becomes an ordinary filter by the predicate of its type, under a projection to the
columns of the type.  Of several type filters over the same rows only the outermost projects; those
below it only restrict the rows, so that these stay whole entities.  A source whose types are told
apart by a discriminator is restricted to the types the model knows.
-/
import EntityQuery.Plan.Basic
import EntityQuery.TypeFilter.Predicate

namespace EntityQuery

/-- Which columns of a type are produced only for rows of the type. -/
inductive Shaping where
  /-- All of them. -/
  | uniform
  /-- Those that the root type does not have. -/
  | subtypeOnly
deriving DecidableEq, Repr, Inhabited

namespace Model

/-- The output columns of a type filter. -/
def shape (model : Model) (shaping : Shaping) (set : EntitySet) (subtype : String)
    (predicate : Expr) : List OutputColumn :=
  let rootColumns := model.typeColumns set.root
  (model.typeColumns subtype).map fun name =>
    if shaping = .subtypeOnly && rootColumns.contains name then .passThrough name
    else { name, expr := .caseWhen predicate (.column name) }

/-- Whether one of two types derives from the other, or they are the same. -/
def related (model : Model) (a b : String) : Bool :=
  model.isSubtypeOf a b || model.isSubtypeOf b a

end Model

namespace Plan

/-- Whether a projection occurs in the plan. -/
def hasProjection : Plan → Bool
  | source _ => false
  | project _ _ => true
  | filter _ p | sort _ p | skip _ p | take _ p | ofType _ p => p.hasProjection

/-- The entity set that a type filter over the plan is about.  The rows have to be whole entities,
so no projection may stand in between. -/
def filteredSet (model : Model) (subtype : String) (input : Plan) : Except Fault EntitySet :=
  if input.hasProjection then .error (.unresolvedType subtype .afterProjection)
  else model.relation input.relation

/-- The plan with its type filters resolved; `outer` is the type of the nearest type filter above
with no projection in between. -/
def resolveUnder (model : Model) (shaping : Shaping) (outer : Option String) :
    Plan → Except Fault Plan
  | source relation => do
    let set ← model.relation relation
    match model.extentPredicate? set with
    | some predicate => return filter predicate (source relation)
    | none => return source relation
  | filter predicate p => return filter predicate (← p.resolveUnder model shaping outer)
  | project columns p => return project columns (← p.resolveUnder model shaping none)
  | sort keys p => return sort keys (← p.resolveUnder model shaping outer)
  | skip count p => return skip count (← p.resolveUnder model shaping outer)
  | take count p => return take count (← p.resolveUnder model shaping outer)
  | ofType subtype p => do
    let set ← p.filteredSet model subtype
    let predicate ← model.typePredicate set subtype
    match outer with
    | some outer =>
      if !model.related outer subtype then throw (.unresolvedType outer (.unrelated subtype))
    | none => pure ()
    let input ← p.resolveUnder model shaping (some subtype)
    let restricted :=
      if model.extentPredicate? set = some predicate then input else filter predicate input
    match outer with
    | some _ => return restricted
    | none => return project (model.shape shaping set subtype predicate) restricted

/-- The plan with its type filters resolved. -/
def resolve (model : Model) (shaping : Shaping) (plan : Plan) : Except Fault Plan :=
  plan.resolveUnder model shaping none

end Plan

end EntityQuery
