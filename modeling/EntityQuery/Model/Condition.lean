/-
# Discriminator conditions

A condition states a fact about the stored form of an entity type: a column has a value, is null
or is not null.  While a model is drafted a condition may be stated on a property instead, whose
column is bound later: explicitly, at most once, or from the properties of its type.
-/
import EntityQuery.Expr.Basic
import EntityQuery.Fault

namespace EntityQuery

/-- The test a condition applies to its column. -/
inductive Test where
  | equals (value : Value)
  | isNull
  | isNotNull
deriving DecidableEq, Repr, Inhabited

/-- The value of an equality test. -/
def Test.value? : Test → Option Value
  | equals v => some v
  | _ => none

/-- Whether a null test asks for null. -/
def Test.asksNull? : Test → Option Bool
  | equals _ => none
  | isNull => some true
  | isNotNull => some false

/-- A condition on a column. -/
structure Condition where
  column : String
  test : Test
deriving DecidableEq, Repr, Inhabited

/-- The row predicate that a condition stands for. -/
def Condition.predicate (condition : Condition) : Expr :=
  match condition.test with
  | .equals v => .inList (.column condition.column) [v]
  | .isNull => .isNull (.column condition.column)
  | .isNotNull => .isNotNull (.column condition.column)

/-- What a drafted condition is stated on. -/
inductive Subject where
  /-- A column. -/
  | column (name : String)
  /-- A property, with its column once that is bound. -/
  | property (name : String) (bound : Option String)
deriving DecidableEq, Repr, Inhabited

/-- The name a subject is given by. -/
def Subject.name : Subject → String
  | column c => c
  | property p _ => p

/-- The property of a subject, if it is one. -/
def Subject.property? : Subject → Option String
  | column _ => none
  | property p _ => some p

/-- The column of a subject, if it is known. -/
def Subject.column? : Subject → Option String
  | column c => some c
  | property _ bound => bound

/-- A condition of a model that is still drafted. -/
structure DraftCondition where
  subject : Subject
  test : Test
deriving DecidableEq, Repr, Inhabited

namespace DraftCondition

/-- A condition from a value or a null test, of which exactly one is given.  A null value counts
as not given. -/
def make (subject : Subject) (value : Option Value) (asksNull : Option Bool) :
    Except ModelFault DraftCondition :=
  match value.filter (!·.isNull), asksNull with
  | some _, some _ => .error (.overspecifiedCondition subject.name)
  | none, none => .error (.underspecifiedCondition subject.name)
  | some v, none => .ok { subject, test := .equals v }
  | none, some true => .ok { subject, test := .isNull }
  | none, some false => .ok { subject, test := .isNotNull }

/-- Binds the column of a condition, which is possible once and on a property only: whether it was
possible, and the condition afterwards. -/
def bind (column : String) (condition : DraftCondition) : Except ModelFault Unit × DraftCondition :=
  match condition.subject with
  | .column bound => (.error (.reboundColumn bound column), condition)
  | .property _ (some bound) => (.error (.reboundColumn bound column), condition)
  | .property p none => (.ok (), { condition with subject := .property p (some column) })

/-- The finished condition.  A property whose column is not bound is looked up. -/
def finish (columnOf : String → Option String) (condition : DraftCondition) :
    Except ModelFault Condition :=
  match condition.subject with
  | .column c => .ok { column := c, test := condition.test }
  | .property _ (some c) => .ok { column := c, test := condition.test }
  | .property p none =>
    match columnOf p with
    | some c => .ok { column := c, test := condition.test }
    | none => .error (.unmappedProperty p)

end DraftCondition

end EntityQuery
