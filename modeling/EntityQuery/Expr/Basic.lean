/-
# Scalar expressions

Expressions over the columns of one row: predicates, computed columns and sort keys.  The two
structural operations the compiler needs on them are listing the columns an expression reads and
replacing column references by other expressions.
-/
import EntityQuery.Value

namespace EntityQuery

/-- A binary operator: arithmetic, comparison or logical connective. -/
inductive Op where
  | add | sub | mul | div | mod
  | eq | ne | lt | le | gt | ge
  | and | or
deriving DecidableEq, Repr, Inhabited

namespace Op

/-- Whether the operator is one of `+ - * / %`. -/
def isArithmetic : Op → Bool
  | add | sub | mul | div | mod => true
  | _ => false

/-- Whether the operator is one of `= <> < <= > >=`. -/
def isComparison : Op → Bool
  | eq | ne | lt | le | gt | ge => true
  | _ => false

/-- Whether the operator is one of `< <= > >=`. -/
def isOrdering : Op → Bool
  | lt | le | gt | ge => true
  | _ => false

/-- Whether the operator is `and` or `or`. -/
def isConnective : Op → Bool
  | and | or => true
  | _ => false

end Op

/-- A scalar expression over the columns of a row. -/
inductive Expr where
  /-- The value of a column. -/
  | column (name : String)
  | literal (value : Value)
  | binary (op : Op) (left right : Expr)
  | not (operand : Expr)
  | isNull (operand : Expr)
  | isNotNull (operand : Expr)
  /-- Membership in a list of literals. -/
  | inList (operand : Expr) (values : List Value)
  /-- The result where the condition is true, and null elsewhere. -/
  | caseWhen (condition result : Expr)
deriving DecidableEq, Repr, Inhabited

namespace Expr

/-- Conjunction of two expressions. -/
abbrev and (left right : Expr) : Expr := binary .and left right

/-- Disjunction of two expressions. -/
abbrev or (left right : Expr) : Expr := binary .or left right

/-- Whether the expression is a literal. -/
def isLiteral : Expr → Bool
  | literal _ => true
  | _ => false

/-- Whether the expression is the null literal. -/
def isNullLiteral : Expr → Bool
  | literal v => v.isNull
  | _ => false

/-- The column name of a bare column reference. -/
def columnName? : Expr → Option String
  | column name => some name
  | _ => none

/-- Whether the expression is a single token: a column or a literal. -/
def isAtom : Expr → Bool
  | column _ | literal _ => true
  | _ => false

/-- Every column reference replaced by the expression that `f` gives for its name. -/
def substitute (f : String → Expr) : Expr → Expr
  | column name => f name
  | literal v => literal v
  | binary op l r => binary op (l.substitute f) (r.substitute f)
  | not e => not (e.substitute f)
  | isNull e => isNull (e.substitute f)
  | isNotNull e => isNotNull (e.substitute f)
  | inList e values => inList (e.substitute f) values
  | caseWhen c r => caseWhen (c.substitute f) (r.substitute f)

/-- All column references from left to right, with repetitions. -/
def references : Expr → List String
  | column name => [name]
  | literal _ => []
  | binary _ l r => l.references ++ r.references
  | not e | isNull e | isNotNull e | inList e _ => e.references
  | caseWhen c r => c.references ++ r.references

/-- The names of the columns read, each once, in the order of first use. -/
def columns (e : Expr) : List String :=
  e.references.eraseDups

/-- The operands of a chain of one connective, from left to right. -/
def chain (op : Op) : Expr → List Expr
  | binary o l r => if o = op then l.chain op ++ r.chain op else [binary o l r]
  | e => [e]

/-- The conjuncts of an expression. -/
abbrev conjuncts (e : Expr) : List Expr := e.chain .and

/-- A non-empty list of expressions joined from the left by one connective. -/
def joinedBy (op : Op) : List Expr → Option Expr
  | [] => none
  | e :: es => some (es.foldl (binary op) e)

end Expr

end EntityQuery
