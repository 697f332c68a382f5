/-
# Expressions as pipeline text

The spelling of an expression in the syntax that the pipeline reader accepts.  An operand that
is not a single token is put in brackets, so the spelling never depends on precedence.
-/
import EntityQuery.Expr.Basic

namespace EntityQuery

/-- The spelling of an operator in pipeline text. -/
def Op.text : Op → String
  | add => "+" | sub => "-" | mul => "*" | div => "/" | mod => "%"
  | eq => "=" | ne => "<>" | lt => "<" | le => "<=" | gt => ">" | ge => ">="
  | and => "and" | or => "or"

/-- Text in round brackets, unless it is a single token already. -/
def bracketed (atomic : Bool) (s : String) : String :=
  if atomic then s else "(" ++ s ++ ")"

namespace Expr

/-- The spelling of an expression in pipeline text. -/
def text : Expr → String
  | column name => name
  | literal v => v.text
  | binary op l r =>
    bracketed l.isAtom l.text ++ " " ++ op.text ++ " " ++ bracketed r.isAtom r.text
  | not e => "not " ++ bracketed e.isAtom e.text
  | isNull e => bracketed e.isAtom e.text ++ " is null"
  | isNotNull e => bracketed e.isAtom e.text ++ " is not null"
  | inList e values =>
    bracketed e.isAtom e.text ++ " in (" ++ String.intercalate ", " (values.map Value.text) ++ ")"
  | caseWhen c r => "case when " ++ c.text ++ " then " ++ r.text ++ " end"

end Expr

end EntityQuery
