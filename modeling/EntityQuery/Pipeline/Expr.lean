/-
# Reading expressions

The grammar of expressions by precedence: `or`, `and`, `not`, comparisons and null tests,
`+ -`, `* / %`, operands.  Every level is a reader built from the level below; only a bracketed
operand starts again at the top, so the levels take the reader of bracketed expressions as an
argument and `expression` ties the knot.
-/
import EntityQuery.Expr.Basic
import EntityQuery.Pipeline.Lexis

namespace EntityQuery.Pipeline

open Reader

/-! ## Operands -/

/-- A keyword that stands for something. -/
def word {α : Type} (text : String) (a : α) : Reader α := do
  keyword text
  return a

/-- A literal value. -/
def value : Reader Value :=
  word "null" .null
  <|> word "true" (.bool true)
  <|> word "false" (.bool false)
  <|> Value.int <$> integer
  <|> Value.string <$> quoted

/-- An expression in round brackets. -/
def inBrackets (nested : Reader Expr) : Reader Expr := do
  symbol "("
  blanks
  let e ← nested
  blanks
  symbol ")"
  return e

/-- An operand: a bracketed expression, a literal or a column. -/
def operand (nested : Reader Expr) : Reader Expr :=
  inBrackets nested <|> Expr.literal <$> value <|> Expr.column <$> name

/-! ## Chains of operators -/

/-- Operands joined by operators of one level, grouped to the left. -/
def chain (operator : Reader Op) (next : Reader Expr) : Reader Expr := do
  let first ← next
  let others ← many do
    let op ← operator
    let right ← next
    return (op, right)
  return others.foldl (fun left (op, right) => .binary op left right) first

/-- `* / %` -/
def factorOperator : Reader Op :=
  amidBlanks (oneOf [("*", .mul), ("/", .div), ("%", .mod)])

/-- `+ -` -/
def termOperator : Reader Op :=
  amidBlanks (oneOf [("+", .add), ("-", .sub)])

/-- The comparisons; of two spellings that fit, the longer is listed first. -/
def comparisonOperator : Reader Op :=
  amidBlanks (oneOf [("<=", .le), ("<>", .ne), ("!=", .ne), (">=", .ge), ("==", .eq),
    ("<", .lt), (">", .gt), ("=", .eq)])

/-- A connective, given by its keyword. -/
def connective (text : String) (op : Op) : Reader Op :=
  amidBlanks (word text op)

/-- A product of operands. -/
def product (nested : Reader Expr) : Reader Expr :=
  chain factorOperator (operand nested)

/-- A sum of products. -/
def sum (nested : Reader Expr) : Reader Expr :=
  chain termOperator (product nested)

/-! ## Comparisons and connectives -/

/-- The ending `is null` or `is not null` of a null test; gives whether it is negated. -/
def nullTest : Reader Bool := do
  blanks
  keyword "is"
  someBlanks
  let negation ← optional do
    keyword "not"
    someBlanks
  keyword "null"
  return negation.isSome

/-- A comparison operator and the sum on its right. -/
def comparedTo (nested : Reader Expr) : Reader (Op × Expr) := do
  let op ← comparisonOperator
  let right ← sum nested
  return (op, right)

/-- A sum, a null test of it, or a comparison of two sums. -/
def comparison (nested : Reader Expr) : Reader Expr := do
  let left ← sum nested
  match ← attempt nullTest with
  | some true => return .isNotNull left
  | some false => return .isNull left
  | none =>
    match ← optional (comparedTo nested) with
    | some (op, right) => return .binary op left right
    | none => return left

/-- A comparison under at most `limit` negations.  Where nothing can be negated the word `not` is
read as a column. -/
def negationUpTo (nested : Reader Expr) : (limit : Nat) → Reader Expr
  | 0 => comparison nested
  | limit + 1 =>
    (do
      keyword "not"
      blanks
      Expr.not <$> negationUpTo nested limit)
    <|> comparison nested

/-- A comparison under any number of negations.  Every negation takes characters, so the length of
the text bounds their number. -/
def negation (nested : Reader Expr) : Reader Expr := fun cs =>
  negationUpTo nested cs.length cs

/-- Negations joined by `and`. -/
def conjunction (nested : Reader Expr) : Reader Expr :=
  chain (connective "and" .and) (negation nested)

/-- Conjunctions joined by `or`. -/
def disjunction (nested : Reader Expr) : Reader Expr :=
  chain (connective "or" .or) (conjunction nested)

/-- An expression with brackets nested less than `depth` deep. -/
def expressionUpTo : (depth : Nat) → Reader Expr
  | 0 => fun cs => .refused cs
  | depth + 1 => disjunction (expressionUpTo depth)

/-- An expression.  Every bracket takes a character, so the length of the text bounds the
nesting. -/
def expression : Reader Expr := fun cs =>
  expressionUpTo (cs.length + 1) cs

end EntityQuery.Pipeline

namespace EntityQuery

open Pipeline

/-- Reads a text that holds one expression. -/
def Expr.parse (text : String) : Parsed Expr :=
  (amidBlanks expression).parse text

end EntityQuery
