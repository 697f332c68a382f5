/-
# Literal values

The four kinds of literal that expressions and discriminator conditions are written with, and
their spelling in pipeline text.  Integers are signed 64-bit words.
-/
import EntityQuery.Text.Quoted

namespace EntityQuery

/-- A literal value. -/
inductive Value where
  | null
  | bool (b : Bool)
  | int (n : Int64)
  | string (s : String)
deriving DecidableEq, Repr, Inhabited

namespace Value

/-- Whether the value is the null literal. -/
def isNull : Value → Bool
  | null => true
  | _ => false

/-- The spelling of a value in pipeline text. -/
def text : Value → String
  | null => "null"
  | bool true => "true"
  | bool false => "false"
  | int n => toString n.toInt
  | string s => "'" ++ Text.doubled '\'' s ++ "'"

end Value

end EntityQuery
