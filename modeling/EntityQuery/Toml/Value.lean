/-
# TOML values
-/
import EntityQuery.Decimal.Binary64

namespace EntityQuery.Toml

/-- A calendar date. -/
structure Date where
  year : Nat
  month : Nat
  day : Nat
deriving DecidableEq, Repr, Inhabited

/-- A time of day. -/
structure Time where
  hour : Nat
  minute : Nat
  second : Nat
  nanosecond : Nat
deriving DecidableEq, Repr, Inhabited

/-- The offset of a time zone. -/
inductive Offset where
  | utc
  | minutes (east : Int)
deriving DecidableEq, Repr, Inhabited

/-- A date, a time or both. -/
inductive DateTime where
  | date (date : Date)
  | time (time : Time)
  | both (date : Date) (time : Time) (offset : Option Offset)
deriving DecidableEq, Repr, Inhabited

/-- A TOML value.  The entries of a table stand in the order in which they are written. -/
inductive Value where
  | string (s : String)
  | int (n : Int64)
  | float (x : Decimal.Binary64)
  | bool (b : Bool)
  | dateTime (d : DateTime)
  | array (items : List Value)
  | table (entries : List (String × Value))
deriving Repr, Inhabited

/-- The only key of the table that a date or time counts as. -/
def dateTimeKey : String := "$__toml_private_datetime"

end EntityQuery.Toml
