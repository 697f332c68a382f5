/-
# Dates and times from text

A table whose first key is `dateTimeKey` stands for the date or time in its text, wherever a value of
any form is asked for.  The text is written as in a document.
-/
import EntityQuery.Toml.Scalar

namespace EntityQuery.Toml

/-- The date or time that a text consists of. -/
def DateTime.ofText? (s : String) : Option DateTime :=
  match dateTime s.toList with
  | some (d, []) => some d
  | _ => none

/-- The date or time that the first entry of a table gives, if it is one. -/
def leadingDate? : List (String × Value) → Option (Option DateTime)
  | (key, v) :: _ =>
    if key = dateTimeKey then
      match v with
      | .string s => some (DateTime.ofText? s)
      | _ => some none
    else none
  | [] => none

mutual

/-- The value with tables replaced by the dates and times that they stand for; refused where such a
table does not hold one. -/
def Value.withDates : Value → Option Value
  | .table entries =>
    match leadingDate? entries with
    | some d => d.map .dateTime
    | none => (entriesWithDates entries).map .table
  | .array items => (itemsWithDates items).map .array
  | v => some v

/-- The items of an array with dates and times. -/
def itemsWithDates : List Value → Option (List Value)
  | [] => some []
  | v :: vs => do return (← v.withDates) :: (← itemsWithDates vs)

/-- The entries of a table with dates and times. -/
def entriesWithDates : List (String × Value) → Option (List (String × Value))
  | [] => some []
  | (key, v) :: rest => do return (key, ← v.withDates) :: (← entriesWithDates rest)

end

end EntityQuery.Toml
