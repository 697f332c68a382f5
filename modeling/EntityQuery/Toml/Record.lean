/-
# Records in TOML

A record is given by a table with its fields by name, or by an array with its fields in order.
A date or time counts as a table with its text under `dateTimeKey`.  Fields that a record does not
have are ignored.
-/
import EntityQuery.Toml.DateText
import EntityQuery.Toml.Text

namespace EntityQuery.Toml

/-- The fields of a record. -/
inductive Record where
  | named (entries : List (String × Value))
  | positional (items : List Value)

/-- The record that a value gives. -/
def Value.record? : Value → Option Record
  | table entries => some (.named entries)
  | array items => some (.positional items)
  | dateTime d => some (.named [(dateTimeKey, .string d.text)])
  | _ => none

namespace Record

variable {α : Type}

/-- The field of a name, which is the `index`-th field. -/
def field? (r : Record) (index : Nat) (name : String) : Option Value :=
  match r with
  | named entries => entries.lookup name
  | positional items => items[index]?

/-- A field that has to be there. -/
def required (r : Record) (index : Nat) (name : String) (read : Value → Option α) : Option α :=
  (r.field? index name).bind read

/-- A field that a table may leave out. -/
def optional (r : Record) (index : Nat) (name : String) (read : Value → Option α) :
    Option (Option α) :=
  match r, r.field? index name with
  | _, some v => (read v).map some
  | named _, none => some none
  | positional _, none => none

/-- A field with a value to take where it is left out. -/
def withDefault (r : Record) (index : Nat) (name : String) (read : Value → Option α) (default : α) :
    Option α :=
  match r.field? index name with
  | some v => read v
  | none => some default

end Record

namespace Value

/-- A string. -/
def string? : Value → Option String
  | string s => some s
  | _ => none

/-- A truth value. -/
def bool? : Value → Option Bool
  | bool b => some b
  | _ => none

/-- An integer that is not negative. -/
def nat? : Value → Option Nat
  | int n => if 0 ≤ n.toInt then some n.toInt.toNat else none
  | _ => none

/-- A list of values of one form. -/
def list? {α : Type} (read : Value → Option α) : Value → Option (List α)
  | array items => items.mapM read
  | _ => none

/-- A table of strings. -/
def strings? : Value → Option (List (String × String))
  | table entries => entries.mapM fun (key, v) => v.string?.map (key, ·)
  | dateTime d => some [(dateTimeKey, d.text)]
  | _ => none

/-- One of several choices: its name, or a table with the name as only key and an empty table or
array behind it. -/
def choice? {α : Type} (choices : List (String × α)) : Value → Option α
  | string s => choices.lookup s
  | table [(s, table [])] => choices.lookup s
  | table [(s, array [])] => choices.lookup s
  | _ => none

end Value

end EntityQuery.Toml
