/-
# JSON text

JSON values and their text with an indent of two blanks per level.
-/
import EntityQuery.Text.Quoted

namespace EntityQuery

/-- A JSON value; the fields of an object stand in the order in which they are written. -/
inductive Json where
  | null
  | bool (b : Bool)
  | int (n : Int)
  | string (s : String)
  | array (items : List Json)
  | object (fields : List (String × Json))
deriving Inhabited

namespace Json

/-- A digit of a hexadecimal number, in small letters. -/
def hexDigit (n : Nat) : Char :=
  Char.ofNat (if n < 10 then 0x30 + n else 0x57 + n)

/-- A character inside a JSON string.  Marks, backslashes and control characters are escaped. -/
def escaped (c : Char) : List Char :=
  match c.toNat with
  | 0x22 => ['\\', '"']
  | 0x5C => ['\\', '\\']
  | 0x08 => ['\\', 'b']
  | 0x0C => ['\\', 'f']
  | 0x0A => ['\\', 'n']
  | 0x0D => ['\\', 'r']
  | 0x09 => ['\\', 't']
  | n => if n < 0x20 then ['\\', 'u', '0', '0', hexDigit (n / 16), hexDigit (n % 16)] else [c]

/-- A JSON string. -/
def quoted (s : String) : String :=
  "\"" ++ String.ofList (s.toList.flatMap escaped) ++ "\""

/-- A line end and the indent of a level. -/
def newLine (level : Nat) : String :=
  "\n" ++ Text.repeated "  " level

mutual

/-- The text of a value at a level of indentation. -/
def textAt (level : Nat) : Json → String
  | null => "null"
  | bool true => "true"
  | bool false => "false"
  | int n => toString n
  | string s => quoted s
  | array [] => "[]"
  | array items => "[" ++ itemsAt (level + 1) items ++ newLine level ++ "]"
  | object [] => "\x7b\x7d"
  | object fields => "\x7b" ++ fieldsAt (level + 1) fields ++ newLine level ++ "\x7d"

/-- The items of an array, each on a line of its own. -/
def itemsAt (level : Nat) : List Json → String
  | [] => ""
  | [item] => newLine level ++ textAt level item
  | item :: next :: rest =>
    newLine level ++ textAt level item ++ "," ++ itemsAt level (next :: rest)

/-- The fields of an object, each on a line of its own. -/
def fieldsAt (level : Nat) : List (String × Json) → String
  | [] => ""
  | [(name, value)] => newLine level ++ quoted name ++ ": " ++ textAt level value
  | (name, value) :: next :: rest =>
    newLine level ++ quoted name ++ ": " ++ textAt level value ++ "," ++ fieldsAt level (next :: rest)

end

/-- The text of a value over several lines. -/
def text (value : Json) : String :=
  value.textAt 0

end Json

end EntityQuery
