/-
# Text of TOML values

The text of a value on one line, as far as its strings allow: arrays as `[1, 2]` and tables as inline
tables in the order of their keys.  A string takes the quotes that need the fewest escapes.  A date or
time that stands alone is written as the table it counts as.
-/
import EntityQuery.Decimal.Shortest
import EntityQuery.Text.Quoted
import EntityQuery.Toml.Value

namespace EntityQuery.Toml

/-! ## Strings -/

/-- A control character that can only be written with an escape. -/
def isControl (c : Char) : Bool :=
  (c.toNat ≤ 0x1F && c ≠ '\t' && c ≠ '\n') || c.toNat = 0x7F

/-- The length of the longest run of a character. -/
def longestRun (mark : Char) (s : String) : Nat :=
  (s.toList.foldl (fun (now, longest) c =>
    if c = mark then (now + 1, max longest (now + 1)) else (0, longest)) (0, 0)).2

/-- A digit of a hexadecimal number, in capitals. -/
def hexCapital (n : Nat) : Char :=
  Char.ofNat (if n < 10 then 0x30 + n else 0x37 + n)

/-- The escape of a character, in a string that keeps its line ends when `multiline`. -/
def escaped (multiline : Bool) (c : Char) : List Char :=
  match c.toNat with
  | 0x08 => ['\\', 'b']
  | 0x09 => ['\\', 't']
  | 0x0A => if multiline then ['\n'] else ['\\', 'n']
  | 0x0C => ['\\', 'f']
  | 0x0D => ['\\', 'r']
  | 0x5C => ['\\', '\\']
  | n =>
    if n ≤ 0x1F || n = 0x7F then ['\\', 'u', '0', '0', hexCapital (n / 16), hexCapital (n % 16)]
    else [c]

/-- The content of a string with escapes; at most `bare` quotation marks stand side by side without
one, of which `run` are written already. -/
def escapedContent (multiline : Bool) (bare : Nat) : (run : Nat) → List Char → List Char
  | _, [] => []
  | run, '"' :: cs =>
    if run < bare then '"' :: escapedContent multiline bare (run + 1) cs
    else '\\' :: '"' :: escapedContent multiline bare 0 cs
  | _, c :: cs => escaped multiline c ++ escapedContent multiline bare 0 cs

/-- A one-line string with escapes. -/
def basicText (s : String) : String :=
  "\"" ++ String.ofList (escapedContent false 0 0 s.toList) ++ "\""

/-- A one-line string without escapes. -/
def literalText (s : String) : String :=
  "'" ++ s ++ "'"

/-- A string between three marks; one with line ends starts on a new line. -/
def multilineText (mark content : String) (hasLines : Bool) : String :=
  mark ++ (if hasLines then "\n" else "") ++ content ++ mark

/-- The text of a string. -/
def stringText (s : String) : String :=
  let controls := s.toList.any isControl
  let backslash := s.toList.contains '\\'
  let hasLines := s.toList.contains '\n'
  let doubles := longestRun '"' s
  let singles := longestRun '\'' s
  let escapedLines := String.ofList (escapedContent true 2 0 s.toList)
  if !controls && !backslash && doubles = 0 && !hasLines then basicText s
  else if !controls && singles = 0 && !hasLines then literalText s
  else if !controls && !backslash && doubles ≤ 2 then multilineText "\"\"\"" escapedLines hasLines
  else if !controls && singles ≤ 2 then multilineText "'''" s hasLines
  else if hasLines then multilineText "\"\"\"" escapedLines hasLines
  else basicText s

/-- The text of a key. -/
def keyText (s : String) : String :=
  let bare := !s.isEmpty && s.toList.all fun c => c.isAlphanum || c = '_' || c = '-'
  let controls := s.toList.any fun c => isControl c || c = '\n'
  if bare then s
  else if !controls && !s.toList.contains '\\' && longestRun '"' s = 0 then basicText s
  else if !controls && longestRun '\'' s = 0 then literalText s
  else basicText s

/-! ## Dates and times -/

/-- A number in at least `width` digits. -/
def padded (width n : Nat) : String :=
  let digits := Nat.toDigits 10 n
  String.ofList (List.replicate (width - digits.length) '0' ++ digits)

/-- The text of a date. -/
def Date.text (d : Date) : String :=
  padded 4 d.year ++ "-" ++ padded 2 d.month ++ "-" ++ padded 2 d.day

/-- The text of a time, its fraction without the zeros at the end. -/
def Time.text (t : Time) : String :=
  let fraction := ((padded 9 t.nanosecond).toList.reverse.dropWhile (· = '0')).reverse
  padded 2 t.hour ++ ":" ++ padded 2 t.minute ++ ":" ++ padded 2 t.second ++
    if t.nanosecond = 0 then "" else "." ++ String.ofList fraction

/-- The text of an offset. -/
def Offset.text : Offset → String
  | utc => "Z"
  | minutes east =>
    (if east < 0 then "-" else "+") ++ padded 2 (east.natAbs / 60) ++ ":" ++ padded 2 (east.natAbs % 60)

/-- The text of a date, a time or both. -/
def DateTime.text : DateTime → String
  | date d => d.text
  | time t => t.text
  | both d t offset => d.text ++ "T" ++ t.text ++ (match offset with
    | some o => o.text
    | none => "")

/-! ## Values -/

/-- Whether an entry stands before another. -/
def entryBefore (a b : String × String) : Bool :=
  a.1 ≤ b.1

mutual

/-- The text of a value. -/
def Value.text : Value → String
  | .string s => stringText s
  | .int n => toString n.toInt
  | .float x => x.text
  | .bool true => "true"
  | .bool false => "false"
  | .dateTime d => d.text
  | .array items => "[" ++ String.intercalate ", " (itemTexts items) ++ "]"
  | .table [] => "\x7b\x7d"
  | .table entries =>
    let sorted := (entryTexts entries).mergeSort entryBefore
    "\x7b " ++ String.intercalate ", " (sorted.map fun (key, text) => keyText key ++ " = " ++ text) ++ " \x7d"

/-- The texts of the items of an array. -/
def itemTexts : List Value → List String
  | [] => []
  | v :: vs => v.text :: itemTexts vs

/-- The keys of a table with the texts of their values. -/
def entryTexts : List (String × Value) → List (String × String)
  | [] => []
  | (key, v) :: rest => (key, v.text) :: entryTexts rest

end

/-- The text of a value that stands alone. -/
def Value.standaloneText : Value → String
  | .dateTime d => (Value.table [(dateTimeKey, .string d.text)]).text
  | v => v.text

end EntityQuery.Toml
