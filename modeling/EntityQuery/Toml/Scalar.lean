/-
# Numbers, dates and times in TOML text
-/
import EntityQuery.Text.Reader
import EntityQuery.Toml.Lexis
import EntityQuery.Toml.Value

namespace EntityQuery.Toml

open Text

/-! ## Dates and times -/

/-- A number of exactly `count` decimal digits within bounds. -/
def fixedDigits (count low high : Nat) : Reader Nat := fun cs =>
  let digits := cs.take count
  let n := decimal digits
  if digits.length = count && digits.all Char.isDigit && low ≤ n && n ≤ high then
    some (n, cs.drop count)
  else none

/-- The text after a character that has to be there. -/
def afterChar (c : Char) : List Char → Option (List Char)
  | d :: cs => if d = c then some cs else none
  | [] => none

/-- The number of days of a month. -/
def daysInMonth (year month : Nat) : Nat :=
  if month = 2 then
    if year % 4 = 0 && (year % 100 ≠ 0 || year % 400 = 0) then 29 else 28
  else if month = 4 || month = 6 || month = 9 || month = 11 then 30 else 31

/-- A date: year, month and day. -/
def date : Reader Date := fun cs => do
  let (year, cs) ← fixedDigits 4 0 9999 cs
  let cs ← afterChar '-' cs
  let (month, cs) ← fixedDigits 2 1 12 cs
  let cs ← afterChar '-' cs
  let (day, cs) ← fixedDigits 2 1 (daysInMonth year month) cs
  return ({ year, month, day }, cs)

/-- The fraction of a second in nanoseconds; further digits are cut off. -/
def fraction : Reader Nat
  | '.' :: cs =>
    match cs.takeWhile Char.isDigit with
    | [] => none
    | digits =>
      let kept := digits.take 9
      some (decimal kept * Nat.pow 10 (9 - kept.length), cs.dropWhile Char.isDigit)
  | _ => none

/-- A time: hour, minute and second, with an optional fraction. -/
def time : Reader Time := fun cs => do
  let (hour, cs) ← fixedDigits 2 0 23 cs
  let cs ← afterChar ':' cs
  let (minute, cs) ← fixedDigits 2 0 59 cs
  let cs ← afterChar ':' cs
  let (second, cs) ← fixedDigits 2 0 60 cs
  match fraction cs with
  | some (nanosecond, cs) => return ({ hour, minute, second, nanosecond }, cs)
  | none => return ({ hour, minute, second, nanosecond := 0 }, cs)

/-- Hours and minutes of an offset, in minutes. -/
def offsetMinutes : Reader Nat := fun cs => do
  let (hour, cs) ← fixedDigits 2 0 23 cs
  let cs ← afterChar ':' cs
  let (minute, cs) ← fixedDigits 2 0 59 cs
  return (60 * hour + minute, cs)

/-- The offset of a time zone. -/
def offset : Reader Offset
  | 'Z' :: cs | 'z' :: cs => some (.utc, cs)
  | '+' :: cs => (offsetMinutes cs).map fun (n, cs) => (.minutes n, cs)
  | '-' :: cs => (offsetMinutes cs).map fun (n, cs) => (.minutes (-n), cs)
  | _ => none

/-- A time after the character that divides it from its date. -/
def dividedTime : Reader Time
  | c :: cs => if c = 'T' || c = 't' || c = ' ' then time cs else none
  | [] => none

/-- A date, a time or both. -/
def dateTime : Reader DateTime := fun cs =>
  match date cs with
  | some (d, rest) =>
    match dividedTime rest with
    | some (t, rest) =>
      match offset rest with
      | some (o, rest) => some (.both d t (some o), rest)
      | none => some (.both d t none, rest)
    | none => some (.date d, rest)
  | none => (time cs).map fun (t, rest) => (.time t, rest)

/-! ## Numbers -/

/-- Further digits, with single underscores between them. -/
def moreDigits (isDigit : Char → Bool) : List Char → List Char × List Char
  | '_' :: d :: cs =>
    if isDigit d then
      let (digits, rest) := moreDigits isDigit cs
      (d :: digits, rest)
    else ([], '_' :: d :: cs)
  | c :: cs =>
    if isDigit c then
      let (digits, rest) := moreDigits isDigit cs
      (c :: digits, rest)
    else ([], c :: cs)
  | [] => ([], [])

/-- One or more digits, with single underscores between them. -/
def someDigits (isDigit : Char → Bool) : Reader (List Char)
  | c :: cs =>
    if isDigit c then
      let (digits, rest) := moreDigits isDigit cs
      some (c :: digits, rest)
    else none
  | [] => none

/-- An optional sign; gives whether it is a minus. -/
def sign : List Char → Bool × List Char
  | '-' :: cs => (true, cs)
  | '+' :: cs => (false, cs)
  | cs => (false, cs)

/-- The digits of a whole number; a zero in front stands alone. -/
def wholeDigits : Reader (List Char)
  | '0' :: cs => some (['0'], cs)
  | cs => someDigits Char.isDigit cs

/-- An integer within 64 bits. -/
def inRange? (n : Int) : Option Int64 :=
  if Int64.minValue.toInt ≤ n ∧ n ≤ Int64.maxValue.toInt then some (Int64.ofInt n) else none

/-- The digits of a number in another base, from behind its mark. -/
def basedInteger (base : Nat) (isDigit : Char → Bool) : Reader Int64 := fun cs =>
  match someDigits isDigit cs with
  | some (digits, rest) => (inRange? (numeral base digits)).map (·, rest)
  | none => none

/-- An integer. -/
def integer : Reader Int64
  | '0' :: 'x' :: cs => basedInteger 16 (hexValue? · |>.isSome) cs
  | '0' :: 'o' :: cs => basedInteger 8 (fun c => '0' ≤ c && c ≤ '7') cs
  | '0' :: 'b' :: cs => basedInteger 2 (fun c => c = '0' || c = '1') cs
  | cs =>
    let (negative, cs) := sign cs
    match wholeDigits cs with
    | some (digits, rest) =>
      let n : Int := decimal digits
      (inRange? (if negative then -n else n)).map (·, rest)
    | none => none

/-- The exponent of a floating point number. -/
def exponent : Reader Int
  | c :: cs =>
    if c = 'e' || c = 'E' then
      let (negative, cs) := sign cs
      (someDigits Char.isDigit cs).map fun (digits, rest) =>
        (if negative then -(decimal digits : Int) else decimal digits, rest)
    else none
  | [] => none

/-- The digits behind the point of a floating point number. -/
def fractionDigits : Reader (List Char)
  | '.' :: cs => someDigits Char.isDigit cs
  | _ => none

/-- A floating point number in digits.  A positive number beyond the range is refused. -/
def decimalFloat : Reader Decimal.Binary64 := fun cs =>
  let (negative, cs) := sign cs
  match wholeDigits cs with
  | none => none
  | some (whole, rest) =>
    let parts := match fractionDigits rest with
      | some (part, rest) =>
        match exponent rest with
        | some (e, rest) => some (part, e, rest)
        | none => some (part, 0, rest)
      | none => (exponent rest).map fun (e, rest) => ([], e, rest)
    match parts with
    | none => none
    | some (part, e, rest) =>
      match Decimal.Binary64.nearest negative (decimal (whole ++ part)) (e - part.length) with
      | .infinite false => none
      | x => some (x, rest)

/-- Infinity or not a number, with an optional sign. -/
def specialFloat : Reader Decimal.Binary64 := fun cs =>
  match sign cs with
  | (negative, 'i' :: 'n' :: 'f' :: rest) => some (.infinite negative, rest)
  | (_, 'n' :: 'a' :: 'n' :: rest) => some (.nan, rest)
  | _ => none

/-- A value that is neither a string, an array nor a table. -/
def scalar : Reader Value
  | 't' :: 'r' :: 'u' :: 'e' :: cs => some (.bool true, cs)
  | 'f' :: 'a' :: 'l' :: 's' :: 'e' :: cs => some (.bool false, cs)
  | cs =>
    match dateTime cs with
    | some (d, rest) => some (.dateTime d, rest)
    | none =>
    match decimalFloat cs with
    | some (x, rest) => some (.float x, rest)
    | none =>
    match specialFloat cs with
    | some (x, rest) => some (.float x, rest)
    | none => (integer cs).map fun (n, rest) => (.int n, rest)

end EntityQuery.Toml
