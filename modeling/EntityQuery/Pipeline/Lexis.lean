/-
# Tokens of pipeline text

The readers of single tokens: names, keywords, symbols, integers, counts and quoted strings.
-/
import EntityQuery.Pipeline.Reader
import EntityQuery.Text.Alphabetic
import EntityQuery.Text.Numeral
import EntityQuery.Text.Reader

namespace EntityQuery.Pipeline

open Text Reader

/-! ## Names and keywords -/

/-- Whether a character may start a name. -/
def isNameStart (c : Char) : Bool :=
  isAlphabetic c || c = '_'

/-- Whether a character may go on in a name. -/
def isNamePart (c : Char) : Bool :=
  isAlphabetic c || isNumeral c || c = '_'

/-- The name of a relation, column or type. -/
def name : Reader String := do
  let first ← someRun isNameStart
  let others ← run isNamePart
  return String.ofList (first ++ others)

/-- The sign for kelvin.  Its small form is the letter `k`. -/
def kelvinSign : Char := '\u212a'

/-- Whether the small form of a character is some letter from `a` to `z`.  So it is for the letter
and its capital, and besides these only for the Kelvin sign. -/
def isCaseOf (letter c : Char) : Bool :=
  c.toLower = letter || letter = 'k' && c = kelvinSign

/-- The letters of a word in any case.  The characters are compared as far as both the word and the
text go; then as many bytes are taken as the word has, if there are as many.  The Kelvin sign has
three bytes where `k` has one, so that these may end inside of it. -/
def spelled (word : String) : Reader Unit := fun cs =>
  let size := byteLength word.toList
  if (cs.zip word.toList).all (fun (c, letter) => isCaseOf letter c) && size ≤ byteLength cs then
    match dropBytes size cs with
    | some rest => .read () rest
    | none => .broken
  else .refused cs

/-- A keyword, in any case and not going on as a longer name. -/
def keyword (word : String) : Reader Unit := do
  spelled word
  absent (someRun isNamePart)

/-- The first of several symbols that fits, and what it stands for. -/
def oneOf {α : Type} : List (String × α) → Reader α
  | [] => fun cs => .refused cs
  | (text, a) :: others => (do symbol text; return a) <|> oneOf others

/-! ## Numbers and strings -/

/-- A non-empty run of decimal digits. -/
def digits : Reader (List Char) :=
  someRun Char.isDigit

/-- A row count: an unsigned 64-bit number. -/
def count : Reader UInt64 :=
  converted digits fun ds =>
    if decimal ds < UInt64.size then some (UInt64.ofNat (decimal ds)) else none

/-- Digits with an optional minus sign. -/
def signedDigits : Reader Int := do
  let sign ← optional (symbol "-")
  let ds ← digits
  return if sign.isSome then -(decimal ds : Int) else decimal ds

/-- An integer: a signed 64-bit number. -/
def integer : Reader Int64 :=
  converted signedDigits fun n =>
    if Int64.minValue.toInt ≤ n ∧ n ≤ Int64.maxValue.toInt then some (Int64.ofInt n) else none

/-- A piece of a quoted string: characters other than the mark, or the mark written twice. -/
def quotedPiece : Reader (List Char) :=
  someRun (· ≠ '\'') <|> do
    symbol "''"
    return ['\'']

/-- A string between apostrophes. -/
def quoted : Reader String := do
  symbol "'"
  let pieces ← many quotedPiece
  symbol "'"
  return String.ofList pieces.flatten

end EntityQuery.Pipeline
