/-
# Tokens of TOML text

Blanks, comments, line ends, strings and keys.
-/
import EntityQuery.Text.Reader

namespace EntityQuery.Toml

open Text

/-! ## Blanks, comments and line ends -/

/-- A space or a tab. -/
def isSpace (c : Char) : Bool :=
  c = ' ' || c = '\t'

/-- The text from its first character that is neither a space nor a tab. -/
def skipSpaces (cs : List Char) : List Char :=
  cs.dropWhile isSpace

/-- Any character that is no control character, and the tab. -/
def isPlain (c : Char) : Bool :=
  c = '\t' || (0x20 ≤ c.toNat && c.toNat ≠ 0x7F)

/-- The text after a line end. -/
def lineEnd : List Char → Option (List Char)
  | '\n' :: cs => some cs
  | '\r' :: '\n' :: cs => some cs
  | _ => none

/-- The text after a comment, if there is one. -/
def skipComment : List Char → List Char
  | '#' :: cs => cs.dropWhile isPlain
  | cs => cs

/-- The text after blanks, a comment and the end of the line or of the text. -/
def restOfLine (cs : List Char) : Option (List Char) :=
  match skipComment (skipSpaces cs) with
  | [] => some []
  | rest => lineEnd rest

/-- The text after blanks, line ends and comments, inside a comment when `inComment`. -/
def skipFillers (inComment : Bool) : List Char → List Char
  | '\n' :: cs => skipFillers false cs
  | '\r' :: '\n' :: cs => skipFillers false cs
  | c :: cs =>
    if inComment then if isPlain c then skipFillers true cs else c :: cs
    else if isSpace c then skipFillers false cs
    else if c = '#' then skipFillers true cs
    else c :: cs
  | [] => []

/-! ## Strings -/

/-- The value of a hexadecimal digit. -/
def hexValue? (c : Char) : Option Nat :=
  if c.isDigit then some (c.toNat - 0x30)
  else if 'a' ≤ c ∧ c ≤ 'f' then some (c.toNat - 0x57)
  else if 'A' ≤ c ∧ c ≤ 'F' then some (c.toNat - 0x37)
  else none

/-- The number that digits of a base stand for. -/
def numeral (base : Nat) (digits : List Char) : Nat :=
  digits.foldl (fun n d => base * n + (hexValue? d).getD 0) 0

/-- Whether a number is the code point of a character. -/
def isCodePoint (n : Nat) : Bool :=
  n < 0xD800 || (0xDFFF < n && n < 0x110000)

/-- The character of a code point given by `count` hexadecimal digits. -/
def codePoint (count : Nat) : Reader Char := fun cs =>
  let digits := cs.take count
  if digits.length = count && digits.all (hexValue? · |>.isSome) && isCodePoint (numeral 16 digits) then
    some (Char.ofNat (numeral 16 digits), cs.drop count)
  else none

/-- The character that an escape stands for, from behind the backslash. -/
def escape : Reader Char
  | 'b' :: cs => some ('\x08', cs)
  | 't' :: cs => some ('\t', cs)
  | 'n' :: cs => some ('\n', cs)
  | 'f' :: cs => some ('\x0c', cs)
  | 'r' :: cs => some ('\r', cs)
  | '"' :: cs => some ('"', cs)
  | '\\' :: cs => some ('\\', cs)
  | 'u' :: cs => codePoint 4 cs
  | 'U' :: cs => codePoint 8 cs
  | _ => none

/-- A character put before what is read next. -/
def consTo (c : Char) : Option (List Char × List Char) → Option (List Char × List Char)
  | some (content, rest) => some (c :: content, rest)
  | none => none

/-- The content of a one-line string with escapes, from behind its opening mark. -/
def basicContent : (limit : Nat) → Reader (List Char)
  | 0, _ => none
  | _ + 1, '"' :: cs => some ([], cs)
  | limit + 1, '\\' :: cs =>
    match escape cs with
    | some (c, rest) => consTo c (basicContent limit rest)
    | none => none
  | limit + 1, c :: cs => if isPlain c then consTo c (basicContent limit cs) else none
  | _ + 1, [] => none

/-- A one-line string with escapes. -/
def basicString : Reader String
  | '"' :: cs => (basicContent (cs.length + 1) cs).map fun (content, rest) => (String.ofList content, rest)
  | _ => none

/-- The content of a one-line string without escapes, from behind its opening mark. -/
def literalContent : Reader (List Char)
  | '\'' :: cs => some ([], cs)
  | c :: cs => if isPlain c then consTo c (literalContent cs) else none
  | [] => none

/-- A one-line string without escapes. -/
def literalString : Reader String
  | '\'' :: cs => (literalContent cs).map fun (content, rest) => (String.ofList content, rest)
  | _ => none

/-- The length of the run of marks at the front of a text. -/
def markRun (mark : Char) (cs : List Char) : Nat :=
  (cs.takeWhile (· = mark)).length

/-- The text after blanks and line ends that follow a backslash at the end of a line. -/
def continuedLine (cs : List Char) : Option (List Char) :=
  match lineEnd (skipSpaces cs) with
  | some rest => some (skipBlankLines rest)
  | none => none
where
  /-- The text after blanks and line ends. -/
  skipBlankLines : List Char → List Char
    | '\r' :: '\n' :: cs => skipBlankLines cs
    | c :: cs => if isSpace c || c = '\n' then skipBlankLines cs else c :: cs
    | [] => []

/-- The content of a string over several lines.  Three marks end it, and up to two more in front of
them belong to the content; escapes count where `escapes` says so. -/
def multilineContent (mark : Char) (escapes : Bool) : (limit : Nat) → Reader (List Char)
  | 0, _ => none
  | limit + 1, cs =>
    let run := markRun mark cs
    if 3 ≤ run then
      if run ≤ 5 then some (List.replicate (run - 3) mark, cs.drop run) else none
    else match cs with
      | [] => none
      | '\\' :: rest =>
        if escapes then
          match continuedLine rest with
          | some rest => multilineContent mark escapes limit rest
          | none =>
            match escape rest with
            | some (c, rest) => consTo c (multilineContent mark escapes limit rest)
            | none => none
        else consTo '\\' (multilineContent mark escapes limit rest)
      | c :: rest =>
        match lineEnd (c :: rest) with
        | some rest => consTo '\n' (multilineContent mark escapes limit rest)
        | none => if isPlain c then consTo c (multilineContent mark escapes limit rest) else none

/-- A string over several lines, from behind its opening marks.  A line end right there does not
count. -/
def multilineString (mark : Char) (escapes : Bool) : Reader String := fun cs =>
  let start := (lineEnd cs).getD cs
  (multilineContent mark escapes (start.length + 1) start).map fun (content, rest) =>
    (String.ofList content, rest)

/-- A string of any kind. -/
def string : Reader String
  | '"' :: '"' :: '"' :: cs => multilineString '"' true cs
  | '\'' :: '\'' :: '\'' :: cs => multilineString '\'' false cs
  | '"' :: cs => basicString ('"' :: cs)
  | cs => literalString cs

/-! ## Keys -/

/-- A character of a key that needs no quotes. -/
def isBare (c : Char) : Bool :=
  c.isAlphanum || c = '_' || c = '-'

/-- One part of a key. -/
def keyPart : Reader String
  | '"' :: cs => basicString ('"' :: cs)
  | '\'' :: cs => literalString ('\'' :: cs)
  | cs =>
    match cs.takeWhile isBare with
    | [] => none
    | bare => some (String.ofList bare, cs.dropWhile isBare)

/-- A key of at most `limit` parts divided by dots, with blanks allowed around each. -/
def keyUpTo : (limit : Nat) → Reader (List String)
  | 0, _ => none
  | limit + 1, cs =>
    match keyPart (skipSpaces cs) with
    | none => none
    | some (part, rest) =>
      match skipSpaces rest with
      | '.' :: rest =>
        match keyUpTo limit rest with
        | some (parts, rest) => some (part :: parts, rest)
        | none => none
      | rest => some ([part], rest)

/-- The greatest nesting of arrays and tables, and the greatest number of parts of a key. -/
def nestingLimit : Nat := 79

/-- A key. -/
def key : Reader (List String) :=
  keyUpTo nestingLimit

end EntityQuery.Toml
