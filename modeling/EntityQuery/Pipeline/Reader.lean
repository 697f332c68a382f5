/-
# Readers of pipeline text

A reader takes characters from the front of a text: it reads a value and leaves the rest, or it
refuses and says which text was left where it could not go on.  A refusal ends one attempt only.
Another alternative may be tried, an optional part may be missing and a repetition may be over;
what is reported in the end is the refusal of the alternative that was tried last.  A reader that
is committed stops for good instead.
-/
import EntityQuery.Fault
import EntityQuery.Text.Blank
import EntityQuery.Text.Bytes

namespace EntityQuery.Pipeline

open Text

/-- How a reading ends. -/
inductive Reading (α : Type) where
  /-- A value is read, and the rest of the text is left. -/
  | read (value : α) (rest : List Char)
  /-- The attempt fails where this text is left. -/
  | refused (left : List Char)
  /-- Reading as a whole fails where this text is left; nothing else is tried. -/
  | stopped (left : List Char)
  /-- The text ends before it can be told what it holds. -/
  | unfinished
  /-- The text was to be cut inside of a character.  Nothing can follow, not even a fault. -/
  | broken
deriving DecidableEq, Repr

/-- Goes on with what was read and the rest of the text. -/
def Reading.andThen {α β : Type} (reading : Reading α) (next : α → List Char → Reading β) :
    Reading β :=
  match reading with
  | .read a rest => next a rest
  | .refused left => .refused left
  | .stopped left => .stopped left
  | .unfinished => .unfinished
  | .broken => .broken

/-- Puts another reading in the place of a refused one. -/
def Reading.orElse {α : Type} (reading : Reading α) (other : Unit → Reading α) : Reading α :=
  match reading with
  | .refused _ => other ()
  | reading => reading

/-- A reader: how the reading of a text ends. -/
def Reader (α : Type) := List Char → Reading α

instance : Monad Reader where
  pure a := fun cs => .read a cs
  bind reader next := fun cs => (reader cs).andThen next

/-- Where the first reader refuses, the second one is tried on the same text. -/
instance {α : Type} : OrElse (Reader α) where
  orElse first second := fun cs => (first cs).orElse fun _ => second () cs

namespace Reader

variable {α β : Type}

/-! ## Characters -/

/-- The characters up to the first one that is not of some kind. -/
def run (p : Char → Bool) : Reader (List Char) := fun cs =>
  .read (cs.takeWhile p) (cs.dropWhile p)

/-- The characters up to the first one that is not of some kind, at least one. -/
def someRun (p : Char → Bool) : Reader (List Char) := fun cs =>
  match cs.takeWhile p with
  | [] => .refused cs
  | taken => .read taken (cs.dropWhile p)

/-- The given characters. -/
def symbol (text : String) : Reader Unit := fun cs =>
  if text.toList.isPrefixOf cs then .read () (cs.drop text.toList.length) else .refused cs

/-! ## Alternatives and repetitions -/

/-- A part that may be missing. -/
def optional (reader : Reader α) : Reader (Option α) :=
  some <$> reader <|> pure none

/-- What is read, if anything is; whatever else happens counts as nothing. -/
def attempt (reader : Reader α) : Reader (Option α) := fun cs =>
  match reader cs with
  | .read a rest => .read (some a) rest
  | .broken => .broken
  | _ => .read none cs

/-- Refuses where something could be read, and takes nothing otherwise. -/
def absent (reader : Reader α) : Reader Unit := fun cs =>
  match reader cs with
  | .refused _ => .read () cs
  | reading => reading.andThen fun _ _ => .refused cs

/-- Every refusal is final. -/
def committed (reader : Reader α) : Reader α := fun cs =>
  match reader cs with
  | .refused left => .stopped left
  | reading => reading

/-- What is read has to stand for something; otherwise the reader refuses at its start. -/
def converted (reader : Reader α) (meaning : α → Option β) : Reader β := fun cs =>
  (reader cs).andThen fun a rest =>
    match meaning a with
    | some b => .read b rest
    | none => .refused cs

/-- Reads as often as it can, at most `limit` times. -/
def manyUpTo (reader : Reader α) : (limit : Nat) → Reader (List α)
  | 0 => pure []
  | limit + 1 => fun cs =>
    match reader cs with
    | .refused _ => .read [] cs
    | reading => reading.andThen fun a rest =>
      -- a reader that takes nothing could go on forever
      if rest.length < cs.length then (List.cons a <$> manyUpTo reader limit) rest else .refused cs

/-- Reads as often as it can.  Every time something is taken, so the length of the text bounds the
number of times. -/
def many (reader : Reader α) : Reader (List α) := fun cs =>
  reader.manyUpTo (cs.length + 1) cs

end Reader

/-! ## Blanks -/

/-- The text from its first character that is no blank. -/
def skipBlanks (cs : List Char) : List Char :=
  cs.dropWhile isBlank

/-- Any number of blanks. -/
def blanks : Reader Unit := fun cs =>
  .read () (skipBlanks cs)

/-- One blank at least. -/
def someBlanks : Reader Unit := do
  let _ ← Reader.someRun isBlank

/-- A token with blanks allowed on both sides. -/
def amidBlanks {α : Type} (token : Reader α) : Reader α := do
  blanks
  let a ← token
  blanks
  return a

/-! ## Whole texts -/

/-- What comes of a whole text. -/
inductive Parsed (α : Type) where
  | ok (value : α)
  | error (fault : Fault)
  /-- Reading broke off: there is neither a value nor a fault, and the program does not go on. -/
  | aborted
deriving DecidableEq, Repr

/-- Goes on with what was read from the text. -/
def Parsed.andThen {α β : Type} (parsed : Parsed α) (next : α → Except Fault β) : Parsed β :=
  match parsed with
  | .ok a =>
    match next a with
    | .ok b => .ok b
    | .error fault => .error fault
  | .error fault => .error fault
  | .aborted => .aborted

/-- The fault met where the end `left` of a text is left. -/
def faultAt (whole left : List Char) (cause : String → ReadFault) : Fault :=
  .malformed (byteLength whole - byteLength left) (cause (String.ofList left))

/-- Reads a text from its start to its end.  White space at the end of the text does not count. -/
def Reader.parse {α : Type} (reader : Reader α) (text : String) : Parsed α :=
  let whole := trimEnd text.toList
  match reader whole with
  | .read a [] => .ok a
  | .read _ rest => .error (faultAt whole rest .trailing)
  | .refused left => .error (faultAt whole left .unexpected)
  | .stopped left => .error (faultAt whole left .unexpected)
  | .unfinished => .error (.malformed (byteLength whole) .ended)
  | .broken => .aborted

end EntityQuery.Pipeline
