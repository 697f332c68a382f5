/-
# TOML documents

A document is a list of lines: assignments of values to keys, headers of tables and headers of
arrays of tables.  `Toml.parse` reads it and gives the entries of the table it describes.
-/
import EntityQuery.Toml.Scalar
import EntityQuery.Toml.Tree

namespace EntityQuery.Toml

open Text

/-! ## Values -/

/-- The items of an array from behind its opening bracket; a comma may follow the last one. -/
def arrayItems (item : Reader Value) : (limit : Nat) → Reader (List Value)
  | 0, _ => none
  | limit + 1, cs =>
    match skipFillers false cs with
    | ']' :: rest => some ([], rest)
    | cs =>
      match item cs with
      | none => none
      | some (v, rest) =>
        match skipFillers false rest with
        | ']' :: rest => some ([v], rest)
        | ',' :: rest => (arrayItems item limit rest).map fun (vs, rest) => (v :: vs, rest)
        | _ => none

/-- The assignments of an inline table from behind its opening brace, all on one line. -/
def inlineEntries (item : Reader Value) : (limit : Nat) → Entries → Reader Entries
  | 0, _, _ => none
  | limit + 1, entries, cs => do
    let (path, rest) ← key cs
    let rest ← afterChar '=' rest
    let (v, rest) ← item (skipSpaces rest)
    let (front, last) ← splitLast path
    let entries ← assign front last v entries
    match skipSpaces rest with
    | '\x7d' :: rest => some (entries, rest)
    | ',' :: rest => inlineEntries item limit entries rest
    | _ => none

/-- An inline table from behind its opening brace. -/
def inlineTable (item : Reader Value) : Reader Value := fun cs =>
  match skipSpaces cs with
  | '\x7d' :: rest => some (.table [], rest)
  | cs => (inlineEntries item (cs.length + 1) [] cs).map fun (entries, rest) =>
    (.table (finishEntries entries), rest)

/-- A value with arrays and tables nested at most `depth` deep. -/
def valueUpTo : (depth : Nat) → Reader Value
  | _, '"' :: cs => (string ('"' :: cs)).map fun (s, rest) => (.string s, rest)
  | _, '\'' :: cs => (string ('\'' :: cs)).map fun (s, rest) => (.string s, rest)
  | 0, '[' :: _ => none
  | depth + 1, '[' :: cs =>
    (arrayItems (valueUpTo depth) (cs.length + 1) cs).map fun (vs, rest) => (.array vs, rest)
  | 0, '\x7b' :: _ => none
  | depth + 1, '\x7b' :: cs => inlineTable (valueUpTo depth) cs
  | _, cs => scalar cs

/-- A value. -/
def value : Reader Value :=
  valueUpTo nestingLimit

/-! ## Lines -/

/-- One line of a document. -/
inductive Line where
  | assignment (key : List String) (v : Value)
  | tableHeader (key : List String)
  | arrayHeader (key : List String)

/-- A line that is not blank, up to its end. -/
def line : Reader Line
  | '[' :: '[' :: cs => do
    let (path, rest) ← key cs
    let rest ← afterChar ']' rest
    let rest ← afterChar ']' rest
    return (.arrayHeader path, ← restOfLine rest)
  | '[' :: cs => do
    let (path, rest) ← key cs
    let rest ← afterChar ']' rest
    return (.tableHeader path, ← restOfLine rest)
  | cs => do
    let (path, rest) ← key cs
    let rest ← afterChar '=' rest
    let (v, rest) ← value (skipSpaces rest)
    return (.assignment path v, ← restOfLine rest)

/-- The lines of a document.  Every line takes a character, so the length of the text bounds their
number. -/
def lines : (limit : Nat) → List Char → Option (List Line)
  | 0, _ => none
  | limit + 1, cs =>
    match skipSpaces cs with
    | [] => some []
    | '#' :: cs => (restOfLine ('#' :: cs)).bind (lines limit)
    | '\n' :: cs => lines limit cs
    | '\r' :: '\n' :: cs => lines limit cs
    | cs => do
      let (first, rest) ← line cs
      let others ← lines limit rest
      return first :: others

/-! ## Documents -/

/-- Where the assignments of the current section go: the table at a path, whose entries so far are
kept apart until the section ends. -/
structure Section where
  path : List String := []
  isArray : Bool := false
  entries : Entries := []

/-- The document so far, without the current section, and the current section. -/
structure Reading where
  document : Entries := []
  current : Section := {}

/-- The tables of an array of tables, for a key that is free or stands for such an array. -/
def tablesAt (key : String) (entries : Entries) : Option (List Entries) :=
  match entries.lookup key with
  | none => some []
  | some (.tables latestFirst) => some latestFirst
  | some _ => none

/-- The document with the current section put into its place. -/
def Reading.close (r : Reading) : Option Entries :=
  match splitLast r.current.path with
  | none => some r.current.entries
  | some (front, last) =>
    changeAt .passed (fun _ entries =>
      if r.current.isArray then do
        let tables ← tablesAt last entries
        return entries.put last (.tables (r.current.entries :: tables))
      else some (entries.put last (.table .defined r.current.entries))) front .defined r.document

/-- Opens the section of a table, which keeps what longer headers put into it. -/
def openTable (path : List String) (document : Entries) : Option Reading := do
  let (front, last) ← splitLast path
  -- The parts of the header in front of the last one become tables even if nothing follows.
  let reached ← changeAt .passed (fun _ entries => some (entries.remove last)) front .defined document
  match entryAt front last document with
  | none => return { document := reached, current := { path } }
  | some (.table .passed entries) => return { document := reached, current := { path, entries } }
  | some _ => none
where
  /-- The node at the end of a path, through the latest table of every array of tables. -/
  entryAt : List String → String → Entries → Option Node
    | [], last, entries => entries.lookup last
    | key :: path, last, entries =>
      match entries.lookup key with
      | some (.table _ inner) => entryAt path last inner
      | some (.tables (latest :: _)) => entryAt path last latest
      | _ => none

/-- Opens the section of another table of an array of tables. -/
def openArray (path : List String) (document : Entries) : Option Reading := do
  let (front, last) ← splitLast path
  let reached ← changeAt .passed (fun _ entries => do
    let tables ← tablesAt last entries
    return entries.put last (.tables tables)) front .defined document
  return { document := reached, current := { path, isArray := true } }

/-- The reading after one more line. -/
def Reading.step (r : Reading) : Line → Option Reading
  | .assignment path v => do
    let (front, last) ← splitLast path
    let entries ← assign front last v r.current.entries
    return { r with current := { r.current with entries } }
  | .tableHeader path => do openTable path (← r.close)
  | .arrayHeader path => do openArray path (← r.close)

/-- The text without the mark of its byte order. -/
def skipByteOrderMark : List Char → List Char
  | c :: cs => if c.toNat = 0xFEFF then cs else c :: cs
  | [] => []

/-- The entries of the table that a TOML document describes. -/
def parse (text : String) : Option (List (String × Value)) := do
  let cs := skipByteOrderMark text.toList
  let read ← lines (cs.length + 1) cs
  let reading ← read.foldlM Reading.step {}
  let document ← reading.close
  return finishEntries document

end EntityQuery.Toml
