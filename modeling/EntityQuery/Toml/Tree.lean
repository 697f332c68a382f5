/-
# Building tables

A document is a tree of tables that grows by assignments and headers.  Tables remember how they came
about, because that decides what may be added to them later:

* an assignment to a dotted key may only go through tables that no header defined, and it ends in a
  table that dotted keys made;
* a header may define a table that so far was only passed through by other headers.
-/
import EntityQuery.Toml.Value

namespace EntityQuery.Toml

/-- How a table came about. -/
inductive Origin where
  /-- By its header, or as the whole document. -/
  | defined
  /-- As a part of a longer header. -/
  | passed
  /-- As a part of a dotted key. -/
  | dotted
deriving DecidableEq, Repr, Inhabited

/-- What a key stands for while a document is read. -/
inductive Node where
  | value (v : Value)
  | table (origin : Origin) (entries : List (String × Node))
  /-- An array of tables made by headers, the last table first. -/
  | tables (latestFirst : List (List (String × Node)))
deriving Inhabited

/-- The entries of a table. -/
abbrev Entries := List (String × Node)

/-- The entries with the first one of a name replaced, or with a new one at the end. -/
def Entries.put (name : String) (node : Node) : Entries → Entries
  | [] => [(name, node)]
  | (n, old) :: rest => if n = name then (n, node) :: rest else (n, old) :: Entries.put name node rest

/-- The entries without those of a name. -/
def Entries.remove (name : String) (entries : Entries) : Entries :=
  entries.filter (·.1 ≠ name)

/-- A change of the entries of a table, given how the table came about; fails where the change is
not allowed. -/
abbrev Change := Origin → Entries → Option Entries

/-- Applies a change to the table at a path of keys.  `through` is the origin of the tables made on
the way; a dotted key may not go through a table that a header defined. -/
def changeAt (through : Origin) (change : Change) : List String → Change
  | [], origin, entries => change origin entries
  | key :: path, _, entries =>
    match entries.lookup key with
    | none => do
      let inner ← changeAt through change path through []
      return entries.put key (.table through inner)
    | some (.value _) => none
    | some (.tables []) => none
    | some (.tables (last :: others)) => do
      let inner ← changeAt through change path .defined last
      return entries.put key (.tables (inner :: others))
    | some (.table origin inner) =>
      if through = .dotted && origin = .defined then none
      else do
        let inner ← changeAt through change path origin inner
        return entries.put key (.table origin inner)

/-- The last part of a key and the parts in front of it. -/
def splitLast : List String → Option (List String × String)
  | [] => none
  | [key] => some ([], key)
  | key :: next :: rest => (splitLast (next :: rest)).map fun (path, last) => (key :: path, last)

/-- Assigns a value to a key of a table that was not assigned before. -/
def assign (path : List String) (key : String) (v : Value) (entries : Entries) : Option Entries :=
  changeAt .dotted (fun origin entries =>
    if decide (origin = .dotted) = path.isEmpty then none
    else if (entries.lookup key).isSome then none
    else some (entries.put key (.value v))) path .defined entries

mutual

/-- The finished value of a node. -/
def Node.finish : Node → Value
  | .value v => v
  | .table _ entries => .table (finishEntries entries)
  | .tables latestFirst => .array (finishTables latestFirst).reverse

/-- The finished entries of a table. -/
def finishEntries : List (String × Node) → List (String × Value)
  | [] => []
  | (name, node) :: rest => (name, node.finish) :: finishEntries rest

/-- The finished tables of an array of tables. -/
def finishTables : List (List (String × Node)) → List Value
  | [] => []
  | entries :: rest => .table (finishEntries entries) :: finishTables rest

end

end EntityQuery.Toml
