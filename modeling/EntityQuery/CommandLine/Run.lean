/-
# Running commands

A run reads the configuration, checks the model and prints SQL, an explanation or a listing of the
model.  All that it needs from the outside is a `Host`, so that the same run can be had with files in
memory.
-/
import EntityQuery.CommandLine.Help
import EntityQuery.Config
import EntityQuery.Pipeline.Basic
import EntityQuery.Plan.Json

namespace EntityQuery.CommandLine

open Pipeline

/-- What a program leaves behind. -/
structure Outcome where
  code : UInt32 := 0
  output : String := ""
  errors : String := ""
deriving DecidableEq, Repr, Inhabited

/-- The files and settings that a run can see. -/
structure Host (m : Type → Type) where
  /-- The content of a file, or the reason why it cannot be read. -/
  read : String → m (Except String String)
  present : String → m Bool
  /-- The value of the variable that names the configuration file. -/
  setting : Option String
  /-- The configuration file of the user. -/
  userConfig : Option String

/-- A failed run. -/
def Outcome.failed (message : String) : Outcome :=
  { code := 1, errors := "Error: " ++ message ++ "\n" }

/-- A run that breaks off in the middle, without a word of its own. -/
def Outcome.aborted : Outcome :=
  { code := 101 }

/-! ## Listings -/

/-- Text filled up with blanks to a width. -/
def padRight (width : Nat) (s : String) : String :=
  s ++ Text.repeated " " (width - s.length)

/-- A row of the listing of a model. -/
def row (set table root discriminator : String) : String :=
  padRight 16 set ++ " " ++ padRight 24 table ++ " " ++ padRight 24 root ++ " " ++ discriminator ++ "\n"

/-- The line of a type in the listing of a model. -/
def typeRow (t : EntityType Condition) : String :=
  let conditions := t.conditions.map fun c => c.predicate.text
  "    " ++ t.name ++ " " ++ String.intercalate " AND " conditions ++ "\n"

/-- The rows of an entity set and its types. -/
def setRows (model : Model) (set : EntitySet) : String :=
  row set.name set.table set.root (set.discriminator.getD "-")
    ++ String.join ((model.subtree set.root).map typeRow)

/-- The listing of a model. -/
def listing (model : Model) : String :=
  "✓ model is valid\n\n" ++ row "Set" "Table" "Root type" "Discriminator"
    ++ Text.repeated "─" 80 ++ "\n" ++ String.join (model.sets.map (setRows model))

/-- An explanation as JSON. -/
def explanationJson (e : Plan.Explanation) : Json :=
  .object [("input", e.input.toJson), ("rewritten", e.prepared.toJson), ("sql", .string e.sql)]

/-! ## Commands -/

/-- What a command prints. -/
def Command.output (model : Model) (options : Options) : Command → Parsed String
  | .compile pipeline => (Plan.parse pipeline).andThen fun plan => do
    return (← plan.compile model options) ++ "\n"
  | .explain pipeline format => (Plan.parse pipeline).andThen fun plan => do
    let explanation ← plan.explain model options
    match format with
    | .text => return explanation.text
    | .json => return (explanationJson explanation).text ++ "\n"
  | .check => .ok (listing model)

/-- The options of a configuration, as far as the invocation does not set its own. -/
def Invocation.options (invocation : Invocation) (base : Options) : Options :=
  { base with
    nulls := invocation.nulls.getD base.nulls
    shaping := invocation.shaping.getD base.shaping }

/-- Runs an invocation on the content of a configuration file. -/
def Invocation.runOn (invocation : Invocation) (path : String) (content : Except String String) :
    Outcome :=
  let loaded := match content with
    | .ok text => Config.ofToml text
    | .error reason => .error (.config (.unreadable path reason))
  match loaded with
  | .error fault => .failed ("loading " ++ path ++ ": " ++ fault.message)
  | .ok config =>
    match config.draft.freeze with
    | .error fault => .failed ("invalid model: " ++ (Fault.model fault).message)
    | .ok model =>
      match invocation.command.output model (invocation.options config.options) with
      | .error fault => .failed fault.message
      | .ok output => { output }
      | .aborted => .aborted

section

variable {m : Type → Type} [Monad m]

/-- The configuration file: the one asked for, else the one in the working directory, else the
user's. -/
def configPath (host : Host m) (asked : Option String) : m (Option String) := do
  match asked <|> host.setting with
  | some path => return some path
  | none =>
    if ← host.present localConfig then return some localConfig
    else match host.userConfig with
      | some path => if ← host.present path then return some path else return none
      | none => return none

/-- Runs the program. -/
def run (host : Host m) (arguments : List String) : m Outcome := do
  match Invocation.ofArguments arguments with
  | .error .version => return { output := versionText }
  | .error (.help topic) => return { output := helpText (host.setting.getD "") topic }
  | .error .refused => return { code := 2, errors := usageText }
  | .ok invocation =>
    -- A variable without a value is no path; it is read wherever the option is left out.
    if invocation.configOpen && host.setting = some "" then
      return { code := 2, errors := usageText }
    match ← configPath host invocation.config with
    | none => return .failed ("no liftql.toml found; pass --config or set " ++ configVariable)
    | some path => return invocation.runOn path (← host.read path)

end

end EntityQuery.CommandLine
