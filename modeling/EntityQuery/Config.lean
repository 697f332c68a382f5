/-
# Configurations

A configuration is a TOML document with compiler options and a drafted model:

    [compiler]
    null_semantics = "native"

    [[entity_set]]
    name = "Configs"
    table = "dbo.Configs"
    root_type = "Config"
    discriminator = "Discriminator"

    [[entity_type]]
    name = "Config"
    properties = ["Id", "OS"]

    [[entity_type.condition]]
    column = "Discriminator"
    value = "Config"

A document of another form is refused as a whole, before conditions are looked at.
-/
import EntityQuery.Compiler
import EntityQuery.Model.Draft
import EntityQuery.Toml.Document
import EntityQuery.Toml.Record
import EntityQuery.Toml.Text

namespace EntityQuery

/-- Compiler options and a model that is not checked yet. -/
structure Config where
  options : Options := {}
  draft : Draft := {}

namespace Config

open Toml

/-! ## The form of a document -/

/-- A condition as written. -/
structure WrittenCondition where
  property : Option String
  column : Option String
  value : Option Toml.Value
  isNull : Option Bool

/-- An entity type as written. -/
structure WrittenType where
  name : String
  base : Option String
  properties : List String
  /-- The columns of properties that are stored under another name. -/
  columns : List (String × String)
  conditions : List WrittenCondition

/-- A configuration as written. -/
structure Written where
  options : Options
  sets : List EntitySet
  types : List WrittenType

/-- The spellings of the null modes. -/
def nullModes : List (String × NullMode) :=
  [("clr_semantics", .host), ("clr", .host), ("native_semantics", .native), ("native", .native)]

/-- The spellings of the shapings. -/
def shapings : List (String × Shaping) :=
  [("uniform", .uniform), ("subtype_only", .subtypeOnly)]

/-- Compiler options. -/
def readOptions (v : Toml.Value) : Option Options := do
  let r ← v.record?
  return {
    nulls := ← r.withDefault 0 "null_semantics" (Value.choice? nullModes) ({} : Options).nulls
    shaping := ← r.withDefault 1 "shaping" (Value.choice? shapings) ({} : Options).shaping
    sweeps := ← r.withDefault 2 "max_rewrite_passes" Value.nat? ({} : Options).sweeps }

/-- An entity set. -/
def readSet (v : Toml.Value) : Option EntitySet := do
  let r ← v.record?
  return {
    name := ← r.required 0 "name" Value.string?
    table := ← r.required 1 "table" Value.string?
    root := ← r.required 2 "root_type" Value.string?
    discriminator := ← r.optional 3 "discriminator" Value.string? }

/-- A condition. -/
def readCondition (v : Toml.Value) : Option WrittenCondition := do
  let r ← v.record?
  return {
    property := ← r.optional 0 "property" Value.string?
    column := ← r.optional 1 "column" Value.string?
    value := ← r.optional 2 "value" Value.withDates
    isNull := ← r.optional 3 "is_null" Value.bool? }

/-- An entity type. -/
def readType (v : Toml.Value) : Option WrittenType := do
  let r ← v.record?
  return {
    name := ← r.required 0 "name" Value.string?
    base := ← r.optional 1 "base" Value.string?
    properties := ← r.withDefault 2 "properties" (Value.list? Value.string?) []
    columns := ← r.withDefault 3 "columns" Value.strings? []
    conditions := ← r.withDefault 4 "condition" (Value.list? readCondition) [] }

/-- A whole document. -/
def readWritten (text : String) : Option Written := do
  let r := Record.named (← Toml.parse text)
  return {
    options := ← r.withDefault 0 "compiler" readOptions {}
    sets := ← r.withDefault 1 "entity_set" (Value.list? readSet) []
    types := ← r.withDefault 2 "entity_type" (Value.list? readType) [] }

/-! ## The drafted model -/

/-- The literal of a condition. -/
def literal : Toml.Value → Except Fault EntityQuery.Value
  | .string s => .ok (.string s)
  | .int n => .ok (.int n)
  | .bool b => .ok (.bool b)
  | other => .error (.config (.unsupportedValue other.standaloneText))

/-- The subject of a condition, which is a property or a column and not both. -/
def WrittenCondition.subject (c : WrittenCondition) (type : String) : Except Fault Subject :=
  match c.property, c.column with
  | some p, none => .ok (.property p none)
  | none, some column => .ok (.column column)
  | _, _ => .error (.model (.conditionMember type))

/-- The drafted condition. -/
def WrittenCondition.draft (c : WrittenCondition) (type : String) : Except Fault DraftCondition := do
  let subject ← c.subject type
  let value ← c.value.mapM literal
  (DraftCondition.make subject value c.isNull).mapError .model

/-- The drafted type. -/
def WrittenType.draft (t : WrittenType) : Except Fault (EntityType DraftCondition) := do
  let conditions ← t.conditions.mapM (·.draft t.name)
  let properties := t.properties.map fun name =>
    { name, column := (t.columns.lookup name).getD name }
  return { name := t.name, base := t.base, properties, conditions }

/-- The configuration that a TOML text describes. -/
def ofToml (text : String) : Except Fault Config :=
  match readWritten text with
  | none => .error .toml
  | some written => do
    let types ← written.types.mapM WrittenType.draft
    return { options := written.options, draft := { sets := written.sets, types } }

end Config

end EntityQuery
