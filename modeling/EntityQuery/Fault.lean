/-
# Faults

Everything that can go wrong between pipeline text and SQL, as causes.  The wording stands in
the `message` functions alone.
-/
import EntityQuery.Text.Quoted

namespace EntityQuery

/-- What a reader met where it could not go on. -/
inductive ReadFault where
  /-- No rule fits the rest of the text. -/
  | unexpected (rest : String)
  /-- The text was read, but something is left over. -/
  | trailing (rest : String)
  /-- The text ends too early. -/
  | ended
deriving DecidableEq, Repr

/-- What is wrong with an entity model. -/
inductive ModelFault where
  | overspecifiedCondition (member : String)
  | underspecifiedCondition (member : String)
  | conditionMember (type : String)
  | reboundColumn (bound requested : String)
  | unmappedProperty (property : String)
  | duplicateType (type : String)
  | unknownBase (type base : String)
  | cyclicBase (type : String)
  | unknownRoot (set root : String)
  | duplicateSet (set : String)
deriving DecidableEq, Repr

/-- Why a type filter has no meaning. -/
inductive TypeFault where
  | afterProjection
  | unknownType
  | outsideHierarchy (root set : String)
  | noCondition
  | unrelated (inner : String)
deriving DecidableEq, Repr

/-- A plan whose shape no later stage can handle. -/
inductive ShapeFault where
  | skipInput (kind : String)
  | takeInput (kind : String)
  | emittedSkip (kind : String)
  | emittedTake (kind : String)
  | emittedType (subtype : String)
deriving DecidableEq, Repr

/-- What is wrong with a configuration file, apart from its syntax. -/
inductive ConfigFault where
  | unreadable (path reason : String)
  | unsupportedValue (value : String)
deriving DecidableEq, Repr

/-- The two operators that cut by position. -/
inductive Truncation where
  | skip
  | take
deriving DecidableEq, Repr

/-- A failure of reading, configuring or compiling. -/
inductive Fault where
  /-- Pipeline text that is not well formed, with the byte offset of the fault. -/
  | malformed (position : Nat) (cause : ReadFault)
  | model (cause : ModelFault)
  | unknownRelation (name : String)
  | unresolvedType (subtype : String) (cause : TypeFault)
  | unordered (operator : Truncation)
  | shape (cause : ShapeFault)
  | config (cause : ConfigFault)
  /-- Configuration text that is not TOML or not of the expected form. -/
  | toml
deriving DecidableEq, Repr

/-- Text between apostrophes. -/
def inQuotes (s : String) : String := "'" ++ s ++ "'"

/-- The wording of a reading fault. -/
def ReadFault.message : ReadFault → String
  | unexpected rest => "Unexpected input: " ++ inQuotes rest
  | trailing rest => "Unexpected trailing content: " ++ inQuotes rest
  | ended => "Unexpected end of input"

/-- The wording of a model fault. -/
def ModelFault.message : ModelFault → String
  | overspecifiedCondition m => "condition on " ++ inQuotes m ++ " specifies both a value and a null test"
  | underspecifiedCondition m => "condition on " ++ inQuotes m ++ " needs either a value or a null test"
  | conditionMember t => "condition on type " ++ inQuotes t ++ " must name exactly one of property or column"
  | reboundColumn b r => "condition column already bound to " ++ inQuotes b ++ ", cannot rebind to " ++ inQuotes r
  | unmappedProperty p => "condition property " ++ inQuotes p ++ " maps to no column"
  | duplicateType t => "duplicate entity type " ++ inQuotes t
  | unknownBase t b => "entity type " ++ inQuotes t ++ " derives from unknown type " ++ inQuotes b
  | cyclicBase t => "entity type " ++ inQuotes t ++ " has a cyclic base chain"
  | unknownRoot s r => "entity set " ++ inQuotes s ++ " uses unknown root type " ++ inQuotes r
  | duplicateSet s => "duplicate entity set " ++ inQuotes s

/-- The wording of a type fault. -/
def TypeFault.message : TypeFault → String
  | afterProjection => "cannot filter by type after a projection"
  | unknownType => "unknown entity type"
  | outsideHierarchy root set =>
    "not part of the " ++ inQuotes root ++ " hierarchy of entity set " ++ inQuotes set
  | noCondition => "no discriminator condition is mapped"
  | unrelated inner => "unrelated to the earlier type filter " ++ inQuotes inner

/-- The wording of a shape fault. -/
def ShapeFault.message : ShapeFault → String
  | skipInput kind => "skip input is " ++ kind ++ " after rewriting, expected Sort"
  | takeInput kind => "take input is " ++ kind ++ " after rewriting, expected Sort or Skip over Sort"
  | emittedSkip kind => "skip over " ++ kind ++ " reached the emitter"
  | emittedTake kind => "take over " ++ kind ++ " reached the emitter"
  | emittedType subtype => "type filter for " ++ inQuotes subtype ++ " reached the emitter unresolved"

/-- The wording of a configuration fault. -/
def ConfigFault.message : ConfigFault → String
  | unreadable path reason => "cannot read " ++ path ++ ": " ++ reason
  | unsupportedValue value => "unsupported condition value " ++ inQuotes value

/-- The name of a truncating operator. -/
def Truncation.name : Truncation → String
  | skip => "Skip"
  | take => "Take"

/-- The wording of a fault. -/
def Fault.message : Fault → String
  | malformed position cause => "Parse error at position " ++ toString position ++ ": " ++ cause.message
  | model cause => "Metadata error: " ++ cause.message
  | unknownRelation name => "Unknown relation: " ++ inQuotes name
  | unresolvedType subtype cause => "Cannot resolve type " ++ inQuotes subtype ++ ": " ++ cause.message
  | unordered operator => operator.name ++ " requires ordered input; add a sort below it"
  | shape cause => "Internal compiler error: " ++ cause.message
  | config cause => "Configuration error: " ++ cause.message
  | toml => "TOML error: the document is malformed or not of the expected form"

end EntityQuery
