/-
# Command line arguments

The arguments name a command and options.  Options may stand before and behind the command and hold
for the whole invocation; behind the command they win.  Within one of the two places an option is
given at most once.  Help and version are answered where they are met, whatever follows.

Arguments are read from left to right by `Scan.step`; the arguments are refused at the first one
that does not fit.  An option whose value is an argument of its own is checked late: when the next
option or plain argument of the same place is read, or at the end, and then behind the command
first.  Help asked for behind a command is so answered before the last option in front of it is
checked.
-/
import EntityQuery.Nulls
import EntityQuery.TypeFilter.Resolve

namespace EntityQuery.CommandLine

/-- The form in which an explanation is printed. -/
inductive Format where
  | text
  | json
deriving DecidableEq, Repr, Inhabited

/-- The names of the commands. -/
inductive CommandName where
  | compile
  | explain
  | check
deriving DecidableEq, Repr, Inhabited

/-- A command with its arguments. -/
inductive Command where
  | compile (pipeline : String)
  | explain (pipeline : String) (format : Format)
  | check
deriving DecidableEq, Repr, Inhabited

/-- What help can be asked for. -/
inductive Topic where
  | program
  | command (name : CommandName)
  /-- The request for help itself. -/
  | help
deriving DecidableEq, Repr, Inhabited

/-- Why no command is run. -/
inductive Stop where
  /-- The arguments do not fit. -/
  | refused
  | version
  /-- Help is asked for. -/
  | help (topic : Topic)
deriving DecidableEq, Repr, Inhabited

/-- The options with a value. -/
inductive ValueOption where
  | config
  | nulls
  | shaping
  | format
deriving DecidableEq, Repr, Inhabited

/-- The options and arguments given in one place. -/
structure Given where
  config : Option String := none
  nulls : Option NullMode := none
  shaping : Option Shaping := none
  format : Option Format := none
  verbose : Bool := false
  pipeline : Option String := none
deriving DecidableEq, Repr, Inhabited

/-- What is asked of the program. -/
structure Invocation where
  config : Option String
  /-- Whether the configuration file is left open before the command or behind it. -/
  configOpen : Bool
  nulls : Option NullMode
  shaping : Option Shaping
  verbose : Bool
  command : Command
deriving DecidableEq, Repr, Inhabited

/-! ## Names -/

/-- The command of a name. -/
def commandNamed : String → Option CommandName
  | "compile" => some .compile
  | "explain" => some .explain
  | "check" => some .check
  | _ => none

/-- The topic of help of a name. -/
def topicNamed (name : String) : Option Topic :=
  if name = "help" then some .help else (commandNamed name).map .command

/-- Where an argument is read. -/
inductive Place where
  /-- Before the command. -/
  | front
  /-- Behind the command. -/
  | behind (command : CommandName)
  /-- Behind the request for help. -/
  | helping (topic : Topic)
deriving DecidableEq, Repr, Inhabited

/-- An option known at a place. -/
inductive Known where
  | valued (option : ValueOption)
  | verbose
  | help
  | version
deriving DecidableEq, Repr, Inhabited

/-- The options of every place, by their long names and letters. -/
def sharedOptions : List (String × Option Char × Known) :=
  [("config", some 'c', .valued .config), ("null-semantics", none, .valued .nulls),
   ("shaping", none, .valued .shaping), ("verbose", some 'v', .verbose), ("help", some 'h', .help)]

/-- The options of a place, by their long names and letters. -/
def optionsAt : Place → List (String × Option Char × Known)
  | .front => sharedOptions ++ [("version", some 'V', .version)]
  | .behind .explain => sharedOptions ++ [("format", some 'f', .valued .format)]
  | .behind _ => sharedOptions
  | .helping _ => []

/-- The option of a long name. -/
def longOption (place : Place) (name : String) : Option Known :=
  ((optionsAt place).find? (·.1 = name)).map (·.2.2)

/-- The option of a letter. -/
def letterOption (place : Place) (letter : Char) : Option Known :=
  ((optionsAt place).find? (·.2.1 = some letter)).map (·.2.2)

/-- A null mode. -/
def nullModeNamed : String → Option NullMode
  | "clr" => some .host
  | "native" => some .native
  | _ => none

/-- A shaping. -/
def shapingNamed : String → Option Shaping
  | "uniform" => some .uniform
  | "subtype-only" => some .subtypeOnly
  | _ => none

/-- A format. -/
def formatNamed : String → Option Format
  | "text" => some .text
  | "json" => some .json
  | _ => none

/-! ## Scanning -/

/-- The options with another one set; refused when it is set already or has no such value. -/
def Given.set (given : Given) (option : ValueOption) (value : String) : Option Given :=
  match option with
  | .config =>
    if given.config.isSome || value.isEmpty then none else some { given with config := some value }
  | .nulls =>
    if given.nulls.isSome then none
    else (nullModeNamed value).map fun mode => { given with nulls := some mode }
  | .shaping =>
    if given.shaping.isSome then none
    else (shapingNamed value).map fun s => { given with shaping := some s }
  | .format =>
    if given.format.isSome then none
    else (formatNamed value).map fun f => { given with format := some f }

/-- The options read at one place, of which the last one may still have to be checked. -/
structure Level where
  given : Given := {}
  /-- The option to check, and its value once that is read. -/
  waiting : Option (ValueOption × Option String) := none
deriving Inhabited

/-- The options of a place with the last one checked; it needs a value. -/
def Level.settle (level : Level) : Option Given :=
  match level.waiting with
  | none => some level.given
  | some (option, some value) => level.given.set option value
  | some (_, none) => none

/-- The option whose value comes next. -/
def Level.asking? (level : Level) : Option ValueOption :=
  match level.waiting with
  | some (option, none) => some option
  | _ => none

/-- How far the arguments are read. -/
structure Scan where
  place : Place := .front
  /-- What was read before the command. -/
  front : Level := {}
  /-- What was read at the current place. -/
  here : Level := {}
  /-- Whether the end of the options was marked. -/
  plainOnly : Bool := false
deriving Inhabited

namespace Scan

/-- Refuses the arguments unless a result is there. -/
def orRefused {α : Type} : Option α → Except Stop α
  | some a => .ok a
  | none => .error .refused

/-- The scan with another option checked and set, or refused. -/
def change (scan : Scan) (set : Given → Option Given) : Except Stop Scan := do
  let given ← orRefused (scan.here.settle.bind set)
  return { scan with here := { given } }

/-- The scan with an option that waits for its value. -/
def await (scan : Scan) (option : ValueOption) : Except Stop Scan := do
  let given ← orRefused scan.here.settle
  return { scan with here := { given, waiting := some (option, none) } }

/-- Stops, unless the option before does not fit. -/
def stop (scan : Scan) (reason : Stop) : Except Stop Scan := do
  let _ ← orRefused scan.here.settle
  throw reason

/-- The options with the verbose one set, which is possible once. -/
def setVerbose (given : Given) : Option Given :=
  if given.verbose then none else some { given with verbose := true }

/-- The help asked for at a place. -/
def helpAt : Place → Stop
  | .front => .help .program
  | .behind command => .help (.command command)
  | .helping topic => .help topic

/-- An option with a long name, and the value behind an equals sign. -/
def longArgument (scan : Scan) (name : String) (value : Option String) : Except Stop Scan :=
  match longOption scan.place name, value with
  | some (.valued option), some v => scan.change (·.set option v)
  | some (.valued option), none => scan.await option
  | some .verbose, none => scan.change setVerbose
  | some .help, none => scan.stop (helpAt scan.place)
  | some .version, none => scan.stop .version
  | _, _ => .error .refused

/-- A group of letters behind one dash; a letter that takes a value takes the rest of the group,
or the next argument. -/
def letters (scan : Scan) : List Char → Except Stop Scan
  | [] => .ok scan
  | letter :: rest =>
    match letterOption scan.place letter with
    | some (.valued option) =>
      match rest with
      | [] => scan.await option
      | '=' :: value => scan.change (·.set option (String.ofList value))
      | value => scan.change (·.set option (String.ofList value))
    | some .verbose => do letters (← scan.change setVerbose) rest
    | some .help => scan.stop (helpAt scan.place)
    | some .version => scan.stop .version
    | none => .error .refused

/-- The options with the pipeline set, which is possible once. -/
def setPipeline (pipeline : String) (given : Given) : Option Given :=
  if given.pipeline.isSome then none else some { given with pipeline := some pipeline }

/-- An argument that is no option: the command, the pipeline, or the topic of help. -/
def plainArgument (scan : Scan) (argument : String) : Except Stop Scan :=
  match scan.place with
  | .front =>
    if scan.plainOnly then .error .refused
    else if argument = "help" then .ok { scan with place := .helping .program }
    else do
      let command ← orRefused (commandNamed argument)
      return { place := .behind command, front := scan.here }
  | .behind .check => .error .refused
  | .behind _ => scan.change (setPipeline argument)
  | .helping .program => do
    let topic ← orRefused (topicNamed argument)
    return { scan with place := .helping topic }
  | .helping _ => .error .refused

/-- A long name and the value behind the first equals sign. -/
def splitValue (cs : List Char) : String × Option String :=
  let name := String.ofList (cs.takeWhile (· ≠ '='))
  match cs.dropWhile (· ≠ '=') with
  | [] => (name, none)
  | _ :: value => (name, some (String.ofList value))

/-- Whether every argument that follows is plain, whatever it looks like. -/
def allPlain (scan : Scan) : Bool :=
  match scan.place with
  | .helping _ => true
  | _ => scan.plainOnly

/-- The scan after one more argument.  An argument that looks like an option is no value. -/
def step (scan : Scan) (argument : String) : Except Stop Scan :=
  if scan.allPlain then scan.plainArgument argument
  else match argument.toList, scan.here.asking? with
    | ['-', '-'], _ => .ok { scan with plainOnly := true }
    | '-' :: '-' :: cs, _ =>
      let (name, value) := splitValue cs
      scan.longArgument name value
    | '-' :: c :: cs, _ => scan.letters (c :: cs)
    | _, some option =>
      .ok { scan with here := { scan.here with waiting := some (option, some argument) } }
    | _, none => scan.plainArgument argument

/-- The command that was named, with its arguments. -/
def commandOf (name : CommandName) (given : Given) : Option Command :=
  match name, given.pipeline with
  | .check, _ => some .check
  | .compile, some pipeline => some (.compile pipeline)
  | .explain, some pipeline => some (.explain pipeline (given.format.getD .text))
  | _, none => none

/-- What the arguments ask for, once all are read. -/
def finish (scan : Scan) : Except Stop Invocation :=
  match scan.place with
  | .front => .error .refused
  | .helping topic => .error (.help topic)
  | .behind name => do
    let here ← orRefused scan.here.settle
    let command ← orRefused (commandOf name here)
    let front ← orRefused scan.front.settle
    return {
      config := here.config <|> front.config
      configOpen := here.config.isNone || front.config.isNone
      nulls := here.nulls <|> front.nulls
      shaping := here.shaping <|> front.shaping
      verbose := here.verbose || front.verbose
      command }

end Scan

/-- What the arguments of the program ask for. -/
def Invocation.ofArguments (arguments : List String) : Except Stop Invocation := do
  let scan ← arguments.foldlM Scan.step {}
  scan.finish

end EntityQuery.CommandLine
