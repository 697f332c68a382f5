/-
# Help texts

The texts are made for a terminal, with the names of options in bold, and printed as a terminal
without any looks would show them.
-/
import EntityQuery.CommandLine.Arguments
import EntityQuery.Text.Terminal

namespace EntityQuery.CommandLine

/-- The name of the program. -/
def programName : String := "liftql"

/-- The line that gives the version of the program. -/
def versionText : String := programName ++ " 0.1.0\n"

/-- The variable that names the configuration file. -/
def configVariable : String := "LIFTQL_CONFIG"

/-- The configuration file looked for in the working directory. -/
def localConfig : String := "liftql.toml"

/-- The names of an option: its letter, if it has one, and its long name. -/
def optionNames (letter : Option String) (name : String) : String :=
  let front := match letter with
    | some l => Text.Terminal.bold ("-" ++ l) ++ ", "
    | none => "    "
  front ++ Text.Terminal.bold ("--" ++ name)

/-- The space in front of the help on an option. -/
def optionIndent : String := "          "

/-- Text with the space of option help in front of every line but the first. -/
def indented (help : String) : String :=
  String.ofList (help.toList.flatMap fun c => if c = '\n' then '\n' :: optionIndent.toList else [c])

/-- The help on an option. -/
def optionHelp (heading help : String) : String :=
  "  " ++ heading ++ "\n" ++ optionIndent ++ indented help ++ "\n"

/-- The help on the options of every command; `setting` is the value of the variable that names
the configuration file, and `own` is the help on options between the first and the others. -/
def sharedHelp (setting own : String) : String :=
  optionHelp (optionNames (some "c") "config" ++ " <CONFIG>")
    ("Model and compiler options (defaults to ./liftql.toml, then the user config dir) [env: "
      ++ configVariable ++ "=" ++ setting ++ "]")
  ++ own
  ++ optionHelp (optionNames none "null-semantics" ++ " <NULL_SEMANTICS>")
    "Override the configured null comparison mode [possible values: clr, native]"
  ++ optionHelp (optionNames none "shaping" ++ " <SHAPING>")
    "Override the configured conditional shaping [possible values: uniform, subtype-only]"
  ++ optionHelp (optionNames (some "v") "verbose") "Log every rewrite rule that fires"
  ++ optionHelp (optionNames (some "h") "help") "Print help"

/-- Lines of text, each with its line end. -/
def textLines (ls : List String) : String :=
  String.join (ls.map (· ++ "\n"))

/-- The help on the program. -/
def programHelp (setting : String) : String :=
  textLines
    ["Sort-lifting query compiler",
     "",
     "Usage: liftql [OPTIONS] <COMMAND>",
     "",
     "Commands:",
     "  compile  Compile a pipeline to SQL",
     "  explain  Show the parsed tree, the rewritten tree and the SQL",
     "  check    Validate the model and list its entity sets",
     "  help     Print this message or the help of the given subcommand(s)",
     "",
     "Options:"]
  ++ sharedHelp setting "" ++ optionHelp (optionNames (some "V") "version") "Print version"
  ++ textLines
    ["",
     "EXAMPLES:",
     "    liftql compile 'Owners | order FirstName desc, Id | take 10'",
     "    liftql compile 'Owners | where Alias <> null' --null-semantics native",
     "    liftql explain 'Configs | order Id | skip 5 | oftype ArubaMachineConfig'"]

/-- The help on a command. -/
def commandHelp (setting : String) : CommandName → String
  | .compile =>
    textLines
      ["Compile a pipeline to SQL",
       "",
       "Usage: liftql compile [OPTIONS] <PIPELINE>",
       "",
       "Arguments:",
       "  <PIPELINE>  The pipeline, e.g. \"Owners | order Id | take 10\"",
       "",
       "Options:"]
    ++ sharedHelp setting ""
  | .explain =>
    textLines
      ["Show the parsed tree, the rewritten tree and the SQL",
       "",
       "Usage: liftql explain [OPTIONS] <PIPELINE>",
       "",
       "Arguments:",
       "  <PIPELINE>  ",
       "",
       "Options:"]
    ++ sharedHelp setting
      (optionHelp (optionNames (some "f") "format" ++ " <FORMAT>")
        "[default: text] [possible values: text, json]")
  | .check =>
    textLines
      ["Validate the model and list its entity sets",
       "",
       "Usage: liftql check [OPTIONS]",
       "",
       "Options:"]
    ++ sharedHelp setting ""

/-- The help on the request for help. -/
def helpHelp : String :=
  textLines
    ["Print this message or the help of the given subcommand(s)",
     "",
     "Usage: liftql help [COMMAND]...",
     "",
     "Arguments:",
     "  [COMMAND]...  Print help for the subcommand(s)"]

/-- The help on a topic, made for a terminal. -/
def helpFor (setting : String) : Topic → String
  | .program => programHelp setting
  | .command name => commandHelp setting name
  | .help => helpHelp

/-- The help on a topic. -/
def helpText (setting : String) (topic : Topic) : String :=
  Text.Terminal.plain (helpFor setting topic)

/-- What is printed when the arguments do not fit. -/
def usageText : String :=
  textLines
    ["error: the arguments do not fit",
     "",
     "Usage: liftql [OPTIONS] <COMMAND>",
     "",
     "For more information, try '--help'."]

end EntityQuery.CommandLine
