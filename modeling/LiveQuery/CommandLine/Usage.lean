import LiveQuery.Text.Digits

set_option autoImplicit false

namespace LiveQuery

/-- What the value of a parameter has to be. -/
inductive ParameterKind where
  | text
  | file
  | count
  deriving DecidableEq

/-- An option with a value. -/
structure Parameter where
  name : String
  placeholder : String
  help : String
  kind : ParameterKind
  isRequired : Bool
  /-- Whether it may be given more than once. -/
  isRepeatable : Bool

namespace Parameter

def accepts (parameter : Parameter) (value : String) : Bool :=
  match parameter.kind with
  | .text => true
  | .file => !value.isEmpty
  | .count => (Text.readCount value).toOption.isSome

def usage (parameter : Parameter) : String :=
  "--" ++ parameter.name ++ " <" ++ parameter.placeholder ++ ">"

def schema : Parameter := ⟨"schema", "SCHEMA", "YAML node schema", .file, true, false⟩

def config : Parameter :=
  ⟨"config", "CONFIG",
    "Optional YAML engine configuration; environment variables are used otherwise",
    .file, false, false⟩

def node : Parameter := ⟨"node", "NODE", "", .text, true, false⟩

def filter : Parameter := ⟨"where", "FILTER", "Where-input as JSON", .text, false, false⟩

def orderBy : Parameter :=
  ⟨"order-by", "ORDER_BY", "Sort keys such as `views_DESC`, repeatable", .text, false, true⟩

def selection : Parameter :=
  ⟨"select", "SELECT", "Selection-input as JSON; defaults to the identifier", .text, false, false⟩

def first : Parameter := ⟨"first", "FIRST", "", .count, false, false⟩

def skip : Parameter := ⟨"skip", "SKIP", "[default: 0]", .count, false, false⟩

end Parameter

namespace Usage

def programName : String := "nodegraph"

def programVersion : String := "0.3.1-dev"

def versionText : String := programName ++ " " ++ programVersion ++ "\n"

/-- What the words of a command line are about: the program, or one of its commands. -/
inductive Topic where
  | program
  | compile
  | dependencies
  | help
  deriving DecidableEq

namespace Topic

/-- The commands by their names. -/
def commands : List (String × Topic) :=
  [("compile", .compile), ("dependencies", .dependencies), ("help", .help)]

def about : Topic → String
  | .program => programName ++ " - compile node statements into MariaDB SQL"
  | .compile => "Print the find statement for a node, plus its deferred fetches"
  | .dependencies => "Print the reduced filter and its dependency graph"
  | .help => "Print this message or the help of the given subcommand(s)"

def parameters : Topic → List Parameter
  | .program => [.schema, .config]
  | .compile => [.node, .filter, .orderBy, .selection, .first, .skip]
  | .dependencies => [.node, { Parameter.filter with help := "", isRequired := true }]
  | .help => []

/-- The words that lead to a topic, without the options that are not needed. -/
def path : Topic → List String
  | .program => [programName]
  | .compile => [programName, Parameter.schema.usage, "compile"]
  | .dependencies => [programName, Parameter.schema.usage, "dependencies"]
  | .help => [programName, Parameter.schema.usage, "help"]

/-- What follows the options. -/
def operands : Topic → List String
  | .program => ["<COMMAND>"]
  | .help => ["[COMMAND]..."]
  | _ => []

def usageLine (topic : Topic) : String :=
  let required := (topic.parameters.filter (·.isRequired)).map Parameter.usage
  let optional := if topic.parameters.all (·.isRequired) then [] else ["[OPTIONS]"]
  "Usage: " ++ " ".intercalate (topic.path ++ optional ++ required ++ topic.operands)

/-- Two columns, the first as wide as its longest entry. -/
def table (rows : List (String × String)) : String :=
  let width := rows.foldl (fun width row => max width row.1.length) 0
  String.join (rows.map fun (entry, remark) =>
    entry ++ String.ofList (List.replicate (width - entry.length + 2) ' ') ++ remark ++ "\n")

def flags : Topic → List (String × String)
  | .program => [("  -h, --help", "Print help"), ("  -V, --version", "Print version")]
  | .help => []
  | _ => [("  -h, --help", "Print help")]

def optionRows (topic : Topic) : List (String × String) :=
  topic.parameters.map (fun parameter => ("      " ++ parameter.usage, parameter.help)) ++
    topic.flags

def sections : Topic → List (String × List (String × String))
  | .program =>
    [("Commands", commands.map fun (name, topic) => ("  " ++ name, topic.about)),
      ("Options", optionRows .program)]
  | .help => [("Arguments", [("  [COMMAND]...", "Print help for the subcommand(s)")])]
  | topic => [("Options", topic.optionRows)]

def helpText (topic : Topic) : String :=
  topic.about ++ "\n\n" ++ topic.usageLine ++ "\n" ++
    String.join (topic.sections.map fun (title, rows) => "\n" ++ title ++ ":\n" ++ table rows)

end Topic

end Usage

end LiveQuery
