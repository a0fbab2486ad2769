import LiveQuery.CommandLine.Usage

set_option autoImplicit false

namespace LiveQuery

inductive Command where
  /-- Write the statement that finds instances, and name what it leaves to follow-ups. -/
  | compile (node : String) (filter : Option String) (orderBy : List String)
      (selection : Option String) (first : Option Nat) (skip : Nat)
  /-- Write a reduced filter and all that it depends on. -/
  | dependencies (node filter : String)

/-- A command with the names of the files that it works on. -/
structure Invocation where
  schema : String
  config : Option String
  command : Command

namespace Usage

inductive Request where
  | help (topic : Topic)
  | version
  | run (invocation : Invocation)

/-- Options that were given, each with its value, and the last one while its value is not checked
yet or still to come. -/
structure Given where
  settled : List (String × String)
  pending : Option (Parameter × Option String)

namespace Given

def none : Given := ⟨[], .none⟩

/-- Adds the value of an option, which may be given once unless it is repeatable. -/
def add? (given : Given) (parameter : Parameter) (value : String) : Option Given := do
  guard (parameter.isRepeatable || (given.settled.lookup parameter.name).isNone)
  guard (parameter.accepts value)
  return { given with settled := given.settled ++ [(parameter.name, value)] }

/-- Checks the value of the last option. -/
def settle? (given : Given) : Option Given :=
  match given.pending with
  | .none => some given
  | some (_, .none) => Option.none
  | some (parameter, some value) => { given with pending := .none }.add? parameter value

def values (given : Given) (parameter : Parameter) : List String :=
  (given.settled.filter (·.1 = parameter.name)).map (·.2)

def value? (given : Given) (parameter : Parameter) : Option String :=
  (given.values parameter).head?

def count? (given : Given) (parameter : Parameter) : Option Nat := do
  (Text.readCount (← given.value? parameter)).toOption

end Given

/-- Where the words for a topic end. -/
inductive Ending where
  | help
  | version
  | command (topic : Topic) (rest : List String)
  | done

inductive Word where
  /-- Two dashes alone, behind which there are no options. -/
  | separator
  | long (name : String) (value : Option String)
  | short (first : Char)
  | plain (text : String)

/-- A single dash is a plain word. -/
def Word.ofString (word : String) : Word :=
  match word.toList with
  | ['-', '-'] => .separator
  | '-' :: '-' :: rest =>
    let name := String.ofList (rest.takeWhile (· ≠ '='))
    match rest.dropWhile (· ≠ '=') with
    | [] => .long name none
    | _ :: value => .long name (some (String.ofList value))
  | '-' :: c :: _ => .short c
  | _ => .plain word

/-- What a flag of the topic asks for, given by its name. -/
def flag? (topic : Topic) (name : String) : Option Ending :=
  if name = "help" then some .help
  else if topic = .program ∧ name = "version" then some .version
  else none

/-- The name of a flag that a letter is short for. -/
def flagName? : Char → Option String
  | 'h' => some "help"
  | 'V' => some "version"
  | _ => none

/-- An option, or a flag that takes no value. -/
def long? (topic : Topic) (given : Given) (name : String) (value : Option String) :
    Option (Given ⊕ Ending) := do
  match topic.parameters.find? (·.name = name), value with
  | some parameter, some value => return .inl (← (← given.settle?).add? parameter value)
  | some parameter, none =>
    return .inl { ← given.settle? with pending := some (parameter, none) }
  | none, some _ => none
  | none, none =>
    let ending ← flag? topic name
    let _ ← given.settle?
    return .inr ending

/-- Reads the words for a topic. The program's own words end at the name of a command, and there the
value of its last option is not looked at yet. -/
def read? (topic : Topic) : Given → List String → Option (Given × Ending)
  | given, [] => return (← given.settle?, .done)
  | given, word :: rest =>
    match given.pending, Word.ofString word with
    | some (parameter, none), .plain text =>
      read? topic { given with pending := some (parameter, some text) } rest
    | some (_, none), _ => none
    | _, .plain text => do
      guard (topic = .program)
      return (given, .command (← Topic.commands.lookup text) rest)
    | _, .separator => do
      guard rest.isEmpty
      return (← given.settle?, .done)
    | _, .short letter => do
      let ending ← flag? topic (← flagName? letter)
      return (← given.settle?, ending)
    | _, .long name value =>
      match long? topic given name value with
      | some (.inl given) => read? topic given rest
      | some (.inr ending) => some (given, ending)
      | none => none

/-- All words behind the command that asks for help have to be commands, one within the other. -/
def helpTopic? : List String → Option Topic
  | [] => some .program
  | [name] => Topic.commands.lookup name
  | _ => none

def command? (topic : Topic) (given : Given) : Option Command :=
  match topic with
  | .compile => do
    return .compile (← given.value? .node) (given.value? .filter) (given.values .orderBy)
      (given.value? .selection) (given.count? .first) ((given.count? .skip).getD 0)
  | .dependencies => do return .dependencies (← given.value? .node) (← given.value? .filter)
  | _ => none

/-- What the words of a command line ask for, unless they are misused. -/
def Request.ofWords? (words : List String) : Option Request := do
  match ← read? .program .none words with
  | (_, .help) => return .help .program
  | (_, .version) => return .version
  | (_, .done) => none
  | (_, .command .help rest) => return .help (← helpTopic? rest)
  | (given, .command topic rest) =>
    match ← read? topic .none rest with
    | (inner, .done) =>
      let command ← command? topic inner
      let given ← given.settle?
      return .run ⟨← given.value? .schema, given.value? .config, command⟩
    | _ => return .help topic

end Usage

end LiveQuery
