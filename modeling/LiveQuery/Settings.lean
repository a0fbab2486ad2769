import LiveQuery.Document
import LiveQuery.Text.Digits
import LiveQuery.Yaml

set_option autoImplicit false

namespace LiveQuery

structure Settings where
  /-- Filter, sort and cut the listed instances first, and join what is selected to the result. -/
  staged : Bool
  /-- The greatest number of instances that may be asked for at once. -/
  maxLimit : Nat
  deriving DecidableEq

inductive SettingsError where
  | flag (name text : String)
  | count (name text : String) (fault : Text.CountFault)
  | unreadable (text : String)
  | limitOutOfRange
  deriving DecidableEq

namespace SettingsError

def message : SettingsError → String
  | flag name text =>
    s!"Invalid {name} `{text}`: provided string was not `true` or `false`"
  | count name text fault => s!"Invalid {name} `{text}`: {fault.message}"
  | unreadable text => s!"Invalid config YAML `{text}`: not a document of settings"
  | limitOutOfRange =>
    "Invalid engine configuration: max_limit: Max limit must be between 1 and 100000"

end SettingsError

namespace Settings

def standard : Settings := ⟨false, 1000⟩

def check (settings : Settings) : Except SettingsError Settings :=
  if 1 ≤ settings.maxLimit ∧ settings.maxLimit ≤ 100000 then .ok settings
  else .error .limitOutOfRange

def stagedVariable : String := "NODEGRAPH_USE_CTE"

def limitVariable : String := "NODEGRAPH_MAX_LIMIT"

def readFlag (text : String) : Except SettingsError Bool :=
  match text with
  | "true" => .ok true
  | "false" => .ok false
  | text => .error (.flag stagedVariable text)

def readLimit (text : String) : Except SettingsError Nat :=
  match Text.readCount text with
  | .ok count => .ok count
  | .error fault => .error (.count limitVariable text fault)

/-- Settings from the texts of two variables, where these are set. -/
def ofVariables (staged maxLimit : Option String) : Except SettingsError Settings := do
  let staged ←
    match staged with
    | some text => readFlag text
    | none => pure standard.staged
  let maxLimit ←
    match maxLimit with
    | some text => readLimit text
    | none => pure standard.maxLimit
  check ⟨staged, maxLimit⟩

/-- Other keys are left alone. -/
def read (place : Yaml.Place) : Yaml.Reading Settings := do
  let fields ← Document.fields ["use_common_table_expression", "max_limit"] place
  return {
    staged := ← Document.fieldOr fields "use_common_table_expression" standard.staged Document.flag
    maxLimit := ← Document.fieldOr fields "max_limit" standard.maxLimit Yaml.Place.count }

/-- Settings from the text of a document. -/
def ofYaml (text : String) : Except SettingsError Settings :=
  match (Yaml.Page.ofText? text).bind (·.decode? read) with
  | some settings => check settings
  | none => .error (.unreadable text)

end Settings

end LiveQuery
