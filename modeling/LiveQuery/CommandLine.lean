import LiveQuery.CommandLine.Request
import LiveQuery.Filter.Dependencies
import LiveQuery.Filter.Input
import LiveQuery.Json.Reader
import LiveQuery.Selection.Identifier
import LiveQuery.Selection.Input
import LiveQuery.Sql.Reading

set_option autoImplicit false

namespace LiveQuery

/-- Why a command fails. -/
inductive CommandError where
  | settings (error : SettingsError)
  | schema (file : String) (cause : CatalogError)
  | invalidJson (option : String)
  | sql (error : Sql.Error)

namespace CommandError

def message : CommandError → String
  | settings error => error.message
  | schema file _ => s!"loading schema {file}"
  | invalidJson option => s!"--{option} is not valid JSON"
  | sql error => error.message

/-- What lies behind an error whose message does not tell. -/
def cause? : CommandError → Option String
  | schema _ cause => some cause.message
  | _ => none

end CommandError

instance : MonadLift (Except Sql.Error) (Except CommandError) where
  monadLift
    | .ok value => .ok value
    | .error error => .error (.sql error)

namespace Command

def readJson (option text : String) : Except CommandError Json :=
  match Json.read? .stepwise text with
  | some json => .ok json
  | none => .error (.invalidJson option)

def readFilter (catalog : Catalog) (node : Node) (text : String) :
    Except CommandError Filter := do
  let json ← readJson "where" text
  liftM (m := Except Sql.Error) (liftM (Filter.parse catalog node json))

def readOrder (node : Node) (items : List String) :
    Except CommandError (Option SortOrder) :=
  if items.isEmpty then .ok none
  else return some (← liftM (m := Except Sql.Error) (liftM (SortOrder.parse node items)))

/-- Nothing but the identifier is selected by default. -/
def readSelection (catalog : Catalog) (node : Node) (text : Option String) :
    Except CommandError Selection := do
  match text with
  | some text =>
    let json ← readJson "select" text
    liftM (m := Except Sql.Error) (liftM (Selection.parse catalog node json))
  | none => liftM (m := Except Sql.Error) (liftM (Selection.identifier catalog node))

def followupText (followup : Followup) : String :=
  let path := ".".intercalate followup.path
  s!"\n-- deferred {path} ({followup.window.limit} per parent)\n" ++
    SelectionField.textAll followup.head ++ "\n"

/-- The answer to a command. -/
def run (catalog : Catalog) (settings : Settings) : Command → Except CommandError String
  | .compile name filter orderBy selection first skip => do
    let node ← liftM (m := Except Sql.Error) (catalog.node name)
    let filter ← filter.mapM (readFilter catalog node)
    let ordering ← readOrder node orderBy
    let selection ← readSelection catalog node selection
    let query ← liftM (Sql.find catalog settings selection ⟨filter, ordering, skip, first⟩)
    return query.text ++ ";\n" ++ String.join (selection.followups.map followupText)
  | .dependencies name filter => do
    let node ← liftM (m := Except Sql.Error) (catalog.node name)
    let reduced := (← readFilter catalog node filter).reduced
    return reduced.text ++ "\n\n" ++ reduced.dependencies.text

end Command

/-- The answer to an invocation, given what its files hold. The settings are looked at first. -/
def Invocation.run (invocation : Invocation) (settings : Except SettingsError Settings)
    (catalog : Except CatalogError Catalog) : Except CommandError String := do
  match settings, catalog with
  | .error error, _ => .error (.settings error)
  | .ok _, .error error => .error (.schema invocation.schema error)
  | .ok settings, .ok catalog => invocation.command.run catalog settings

end LiveQuery
