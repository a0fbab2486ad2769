import LiveQuery.Catalog.Document
import LiveQuery.CommandLine

set_option autoImplicit false

open LiveQuery

def readSettings (config : Option String) : IO (Except SettingsError Settings) := do
  match config with
  | some file => return Settings.ofYaml (← IO.FS.readFile file)
  | none =>
    return Settings.ofVariables (← IO.getEnv Settings.stagedVariable)
      (← IO.getEnv Settings.limitVariable)

def readCatalog (schema : String) : IO (Except CatalogError Catalog) := do
  return Catalog.ofYaml (← IO.FS.readFile schema)

def report (error : CommandError) : IO Unit := do
  IO.eprintln ("Error: " ++ error.message)
  if let some cause := error.cause? then
    IO.eprintln ("\nCaused by:\n    " ++ cause)

def main (words : List String) : IO UInt32 := do
  match Usage.Request.ofWords? words with
  | none =>
    IO.eprint (Usage.Topic.helpText .program)
    return 2
  | some (.help topic) =>
    IO.print topic.helpText
    return 0
  | some .version =>
    IO.print Usage.versionText
    return 0
  | some (.run invocation) =>
    let settings ← readSettings invocation.config
    let catalog ← readCatalog invocation.schema
    match invocation.run settings catalog with
    | .ok text =>
      IO.print text
      return 0
    | .error error =>
      report error
      return 1
