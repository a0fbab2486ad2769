import LiveQuery.Catalog.Definition
import LiveQuery.Yaml

set_option autoImplicit false

namespace LiveQuery

open Document (field? required fieldOr listOf)

def LeafType.ofName? : String → Option LeafType
  | "boolean" => some .boolean
  | "int" => some .int
  | "float" => some .float
  | "string" => some .string
  | "uuid" => some .uuid
  | "datetime" | "date_time" => some .instant
  | _ => none

def LeafType.names : List String := ["boolean", "int", "float", "string", "uuid", "datetime"]

def LeafType.ofContent? (content : Content) : Option LeafType := do
  LeafType.ofName? (← content.choice? LeafType.names)

def LeafDefinition.ofContent? (content : Content) : Option LeafDefinition := do
  let fields ← content.fields? ["name", "type", "column", "nullable"]
  return {
    name := ← required fields "name" Content.text?
    type := ← required fields "type" LeafType.ofContent?
    column := ← fieldOr fields "column" none (Content.optional? Content.text?)
    nullable := ← fieldOr fields "nullable" false Content.flag? }

/-- Only texts are names of leaves and columns. -/
def columnsOfContent? : Content → Option (Entries String)
  | .map entries => do
    let columns ← entries.mapM fun (leaf, column) => return (← leaf.text?, ← column.text?)
    return Entries.ofList columns
  | _ => none

def EdgeDefinition.ofContent? (content : Content) : Option EdgeDefinition := do
  let fields ← content.fields? ["name", "head", "nullable", "columns"]
  return {
    name := ← required fields "name" Content.text?
    head := ← required fields "head" Content.text?
    nullable := ← fieldOr fields "nullable" false Content.flag?
    columns := ← fieldOr fields "columns" [] columnsOfContent? }

/-- The kind tells leaves from edges. -/
def ComponentDefinition.ofContent? (kind : String) (content : Content) :
    Option ComponentDefinition := do
  match kind with
  | "leaf" => return .leaf (← LeafDefinition.ofContent? content)
  | "edge" => return .edge (← EdgeDefinition.ofContent? content)
  | _ => none

section

variable {δ : Type} {m : Type → Type} [Monad m] [MonadExceptOf Unit m] [Document δ m]

/-- Within components nothing is taken for a text that does not look like one. -/
def ComponentDefinition.read (place : δ) : m ComponentDefinition := do
  let (kind, content) ← Document.tagged "kind" place
  match ComponentDefinition.ofContent? kind content with
  | some definition => return definition
  | none => throw ()

def UniqueConstraintDefinition.read (place : δ) : m UniqueConstraintDefinition := do
  let fields ← Document.fields ["name", "components", "identifier"] place
  return {
    name := ← fieldOr fields "name" none (Document.optional Document.text)
    components := ← required fields "components" (listOf Document.text)
    isIdentifier := ← fieldOr fields "identifier" false Document.flag }

def ReverseEdgeDefinition.read (place : δ) : m ReverseEdgeDefinition := do
  let fields ← Document.fields ["name", "edge"] place
  return {
    name := ← required fields "name" Document.text
    edge := ← required fields "edge" Document.text }

def NodeDefinition.read (place : δ) : m NodeDefinition := do
  let fields ← Document.fields
    ["name", "table", "components", "unique_constraints", "reverse_edges"] place
  return {
    name := ← required fields "name" Document.text
    table := ← required fields "table" Document.text
    components := ← required fields "components" (listOf ComponentDefinition.read)
    uniqueConstraints :=
      ← fieldOr fields "unique_constraints" [] (listOf UniqueConstraintDefinition.read)
    reverseEdges := ← fieldOr fields "reverse_edges" [] (listOf ReverseEdgeDefinition.read) }

def CatalogDefinition.read (place : δ) : m CatalogDefinition := do
  required (← Document.fields ["nodes"] place) "nodes" (listOf NodeDefinition.read)

end

namespace Catalog

/-- The catalog of definitions, if they could be read. -/
def ofDefinition? : Option CatalogDefinition → Except CatalogError Catalog
  | some definition => definition.build
  | none => .error .unreadable

def ofJson (json : Json) : Except CatalogError Catalog :=
  ofDefinition? (CatalogDefinition.read json)

def ofYaml (text : String) : Except CatalogError Catalog :=
  ofDefinition? ((Yaml.Page.ofText? text).bind (·.decode? CatalogDefinition.read))

end Catalog

end LiveQuery
