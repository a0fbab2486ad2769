import LiveQuery.Catalog.Basic
import LiveQuery.Entries

set_option autoImplicit false

namespace LiveQuery

structure LeafDefinition where
  name : String
  type : LeafType
  column : Option String
  nullable : Bool

/-- `columns` maps leaves of the head's identifier to foreign-key columns. -/
structure EdgeDefinition where
  name : String
  head : String
  nullable : Bool
  columns : Entries String

inductive ComponentDefinition where
  | leaf (definition : LeafDefinition)
  | edge (definition : EdgeDefinition)

def ComponentDefinition.name : ComponentDefinition → String
  | .leaf definition => definition.name
  | .edge definition => definition.name

structure UniqueConstraintDefinition where
  name : Option String
  components : List String
  isIdentifier : Bool

/-- Unnamed constraints are called by their components, joined by underscores. -/
def UniqueConstraintDefinition.constraint (definition : UniqueConstraintDefinition) :
    UniqueConstraint :=
  ⟨definition.name.getD ("_".intercalate definition.components), definition.components⟩

/-- `edge` names the edge that is seen from its head as `Node.edge`. -/
structure ReverseEdgeDefinition where
  name : String
  edge : String

structure NodeDefinition where
  name : String
  table : String
  components : List ComponentDefinition
  uniqueConstraints : List UniqueConstraintDefinition
  reverseEdges : List ReverseEdgeDefinition

abbrev CatalogDefinition := List NodeDefinition

def isNameStart (c : Char) : Bool := c = '_' || c.isAlpha

def isNameCharacter (c : Char) : Bool := isNameStart c || c.isDigit

/-- Letters, digits and underscores of ASCII, not starting with a digit. -/
def isName (name : String) : Bool :=
  match name.toList with
  | [] => false
  | first :: rest => isNameStart first && rest.all isNameCharacter

def checkName (name : String) : Except CatalogError Unit :=
  if isName name then .ok () else .error (.invalidName name)

namespace NodeDefinition

/-- The constraint that serves as the identifier: the flagged one, or else the first. -/
def identifier? (definition : NodeDefinition) : Option UniqueConstraintDefinition :=
  match definition.uniqueConstraints.find? (·.isIdentifier) with
  | some constraint => some constraint
  | none => definition.uniqueConstraints.head?

def hasLeaf (definition : NodeDefinition) (name : String) : Bool :=
  definition.components.any fun
    | .leaf leaf => leaf.name = name
    | .edge _ => false

/-- The identifier's component names, if all of them are leaves. -/
def identifierLeaves? (definition : NodeDefinition) : Option (List String) := do
  let constraint ← definition.identifier?
  guard (constraint.components.all definition.hasLeaf)
  return constraint.components

def hasUniqueEdge (definition : NodeDefinition) (edge : String) : Bool :=
  definition.uniqueConstraints.any (·.components = [edge])

end NodeDefinition

namespace CatalogDefinition

/-- Of two definitions of one name the later one counts. -/
def node? (definitions : CatalogDefinition) (name : String) : Option NodeDefinition :=
  definitions.reverse.find? (·.name = name)

/-- Foreign-key columns default to the edge's name and the head leaf's name. -/
def buildEdge (definitions : CatalogDefinition) (node : String) (definition : EdgeDefinition) :
    Except CatalogError Edge := do
  let some head := node? definitions definition.head
    | throw (.unknownNode definition.head)
  let some leaves := head.identifierLeaves?
    | throw (.unsupportedEdgeHead node definition.name definition.head)
  if let some leaf := definition.columns.keys.find? (!leaves.contains ·) then
    throw (.invalidForeignKey node definition.name leaf)
  return {
    node, name := definition.name, head := definition.head, nullable := definition.nullable
    columns := leaves.map fun leaf =>
      ⟨leaf, (definition.columns.get? leaf).getD (definition.name ++ "_" ++ leaf)⟩ }

def buildComponent (definitions : CatalogDefinition) (node : String) :
    ComponentDefinition → Except CatalogError Component
  | .leaf definition => .ok (.leaf {
      node, name := definition.name, column := definition.column.getD definition.name
      type := definition.type, nullable := definition.nullable })
  | .edge definition => return .edge (← buildEdge definitions node definition)

/-- A name that is well formed and not taken yet. -/
def checkFresh (node : String) (seen : List String) (name : String) : Except CatalogError Unit := do
  checkName name
  if seen.contains name then throw (.duplicateComponent node name)

def buildComponents (definitions : CatalogDefinition) (node : String) (seen : List String) :
    List ComponentDefinition → Except CatalogError (List Component)
  | [] => .ok []
  | definition :: rest => do
    checkFresh node seen definition.name
    let component ← buildComponent definitions node definition
    let components ← buildComponents definitions node (definition.name :: seen) rest
    return component :: components

def checkReverseNames (node : String) (seen : List String) :
    List ReverseEdgeDefinition → Except CatalogError Unit
  | [] => .ok ()
  | definition :: rest => do
    checkFresh node seen definition.name
    checkReverseNames node (definition.name :: seen) rest

/-- The one flagged constraint, or the first one if none is flagged. -/
def chooseIdentifier (node : String) (first : UniqueConstraintDefinition)
    (constraints : List UniqueConstraintDefinition) : Except CatalogError UniqueConstraint :=
  match constraints.filter (·.isIdentifier) with
  | [] => .ok first.constraint
  | [flagged] => .ok flagged.constraint
  | flagged => .error (.ambiguousIdentifier node flagged.length)

def checkConstraints (node : String) (components : List Component)
    (constraints : List UniqueConstraint) : Except CatalogError Unit :=
  let names := components.map (·.name)
  match (constraints.flatMap (·.components)).find? (!names.contains ·) with
  | some name => .error (.unknownComponent node name)
  | none => .ok ()

/-- A node with its components and identifier, still without reverse edges. -/
def buildNode (definitions : CatalogDefinition) (definition : NodeDefinition) :
    Except CatalogError Node := do
  checkName definition.name
  let components ← buildComponents definitions definition.name [] definition.components
  checkReverseNames definition.name ((components.map (·.name)).reverse) definition.reverseEdges
  let first :: _ := definition.uniqueConstraints
    | throw (.missingUniqueConstraint definition.name)
  let constraints := definition.uniqueConstraints.map (·.constraint)
  checkConstraints definition.name components constraints
  let identifier ← chooseIdentifier definition.name first definition.uniqueConstraints
  let node : Node := {
    name := definition.name, table := definition.table, components, reverseEdges := []
    uniqueConstraints := constraints, identifier }
  match node.identifierComponents.find? (·.nullable) with
  | some component => throw (.nullableIdentifier node.name component.name)
  | none => return node

/-- The text before and after the first point. -/
def splitAtPoint? (text : List Char) : Option (List Char × List Char) :=
  match text.dropWhile (· != '.') with
  | [] => none
  | _ :: after => some (text.takeWhile (· != '.'), after)

def edgeOf? (node : Node) (name : String) : Option Edge := (node.edge name).toOption

/-- The edge of that name on the last node of that name that has one. -/
def findEdge? (nodes : List Node) (origin name : String) : Option Edge :=
  (nodes.reverse.filter (·.name = origin)).findSome? (edgeOf? · name)

def buildReverseEdge (definitions : CatalogDefinition) (nodes : List Node) (node : String)
    (definition : ReverseEdgeDefinition) : Except CatalogError ReverseEdge := do
  let invalid {α : Type} (reason : String) : Except CatalogError α :=
    .error (.invalidReverseEdge node definition.name reason)
  let some (origin, edgeName) := splitAtPoint? definition.edge.toList
    | invalid s!"`{definition.edge}` is not of the form Node.edge"
  let origin := String.ofList origin
  let edgeName := String.ofList edgeName
  let some edge := findEdge? nodes origin edgeName
    | invalid s!"edge `{definition.edge}` does not exist"
  if edge.head ≠ node then
    invalid s!"edge `{definition.edge}` references `{edge.head}`, not `{node}`"
  else
    let some originDefinition := node? definitions origin
      | throw (.unknownNode origin)
    let multiplicity :=
      if originDefinition.hasUniqueEdge edgeName then Multiplicity.unique else .multiple
    return { node, name := definition.name, multiplicity, edge }

/-- Reverse edges need every edge to exist, so they are added to nodes that are already built. -/
def connect (definitions : CatalogDefinition) (nodes : List Node) (known : List Node) :
    List (Node × NodeDefinition) → Except CatalogError (List Node)
  | [] => .ok known
  | (node, definition) :: rest => do
    let reverseEdges ←
      definition.reverseEdges.mapM (buildReverseEdge definitions nodes node.name)
    if known.any (·.name = node.name) then throw (.duplicateNode node.name)
    connect definitions nodes (known ++ [{ node with reverseEdges }]) rest

def build (definitions : CatalogDefinition) : Except CatalogError Catalog := do
  let nodes ← definitions.mapM (buildNode definitions)
  return ⟨← connect definitions nodes [] (nodes.zip definitions)⟩

end CatalogDefinition

namespace Samples

def field (name : String) (type : LeafType) : ComponentDefinition := .leaf ⟨name, type, none, false⟩

def optional (name : String) (type : LeafType) : ComponentDefinition :=
  .leaf ⟨name, type, none, true⟩

def link (name head : String) : ComponentDefinition := .edge ⟨name, head, false, []⟩

def optionalLink (name head : String) : ComponentDefinition := .edge ⟨name, head, true, []⟩

def unique (components : List String) : UniqueConstraintDefinition := ⟨none, components, false⟩

def identifier (components : List String) : UniqueConstraintDefinition := ⟨none, components, true⟩

/-- Articles with their tags, categories and authors. -/
def blog : CatalogDefinition := [
  ⟨"Category", "categories",
    [field "id" .uuid, field "title" .string, field "slug" .string],
    [identifier ["id"], unique ["slug"]],
    [⟨"articles", "Article.category"⟩]⟩,
  ⟨"Article", "articles",
    [field "id" .uuid, field "title" .string, field "status" .string, field "views" .int,
      optional "score" .float, optional "body" .string,
      .leaf ⟨"publishedAt", .instant, some "published_at", true⟩,
      optionalLink "category" "Category",
      .edge ⟨"createdBy", "User", false, [("id", "created_by_id")]⟩],
    [identifier ["id"]],
    [⟨"tags", "ArticleTag.article"⟩]⟩,
  ⟨"Tag", "tags",
    [field "id" .uuid, field "title" .string, optional "deprecated" .boolean],
    [unique ["id"]],
    [⟨"articles", "ArticleTag.tag"⟩]⟩,
  ⟨"ArticleTag", "article_tags",
    [link "article" "Article", link "tag" "Tag", .leaf ⟨"order", .int, some "position", false⟩],
    [identifier ["article", "tag"], unique ["article", "order"]],
    []⟩,
  ⟨"User", "users",
    [field "id" .uuid, field "username" .string],
    [unique ["id"], unique ["username"]],
    [⟨"profile", "UserProfile.user"⟩, ⟨"articles", "Article.createdBy"⟩]⟩,
  ⟨"UserProfile", "user_profiles",
    [link "user" "User", optional "bio" .string],
    [unique ["user"]],
    []⟩]

/-- A composite identifier, identifiers that hold an edge, renamed columns, a node that refers to
itself, and names that look like the keys of filters on other components. -/
def shop : CatalogDefinition := [
  ⟨"Region", "regions",
    [field "code" .string, .leaf ⟨"number", .int, some "nr", false⟩, optional "title" .string,
      field "factor" .float],
    [unique ["title"], ⟨some "pk", ["number", "code"], true⟩],
    [⟨"stores", "Store.region"⟩, ⟨"hq", "Headquarters.region"⟩]⟩,
  ⟨"Store", "sto`res",
    [.leaf ⟨"id", .int, some "store id", false⟩, field "name" .string,
      .leaf ⟨"opened", .instant, some "opened_at", true⟩, field "active" .boolean,
      optional "rating" .float, field "rating_gt" .int, optional "childrenCount" .int,
      .edge ⟨"region", "Region", true, [("code", "rcode")]⟩, optionalLink "parent" "Store",
      link "owner" "Person"],
    [unique ["id"], unique ["owner"], unique ["region", "name"]],
    [⟨"children", "Store.parent"⟩, ⟨"items", "Item.store"⟩]⟩,
  ⟨"Headquarters", "hq",
    [link "region" "Region", field "title" .string, field "since" .instant],
    [unique ["region"]],
    []⟩,
  ⟨"Person", "people",
    [field "id" .uuid, field "email" .string, optional "nick" .string, field "born" .instant,
      optional "token" .uuid],
    [identifier ["id"], unique ["email"], unique ["nick"]],
    [⟨"store", "Store.owner"⟩, ⟨"passport", "Passport.person"⟩, ⟨"alt_some", "Item.alt"⟩]⟩,
  ⟨"Passport", "passports",
    [field "number" .string, optionalLink "person" "Person"],
    [unique ["number"], unique ["person"]],
    []⟩,
  ⟨"Item", "items",
    [link "store" "Store", field "sku" .string, field "price" .float, field "qty" .int,
      optional "words" .string, optional "flag" .boolean, optional "at" .instant,
      optionalLink "alt" "Person", optional "alt_not" .string, optional "qty_not" .int],
    [identifier ["store", "sku"]],
    []⟩]

end Samples

end LiveQuery
