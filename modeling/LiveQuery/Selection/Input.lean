import LiveQuery.Filter.Input
import LiveQuery.Selection.Identifier

set_option autoImplicit false

namespace LiveQuery

/-- What a name in a selection-input stands for. -/
inductive SelectionTarget where
  | leaf (field : Leaf)
  | edge (link : Edge)
  | unique (relation : ReverseEdge)
  | multiple (relation : ReverseEdge)
  | count (relation : ReverseEdge)

namespace SelectionTarget

def ofComponent : Component → SelectionTarget
  | .leaf field => .leaf field
  | .edge link => .edge link

def ofReverseEdge (relation : ReverseEdge) : SelectionTarget :=
  match relation.multiplicity with
  | .unique => .unique relation
  | .multiple => .multiple relation

def count? (node : Node) (name : String) : Option SelectionTarget := do
  let relation ← node.reverseEdge? (← Text.before? "Count" name)
  guard (relation.multiplicity = .multiple)
  return .count relation

/-- Components come before relations, and relations before counts. -/
def resolve? (node : Node) (name : String) : Option SelectionTarget :=
  (node.component? name).map ofComponent <|> (node.reverseEdge? name).map ofReverseEdge <|>
    count? node name

end SelectionTarget

/-- The key and the name of an entry; without an alias they are the same. -/
def splitAlias (entry : String) : String × String :=
  match entry.toList.dropWhile (· != ':') with
  | [] => (entry, entry)
  | _ :: name => (String.ofList (entry.toList.takeWhile (· != ':')), String.ofList name)

/-- Keys become parts of dotted column aliases; those that start with two underscores are kept for
internal columns. -/
def isSelectionKey (key : String) : Bool :=
  !key.isEmpty && !("__".toList.isPrefixOf key.toList) &&
    key.toList.all fun c => c = '_' || c.isAlphanum

namespace SelectionField

def invalidInput {α : Type} (path reason : String) : Except StatementError α :=
  .error (.invalidInput path reason)

def filterInput (catalog : Catalog) (head : Node) (arguments : Json) :
    Except StatementError (Option Predicate) :=
  match arguments.member? "where" with
  | some input => return some (← Filter.parse catalog head input).predicate
  | none => .ok none

def sortKeys (path : String) : List Json → Except StatementError (List String)
  | [] => .ok []
  | .string item :: rest => return item :: (← sortKeys path rest)
  | _ :: _ => invalidInput path "expected `orderBy` strings"

def orderInput (head : Node) (path : String) (arguments : Json) :
    Except StatementError (Option (List SortExpression)) :=
  match arguments.member? "orderBy" with
  | some (.array items) => return some (← SortOrder.parse head (← sortKeys path items)).expressions
  | some _ => invalidInput path "expected an `orderBy` list"
  | none => .ok none

def countInput (path key : String) (arguments : Json) : Except StatementError (Option Nat) :=
  match arguments.member? key with
  | none => .ok none
  | some value =>
    match value.count? with
    | some number => .ok (some number)
    | none => invalidInput (path ++ "." ++ key) "expected a non-negative integer"

def limitInput (path : String) (arguments : Json) : Except StatementError Nat := do
  match ← countInput path "first" arguments with
  | some limit => return limit
  | none => invalidInput path "`first` is required"

def leafInput (key : String) (field : Leaf) (path : String) (value : Json) :
    Except StatementError SelectionField :=
  match value with
  | .boolean true => .ok (.leaf key field)
  | _ => invalidInput path "expected `true`"

def numberInput (catalog : Catalog) (key : String) (relation : ReverseEdge) (path : String)
    (value : Json) : Except StatementError SelectionField :=
  match value with
  | .boolean true => .ok (.count key relation none)
  | .object arguments => do
    match Entries.get? arguments "where" with
    | some input =>
      let head ← catalog.reverseEdgeHead relation
      return .count key relation (some (← Filter.parse catalog head input).predicate)
    | none => return .count key relation none
  | _ => invalidInput path "expected `true` or `\x7b where \x7d`"

mutual

/-- The fields of an input object. -/
def parse (catalog : Catalog) (node : Node) (path : String) : Json →
    Except StatementError (List SelectionField)
  | .object entries => do check node.name (← parseEntries catalog node path entries)
  | _ => invalidInput path "expected an object"

def parseEntries (catalog : Catalog) (node : Node) (path : String) : List (String × Json) →
    Except StatementError (List SelectionField)
  | [] => .ok []
  | (entry, value) :: rest => do
    let path' := path ++ "." ++ entry
    let (key, name) := splitAlias entry
    if !isSelectionKey key then invalidInput path' s!"invalid selection key `{key}`"
    else
      let field ←
        match SelectionTarget.resolve? node name with
        | some (.leaf field) => leafInput key field path' value
        | some (.edge link) => do
          let head ← catalog.edgeHead link
          SelectionField.edge key link <$> parse catalog head path' value
        | some (.unique relation) => do
          let head ← catalog.reverseEdgeHead relation
          SelectionField.unique key relation <$> parse catalog head path' value
        | some (.multiple relation) => do
          let head ← catalog.reverseEdgeHead relation
          if !value.isObject then invalidInput path' "expected `\x7b first, selection \x7d`"
          else
            let filter ← filterInput catalog head value
            let ordering ← orderInput head path' value
            let limit ← limitInput path' value
            let fields ← parseHead catalog head path' value
            let offset ← countInput path' "skip" value
            pure (.multiple key relation ⟨filter, ordering, offset.getD 0, limit⟩ fields)
        | some (.count relation) => numberInput catalog key relation path' value
        | none => invalidInput path' s!"unknown selection key `{name}` on `{node.name}`"
      return field :: (← parseEntries catalog node path rest)

/-- What the arguments of a reverse edge want of the heads. -/
def parseHead (catalog : Catalog) (head : Node) (path : String) : Json →
    Except StatementError (List SelectionField)
  | .object arguments => parseArgument catalog head path arguments
  | _ => identifier catalog head

/-- The argument `selection`; without it the identifier is wanted. -/
def parseArgument (catalog : Catalog) (head : Node) (path : String) : List (String × Json) →
    Except StatementError (List SelectionField)
  | [] => identifier catalog head
  | (key, value) :: rest =>
    if key = "selection" then parse catalog head (path ++ ".selection") value
    else parseArgument catalog head path rest

end

end SelectionField

/-- The selection that an input object states. -/
def Selection.parse (catalog : Catalog) (node : Node) (input : Json) :
    Except StatementError Selection :=
  return ⟨node, ← SelectionField.parse catalog node node.name input⟩

end LiveQuery
