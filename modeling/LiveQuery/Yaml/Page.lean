import LiveQuery.Yaml.Token

set_option autoImplicit false

namespace LiveQuery.Yaml

inductive Node where
  | scalar (tag : Option String) (style : Style) (text : String)
  | list (tag : Option String) (items : List Node)
  | map (tag : Option String) (entries : List (Node × Node))
  | reference (anchor : Nat)

namespace Node

/-- Nothing where a node is expected. -/
def blank : Node := .scalar none .plain ""

mutual

/-- The number of scalars and references, and of the starts and ends of collections. -/
def size : Node → Nat
  | .scalar _ _ _ => 1
  | .reference _ => 1
  | .list _ items => 2 + sizeAll items
  | .map _ entries => 2 + sizeEntries entries

def sizeAll : List Node → Nat
  | [] => 0
  | item :: rest => item.size + sizeAll rest

def sizeEntries : List (Node × Node) → Nat
  | [] => 0
  | (key, value) :: rest => key.size + value.size + sizeEntries rest

end

end Node

/-- A node with an anchor: the number of the anchor, and how many anchors were set before it. -/
structure Anchored where
  number : Nat
  order : Nat
  node : Node

structure Page where
  root : Node
  anchored : List Anchored

/-- The node that a number refers to: of several, the one whose anchor was set last. -/
def Page.anchor? (page : Page) (number : Nat) : Option Node :=
  let candidates := page.anchored.filter (·.number = number)
  let last := candidates.foldl (fun order candidate => max order candidate.order) 0
  (candidates.find? (·.order = last)).map (·.node)

/-- Tokens that are partly put together: the rest of them, what the handles of tags stand for, the
number of each anchor's name, how many anchors were set, and the nodes that have one. -/
structure Composing where
  tokens : List Token
  handles : List (List Char × List Char)
  names : List (String × Nat)
  settings : Nat
  anchored : List Anchored

abbrev Composition := StateT Composing Option

namespace Composition

def peek : Composition (Option Token) := return (← get).tokens.head?

def skip : Composition Unit := modify fun composing =>
  { composing with tokens := composing.tokens.tail }

/-- A name refers to the number that it had last. -/
def reference (name : String) : Composition Node := do
  return .reference (← (← get).names.lookup name)

/-- Sets an anchor. Its number is the count of different names so far. -/
def setAnchor (name : String) : Composition (Nat × Nat) := do
  let composing ← get
  let number := composing.names.length
  let order := composing.settings
  let others := composing.names.filter (·.1 ≠ name)
  set { composing with names := (name, number) :: others, settings := order + 1 }
  return (number, order)

/-- Keeps a node under the number of its anchor. -/
def keep (node : Node) (anchor : Nat × Nat) : Composition Unit := modify fun composing =>
  { composing with anchored := ⟨anchor.1, anchor.2, node⟩ :: composing.anchored }

/-- The full form of a tag. -/
def resolve (name : TagName) : Composition String := do
  if name.handle.isEmpty then return String.ofList name.suffix
  else return String.ofList ((← (← get).handles.lookup name.handle) ++ name.suffix)

def anchorToken? : Composition (Option String) := do
  match ← peek with
  | some (.anchor name) =>
    skip
    return some name
  | _ => return none

def tagToken? : Composition (Option TagName) := do
  match ← peek with
  | some (.tag name) =>
    skip
    return some name
  | _ => return none

/-- An anchor and a tag in front of a node, in either order. -/
def properties : Composition (Option String × Option String) := do
  match ← anchorToken? with
  | some anchor => return (some anchor, ← (← tagToken?).mapM resolve)
  | none =>
    let tag ← tagToken?
    return (← anchorToken?, ← tag.mapM resolve)

/-- A tag of one mark says of a scalar that it is plain, which needs no tag. -/
def scalarTag (tag : Option String) : Option String := if tag = some "!" then none else tag

def endsEntry : Option Token → Bool
  | some .key | some .value | some .blockEnd => true
  | _ => false

def endsItem : Option Token → Bool
  | some .dash | some .blockEnd => true
  | _ => false

def endsListItem : Option Token → Bool
  | some .comma | some .flowListEnd => true
  | _ => false

def endsMapEntry : Option Token → Bool
  | some .comma | some .flowMapEnd => true
  | _ => false

def isValue : Option Token → Bool
  | some .value => true
  | _ => false

/-- The comma before all items but the first. -/
def separator (first : Bool) : Composition Unit := do
  if !first then
    match ← peek with
    | some .comma => skip
    | _ => failure

mutual

/-- A node. `block` tells whether a block collection may start here, and `dashes` whether a list may
whose dashes are not indented. -/
def node (fuel : Nat) (block dashes : Bool) : Composition Node :=
  match fuel with
  | 0 => failure
  | fuel + 1 => do
    match ← peek with
    | some (.reference name) =>
      skip
      reference name
    | _ =>
      let (anchor, tag) ← properties
      let anchor ← anchor.mapM setAnchor
      let node ← content fuel block dashes (anchor.isSome || tag.isSome) tag
      anchor.forM (keep node)
      return node

/-- What follows the anchor and the tag of a node, if it has such `properties`. -/
def content (fuel : Nat) (block dashes properties : Bool) (tag : Option String) :
    Composition Node :=
  match fuel with
  | 0 => failure
  | fuel + 1 => do
    match ← peek with
    | some (.scalar style text) =>
      skip
      return .scalar (scalarTag tag) style (String.ofList text)
    | some .flowList =>
      skip
      return .list tag (← listItems fuel true)
    | some .flowMap =>
      skip
      return .map tag (← mapEntries fuel true)
    | some .dash =>
      if dashes then return .list tag (← bareItems fuel) else blankOr properties
    | some .blockList =>
      if block then
        skip
        return .list tag (← blockItems fuel)
      else blankOr properties
    | some .blockMap =>
      if block then
        skip
        return .map tag (← blockEntries fuel)
      else blankOr properties
    | _ => blankOr properties
where
  /-- A node may be blank if it has an anchor or a tag. -/
  blankOr (properties : Bool) : Composition Node :=
    if properties then return .scalar tag .plain "" else failure

/-- The items of a block list up to its end. -/
def blockItems (fuel : Nat) : Composition (List Node) :=
  match fuel with
  | 0 => failure
  | fuel + 1 => do
    match ← peek with
    | some .dash =>
      skip
      let item ← if endsItem (← peek) then pure .blank else node fuel true false
      return item :: (← blockItems fuel)
    | some .blockEnd =>
      skip
      return []
    | _ => failure

/-- The items of a list whose dashes stand where the keys around it stand. -/
def bareItems (fuel : Nat) : Composition (List Node) :=
  match fuel with
  | 0 => failure
  | fuel + 1 => do
    match ← peek with
    | some .dash =>
      skip
      let next ← peek
      let item ←
        if endsItem next || endsEntry next then pure .blank else node fuel true false
      return item :: (← bareItems fuel)
    | _ => return []

/-- The entries of a block map up to its end. A value may be missing. -/
def blockEntries (fuel : Nat) : Composition (List (Node × Node)) :=
  match fuel with
  | 0 => failure
  | fuel + 1 => do
    match ← peek with
    | some .key =>
      skip
      let key ← blockPart fuel
      let value ←
        if isValue (← peek) then
          skip
          blockPart fuel
        else pure .blank
      return (key, value) :: (← blockEntries fuel)
    | some .blockEnd =>
      skip
      return []
    | _ => failure

/-- A key or a value of a block map. -/
def blockPart (fuel : Nat) : Composition Node :=
  match fuel with
  | 0 => failure
  | fuel + 1 => do
    if endsEntry (← peek) then return .blank else node fuel true true

/-- The items in brackets up to the closing one. A last comma may stand before it. -/
def listItems (fuel : Nat) (first : Bool) : Composition (List Node) :=
  match fuel with
  | 0 => failure
  | fuel + 1 => do
    match ← peek with
    | some .flowListEnd =>
      skip
      return []
    | _ =>
      separator first
      match ← peek with
      | some .flowListEnd =>
        skip
        return []
      | some .key =>
        skip
        let entry ← pair fuel
        return .map none [entry] :: (← listItems fuel false)
      | _ =>
        let item ← node fuel false false
        return item :: (← listItems fuel false)

/-- A key and a value within brackets, which are a map of one entry. The token that shows the key to
be missing is passed. -/
def pair (fuel : Nat) : Composition (Node × Node) :=
  match fuel with
  | 0 => failure
  | fuel + 1 => do
    let next ← peek
    let key ←
      if isValue next || endsListItem next then
        skip
        pure .blank
      else node fuel false false
    if isValue (← peek) then
      skip
      if endsListItem (← peek) then return (key, .blank)
      else return (key, ← node fuel false false)
    else return (key, .blank)

/-- The entries in braces up to the closing one. A last comma may stand before it. -/
def mapEntries (fuel : Nat) (first : Bool) : Composition (List (Node × Node)) :=
  match fuel with
  | 0 => failure
  | fuel + 1 => do
    match ← peek with
    | some .flowMapEnd =>
      skip
      return []
    | _ =>
      separator first
      match ← peek with
      | some .flowMapEnd =>
        skip
        return []
      | some .key =>
        skip
        let next ← peek
        let key ← if isValue next || endsMapEntry next then pure .blank else node fuel false false
        let value ←
          if isValue (← peek) then
            skip
            if endsMapEntry (← peek) then pure .blank else node fuel false false
          else pure .blank
        return (key, value) :: (← mapEntries fuel false)
      | _ =>
        let key ← node fuel false false
        return (key, .blank) :: (← mapEntries fuel false)

end

/-- Notes the directives in front of a document: at most one version, which has to be known, and
each handle at most once. -/
def directives (versioned : Bool) : Nat → Composition Unit
  | 0 => failure
  | fuel + 1 => do
    match ← peek with
    | some (.directive (.version major minor)) =>
      guard (!versioned && major = 1 && (minor = 1 || minor = 2))
      skip
      directives true fuel
    | some (.directive (.handle handle stem)) =>
      guard ((← get).handles.lookup handle).isNone
      skip
      modify fun composing => { composing with handles := (handle, stem) :: composing.handles }
      directives versioned fuel
    | _ => return

/-- What the handles stand for that no directive names. -/
def standardHandles : List (List Char × List Char) :=
  [(['!'], ['!']), (['!', '!'], "tag:yaml.org,2002:".toList)]

def isFinal : Option Token → Bool
  | none | some .documentStart | some .documentEnd | some (.directive _) => true
  | _ => false

/-- The root of the only document, which may have no node. -/
def root (fuel : Nat) : Composition Node := do
  match ← peek with
  | none => return .blank
  | some .documentStart | some (.directive _) =>
    directives false fuel
    let some .documentStart ← peek | failure
    skip
    modify fun composing =>
      { composing with handles := composing.handles ++ standardHandles }
    if isFinal (← peek) then return .blank else node fuel true false
  | some _ =>
    modify fun composing => { composing with handles := standardHandles }
    node fuel true false

/-- Whether nothing but the end marks of documents is left. -/
def isOver (composing : Composing) : Bool :=
  composing.tokens.all fun token =>
    match token with
    | .documentEnd => true
    | _ => false

end Composition

/-- The page that tokens make up. -/
def Page.ofTokens? (tokens : List Token) : Option Page := do
  let (root, composing) ← (Composition.root (4 * tokens.length + 4)).run ⟨tokens, [], [], 0, []⟩
  guard (Composition.isOver composing)
  return ⟨root, composing.anchored⟩

/-- The page that a text holds. -/
def Page.ofText? (text : String) : Option Page := do
  Page.ofTokens? (← tokens? text)

end LiveQuery.Yaml
