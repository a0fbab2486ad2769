import LiveQuery.Document
import LiveQuery.Yaml.Meaning
import LiveQuery.Yaml.Page

set_option autoImplicit false

namespace LiveQuery.Yaml

/-- Reading that may fail, with the number of references that may still be followed. -/
abbrev Reading := StateT Nat Option

/-- A node of a page, and how deep collections may be nested from there on. -/
structure Place where
  page : Page
  node : Node
  room : Nat

namespace Node

def tag : Node → Option String
  | .scalar tag _ _ | .list tag _ | .map tag _ => tag
  | .reference _ => none

/-- A tag of the program's own kind, which nothing expected here can have. -/
def isForeign (tag : Option String) : Bool := tag.any (·.startsWith "!")

def standardTag (name : String) : String := "tag:yaml.org,2002:" ++ name

/-- Whether a scalar may be read as a truth value or number: a plain one is, whatever its tag, and a
literal one with the tag of the kind. -/
def isBare (kind : String) (tag : Option String) (style : Style) : Bool :=
  style = .plain || (style = .literal && tag = some (standardTag kind))

/-- What a scalar is taken for where anything may stand. -/
def meaning? (tag : Option String) (style : Style) (text : String) : Option Meaning :=
  match tag with
  | none => some (if style = .plain then .ofText text else .text)
  | some tag =>
    if tag.startsWith "!" then none
    else if tag = standardTag "bool" then (boolean? text).map .boolean
    else if tag = standardTag "int" then integer? text
    else if tag = standardTag "float" then (if isFloat text then some .number else none)
    else if tag = standardTag "null" then (if isNull text then some .null else none)
    else some .text

def scalarContent? (tag : Option String) (style : Style) (text : String) : Option Content := do
  match ← meaning? tag style text with
  | .null => return .null
  | .boolean value => return .boolean value
  | .natural value => return .natural value
  | .number => return .number
  | .oversized => none
  | .text => return .text text

end Node

namespace Page

/-- The node itself, or the one that a reference leads to. -/
def target (page : Page) (node : Node) : Reading Node := do
  match node with
  | .reference number =>
    guard (0 < (← get))
    modify (· - 1)
    page.anchor? number
  | node => return node

/-- All that stands at a node, its references followed. -/
def content (page : Page) (room : Nat) (node : Node) : Reading Content := do
  match ← page.target node with
  | .scalar tag style text => Node.scalarContent? tag style text
  | .list tag items =>
    guard !Node.isForeign tag
    match room with
    | 0 => failure
    | room + 1 => return .list (← items.mapM (page.content room))
  | .map tag entries =>
    guard !Node.isForeign tag
    match room with
    | 0 => failure
    | room + 1 =>
      return .map (← entries.mapM fun (key, value) =>
        return (← page.content room key, ← page.content room value))
  | .reference _ => failure

/-- Collections may be nested this deep. -/
def depthLimit : Nat := 128

/-- References may be followed this many times for each part of a page. -/
def referenceLimit : Nat := 100

/-- What is read from the root of a page. -/
def decode? {α : Type} (page : Page) (read : Place → Reading α) : Option α :=
  (read ⟨page, page.root, depthLimit⟩).run' (referenceLimit * page.root.size)

end Page

namespace Place

def target (place : Place) : Reading Node := place.page.target place.node

/-- A place within this one. -/
def inner (place : Place) (node : Node) : Place := ⟨place.page, node, place.room - 1⟩

def shape (place : Place) : Reading (Shape Place) := do
  match ← place.target with
  | .scalar _ style text => return if style = .plain && text.isEmpty then .blank else .scalar
  | .list _ items =>
    guard (0 < place.room)
    return .list (items.map place.inner) false
  | .map _ entries =>
    guard (0 < place.room)
    return .map (entries.map fun (key, value) => (place.inner key, place.inner value))
  | .reference _ => failure

/-- A collection of several kinds may not have a tag of the program's own kind, which would tell
the kind. -/
def openShape (place : Place) : Reading (Shape Place) := do
  let node ← place.target
  guard !Node.isForeign node.tag
  shape { place with node }

def text (place : Place) : Reading String := do
  let .scalar _ _ text ← place.target | failure
  return text

def flag (place : Place) : Reading Bool := do
  let .scalar tag style text ← place.target | failure
  guard (Node.isBare "bool" tag style)
  boolean? text

/-- A count that is written as a natural number of 64 bits. -/
def count (place : Place) : Reading Nat := do
  let .scalar tag style text ← place.target | failure
  guard (Node.isBare "int" tag style)
  let value ← natural? text.toList
  guard (value < UInt64.size)
  return value

/-- A value is left out where a plain scalar is empty or says that there is nothing. One with a tag
is not taken so, unless the tag is that of nothing, and then it has to say it. -/
def present? (place : Place) : Reading (Option Place) := do
  let node ← place.target
  let place := { place with node }
  match node with
  | .scalar none .plain text =>
    return if text.isEmpty || isNull text then none else some place
  | .scalar (some tag) .plain text =>
    if tag = Node.standardTag "null" then
      guard (isNull text)
      return none
    else return some place
  | _ => return some place

end Place

instance : Document Place Reading where
  shape := Place.shape
  openShape := Place.openShape
  text := Place.text
  flag := Place.flag
  present? := Place.present?
  content place := place.page.content place.room place.node

end LiveQuery.Yaml
