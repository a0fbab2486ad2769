import LiveQuery.Json

/-!
Configuration documents. Each notation that configuration comes in says how what stands at a place
of its documents is read, given what is expected there. Where the expectation depends on what is found,
it is read as content of any form first.
-/

set_option autoImplicit false

namespace LiveQuery

/-- Content of any form, with every scalar taken for what it looks like. -/
inductive Content where
  | null
  | boolean (value : Bool)
  | natural (value : Nat)
  /-- A number that is not a natural one of 64 bits. -/
  | number
  | text (value : String)
  | list (items : List Content)
  | map (entries : List (Content × Content))

/-- What stands at a place, as far as collections go. A list is positional if it can stand for a
record; nothing at all can stand for any collection. -/
inductive Shape (δ : Type) where
  | scalar
  | blank
  | list (items : List δ) (positional : Bool)
  | map (entries : List (δ × δ))

/-- Places of the documents of a notation, and how they are read. -/
class Document (δ : Type) (m : outParam (Type → Type)) where
  /-- What stands where a collection is expected. -/
  shape : δ → m (Shape δ)
  /-- What stands where a collection of several kinds is expected. -/
  openShape : δ → m (Shape δ)
  text : δ → m String
  flag : δ → m Bool
  /-- The place of an optional value, unless the value is left out. -/
  present? : δ → m (Option δ)
  content : δ → m Content

namespace Document

variable {δ : Type} {m : Type → Type} [Monad m] [MonadExceptOf Unit m] [Document δ m]

def items (place : δ) : m (List δ) := do
  match ← shape place with
  | .list items _ => return items
  | .blank => return []
  | _ => throw ()

/-- The fields of a record: given by name, or listed in the order of their names. -/
def fields (names : List String) (place : δ) : m (List (String × δ)) := do
  match ← shape place with
  | .map entries => entries.mapM fun (key, value) => return (← text key, value)
  | .list items true => if items.length ≤ names.length then return names.zip items else throw ()
  | .blank => return []
  | _ => throw ()

/-- The only value under a key, if there is one; a repeated key is a fault. -/
def field? {α : Type} (entries : List (String × α)) (key : String) : m (Option α) :=
  match entries.filter (·.1 = key) with
  | [] => return none
  | [entry] => return some entry.2
  | _ => throw ()

def required {α β : Type} (entries : List (String × α)) (key : String) (read : α → m β) : m β := do
  match ← field? entries key with
  | some value => read value
  | none => throw ()

/-- The value under a key, or a default where the key is absent. -/
def fieldOr {α β : Type} (entries : List (String × α)) (key : String) (absent : β)
    (read : α → m β) : m β := do
  match ← field? entries key with
  | some value => read value
  | none => return absent

def listOf {β : Type} (read : δ → m β) (place : δ) : m (List β) := do
  (← items place).mapM read

def optional {β : Type} (read : δ → m β) (place : δ) : m (Option β) := do
  (← present? place).mapM read

/-- Collections that come in kinds: the kind, which a key tells or the first item, and the content
of the rest. -/
def tagged (tag : String) (place : δ) : m (String × Content) := do
  match ← openShape place with
  | .list (kind :: rest) _ => return (← text kind, .list (← rest.mapM content))
  | .map entries =>
    let parts ← entries.mapM fun (key, value) => do
      match ← content key with
      | .text key =>
        if key = tag then return .inl (← text value) else return .inr (.text key, ← content value)
      | key => return .inr (key, ← content value)
    match parts.filterMap Sum.getLeft? with
    | [kind] => return (kind, .map (parts.filterMap Sum.getRight?))
    | _ => throw ()
  | _ => throw ()

end Document

namespace Content

def text? : Content → Option String
  | .text value => some value
  | _ => none

def flag? : Content → Option Bool
  | .boolean value => some value
  | _ => none

def isNull : Content → Bool
  | .null => true
  | _ => false

/-- One of several names, or its number among them. A number that is too great names nothing. -/
def name? (names : List String) : Content → Option (Option String)
  | .text name => some (some name)
  | .natural index => some names[index]?
  | _ => none

/-- The fields of a record: given by their names or numbers, or listed in order. -/
def fields? (names : List String) : Content → Option (List (String × Content))
  | .map entries => do
    let fields ← entries.mapM fun (key, value) => do
      return (← key.name? names).map (·, value)
    return fields.filterMap id
  | .list items => if items.length ≤ names.length then some (names.zip items) else none
  | _ => none

def optional? {α : Type} (read? : Content → Option α) (content : Content) : Option (Option α) :=
  if content.isNull then some none else (read? content).map some

/-- One of several names by itself, or as the only key over nothing. -/
def choice? (names : List String) : Content → Option String
  | .text name => some name
  | .map [(key, .null)] | .map [(key, .map [])] => do ← key.name? names
  | _ => none

end Content

mutual

def Content.ofJson : Json → Content
  | .null => .null
  | .boolean value => .boolean value
  | .integer value => if 0 ≤ value then .natural value.toNat else .number
  | .float _ => .number
  | .string value => .text value
  | .array items => .list (Content.ofJsonItems items)
  | .object members => .map (Content.ofJsonMembers members)

def Content.ofJsonItems : List Json → List Content
  | [] => []
  | item :: rest => Content.ofJson item :: Content.ofJsonItems rest

def Content.ofJsonMembers : List (String × Json) → List (Content × Content)
  | [] => []
  | (key, value) :: rest => (.text key, Content.ofJson value) :: Content.ofJsonMembers rest

end

namespace Json

def shape : Json → Shape Json
  | .array items => .list items true
  | .object members => .map (members.map fun (key, value) => (.string key, value))
  | _ => .scalar

def text? : Json → Option String
  | .string value => some value
  | _ => none

def flag? : Json → Option Bool
  | .boolean value => some value
  | _ => none

end Json

instance : Document Json Option where
  shape json := some json.shape
  openShape json := some json.shape
  text := Json.text?
  flag := Json.flag?
  present? json := some (if json.isNull then none else some json)
  content json := some (.ofJson json)

end LiveQuery
