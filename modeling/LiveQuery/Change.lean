import LiveQuery.Dependency
import LiveQuery.Statement.Coercion

set_option autoImplicit false

namespace LiveQuery

inductive Transition where
  | creation (new : Record)
  | update (old new : Record)
  | deletion (old : Record)

namespace Transition

def kind : Transition → String
  | .creation _ => "creation"
  | .update _ _ => "update"
  | .deletion _ => "deletion"

def old? : Transition → Option Record
  | .creation _ => none
  | .update old _ => some old
  | .deletion old => some old

def new? : Transition → Option Record
  | .creation new => some new
  | .update _ new => some new
  | .deletion _ => none

end Transition

/-- A change of one instance. An update keeps the identifier that the instance had before. -/
structure Change where
  node : Node
  identifier : Record
  transition : Transition

namespace Change

def creation (node : Node) (new : Record) : Except StatementError Change :=
  return ⟨node, ← node.identifierOf new, .creation new⟩

def update (node : Node) (old new : Record) : Except StatementError Change :=
  return ⟨node, ← node.identifierOf old, .update old new⟩

def deletion (node : Node) (old : Record) : Except StatementError Change :=
  return ⟨node, ← node.identifierOf old, .deletion old⟩

/-- The instance itself appears or disappears. -/
def isExistence (change : Change) : Bool :=
  match change.transition with
  | .update _ _ => false
  | _ => true

/-- The value of a component before and after the change. -/
def valuesOf (change : Change) (component : String) : Option Value × Option Value :=
  (change.transition.old?.bind (·.get? component), change.transition.new?.bind (·.get? component))

/-- Whether a component has another value in the new record. One that the new record lacks has
not. -/
def differs (old new : Record) (component : String) : Bool :=
  match old.get? component, new.get? component with
  | some before, some after => !before.looselyEqual after
  | none, some _ => true
  | _, none => false

/-- The components that an update changes, in the order of the node. -/
def updated (change : Change) : List String :=
  match change.transition with
  | .update old new => (change.node.components.map (·.name)).filter (differs old new)
  | _ => []

def touches (change : Change) (component : String) : Bool := change.updated.contains component

/-- Both values of a component that an update changes. -/
def componentChange? (change : Change) (component : String) : Option (Value × Value) := do
  guard (change.touches component)
  let new ← (change.valuesOf component).2
  return ((change.valuesOf component).1.getD .null, new)

/-- An update that changes nothing. -/
def isEmptyUpdate (change : Change) : Bool := !change.isExistence && change.updated.isEmpty

/-- The text under which changes of one instance meet. -/
def instanceKey (change : Change) : String := change.node.name ++ ":" ++ change.identifier.text

def text (change : Change) : String :=
  change.transition.kind ++ " of " ++ change.node.name ++ " " ++ change.identifier.text

def unlessEmpty (change : Change) : Option Change :=
  if change.isEmptyUpdate then none else some change

/-- Both changes of one instance as one; two that cancel out are none. -/
def followedBy (earlier later : Change) : Except StatementError (Option Change) :=
  match earlier.transition, later.transition with
  | .creation created, .update _ new =>
    let merged := new.foldl (fun record (key, value) => record.insert key value) created
    return some (← creation earlier.node merged)
  | .creation _, .deletion _ => return none
  | .update old _, .update _ new => return (← update earlier.node old new).unlessEmpty
  | .update old _, .deletion _ => return some (← deletion earlier.node old)
  | .deletion old, .creation new => return (← update earlier.node old new).unlessEmpty
  | previous, _ =>
    throw (.inconsistentChange later.node.name later.identifier.text previous.kind)

end Change

/-- The changes of one mutation in order. -/
abbrev Aggregation := List Change

namespace Aggregation

/-- The first change of an instance, with those before and behind it. -/
def splitAt? (key : String) : Aggregation → Option (Aggregation × Change × Aggregation)
  | [] => none
  | change :: rest =>
    if change.instanceKey = key then some ([], change, rest)
    else (splitAt? key rest).map fun (before, found, after) => (change :: before, found, after)

/-- Taking in one more change. It joins the earlier change of its instance; where it cannot follow
that one, both are left out. -/
def append (change : Change) : EStateM StatementError Aggregation Unit := do
  if change.isEmptyUpdate then return
  let changes ← get
  match splitAt? change.instanceKey changes with
  | none => set (changes ++ [change])
  | some (before, previous, after) =>
    match previous.followedBy change with
    | .ok folded => set (before ++ folded.toList ++ after)
    | .error error =>
      set (before ++ after)
      throw error

def appendAll (changes : List Change) : EStateM StatementError Aggregation Unit :=
  changes.forM append

/-- The aggregation of a list of changes, unless one of them cannot follow. -/
def ofChanges (changes : List Change) : Except StatementError Aggregation :=
  match (appendAll changes).run [] with
  | .ok _ aggregation => .ok aggregation
  | .error error _ => .error error

/-- The names of the nodes that are touched. -/
def nodes (changes : Aggregation) : List String :=
  Sorted.union [] (changes.map (·.node.name))

end Aggregation

/-- Whether a change can alter anything that the graph lists. -/
def DependencyGraph.touchedBy (graph : DependencyGraph) (change : Change) : Bool :=
  if change.isExistence then graph.mentions change.node.name
  else graph.readsAny change.node.name change.updated

end LiveQuery
