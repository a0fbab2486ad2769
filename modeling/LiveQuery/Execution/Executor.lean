import LiveQuery.Execution.Row
import LiveQuery.Selection.Projection
import LiveQuery.Sql.Mutation
import LiveQuery.Value.Outline

set_option autoImplicit false

namespace LiveQuery

/-- The store's side: what it answers to a statement, and the state it is in afterwards. -/
structure Connector (σ : Type) where
  read : Sql.Statement → EStateM String σ (List Record)
  write : Sql.Statement → EStateM String σ Nat

inductive ExecutionError where
  | connector (text : String)
  | sql (error : Sql.Error)
  | unexpectedRow (reason : String)

def ExecutionError.message : ExecutionError → String
  | .connector text => s!"Connector error: {text}"
  | .sql error => error.message
  | .unexpectedRow reason => s!"Unexpected row shape: {reason}"

abbrev Session (σ : Type) := EStateM ExecutionError σ

instance {σ : Type} : MonadLift (Except Sql.Error) (Session σ) where
  monadLift
    | .ok value => fun state => .ok value state
    | .error error => fun state => .error (.sql error) state

instance {σ : Type} : MonadLift (Except StatementError) (Session σ) where
  monadLift
    | .ok value => fun state => .ok value state
    | .error error => fun state => .error (.sql (.statement error)) state

instance {σ : Type} : MonadLift (EStateM String σ) (Session σ) where
  monadLift action := fun state =>
    match action state with
    | .ok value state => .ok value state
    | .error text state => .error (.connector text) state

structure Executor (σ : Type) where
  catalog : Catalog
  settings : Settings
  connector : Connector σ

namespace Executor

variable {σ : Type} (executor : Executor σ)

/-- The records that a reading statement answers. -/
def fetch (query : Sql.Find) : Session σ (List Record) := do
  let rows ← liftM (executor.connector.read (.find query))
  return rows.map Row.assemble

/-- Adds the identifiers of the records that own a relation, each once. -/
def collectIds (node : Node) (followup : Followup) (ids : List Record) :
    List Record → Session σ (List Record)
  | [] => return ids
  | record :: rest => do
    match record.at? followup.owner with
    | none => collectIds node followup ids rest
    | some owner =>
      let some carried := owner.carried? Sql.identifierKey
        | throw (.unexpectedRow s!"no identifier columns for {node.name}")
      let id ← liftM (m := Except StatementError) (node.identifierOf carried)
      collectIds node followup (if ids.any (·.same id) then ids else ids ++ [id]) rest

/-- The identifiers of the owners of a relation. -/
def ownerIds (records : List Record) (followup : Followup) : Session σ (List Record) := do
  let node ← liftM (m := Except Sql.Error) (executor.catalog.node followup.relation.node)
  collectIds node followup [] records

/-- Puts heads into the records that own them. -/
def attach (records : List Record) (followup : Followup) (heads : List Record) : List Record :=
  let put (owner : Record) : Record :=
    let own :=
      match owner.carried? Sql.identifierKey with
      | some id => heads.filter (Row.isChildOf · id)
      | none => []
    owner.insert followup.key (.list (own.map .record))
  records.map fun record => record.alterAt put followup.owner

def attachAll (records : List Record) : List Followup → List (List Record) → List Record
  | followup :: rest, heads :: more => attachAll (attach records followup heads) rest more
  | _, _ => records

/-- Records completed by what was left for later. The owners of all relations are known before the
heads of the first one are read. -/
def complete (followups : List Followup)
    (readAll : List (List Record) → Session σ (List (List Record))) (records : List Record) :
    Session σ (List Record) := do
  if followups.isEmpty || records.isEmpty then return records
  let owners ← followups.mapM (executor.ownerIds records)
  return attachAll records followups (← readAll owners)

mutual

/-- The heads of the owners with these identifiers, completed themselves. -/
def readHeads : Followup → List Record → Session σ (List Record)
  | .make owner key relation window head next, ids => do
    if ids.isEmpty then return []
    let query ← liftM (Sql.followUp executor.catalog executor.settings
      (.make owner key relation window head next) ids)
    executor.complete next (readAllHeads next) (← executor.fetch query)

def readAllHeads : List Followup → List (List Record) → Session σ (List (List Record))
  | followup :: rest, ids :: more => do
    let heads ← readHeads followup ids
    return heads :: (← readAllHeads rest more)
  | _, _ => return []

end

/-- The selected values of the requested instances, in the order of the request. -/
def find (selection : Selection) (request : Request) : Session σ (List Record) := do
  let query ← liftM (Sql.find executor.catalog executor.settings selection request)
  let records ← executor.complete selection.followups (executor.readAllHeads selection.followups)
    (← executor.fetch query)
  liftM (records.mapM selection.project)

/-- The number in the first row of a counting statement's answer. -/
def countOfRows (node : Node) (rows : List Record) : Session σ Nat :=
  let unexpected (value : Option Value) : Session σ Nat :=
    throw (.unexpectedRow s!"count of {node.name} is {Value.outlineOption value}")
  match rows.head?.bind (·.get? "count") with
  | some (.int number) =>
    if 0 ≤ number.toInt then return number.toInt.toNat else unexpected (some (.int number))
  | some (.string text) =>
    match Text.readCount text with
    | .ok number => return number
    | .error _ => throw (.unexpectedRow s!"count `{text}`")
  | value => unexpected value

def count (node : Node) (filter : Option Filter) : Session σ Nat := do
  let statement ← liftM (Sql.count executor.catalog node filter)
  countOfRows node (← liftM (executor.connector.read statement))

def write (statement : Except Sql.Error Sql.Statement) : Session σ Nat := do
  let statement ← liftM statement
  liftM (executor.connector.write statement)

def insert (node : Node) (records : List Record) : Session σ Nat :=
  executor.write (Sql.insert executor.catalog node records)

def update (node : Node) (filter : Option Filter) (record : Record) : Session σ Nat :=
  executor.write (Sql.update executor.catalog node filter record)

def delete (node : Node) (filter : Option Filter) : Session σ Nat :=
  executor.write (Sql.delete executor.catalog node filter)

end Executor

end LiveQuery
