import LiveQuery.Execution.Executor
import LiveQuery.Filter.Identifier
import LiveQuery.Impact.Affected
import LiveQuery.Selection.Identifier
import LiveQuery.Selection.Merge

set_option autoImplicit false

namespace LiveQuery

/-- What is known of an instance: its selected values, or that it does not exist. -/
structure Cached where
  selection : Selection
  value : Option Record

/-- What is known of instances, by the text of their identifiers. -/
abbrev Cache := Entries Cached

structure Loader (σ : Type) where
  executor : Executor σ
  node : Node

/-- The cache of a loader and the state of the store behind it. -/
structure Loading (σ : Type) where
  cache : Cache
  store : σ

abbrev LoadingSession (σ : Type) := EStateM ExecutionError (Loading σ)

instance {σ : Type} : MonadLift (Session σ) (LoadingSession σ) where
  monadLift action := fun loading =>
    match action loading.store with
    | .ok value store => .ok value { loading with store }
    | .error error store => .error error { loading with store }

namespace Loader

variable {σ : Type} (loader : Loader σ)

def liftStatement {α : Type} (result : Except StatementError α) : LoadingSession σ α :=
  liftM (m := Session σ) (liftM result)

/-- The ids that have to be read, each once, and a selection that also keeps what is known of them,
as far as the selections agree. -/
def misses (cache : Cache) (selection : Selection) :
    Selection → List Record → List Record → Selection × List Record
  | wide, missed, [] => (wide, missed)
  | wide, missed, id :: rest =>
    match cache.get? id.text with
    | none =>
      misses cache selection wide (if missed.any (·.same id) then missed else missed ++ [id]) rest
    | some known =>
      if known.selection.includes selection || missed.any (·.same id) then
        misses cache selection wide missed rest
      else
        let wide := ((wide.merge known.selection).toOption).getD wide
        misses cache selection wide (missed ++ [id]) rest

/-- Takes read values into a cache, each under its own identifier. -/
def remember (selection : Selection) : List Record → LoadingSession σ Unit
  | [] => return
  | value :: rest => do
    let id ← liftStatement (loader.node.identifierOf value)
    modify fun loading =>
      { loading with cache := loading.cache.insert id.text ⟨selection, some value⟩ }
    remember selection rest

/-- Reads instances into the cache. Those that are not found are known not to exist. -/
def fetch (ids : List Record) (selection : Selection) : LoadingSession σ Unit := do
  let catalog := loader.executor.catalog
  let identifier ← liftStatement (Selection.identifier catalog loader.node)
  let selection ← liftStatement (selection.merge identifier)
  let filters ← liftStatement (ids.mapM (Filter.identifier catalog loader.node))
  let filter ← liftStatement (Filter.junction loader.node .any filters)
  let values ← liftM (loader.executor.find selection ⟨some filter, none, 0, none⟩)
  let absent (cache : Cache) (id : Record) : Cache := cache.insert id.text ⟨selection, none⟩
  modify fun loading => { loading with cache := ids.foldl absent loading.cache }
  loader.remember selection values

/-- The cached value of an instance, cut down to a selection. -/
def serve (cache : Cache) (selection : Selection) (id : Record) :
    Except StatementError (Option Record) :=
  match (cache.get? id.text).bind (·.value) with
  | some value => return some (← selection.project value)
  | none => .ok none

/-- The selected values of instances in the order of their identifiers, none where there is no such
instance. -/
def loadMany (ids : List Record) (selection : Selection) :
    LoadingSession σ (List (Option Record)) := do
  if selection.node.name ≠ loader.node.name then
    liftStatement (.error (.nodeMismatch loader.node.name selection.node.name))
  let ids ← liftStatement (ids.mapM loader.node.identifierOf)
  let (wide, missed) := misses (← get).cache selection selection [] ids
  unless missed.isEmpty do
    loader.fetch missed wide
  let cache := (← get).cache
  liftStatement (ids.mapM (serve cache selection))

def load (id : Record) (selection : Selection) : LoadingSession σ (Option Record) := do
  return (← loader.loadMany [id] selection).getLast?.join

/-- Whether a change can have made a cached value stale. An instance known not to exist stays so
until it is created itself. -/
def isStale (catalog : Catalog) (change : Change) (known : Cached) :
    Except StatementError Bool := do
  let some value := known.value | return false
  let some affected ← known.selection.stale catalog change | return false
  match affected.execute value with
  | .ok matched => return matched
  | .error _ => return true

/-- The keys of all cached values that a change can have made stale. -/
def staleKeys (catalog : Catalog) (change : Change) :
    List (String × Cached) → Except StatementError (List String)
  | [] => .ok []
  | (key, known) :: rest => do
    let stale ← isStale catalog change known
    let keys ← staleKeys catalog change rest
    return if stale then key :: keys else keys

/-- Forgets all that a change can have made stale, and the changed instance in any case. -/
def invalidate (change : Change) : LoadingSession σ Unit := do
  if change.node.name = loader.node.name then
    modify fun loading => { loading with cache := loading.cache.erase change.identifier.text }
  let keys ← liftStatement (staleKeys loader.executor.catalog change (← get).cache)
  modify fun loading => { loading with cache := keys.foldl Entries.erase loading.cache }

def clear : LoadingSession σ Unit := modify fun loading => { loading with cache := [] }

end Loader

end LiveQuery
