import LiveQuery.Impact.Affected

set_option autoImplicit false

namespace LiveQuery

inductive Impact where
  | unaffected
  | reselect (filter : Filter)
  | reevaluateAll

namespace Impact

def text : Impact → String
  | .unaffected => "unaffected"
  | .reselect filter => "re-select " ++ filter.text
  | .reevaluateAll => "re-evaluate all"

def isUnaffected : Impact → Bool
  | .unaffected => true
  | _ => false

/-- All instances that the results of one change match. -/
def ofResults (node : Node) (results : List Filter) : Impact :=
  match Predicate.union (results.map (·.predicate)) with
  | none => .unaffected
  | some predicate => if predicate.isTrue then .reevaluateAll else .reselect ⟨node, predicate⟩

end Impact

/-- The impact of each change of a mutation, and whether the result may have to be sorted anew. -/
structure MutationImpact where
  impacts : List Impact
  reordered : Bool

namespace MutationImpact

def isUnaffected (impact : MutationImpact) : Bool :=
  !impact.reordered && impact.impacts.all (·.isUnaffected)

/-- The filters of the impacts up to the first that asks for everything, which is none. -/
def filters? : List Impact → Option (List Filter)
  | [] => some []
  | .unaffected :: rest => filters? rest
  | .reselect filter :: rest => (filters? rest).map (filter :: ·)
  | .reevaluateAll :: _ => none

/-- One filter that covers every impact. -/
def combined (node : Node) (impact : MutationImpact) : Except StatementError (Option Filter) :=
  match filters? impact.impacts with
  | none => .ok (some (.constant node true))
  | some [] => .ok none
  | some filters => return some (← Filter.junction node .any filters).reduced

end MutationImpact

/-- What a live query reads. The filter is kept in normal form. -/
structure Subscription where
  node : Node
  filter : Option Filter
  order : Option SortOrder
  selection : Selection

namespace Subscription

def make (node : Node) (filter : Option Filter) (order : Option SortOrder)
    (selection : Selection) : Except StatementError Subscription :=
  let owners := (filter.map (·.node.name)).toList ++ (order.map (·.node.name)).toList ++
    [selection.node.name]
  match owners.find? (· ≠ node.name) with
  | some foreign => .error (.nodeMismatch node.name foreign)
  | none => .ok ⟨node, filter.map (·.reduced), order, selection⟩

/-- An instance of the root that appears or disappears always matters. Otherwise the filter and the
selection tell. -/
def evaluateChange (catalog : Catalog) (subscription : Subscription) (change : Change) :
    Except StatementError Impact :=
  if change.node.name = subscription.node.name && change.isExistence then
    return .reselect (← Filter.identifier catalog subscription.node change.identifier)
  else do
    let matching ←
      match subscription.filter with
      | some filter => filter.affected catalog change
      | none => pure none
    let stale ← subscription.selection.stale catalog change
    return .ofResults subscription.node (matching.toList ++ stale.toList)

/-- The impact of every change of a mutation, in their order. -/
def evaluate (catalog : Catalog) (subscription : Subscription) (changes : Aggregation) :
    Except StatementError MutationImpact := do
  let impacts ← changes.mapM (subscription.evaluateChange catalog)
  let reordered :=
    match subscription.order with
    | some order => changes.any order.affectedBy
    | none => false
  return ⟨impacts, reordered⟩

end Subscription

end LiveQuery
