import LiveQuery.Filter.Identifier
import LiveQuery.Selection

set_option autoImplicit false

namespace LiveQuery

namespace Predicate

/-- Nothing is affected where the change touches nothing that is read. -/
def unlessUntouched (graph : DependencyGraph) (change : Change)
    (result : Except StatementError (Option Predicate)) :
    Except StatementError (Option Predicate) :=
  if graph.touchedBy change then result else .ok none

/-- All instances that any of the results matches. -/
def union (results : List Predicate) : Option Predicate :=
  if results.isEmpty then none else some (junction .any results).reduced

/-- The changed instance itself. -/
def changedInstance (catalog : Catalog) (node : Node) (change : Change) :
    Except StatementError Predicate :=
  return (← Filter.identifier catalog node change.identifier).predicate

/-- An instance of the node appears or disappears, or its component changes. -/
def changesComponent (node component : String) (change : Change) : Bool :=
  change.node.name = node && (change.isExistence || change.touches component)

def instanceIf (condition : Bool) (catalog : Catalog) (node : Node) (change : Change) :
    Except StatementError (List Predicate) :=
  if condition then return [← changedInstance catalog node change] else .ok []

/-- Whether a side of the change that exists does not tell the value of a component. -/
def lacksValue (component : String) (change : Change) : Bool :=
  let (before, after) := change.valuesOf component
  match change.transition with
  | .creation _ => after.isNone
  | .deletion _ => before.isNone
  | .update _ _ => before.isNone || after.isNone

/-- The instance that a reference refers to. -/
def parentOf (catalog : Catalog) (node : Node) : Value → Except StatementError (List Predicate)
  | .record identifier => return [(← Filter.identifier catalog node identifier).predicate]
  | _ => .ok []

/-- What a change of a child means for the node that it refers to. A child that comes, goes or
moves affects the parents it leaves and joins; other results on children affect their parents. -/
def throughReverse (catalog : Catalog) (node : Node) (relation : ReverseEdge)
    (headResults : List Predicate) (change : Change) : Except StatementError (List Predicate) := do
  let head ← catalog.reverseEdgeHead relation
  let wrap (results : List Predicate) : List Predicate :=
    results.map fun result => .reverse relation (some result)
  if changesComponent head.name relation.edge.name change then
    if lacksValue relation.edge.name change then return [.constant true]
    else
      let (before, after) := change.valuesOf relation.edge.name
      let parents ← (before.toList ++ after.toList).mapM (parentOf catalog node)
      let child ← changedInstance catalog head change
      return parents.flatten ++ wrap (headResults.filter (child != ·))
  else return wrap headResults

mutual

/-- Instances of the node whose membership may have changed. -/
def affected (catalog : Catalog) (change : Change) (node : Node) (predicate : Predicate) :
    Except StatementError (Option Predicate) :=
  unlessUntouched (predicate.dependencies node.name) change <|
    match predicate with
    | .constant _ => .ok none
    | .raw _ => .ok (some (.constant true))
    | .junction _ operands => return union (← affectedAll catalog change node operands)
    | .negation operand => affected catalog change node operand
    | .leaf field _ _ => do
      let condition := changesComponent node.name field.name change
      return union (← instanceIf condition catalog node change)
    | .edge link head => do
      let condition := changesComponent node.name link.name change
      let own ← instanceIf condition catalog node change
      let below ← affectedHead catalog change (catalog.edgeHead link) head
      return union (own ++ below.map fun result => .edge link (some result))
    | .reverse relation head => do
      let below ← affectedHead catalog change (catalog.reverseEdgeHead relation) head
      return union (← throughReverse catalog node relation below change)
    | .count relation _ _ => return union (← throughReverse catalog node relation [] change)

def affectedAll (catalog : Catalog) (change : Change) (node : Node) :
    List Predicate → Except StatementError (List Predicate)
  | [] => .ok []
  | operand :: rest => do
    let result ← affected catalog change node operand
    return result.toList ++ (← affectedAll catalog change node rest)

def affectedHead (catalog : Catalog) (change : Change) (head : Except CatalogError Node) :
    Option Predicate → Except StatementError (List Predicate)
  | none => .ok []
  | some predicate => return (← affected catalog change (← head) predicate).toList

end

end Predicate

namespace SelectionField

/-- A stored value goes stale through updates only. -/
def updatesComponent (node component : String) (change : Change) : Bool :=
  !change.isExistence && Predicate.changesComponent node component change

/-- Heads that may enter or leave the window: those whose membership changes, and those that may
move in the order. Where a change below a head moves it, any head may be meant. -/
def movedInWindow (catalog : Catalog) (change : Change) (head : Node) (window : Window) :
    Except StatementError (List Predicate) := do
  let matching ← Predicate.affectedHead catalog change (.ok head) window.filter
  let reordered :=
    (window.ordering.getD []).any fun expression => expression.affectedBy head.name change
  if !reordered then return matching
  else if change.node.name = head.name then
    return matching ++ [← Predicate.changedInstance catalog head change]
  else return matching ++ [.constant true]

mutual

/-- Instances of the node whose value for one field may be stale. -/
def stale (catalog : Catalog) (change : Change) (node : Node) :
    SelectionField → Except StatementError (List Predicate)
  | .leaf _ field =>
    Predicate.instanceIf (updatesComponent node.name field.name change) catalog node change
  | .edge _ link head => do
    let condition := updatesComponent node.name link.name change
    let own ← Predicate.instanceIf condition catalog node change
    let below ← staleHead catalog change (← catalog.edgeHead link) head
    return own ++ below.toList.map fun result => .edge link (some result)
  | .unique _ relation head => do
    let below ← staleHead catalog change (← catalog.reverseEdgeHead relation) head
    Predicate.throughReverse catalog node relation below.toList change
  | .multiple _ relation window head => do
    let headNode ← catalog.reverseEdgeHead relation
    let moved ← movedInWindow catalog change headNode window
    let below ← staleHead catalog change headNode head
    Predicate.throughReverse catalog node relation (moved ++ below.toList) change
  | .count _ relation filter => do
    let below ← Predicate.affectedHead catalog change (catalog.reverseEdgeHead relation) filter
    Predicate.throughReverse catalog node relation below change

def staleAll (catalog : Catalog) (change : Change) (node : Node) :
    List SelectionField → Except StatementError (List Predicate)
  | [] => .ok []
  | field :: rest => do
    let results ← stale catalog change node field
    return results ++ (← staleAll catalog change node rest)

/-- Instances of the node whose value for any field may be stale. -/
def staleHead (catalog : Catalog) (change : Change) (node : Node) (fields : List SelectionField) :
    Except StatementError (Option Predicate) :=
  Predicate.unlessUntouched (readAll (.empty node.name) fields) change <|
    match fields with
    | [] => .ok none
    | field :: rest => do
      let results ← stale catalog change node field
      return Predicate.union (results ++ (← staleAll catalog change node rest))

end

end SelectionField

/-- The instances that a change may have made enter or leave the filter. -/
def Filter.affected (catalog : Catalog) (filter : Filter) (change : Change) :
    Except StatementError (Option Filter) :=
  return (← filter.predicate.affected catalog change filter.node).map (⟨filter.node, ·⟩)

/-- The instances whose selected value a change may have made stale. -/
def Selection.stale (catalog : Catalog) (selection : Selection) (change : Change) :
    Except StatementError (Option Filter) :=
  return (← SelectionField.staleHead catalog change selection.node selection.fields).map
    (⟨selection.node, ·⟩)

end LiveQuery
