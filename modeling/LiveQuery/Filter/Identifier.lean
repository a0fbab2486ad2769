import LiveQuery.Filter.Reduction

set_option autoImplicit false

namespace LiveQuery

namespace Filter

def requireComponent (node : Node) (id : Record) (component : Component) :
    Except StatementError Value :=
  match id.get? component.name with
  | some value => .ok value
  | none => .error (.missingValue node.name component.name)

/-- One condition of the identifier of an edge's head. -/
def headCondition (head : Node) (id : Record) (component : Component) :
    Except StatementError Predicate := do
  let value ← requireComponent head id component
  match component with
  | .leaf field => return (← leaf head field.name (.compared .eq) value).predicate
  | .edge link => throw (.catalog (.unsupportedEdgeHead link.node link.name link.head))

/-- One condition of an identifier. -/
def identifierCondition (catalog : Catalog) (node : Node) (id : Record) (component : Component) :
    Except StatementError Predicate := do
  let value ← requireComponent node id component
  match component with
  | .leaf field => return (← leaf node field.name (.compared .eq) value).predicate
  | .edge link => do
    let head ← catalog.edgeHead link
    match value with
    | .record headId =>
      let conditions ← head.identifierComponents.mapM (headCondition head headId)
      return .edge link (some (Predicate.junction .all conditions).reduced)
    | value =>
      throw (.invalidValue node.name link.name ("reference to " ++ link.head) value.text)

/-- The instances that have this identifier. -/
def identifier (catalog : Catalog) (node : Node) (id : Record) : Except StatementError Filter := do
  let conditions ← node.identifierComponents.mapM (identifierCondition catalog node id)
  return ⟨node, (Predicate.junction .all conditions).reduced⟩

end Filter

end LiveQuery
