import LiveQuery.Selection

set_option autoImplicit false

namespace LiveQuery

namespace SelectionField

/-- A component of the identifier of an edge's head; such an identifier holds leaves only. -/
def headIdentifierField : Component → Except StatementError SelectionField
  | .leaf field => .ok (.leaf field.name field)
  | .edge link => .error (.catalog (.unsupportedEdgeHead link.node link.name link.head))

def headIdentifier (head : Node) : Except StatementError (List SelectionField) := do
  check head.name (← head.identifierComponents.mapM headIdentifierField)

def identifierField (catalog : Catalog) : Component → Except StatementError SelectionField
  | .leaf field => .ok (.leaf field.name field)
  | .edge link => do
    return .edge link.name link (← headIdentifier (← catalog.edgeHead link))

def identifier (catalog : Catalog) (node : Node) : Except StatementError (List SelectionField) := do
  check node.name (← node.identifierComponents.mapM (identifierField catalog))

end SelectionField

def Selection.identifier (catalog : Catalog) (node : Node) : Except StatementError Selection :=
  return ⟨node, ← SelectionField.identifier catalog node⟩

end LiveQuery
