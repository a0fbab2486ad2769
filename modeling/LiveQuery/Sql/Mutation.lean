import LiveQuery.Sql.Reading

set_option autoImplicit false

namespace LiveQuery.Sql

/-- The literals of a component's value, one for each of its columns. -/
def componentLiterals (catalog : Catalog) (component : Component) (value : Value) :
    Except Error (List Literal) :=
  match component with
  | .leaf field => return [← Literal.ofValue field.type value]
  | .edge link => do
    let head ← catalog.edgeHead link
    match value with
    | .null => return link.columns.map fun _ => .null
    | .record reference => keyLiterals head link reference
    | value => throw (.unexpected s!"reference of `{link.node}.{link.name}`" value.text)

/-- What an insert writes into the columns of a component; a record without the component leaves
them at their defaults. -/
def componentCells (catalog : Catalog) (record : Record) (component : Component) :
    Except Error (List Cell) :=
  match record.get? component.name with
  | some value => return (← componentLiterals catalog component value).map some
  | none => .ok (component.columns.map fun _ => none)

/-- The components that some record has, in the order of the node. -/
def writtenComponents (node : Node) (records : List Record) : List Component :=
  node.components.filter fun component =>
    records.any fun record => record.contains component.name

/-- The statement that adds instances. -/
def insert (catalog : Catalog) (node : Node) (records : List Record) : Except Error Statement := do
  if records.isEmpty then throw (.nothingToWrite node.name .insert)
  let records ← (records.mapM node.coerceRecord : Except StatementError _)
  let components := writtenComponents node records
  let columns ← (components.flatMap (·.columns)).mapM Identifier.ofText
  let rows ← records.mapM fun record =>
    return (← components.mapM (componentCells catalog record)).flatten
  return .insert (← Identifier.ofText node.table) columns rows

def assignments (catalog : Catalog) (node : Node) (table : Table) (entry : String × Value) :
    Except Error (List Assignment) := do
  let some component := node.component? entry.1
    | throw (.unexpected "update" entry.1)
  let literals ← componentLiterals catalog component entry.2
  (component.columns.zip literals).mapM fun (column, literal) =>
    return ⟨← table.column column, literal⟩

/-- The statement that sets the components of a record on all instances that match. -/
def update (catalog : Catalog) (node : Node) (filter : Option Filter) (record : Record) :
    Except Error Statement := do
  checkOwner node (filter.map (·.node))
  let record ← (node.coerceRecord record : Except StatementError _)
  if record.isEmpty then throw (.nothingToWrite node.name .update)
  Building.on (Table.root node) do
    let table ← get
    let assignments ← (record.mapM (assignments catalog node table) : Except Error _)
    let condition ← conditionOf catalog filter
    return .update (← (← get).source) assignments.flatten condition

/-- The statement that removes all instances that match. -/
def delete (catalog : Catalog) (node : Node) (filter : Option Filter) : Except Error Statement := do
  checkOwner node (filter.map (·.node))
  Building.on (Table.root node) do
    let condition ← conditionOf catalog filter
    let _ ← Alias.ofText (← get).label
    return .delete (← (← get).source) condition

end LiveQuery.Sql
