import LiveQuery.Selection.Followup
import LiveQuery.Filter.Reduction
import LiveQuery.Settings
import LiveQuery.Sql.Compilation
import LiveQuery.Sql.Statement

set_option autoImplicit false

namespace LiveQuery

/-- The columns in which a component is stored. -/
def Component.columns : Component → List String
  | .leaf field => [field.column]
  | .edge link => link.columns.map (·.column)

/-- Which instances of a node are wanted, in which order and how many. -/
structure Request where
  filter : Option Filter
  ordering : Option SortOrder
  offset : Nat
  limit : Option Nat

namespace Sql

/-- The key of a record's identifier among its columns. -/
def identifierKey : String := "__id"

/-- The key of the parent's identifier in the rows of a follow-up. -/
def parentKey : String := "__parent"

def checkLimit (settings : Settings) (limit : Nat) : Except Error Unit :=
  if limit > settings.maxLimit then .error (.limitExceeded limit settings.maxLimit) else .ok ()

def checkOwner (node : Node) (owner : Option Node) : Except Error Unit :=
  match owner with
  | none => .ok ()
  | some owner =>
    if owner.name = node.name then .ok ()
    else .error (.statement (.nodeMismatch node.name owner.name))

/-- A column under the dotted path of its key. -/
def selectColumn (table : Table) (column : String) (path : List String) :
    Except Error Selected := do
  let column ← table.column column
  return ⟨.column column, ← Alias.ofText (".".intercalate path)⟩

def selectIdentifier (table : Table) (path : List String) : Except Error (List Selected) := do
  let columns ← table.node.identifierComponents.mapM fun
    | .leaf field =>
      return [← selectColumn table field.column (path ++ [identifierKey, field.name])]
    | .edge link => link.columns.mapM fun foreignKey =>
      selectColumn table foreignKey.column
        (path ++ [identifierKey, link.name, foreignKey.headLeaf])
  return columns.flatten

/-- What a field takes from the table itself. -/
def selectOwn (catalog : Catalog) (path : List String) :
    SelectionField → Building (List Selected)
  | .leaf key field => do return [← selectColumn (← get) field.column (path ++ [key])]
  | .count key relation filter => do
    let (children, condition) ←
      children catalog relation (Condition.ofFilter catalog (filter.map (·.reduced)))
    return [⟨.count children condition, ← Alias.ofText (".".intercalate (path ++ [key]))⟩]
  | _ => return []

/-- The identifier, then what the fields take from the table itself, then what they take from
joined tables. -/
def selectWith (catalog : Catalog) (path : List String) (fields : List SelectionField)
    (heads : Building (List Selected)) : Building (List Selected) := do
  let identifier ← selectIdentifier (← get) path
  let own ← fields.mapM (selectOwn catalog path)
  return identifier ++ own.flatten ++ (← heads)

mutual

/-- What a field takes from joined tables. A relation to many takes nothing, but its limit must be
one that can be followed up. -/
def selectHead (catalog : Catalog) (settings : Settings) (path : List String) :
    SelectionField → Building (List Selected)
  | .edge key link head =>
    Table.visit catalog (.edge link) none
      (selectWith catalog (path ++ [key]) head (selectHeads catalog settings (path ++ [key]) head))
  | .unique key relation head =>
    Table.visit catalog (.reverse relation) none
      (selectWith catalog (path ++ [key]) head (selectHeads catalog settings (path ++ [key]) head))
  | .multiple _ _ window _ => do
    checkLimit settings window.limit
    return []
  | .leaf _ _ | .count _ _ _ => return []

def selectHeads (catalog : Catalog) (settings : Settings) (path : List String) :
    List SelectionField → Building (List Selected)
  | [] => return []
  | field :: rest => do
    let columns ← selectHead catalog settings path field
    return columns ++ (← selectHeads catalog settings path rest)

end

/-- The columns of a selection's fields, against a table of the selection's node. -/
def select (catalog : Catalog) (settings : Settings) (fields : List SelectionField) :
    Building (List Selected) :=
  selectWith catalog [] fields (selectHeads catalog settings [] fields)

def conditionOf (catalog : Catalog) (filter : Option Filter) : Building (Option Condition) :=
  match filter with
  | none => return none
  | some filter =>
    if filter.reduced.isTrue then return none
    else some <$> Condition.ofNodeFilter catalog filter.reduced

/-- The columns of the leaves that are sorted on. -/
def sortedColumns (expressions : List SortExpression) : List String :=
  expressions.filterMap fun expression =>
    match expression.target with
    | .leaf field => some field.column
    | .count _ => none

/-- The sort items, and behind them the identifier columns that are not sorted on, so that no two
rows are left without an order. -/
def orderOf (catalog : Catalog) (expressions : List SortExpression) :
    Building (List SortItem) := do
  let items ← SortItem.ofExpressions catalog expressions
  let table ← get
  let columns := (table.node.identifierComponents.flatMap (·.columns)).filter
    (!(sortedColumns expressions).contains ·)
  let rest ← columns.mapM fun column => do return ⟨.column (← table.column column), .ascending⟩
  return items ++ rest

/-- A limit clause. An offset alone needs one too. -/
def limitOf (settings : Settings) (request : Request) : Except Error (Option Limit) :=
  match request.limit with
  | some limit => do
    checkLimit settings limit
    return some ⟨limit, request.offset⟩
  | none => .ok (if request.offset > 0 then some ⟨Limit.unbounded, request.offset⟩ else none)

def findDirect (catalog : Catalog) (settings : Settings) (selection : Selection)
    (filter : Option Filter) (expressions : List SortExpression) (limit : Option Limit) :
    Building Find := do
  let columns ← select catalog settings selection.fields
  let condition ← conditionOf catalog filter
  let order ← orderOf catalog expressions
  return .direct columns ⟨← (← get).source, condition, order, limit⟩

/-- The name of the stage that lists the instances of a node. -/
def stageName (node : Node) : String := "cte_" ++ node.table

def listStage (catalog : Catalog) (node : Node) (filter : Option Filter)
    (expressions : List SortExpression) (limit : Option Limit) :
    Building (Identifier × Listing) := do
  let condition ← conditionOf catalog filter
  let order ← orderOf catalog expressions
  let stage ← Identifier.ofText (stageName node)
  let _ ← Alias.ofText (← get).label
  return (stage, ⟨← (← get).source, condition, order, limit⟩)

def findStaged (catalog : Catalog) (settings : Settings) (selection : Selection)
    (expressions : List SortExpression) (stage : Identifier) (listing : Listing) :
    Building Find := do
  let columns ← select catalog settings selection.fields
  let order ← orderOf catalog expressions
  return .staged stage listing columns (← (← get).source) order

/-- Runs against a table of its own. -/
def Building.on {α : Type} (table : Table) (action : Building α) : Except Error α :=
  match action table with
  | .ok value _ => .ok value
  | .error error _ => .error error

/-- The statement that reads the requested instances. -/
def find (catalog : Catalog) (settings : Settings) (selection : Selection) (request : Request) :
    Except Error Find := do
  let node := selection.node
  checkOwner node (request.filter.map (·.node))
  checkOwner node (request.ordering.map (·.node))
  let limit ← limitOf settings request
  let expressions := ((request.ordering.map (·.reduced)).map (·.expressions)).getD []
  if settings.staged then
    let (stage, listing) ←
      (listStage catalog node request.filter expressions limit).on (Table.root node)
    (findStaged catalog settings selection expressions stage listing).on
      ((Table.root node).withName (stageName node))
  else
    (findDirect catalog settings selection request.filter expressions limit).on (Table.root node)

/-- The columns of a foreign key in the table that holds it. -/
def foreignKey (table : Table) (edge : Edge) : Except Error (List Column) :=
  edge.columns.mapM fun foreignKey => table.column foreignKey.column

/-- A leaf's value in a record of its node. -/
def leafLiteral (node : Node) (record : Record) (name : String) : Except Error Literal := do
  let some value := record.get? name | throw (.statement (.missingValue node.name name))
  let leaf ← node.leaf name
  Literal.ofValue leaf.type value

/-- The values of an edge's foreign key in the rows that refer to a head. -/
def keyLiterals (head : Node) (edge : Edge) (record : Record) : Except Error (List Literal) :=
  edge.columns.mapM fun foreignKey => leafLiteral head record foreignKey.headLeaf

def rank (catalog : Catalog) (followup : Followup) (parent : Node) (parents : List Record) :
    Building Ranking := do
  let edge := followup.relation.edge
  let table ← get
  let foreignKey ← foreignKey table edge
  let parents ← (parents.mapM (keyLiterals parent edge) : Except Error _)
  let condition ← Condition.ofFilter catalog (followup.window.filter.map (·.reduced))
  let expressions :=
    (followup.window.ordering.map fun order => (SortOrder.mk table.node order).reduced.expressions)
  let order ← orderOf catalog (expressions.getD [])
  let _ ← Alias.ofText table.label
  return ⟨← (← get).source, foreignKey, parents, condition, order⟩

def findRanked (catalog : Catalog) (settings : Settings) (followup : Followup)
    (ranking : Ranking) : Building Find := do
  let edge := followup.relation.edge
  let columns ← select catalog settings followup.head
  let table ← get
  let parents ← (edge.columns.mapM fun foreignKey =>
    selectColumn table foreignKey.column [parentKey, foreignKey.headLeaf] : Except Error _)
  let foreignKey ← foreignKey table edge
  let rank : Column := ⟨← Alias.ofText table.label, Ranking.rankName⟩
  let joins ← table.leftJoins
  let window := followup.window
  let last := min (window.offset + window.limit) Limit.unbounded
  return .ranked ranking (columns ++ parents) joins foreignKey rank window.offset last

/-- The statement that reads the heads of a relation for the given parents: grouped by parent, and
within a parent in the order that was asked for. -/
def followUp (catalog : Catalog) (settings : Settings) (followup : Followup)
    (parents : List Record) : Except Error Find := do
  checkLimit settings followup.window.limit
  let parent ← catalog.node followup.relation.node
  let head ← catalog.reverseEdgeHead followup.relation
  let ranking ← (rank catalog followup parent parents).on (Table.root head)
  (findRanked catalog settings followup ranking).on (Table.root head)

/-- The statement that counts the instances that match. -/
def count (catalog : Catalog) (node : Node) (filter : Option Filter) : Except Error Statement := do
  checkOwner node (filter.map (·.node))
  Building.on (Table.root node) do
    let condition ← conditionOf catalog filter
    return .count (← (← get).source) condition

end Sql

end LiveQuery
