import LiveQuery.Sql.Source

set_option autoImplicit false

namespace LiveQuery.Sql

/-- A relation that joins at most one row to each row. -/
inductive JoinRelation where
  | edge (link : Edge)
  | reverse (relation : ReverseEdge)
  deriving DecidableEq

namespace JoinRelation

def name : JoinRelation → String
  | .edge link => link.name
  | .reverse relation => relation.name

/-- The node that the relation starts from. -/
def owner : JoinRelation → String
  | .edge link => link.node
  | .reverse relation => relation.node

/-- The sign between a table's alias and the relation's name. -/
def mark : JoinRelation → String
  | .edge _ => ">"
  | .reverse _ => "<"

def head (catalog : Catalog) : JoinRelation → Except CatalogError Node
  | .edge link => catalog.edgeHead link
  | .reverse relation => catalog.reverseEdgeHead relation

/-- A reverse edge with many heads cannot be joined, as it would repeat rows. -/
def check : JoinRelation → Except Error Unit
  | .edge _ => .ok ()
  | .reverse relation =>
    match relation.multiplicity with
    | .unique => .ok ()
    | .multiple => .error (.unexpected "join of a multiple reverse edge" relation.name)

end JoinRelation

mutual

inductive Table where
  | make (label name : String) (node : Node) (joins : List Join)

/-- A joined table. The key tells joins of one relation apart. -/
inductive Join where
  | make (relation : JoinRelation) (key : Option String) (table : Table)

end

abbrev Building := EStateM Error Table

instance : MonadLift (Except Error) Building where
  monadLift
    | .ok value => fun table => .ok value table
    | .error error => fun table => .error error table

instance : MonadLift (Except CatalogError) (Except Error) where
  monadLift
    | .ok value => .ok value
    | .error error => .error (.statement (.catalog error))

namespace Table

def label : Table → String
  | .make label _ _ _ => label

def name : Table → String
  | .make _ name _ _ => name

def node : Table → Node
  | .make _ _ node _ => node

def joins : Table → List Join
  | .make _ _ _ joins => joins

def withName (name : String) : Table → Table
  | .make label _ node joins => .make label name node joins

def withJoins (joins : List Join) : Table → Table
  | .make label name node _ => .make label name node joins

/-- The table of a node without joins. -/
def ofNode (node : Node) (label : String) : Table := .make label node.table node []

/-- The table that a statement starts from; its name is also its alias. -/
def root (node : Node) : Table := ofNode node node.table

/-- The alias of a table that a relation leads to. -/
def headAlias (table : Table) (mark relation : String) : String :=
  table.label ++ mark ++ relation

def joinAlias (table : Table) (relation : JoinRelation) (key : Option String) : String :=
  table.headAlias relation.mark relation.name ++
    match key with
    | some key => "#" ++ key
    | none => ""

mutual

/-- How many tables are joined to a table, directly or through others. -/
def joinCount : Table → Nat
  | .make _ _ _ joins => joinCountAll joins

def joinCountAll : List Join → Nat
  | [] => 0
  | .make _ _ table :: rest => 1 + joinCount table + joinCountAll rest

end

/-- The table joined by a relation and key, with the joins before and behind it. -/
def splitAt? (relation : JoinRelation) (key : Option String) :
    List Join → Option (List Join × Table × List Join)
  | [] => none
  | .make present presentKey table :: rest =>
    if present = relation ∧ presentKey = key then some ([], table, rest)
    else
      (splitAt? relation key rest).map fun (before, found, after) =>
        (.make present presentKey table :: before, found, after)

/-- Goes on with a joined table and puts it back, as far as it got, between its neighbours. -/
def within {α : Type} (relation : JoinRelation) (key : Option String) (before after : List Join)
    (joined : Table) (action : Building α) : Building α := fun table =>
  let put (joined : Table) : Table :=
    table.withJoins (before ++ .make relation key joined :: after)
  match action joined with
  | .ok value joined => .ok value (put joined)
  | .error error joined => .error error (put joined)

/-- Goes on with the table that a relation leads to, joining it if it is not joined yet. -/
def visit {α : Type} (catalog : Catalog) (relation : JoinRelation) (key : Option String)
    (action : Building α) : Building α := do
  let table ← get
  if relation.owner ≠ table.node.name then
    throw (.unexpected s!"join from `{table.label}`" relation.name)
  relation.check
  match splitAt? relation key table.joins with
  | some (before, joined, after) => within relation key before after joined action
  | none =>
    let head ← liftM (m := Except Error) (relation.head catalog)
    within relation key table.joins [] (ofNode head (table.joinAlias relation key)) action

def column (table : Table) (name : String) : Except Error Column :=
  return ⟨← Alias.ofText table.label, ← Identifier.ofText name⟩

def named (table : Table) : Except Error NamedTable :=
  return ⟨← Identifier.ofText table.name, ← Alias.ofText table.label⟩

/-- What a child row that holds an edge and the parent row that it refers to have in common. -/
def correlate (edge : Edge) (child parent : Table) : Except Error (List Match) :=
  edge.columns.mapM fun foreignKey => do
    let leaf ← parent.node.leaf foreignKey.headLeaf
    return ⟨← child.column foreignKey.column, ← parent.column leaf.column⟩

/-- What a row and the row that a relation joins to it have in common. -/
def matching (table joined : Table) : JoinRelation → Except Error (List Match)
  | .edge link =>
    link.columns.mapM fun foreignKey => do
      let leaf ← joined.node.leaf foreignKey.headLeaf
      return ⟨← table.column foreignKey.column, ← joined.column leaf.column⟩
  | .reverse relation => correlate relation.edge joined table

mutual

/-- Every table joined to a table, directly or through others, each behind the one it hangs on. -/
def leftJoins : Table → Except Error (List LeftJoin)
  | .make label name node joins => leftJoinsAll (.make label name node []) joins

def leftJoinsAll (table : Table) : List Join → Except Error (List LeftJoin)
  | [] => .ok []
  | .make relation _ joined :: rest => do
    let named ← joined.named
    let pairs ← matching table joined relation
    return ⟨named, pairs⟩ :: (← leftJoins joined) ++ (← leftJoinsAll table rest)

end

def source (table : Table) : Except Error Source := return ⟨← table.named, ← table.leftJoins⟩

end Table

end LiveQuery.Sql
