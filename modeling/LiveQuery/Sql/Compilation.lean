import LiveQuery.Sql.Condition
import LiveQuery.Sql.Table

set_option autoImplicit false

namespace LiveQuery.Sql

/-- The child rows of a relation, tested against a table of their own. The table that the relation
starts from gets no join. -/
def children (catalog : Catalog) (relation : ReverseEdge) (filter : Building (Option Condition)) :
    Building (Children × Option Condition) := do
  let parent ← get
  let head ← liftM (m := Except Error) (catalog.reverseEdgeHead relation)
  let child := Table.ofNode head (parent.headAlias "<" relation.name)
  let matching ← Table.correlate relation.edge child parent
  match filter child with
  | .ok condition child => return (⟨← child.source, matching⟩, condition)
  | .error error _ => throw error

namespace Condition

/-- A condition on a column that holds of no row in which the column is null. -/
def guarded (field : Leaf) (column : Column) (condition : Condition) : Condition :=
  if field.nullable then .junction .all [.isSet column, condition] else condition

def ofComparison (field : Leaf) (column : Column) (comparison : Comparison) (value : Value) :
    Except Error Condition :=
  match comparison with
  | .eq =>
    if value.isNull then .ok (.isNull column)
    else
      return .compared column (if field.nullable then .nullSafe else .compared .eq)
        (← Literal.ofValue field.type value)
  | .ne =>
    if value.isNull then .ok (.isSet column)
    else if field.nullable then
      return .negation (.compared column .nullSafe (← Literal.ofValue field.type value))
    else return .compared column (.compared .ne) (← Literal.ofValue field.type value)
  | comparison =>
    return guarded field column
      (.compared column (.compared comparison) (← Literal.ofValue field.type value))

/-- Membership in a list, which may have null among its items. -/
def ofItems (field : Leaf) (column : Column) (items : List Value) : Except Error Condition := do
  let literals ← (items.filter (!·.isNull)).mapM (Literal.ofValue field.type)
  let listed := if literals.isEmpty then [] else [guarded field column (.among column literals)]
  let null := if items.any (·.isNull) then [isNull column] else []
  match listed ++ null with
  | [] => return .constant false
  | [part] => return part
  | parts => return .junction .any parts

def ofList (field : Leaf) (column : Column) (value : Value) : Except Error Condition :=
  match value with
  | .list items => ofItems field column items
  | value => .error (.unexpected "IN list" value.text)

def ofLeaf (table : Table) (field : Leaf) (operator : LeafOperator) (value : Value) :
    Except Error Condition := do
  let column ← table.column field.column
  match operator with
  | .compared comparison => ofComparison field column comparison value
  | .among => ofList field column value
  | .notAmong => return .negation (← ofList field column value)
  | .fullText =>
    match value with
    | .string terms => return .fullText column terms
    | value => throw (.wrongLiteral "full-text terms" value.text)

/-- The columns whose values show whether an edge is set; none if it always is. -/
def guards (table : Table) (link : Edge) : Except Error (List Column) :=
  link.columns.mapM fun foreignKey => table.column foreignKey.column

mutual

def ofPredicate (catalog : Catalog) : Predicate → Building Condition
  | .constant value => return .constant value
  | .junction kind operands => return .junction kind (← ofPredicates catalog operands)
  | .negation operand => return .negation (← ofPredicate catalog operand)
  | .leaf field operator value => do ofLeaf (← get) field operator value
  | .edge link head => do
    if link.nullable then
      let columns ← guards (← get) link
      return .linked columns (← ofHead catalog link head)
    else return (← ofHead catalog link head).getD (.constant true)
  | .reverse relation head => do
    let (children, filter) ← children catalog relation (ofFilter catalog head)
    return .anyChild children filter
  | .count relation comparison number => do
    let (children, _) ← children catalog relation (return none)
    return .childCount children comparison number
  | .raw sql => do return .raw sql (← Alias.ofText (← get).label)

def ofPredicates (catalog : Catalog) : List Predicate → Building (List Condition)
  | [] => return []
  | operand :: rest => do
    let condition ← ofPredicate catalog operand
    return condition :: (← ofPredicates catalog rest)

/-- The condition on the head of an edge, against the head's table. -/
def ofHead (catalog : Catalog) (link : Edge) : Option Predicate → Building (Option Condition)
  | none => return none
  | some head => some <$> Table.visit catalog (.edge link) none (ofPredicate catalog head)

/-- An optional condition; the one that always holds is left out. -/
def ofFilter (catalog : Catalog) : Option Predicate → Building (Option Condition)
  | none => return none
  | some filter => if filter.isTrue then return none else some <$> ofPredicate catalog filter

end

end Condition

/-- A filter as a condition against a table of its node. -/
def Condition.ofNodeFilter (catalog : Catalog) (filter : Filter) : Building Condition := do
  let node := (← get).node.name
  if filter.node.name ≠ node then throw (.statement (.nodeMismatch node filter.node.name))
  Condition.ofPredicate catalog filter.predicate

namespace SortItem

def ofExpression (catalog : Catalog) (expression : SortExpression) : Building SortItem := do
  let table ← get
  match expression.target with
  | .leaf field =>
    if field.node ≠ table.node.name then
      throw (.unexpected s!"ordering of `{table.node.name}`" field.name)
    return ⟨.column (← table.column field.column), expression.direction⟩
  | .count relation =>
    let (children, _) ← children catalog relation (return none)
    return ⟨.count children none, expression.direction⟩

def ofExpressions (catalog : Catalog) (expressions : List SortExpression) :
    Building (List SortItem) :=
  expressions.mapM (ofExpression catalog)

end SortItem

end LiveQuery.Sql
