import LiveQuery.Proofs.Sql.Columns

set_option autoImplicit false

namespace LiveQuery

/-- The columns of a node's table. -/
def Node.columns (node : Node) : List String := node.components.flatMap (·.columns)

/-- What a record has of a component, by its path, and the column that it is stored in. -/
def Component.storage : Component → List (List String × String)
  | .leaf field => [([field.name], field.column)]
  | .edge link => link.columns.map fun column => ([link.name, column.headLeaf], column.column)

namespace Sql

/-- A table under its alias: the node whose rows it holds, and the relations that lead to them from
the first table of the query. -/
structure Declaration where
  label : String
  node : Node
  route : List JoinRelation

/-- What FROM and the joins of a query declare, in their order. -/
abbrev Frame := List Declaration

/-- What an alias stands for, and by how many queries further out it is declared. -/
def resolve? : List Frame → String → Option (Nat × Declaration)
  | [], _ => none
  | frame :: outer, label =>
    match frame.find? (·.label = label) with
    | some declaration => some (0, declaration)
    | none => (resolve? outer label).map fun (depth, declaration) => (depth + 1, declaration)

/-- A place in a statement: the table that is spoken of, what its query declares, and what the
queries around that declare, the innermost first. -/
structure Site where
  here : Declaration
  frame : Frame
  outer : List Frame

/-- The same place, but of another table. -/
def Site.at (site : Site) (declaration : Declaration) : Site := { site with here := declaration }

/-- The column is that of a declared table, and one that the table's node has. -/
structure Site.Denotes (site : Site) (depth : Nat) (declaration : Declaration) (name : String)
    (column : Column) : Prop where
  resolved : resolve? (site.frame :: site.outer) column.table.text = some (depth, declaration)
  named : column.name.text = name
  stored : name ∈ declaration.node.columns

/-- The pairs compare a foreign key in one declared table with what it repeats in another one. -/
def Site.Correlates (site : Site) (link : Edge) (holder target : Nat × Declaration)
    (pairs : List Match) : Prop :=
  List.Forall₂ (fun foreignKey pair =>
    site.Denotes holder.1 holder.2 foreignKey.column pair.left ∧
      ∃ leaf, target.2.node.leaf foreignKey.headLeaf = .ok leaf ∧
        site.Denotes target.1 target.2 leaf.column pair.right) link.columns pairs

/-- A relation that the node has under its name. -/
def JoinRelation.PartOf (node : Node) : JoinRelation → Prop
  | .edge link => node.component? link.name = some (.edge link)
  | .reverse relation => node.reverseEdge? relation.name = some relation

/-- What follows ON compares the foreign key behind a relation. -/
def Site.Matches (site : Site) (parent target : Declaration) :
    JoinRelation → List Match → Prop
  | .edge link => site.Correlates link (0, parent) (0, target)
  | .reverse relation => site.Correlates relation.edge (0, target) (0, parent)

/-- Joins that go on with what is declared already. Each one follows a relation from a table before
it, under an alias that is new, and what follows ON knows no alias from behind it. -/
inductive Introduces (catalog : Catalog) : Frame → List LeftJoin → Frame → Prop
  | nil (frame : Frame) : Introduces catalog frame [] frame
  | cons {earlier whole : Frame} {parent target : Declaration} {relation : JoinRelation}
      {join : LeftJoin} {joins : List LeftJoin} (hangs : parent ∈ earlier)
      (part : relation.PartOf parent.node)
      (head : catalog.node? relation.headName = some target.node)
      (route : target.route = parent.route ++ [relation])
      (fresh : ∀ declaration ∈ earlier, declaration.label ≠ target.label)
      (table : join.table.table.text = target.node.table)
      (label : join.table.label.text = target.label)
      (matching : Site.Matches ⟨target, earlier ++ [target], []⟩ parent target relation
        join.matching)
      (behind : Introduces catalog (earlier ++ [target]) joins whole) :
      Introduces catalog earlier (join :: joins) whole

/-- An alias and the joins behind it declare what is known at a place, which speaks of the alias. -/
structure Declares (catalog : Catalog) (label : Alias) (joins : List LeftJoin) (node : Node)
    (site : Site) : Prop where
  label : label.text = site.here.label
  node : site.here.node = node
  start : site.here.route = []
  joins : Introduces catalog [site.here] joins site.frame

/-- The source is that of a query on the rows of a node, read from a table of this name. -/
structure Source.Opens (catalog : Catalog) (source : Source) (table : String) (node : Node)
    (site : Site) : Prop where
  table : source.table.table.text = table
  declares : Declares catalog source.table.label source.joins node site

/-- The child rows of a relation, tested at a place of their own, that refer to the row spoken of
outside. -/
structure Subquery (catalog : Catalog) (site : Site) (relation : ReverseEdge)
    (children : Children) (inner : Site) : Prop where
  head : catalog.node? relation.head = some inner.here.node
  opens : children.source.Opens catalog inner.here.node.table inner.here.node inner
  outer : inner.outer = site.frame :: site.outer
  matching : inner.Correlates relation.edge (0, inner.here) (1, site.here) children.matching

/-- A condition that looks at one column only. -/
inductive Tests (column : Column) : Condition → Prop
  | constant (value : Bool) : Tests column (.constant value)
  | junction (kind : Junction) {operands : List Condition}
      (each : ∀ operand ∈ operands, Tests column operand) : Tests column (.junction kind operands)
  | negation {operand : Condition} (inner : Tests column operand) : Tests column (.negation operand)
  | compared (operator : Operator) (literal : Literal) :
      Tests column (.compared column operator literal)
  | isNull : Tests column (.isNull column)
  | isSet : Tests column (.isSet column)
  | among (literals : List Literal) : Tests column (.among column literals)
  | fullText (terms : String) : Tests column (.fullText column terms)

/-- The columns of a foreign key in the table that is spoken of. -/
def Site.Refers (site : Site) (link : Edge) (columns : List Column) : Prop :=
  List.Forall₂ (fun foreignKey column =>
    site.Denotes 0 site.here foreignKey.column column) link.columns columns

mutual

/-- A condition looks at the columns that a predicate on the row spoken of is about. Behind an edge
it speaks of the table that the edge leads to, and behind a reverse edge of the first table of a
subquery. -/
def Says (catalog : Catalog) : Predicate → Site → Condition → Prop
  | .constant value, _, condition => condition = .constant value
  | .junction kind operands, site, condition =>
    ∃ conditions, condition = .junction kind conditions ∧ SaysAll catalog operands site conditions
  | .negation operand, site, condition =>
    ∃ inner, condition = .negation inner ∧ Says catalog operand site inner
  | .leaf field _ _, site, condition =>
    ∃ column, site.Denotes 0 site.here field.column column ∧ Tests column condition
  | .edge link head, site, condition =>
    ∃ inner, SaysHead catalog link head site inner ∧
      if link.nullable then
        ∃ columns, site.Refers link columns ∧ condition = .linked columns inner
      else condition = inner.getD (.constant true)
  | .reverse relation head, site, condition =>
    ∃ children filter inner, condition = .anyChild children filter ∧
      Subquery catalog site relation children inner ∧ SaysFilter catalog head inner filter
  | .count relation comparison number, site, condition =>
    ∃ children inner, condition = .childCount children comparison number ∧
      Subquery catalog site relation children inner
  | .raw _, _, _ => False

def SaysAll (catalog : Catalog) : List Predicate → Site → List Condition → Prop
  | [], _, conditions => conditions = []
  | operand :: rest, site, conditions =>
    ∃ first others, conditions = first :: others ∧ Says catalog operand site first ∧
      SaysAll catalog rest site others

/-- A condition on the head of an edge is one on the table that was joined for the edge. -/
def SaysHead (catalog : Catalog) (link : Edge) : Option Predicate → Site → Option Condition → Prop
  | none, _, condition => condition = none
  | some head, site, condition =>
    ∃ target inner, target ∈ site.frame ∧ target.route = site.here.route ++ [.edge link] ∧
      condition = some inner ∧ Says catalog head (site.at target) inner

def SaysFilter (catalog : Catalog) : Option Predicate → Site → Option Condition → Prop
  | none, _, condition => condition = none
  | some filter, site, condition =>
    if filter.isTrue then condition = none
    else ∃ inner, condition = some inner ∧ Says catalog filter site inner

end

/-- A number of child rows that match. -/
def Counts (catalog : Catalog) (relation : ReverseEdge) (filter : Option Predicate) (site : Site)
    (term : Term) : Prop :=
  ∃ children condition inner, term = .count children condition ∧
    Subquery catalog site relation children inner ∧ SaysFilter catalog filter inner condition

/-- What is selected under a dotted path is taken from the table that the fields on the path lead
to. -/
inductive Takes (catalog : Catalog) : Site → List String → List SelectionField → Selected → Prop
  | identifier {site : Site} {path inner : List String} {fields : List SelectionField}
      {component : Component} {name : String} {column : Column} {label : Alias}
      (part : component ∈ site.here.node.identifierComponents)
      (stored : (inner, name) ∈ component.storage)
      (denotes : site.Denotes 0 site.here name column)
      (labelled : label.text = ".".intercalate (path ++ identifierKey :: inner)) :
      Takes catalog site path fields ⟨.column column, label⟩
  | leaf {site : Site} {path : List String} {fields : List SelectionField} {key : String}
      {field : Leaf} {column : Column} {label : Alias} (wanted : .leaf key field ∈ fields)
      (denotes : site.Denotes 0 site.here field.column column)
      (labelled : label.text = ".".intercalate (path ++ [key])) :
      Takes catalog site path fields ⟨.column column, label⟩
  | count {site : Site} {path : List String} {fields : List SelectionField} {key : String}
      {relation : ReverseEdge} {filter : Option Predicate} {term : Term} {label : Alias}
      (wanted : .count key relation filter ∈ fields)
      (counts : Counts catalog relation (filter.map (·.reduced)) site term)
      (labelled : label.text = ".".intercalate (path ++ [key])) :
      Takes catalog site path fields ⟨term, label⟩
  | edge {site : Site} {path : List String} {fields head : List SelectionField} {key : String}
      {link : Edge} {target : Declaration} {selected : Selected}
      (wanted : .edge key link head ∈ fields) (joined : target ∈ site.frame)
      (route : target.route = site.here.route ++ [.edge link])
      (behind : Takes catalog (site.at target) (path ++ [key]) head selected) :
      Takes catalog site path fields selected
  | unique {site : Site} {path : List String} {fields head : List SelectionField} {key : String}
      {relation : ReverseEdge} {target : Declaration} {selected : Selected}
      (wanted : .unique key relation head ∈ fields) (joined : target ∈ site.frame)
      (route : target.route = site.here.route ++ [.reverse relation])
      (behind : Takes catalog (site.at target) (path ++ [key]) head selected) :
      Takes catalog site path fields selected

/-- Rows are sorted on what the expressions name, and behind that on their identifier. -/
inductive Sorts (catalog : Catalog) (site : Site) (expressions : List SortExpression) :
    SortItem → Prop
  | leaf {expression : SortExpression} {field : Leaf} {column : Column}
      (inside : expression ∈ expressions) (target : expression.target = .leaf field)
      (denotes : site.Denotes 0 site.here field.column column) :
      Sorts catalog site expressions ⟨.column column, expression.direction⟩
  | count {expression : SortExpression} {relation : ReverseEdge} {term : Term}
      (inside : expression ∈ expressions) (target : expression.target = .count relation)
      (counts : Counts catalog relation none site term) :
      Sorts catalog site expressions ⟨term, expression.direction⟩
  | identifier {component : Component} {name : String} {column : Column}
      (part : component ∈ site.here.node.identifierComponents)
      (stored : name ∈ component.columns) (denotes : site.Denotes 0 site.here name column) :
      Sorts catalog site expressions ⟨.column column, .ascending⟩

/-- What a statement is to read: the rows of a node that match, in an order. -/
structure Wanted where
  node : Node
  filter : Option Predicate
  expressions : List SortExpression

namespace Wanted

def ofFilter (node : Node) (filter : Option Filter) : Wanted :=
  ⟨node, filter.map (·.predicate.reduced), []⟩

variable (catalog : Catalog) (wanted : Wanted)

/-- The statement's own source, with nothing around it. -/
structure Reads (source : Source) (table : String) (site : Site) : Prop where
  opens : source.Opens catalog table wanted.node site
  outermost : site.outer = []

/-- The rows of a listing are tested and sorted by their own columns. -/
structure Lists (listing : Listing) (site : Site) : Prop where
  reads : wanted.Reads catalog listing.source wanted.node.table site
  condition : SaysFilter catalog wanted.filter site listing.condition
  order : ∀ item ∈ listing.order, Sorts catalog site wanted.expressions item

/-- Every column of a statement that counts or removes instances is one of the table it was meant
for. -/
def Selects : Statement → Prop
  | .count source condition | .delete source condition =>
    ∃ site, wanted.Reads catalog source wanted.node.table site ∧
      SaysFilter catalog wanted.filter site condition
  | .find _ | .insert .. | .update .. => False

end Wanted

end Sql

end LiveQuery
