import LiveQuery.Sql.Condition

set_option autoImplicit false

namespace LiveQuery.Sql

/-- A selected term under the dotted path of its key. -/
structure Selected where
  term : Term
  label : Alias

def Selected.text (selected : Selected) : String :=
  selected.term.text ++ " AS " ++ selected.label.quoted

def Selected.textAll (columns : List Selected) : String := ", ".intercalate (columns.map (·.text))

structure Limit where
  count : Nat
  offset : Nat
  deriving DecidableEq

namespace Limit

/-- The count that stands for no limit, where the server asks for one. -/
def unbounded : Nat := UInt64.size - 1

def text (limit : Limit) : String :=
  if limit.offset > 0 then s!" LIMIT {limit.count} OFFSET {limit.offset}"
  else s!" LIMIT {limit.count}"

def textOption : Option Limit → String
  | none => ""
  | some limit => limit.text

end Limit

/-- Rows of a source: those that meet a condition, in an order, cut to a limit. -/
structure Listing where
  source : Source
  condition : Option Condition
  order : List SortItem
  limit : Option Limit

def Listing.text (selected : String) (listing : Listing) : String :=
  "SELECT " ++ selected ++ " FROM " ++ listing.source.text ++
    Condition.whereText listing.condition ++ " ORDER BY " ++ SortItem.textAll listing.order ++
    Limit.textOption listing.limit

/-- Child rows of several parents, numbered within each parent. -/
structure Ranking where
  source : Source
  foreignKey : List Column
  parents : List (List Literal)
  condition : Option Condition
  order : List SortItem

namespace Ranking

/-- The column of a row's number. -/
def rankName : Identifier := ⟨"__rank", by decide⟩

/-- Values in parentheses, which a single one does without. -/
def tupleText (values : List String) : String :=
  match values with
  | [value] => value
  | values => "(" ++ ", ".intercalate values ++ ")"

def parentsText (ranking : Ranking) : String :=
  if ranking.parents.isEmpty then "FALSE"
  else
    tupleText (ranking.foreignKey.map (·.text)) ++ " IN (" ++
      ", ".intercalate (ranking.parents.map fun key => tupleText (key.map (·.text))) ++ ")"

def text (ranking : Ranking) : String :=
  let label := ranking.source.table.label.quoted
  let keys := ", ".intercalate (ranking.foreignKey.map (·.text))
  let conditions := ranking.parentsText :: (Condition.textOption ranking.condition).toList
  "(SELECT " ++ label ++ ".*, ROW_NUMBER() OVER (PARTITION BY " ++ keys ++ " ORDER BY " ++
    SortItem.textAll ranking.order ++ ") AS " ++ rankName.quoted ++ " FROM " ++
    ranking.source.text ++ " WHERE " ++ " AND ".intercalate conditions ++ ") AS " ++ label

end Ranking

inductive Find where
  | direct (columns : List Selected) (listing : Listing)
  /-- The listing stands under a name of its own, and what is selected is joined to its rows. -/
  | staged (stage : Identifier) (listing : Listing) (columns : List Selected) (source : Source)
      (order : List SortItem)
  /-- Of each parent's rows those numbered after `offset` up to `last`. -/
  | ranked (ranking : Ranking) (columns : List Selected) (joins : List LeftJoin)
      (foreignKey : List Column) (rank : Column) (offset last : Nat)

namespace Find

def text : Find → String
  | .direct columns listing => listing.text (Selected.textAll columns)
  | .staged stage listing columns source order =>
    "WITH " ++ stage.quoted ++ " AS (" ++
      listing.text (listing.source.table.label.quoted ++ ".*") ++ ") SELECT " ++
      Selected.textAll columns ++ " FROM " ++ source.text ++ " ORDER BY " ++ SortItem.textAll order
  | .ranked ranking columns joins foreignKey rank offset last =>
    "SELECT " ++ Selected.textAll columns ++ " FROM " ++ ranking.text ++ LeftJoin.textAll joins ++
      s!" WHERE {rank.text} > {offset} AND {rank.text} <= {last} ORDER BY " ++
      ", ".intercalate (foreignKey.map (·.text)) ++ ", " ++ rank.text

/-- The selected columns, in the order of a row. -/
def columns : Find → List Selected
  | .direct columns _ | .staged _ _ columns _ _ | .ranked _ columns _ _ _ _ _ => columns

end Find

structure Assignment where
  column : Column
  literal : Literal

def Assignment.text (assignment : Assignment) : String :=
  assignment.column.text ++ " = " ++ assignment.literal.text

/-- What an insert puts into a column of a row: a literal, or the column's default. -/
abbrev Cell := Option Literal

def Cell.text : Cell → String
  | none => "DEFAULT"
  | some literal => literal.text

def rowText (cells : List Cell) : String := "(" ++ ", ".intercalate (cells.map Cell.text) ++ ")"

inductive Statement where
  | find (query : Find)
  | count (source : Source) (condition : Option Condition)
  | insert (table : Identifier) (columns : List Identifier) (rows : List (List Cell))
  | update (source : Source) (assignments : List Assignment) (condition : Option Condition)
  | delete (source : Source) (condition : Option Condition)

def Statement.text : Statement → String
  | .find query => query.text
  | .count source condition =>
    "SELECT COUNT(*) AS `count` FROM " ++ source.text ++ Condition.whereText condition
  | .insert table columns rows =>
    "INSERT INTO " ++ table.quoted ++ " (" ++ ", ".intercalate (columns.map (·.quoted)) ++
      ") VALUES " ++ ", ".intercalate (rows.map rowText)
  | .update source assignments condition =>
    "UPDATE " ++ source.text ++ " SET " ++ ", ".intercalate (assignments.map (·.text)) ++
      Condition.whereText condition
  | .delete source condition =>
    "DELETE " ++ source.table.label.quoted ++ " FROM " ++ source.text ++
      Condition.whereText condition

end LiveQuery.Sql
