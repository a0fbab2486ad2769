import LiveQuery.Filter
import LiveQuery.SortOrder
import LiveQuery.Sql.Literal
import LiveQuery.Sql.Source

set_option autoImplicit false

namespace LiveQuery.Sql

/-- How a column is compared. Two nulls count as equal only if the comparison is null-safe. -/
inductive Operator where
  | compared (comparison : Comparison)
  | nullSafe
  deriving DecidableEq

def Operator.symbol : Operator → String
  | .compared .ne => "<>"
  | .compared comparison => comparison.symbol
  | .nullSafe => "<=>"

/-- The rows that refer to a row of an enclosing query. -/
structure Children where
  source : Source
  matching : List Match

inductive Condition where
  | constant (value : Bool)
  | junction (kind : Junction) (operands : List Condition)
  | negation (operand : Condition)
  | compared (column : Column) (operator : Operator) (literal : Literal)
  | isNull (column : Column)
  | isSet (column : Column)
  | among (column : Column) (literals : List Literal)
  | fullText (column : Column) (terms : String)
  /-- A foreign key is set, and the head that it refers to meets a condition. -/
  | linked (foreignKey : List Column) (head : Option Condition)
  | anyChild (children : Children) (filter : Option Condition)
  | childCount (children : Children) (comparison : Comparison) (number : Nat)
  | raw (sql : String) (table : Alias)

namespace Condition

def constantText (value : Bool) : String := if value then "TRUE" else "FALSE"

def setText (column : Column) : String := column.text ++ " IS NOT NULL"

/-- A full-text test of a column that is already written. -/
def fullTextOf (column terms : String) : String :=
  "MATCH (" ++ column ++ ") AGAINST (" ++ Literal.quoted terms ++ " IN BOOLEAN MODE)"

/-- What stands in a raw condition for the table's alias. -/
def aliasMark : String := "\x7balias\x7d"

/-- The query for some column of child rows, of which a further test may already be written. -/
def childrenText (selected : String) (children : Children) (filter : Option String) : String :=
  "SELECT " ++ selected ++ " FROM " ++ children.source.text ++ " WHERE " ++
    " AND ".intercalate (children.matching.map (·.text) ++ filter.toList)

mutual

def text : Condition → String
  | .constant value => constantText value
  | .junction kind [] => constantText kind.unit
  | .junction kind (operand :: rest) =>
    "(" ++ (" " ++ kind.word ++ " ").intercalate (text operand :: texts rest) ++ ")"
  | .negation operand => "NOT (" ++ text operand ++ ")"
  | .compared column operator literal =>
    column.text ++ " " ++ operator.symbol ++ " " ++ literal.text
  | .isNull column => column.text ++ " IS NULL"
  | .isSet column => setText column
  | .among column literals =>
    column.text ++ " IN (" ++ ", ".intercalate (literals.map (·.text)) ++ ")"
  | .fullText column terms => fullTextOf column.text terms
  | .linked foreignKey none =>
    let tests := " AND ".intercalate (foreignKey.map setText)
    if foreignKey.length > 1 then "(" ++ tests ++ ")" else tests
  | .linked foreignKey (some head) =>
    "(" ++ " AND ".intercalate (foreignKey.map setText) ++ " AND " ++ text head ++ ")"
  | .anyChild children filter => "EXISTS (" ++ childrenText "1" children (textOption filter) ++ ")"
  | .childCount children comparison number =>
    "(" ++ childrenText "COUNT(*)" children none ++ ") " ++ comparison.symbol ++ " " ++
      toString number
  | .raw sql table => "(" ++ sql.replace aliasMark table.quoted ++ ")"

def texts : List Condition → List String
  | [] => []
  | operand :: rest => text operand :: texts rest

def textOption : Option Condition → Option String
  | none => none
  | some condition => some (text condition)

end

/-- The clause for an optional condition. -/
def whereText : Option Condition → String
  | none => ""
  | some condition => " WHERE " ++ condition.text

end Condition

/-- What a query computes of a row: a column, or the number of rows that refer to the row. -/
inductive Term where
  | column (value : Column)
  | count (children : Children) (filter : Option Condition)

def Term.text : Term → String
  | .column value => value.text
  | .count children filter =>
    "(" ++ Condition.childrenText "COUNT(*)" children (Condition.textOption filter) ++ ")"

structure SortItem where
  term : Term
  direction : Direction

def SortItem.text (item : SortItem) : String := item.term.text ++ " " ++ item.direction.text

def SortItem.textAll (items : List SortItem) : String := ", ".intercalate (items.map (·.text))

end LiveQuery.Sql
