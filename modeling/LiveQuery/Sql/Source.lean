import LiveQuery.Sql.Name

set_option autoImplicit false

namespace LiveQuery.Sql

structure NamedTable where
  table : Identifier
  label : Alias
  deriving DecidableEq

def NamedTable.text (named : NamedTable) : String :=
  named.table.quoted ++ " AS " ++ named.label.quoted

/-- Columns of two tables that are equal in rows that belong together. -/
structure Match where
  left : Column
  right : Column
  deriving DecidableEq

def Match.text (pair : Match) : String := pair.left.text ++ " = " ++ pair.right.text

structure LeftJoin where
  table : NamedTable
  matching : List Match
  deriving DecidableEq

def LeftJoin.text (join : LeftJoin) : String :=
  " LEFT JOIN " ++ join.table.text ++ " ON " ++ " AND ".intercalate (join.matching.map (·.text))

def LeftJoin.textAll (joins : List LeftJoin) : String := String.join (joins.map (·.text))

structure Source where
  table : NamedTable
  joins : List LeftJoin
  deriving DecidableEq

def Source.text (source : Source) : String := source.table.text ++ LeftJoin.textAll source.joins

end LiveQuery.Sql
