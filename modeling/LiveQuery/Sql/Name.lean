import LiveQuery.Sql.Error

set_option autoImplicit false

namespace LiveQuery.Sql

namespace Name

/-- Why a text is no name of at most so many characters. -/
def fault? (limit : Nat) (text : String) : Option NameFault :=
  if text.isEmpty then some .empty
  else if text.toList.contains '\x00' then some .holdsNul
  else if text.length > limit then some (.tooLong limit)
  else none

end Name

/-- A name of at most so many characters. -/
structure Name (limit : Nat) where
  text : String
  valid : Name.fault? limit text = none
  deriving DecidableEq

namespace Name

def ofText (limit : Nat) (text : String) : Except Error (Name limit) :=
  match reason : fault? limit text with
  | none => .ok ⟨text, reason⟩
  | some fault => .error (.invalidName text fault)

/-- A backtick that is part of the name is doubled. -/
def quotedCharacter (c : Char) : List Char := if c = '\x60' then ['\x60', '\x60'] else [c]

def quoted {limit : Nat} (name : Name limit) : String :=
  "`" ++ String.ofList (name.text.toList.flatMap quotedCharacter) ++ "`"

end Name

/-- The name of a table or column. -/
abbrev Identifier := Name 64

/-- The name that a statement gives to a table or column. -/
abbrev Alias := Name 256

def Identifier.ofText (text : String) : Except Error Identifier := Name.ofText 64 text

def Alias.ofText (text : String) : Except Error Alias := Name.ofText 256 text

/-- A column of the table that an alias stands for. -/
structure Column where
  table : Alias
  name : Identifier
  deriving DecidableEq

def Column.text (column : Column) : String := column.table.quoted ++ "." ++ column.name.quoted

end LiveQuery.Sql
