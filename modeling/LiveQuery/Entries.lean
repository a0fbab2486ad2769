set_option autoImplicit false

namespace LiveQuery

abbrev Entries (α : Type) := List (String × α)

namespace Entries

variable {α : Type}

def get? (entries : Entries α) (key : String) : Option α :=
  match entries with
  | [] => none
  | (present, value) :: rest => if present = key then some value else get? rest key

def contains (entries : Entries α) (key : String) : Bool := (entries.get? key).isSome

def keys (entries : Entries α) : List String := entries.map (·.1)

def insert (entries : Entries α) (key : String) (value : α) : Entries α :=
  match entries with
  | [] => [(key, value)]
  | (present, old) :: rest =>
    if present = key then (present, value) :: rest
    else (present, old) :: insert rest key value

/-- The entries without the first one under the key. -/
def erase (entries : Entries α) (key : String) : Entries α :=
  match entries with
  | [] => []
  | (present, value) :: rest =>
    if present = key then rest else (present, value) :: erase rest key

def ofList (pairs : List (String × α)) : Entries α :=
  pairs.foldl (fun entries pair => insert entries pair.1 pair.2) []

theorem get?_insert_self (entries : Entries α) (key : String) (value : α) :
    (insert entries key value).get? key = some value := by
  induction entries with
  | nil => simp [insert, get?]
  | cons entry rest ih =>
    by_cases same : entry.1 = key <;> simp [insert, get?, same, ih]

theorem get?_insert_of_ne (entries : Entries α) (key other : String) (value : α)
    (different : other ≠ key) : (insert entries key value).get? other = entries.get? other := by
  induction entries with
  | nil => simp [insert, get?, different.symm]
  | cons entry rest ih =>
    by_cases same : entry.1 = key
    · simp [insert, get?, same, different.symm]
    · simp [insert, get?, same, ih]

end Entries

end LiveQuery
