set_option autoImplicit false

namespace LiveQuery.Sorted

variable {α : Type}

/-- The set with a name added. -/
def insert (name : String) (names : List String) : List String :=
  match names with
  | [] => [name]
  | first :: rest =>
    if name < first then name :: first :: rest
    else if name = first then first :: rest
    else first :: insert name rest

def union (names more : List String) : List String :=
  more.foldl (fun known name => insert name known) names

def get? (entries : List (String × α)) (name : String) : Option α :=
  match entries with
  | [] => none
  | (first, value) :: rest => if name = first then some value else get? rest name

/-- The map with the value under a name computed from the one it had. -/
def alter (entries : List (String × α)) (name : String) (change : Option α → α) :
    List (String × α) :=
  match entries with
  | [] => [(name, change none)]
  | (first, value) :: rest =>
    if name < first then (name, change none) :: (first, value) :: rest
    else if name = first then (first, change (some value)) :: rest
    else (first, value) :: alter rest name change

def keys (entries : List (String × α)) : List String := entries.map (·.1)

end LiveQuery.Sorted
