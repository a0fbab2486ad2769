import LiveQuery.Selection

set_option autoImplicit false

namespace LiveQuery

/-- Heads that are read later. `owner` holds the keys from a record of the earlier reading down to
the records that own the relation, `key` is the key of the list of heads in these, and `next` is
what the selection of the heads leaves in turn. -/
inductive Followup where
  | make (owner : List String) (key : String) (relation : ReverseEdge) (window : Window)
      (head : List SelectionField) (next : List Followup)

namespace Followup

def owner : Followup → List String
  | .make owner _ _ _ _ _ => owner

def key : Followup → String
  | .make _ key _ _ _ _ => key

def relation : Followup → ReverseEdge
  | .make _ _ relation _ _ _ => relation

def window : Followup → Window
  | .make _ _ _ window _ _ => window

def head : Followup → List SelectionField
  | .make _ _ _ _ head _ => head

def next : Followup → List Followup
  | .make _ _ _ _ _ next => next

def path (followup : Followup) : List String := followup.owner ++ [followup.key]

mutual

def ofField (owner : List String) : SelectionField → List Followup
  | .edge key _ head => ofFields (owner ++ [key]) head
  | .unique key _ head => ofFields (owner ++ [key]) head
  | .multiple key relation window head =>
    [.make owner key relation window head (ofFields [] head)]
  | .leaf _ _ => []
  | .count _ _ _ => []

/-- What the fields of records under a path leave, in the order of the fields. -/
def ofFields (owner : List String) : List SelectionField → List Followup
  | [] => []
  | field :: rest => ofField owner field ++ ofFields owner rest

end

end Followup

def Selection.followups (selection : Selection) : List Followup :=
  Followup.ofFields [] selection.fields

end LiveQuery
