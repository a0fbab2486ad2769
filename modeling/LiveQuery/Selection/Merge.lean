import LiveQuery.Selection

set_option autoImplicit false

namespace LiveQuery

namespace SelectionField

/-- The first field akin to a given one, with those before and behind it. -/
def splitAtAkin? (theirs : SelectionField) :
    List SelectionField → Option (List SelectionField × SelectionField × List SelectionField)
  | [] => none
  | mine :: rest =>
    if akin mine theirs then some ([], mine, rest)
    else (splitAtAkin? theirs rest).map fun (before, found, after) => (mine :: before, found, after)

mutual

/-- A field with whatever an akin one wants of the heads as well. -/
def mergeHead : SelectionField → SelectionField → Except StatementError SelectionField
  | mine, .leaf _ _ => .ok mine
  | mine, .edge _ link head => do
    return mine.withHead (← check link.head (← mergeAll mine.head head))
  | mine, .unique _ relation head => do
    return mine.withHead (← check relation.head (← mergeAll mine.head head))
  | mine, .multiple _ relation _ head => do
    return mine.withHead (← check relation.head (← mergeAll mine.head head))
  | mine, .count _ _ _ => .ok mine

def mergeAll : List SelectionField → List SelectionField →
    Except StatementError (List SelectionField)
  | mine, [] => .ok mine
  | mine, theirs :: rest => do
    match splitAtAkin? theirs mine with
    | none => mergeAll (mine ++ [theirs]) rest
    | some (before, present, after) =>
      mergeAll (before ++ (← mergeHead present theirs) :: after) rest

end

end SelectionField

/-- Two different fields under one key cannot be merged. -/
def Selection.merge (mine theirs : Selection) : Except StatementError Selection := do
  if mine.node.name ≠ theirs.node.name then
    throw (.nodeMismatch mine.node.name theirs.node.name)
  make mine.node (← SelectionField.mergeAll mine.fields theirs.fields)

end LiveQuery
