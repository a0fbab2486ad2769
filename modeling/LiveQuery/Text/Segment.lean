set_option autoImplicit false

namespace LiveQuery.Text

/-- What stands before the ending, if the text has it. -/
def before? (ending text : String) : Option String :=
  let chars := text.toList
  if ending.toList.isSuffixOf chars then
    some (String.ofList (chars.take (chars.length - ending.length)))
  else none

def pointSegments : List Char → List (List Char)
  | [] => [[]]
  | c :: rest =>
    match c, pointSegments rest with
    | '.', segments => [] :: segments
    | c, first :: segments => (c :: first) :: segments
    | c, [] => [[c]]

/-- The parts of a text between its points. -/
def splitAtPoints (text : String) : List String :=
  (pointSegments text.toList).map String.ofList

end LiveQuery.Text
