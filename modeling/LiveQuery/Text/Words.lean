import LiveQuery.Text.Alphanumeric
import LiveQuery.Text.Blank
import LiveQuery.Text.LetterCase

set_option autoImplicit false

namespace LiveQuery.Text

/-- Whether the nearest character that is not passed over is cased. -/
def nextIsCased (text : List Char) : Bool :=
  match text.dropWhile isCaseIgnorable with
  | c :: _ => isCased c
  | [] => false

/-- Lower case of the text that follows `before`, which is given backwards. A sigma at the end of a
word takes its final form. -/
def lowerAfter (before : List Char) : List Char → List Char
  | [] => []
  | c :: rest =>
    let lower :=
      if c = 'Σ' then (if nextIsCased before && !nextIsCased rest then ['ς'] else ['σ'])
      else lowerCharacter c
    lower ++ lowerAfter (c :: before) rest

def lowercase (text : List Char) : List Char := lowerAfter [] text

/-- The runs of characters between separators. -/
def splitRuns (isSeparator : Char → Bool) (text : List Char) : List (List Char) :=
  (text.splitOnP isSeparator).filter (!·.isEmpty)

def words (text : List Char) : List (List Char) :=
  (splitRuns (!isAlphanumeric ·) text).map lowercase

def trimMarks (term : List Char) : List Char :=
  let start := term.dropWhile (!isAlphanumeric ·)
  (start.reverse.dropWhile (!isAlphanumeric ·)).reverse

/-- The terms of a query: what stands between blanks, without marks at either end. -/
def queryTerms (query : List Char) : List (List Char) :=
  ((splitRuns isBlank query).map fun term => lowercase (trimMarks term)).filter (!·.isEmpty)

/-- Whether any term of the query is a word of the text. -/
def matchesQuery (text query : String) : Bool :=
  let words := words text.toList
  (queryTerms query.toList).any words.contains

end LiveQuery.Text
