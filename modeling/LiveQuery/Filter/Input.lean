import LiveQuery.Filter
import LiveQuery.Text.Segment

set_option autoImplicit false

namespace LiveQuery

/-- How many of the heads of a reverse edge have to meet a condition. -/
inductive Quantifier where
  | some
  | every
  | none
  deriving DecidableEq

inductive FilterKey where
  | junction (kind : Junction)
  | negation
  | leaf (field : Leaf) (operator : LeafOperator)
  | edge (link : Edge) (negated : Bool)
  | uniqueReverse (relation : ReverseEdge)
  | quantified (relation : ReverseEdge) (quantifier : Quantifier)
  | count (relation : ReverseEdge) (comparison : Comparison)

namespace FilterKey

/-- Longer endings come before those they end in. -/
def leafEndings : List (String × LeafOperator) := [
  ("_full_text", .fullText), ("_not_in", .notAmong), ("_gte", .compared .ge),
  ("_lte", .compared .le), ("_not", .compared .ne), ("_gt", .compared .gt),
  ("_lt", .compared .lt), ("_in", .among)]

def countEndings : List (String × Comparison) := [
  ("_gte", .ge), ("_lte", .le), ("_not", .ne), ("_gt", .gt), ("_lt", .lt), ("", .eq)]

def quantifierEndings : List (String × Quantifier) := [
  ("_some", .some), ("_every", .every), ("_none", .none)]

def junction? (key : String) : Option FilterKey :=
  match key with
  | "AND" => some (.junction .all)
  | "OR" => some (.junction .any)
  | "NOT" => some .negation
  | _ => none

def component? (node : Node) (key : String) : Option FilterKey :=
  match node.component? key with
  | some (.leaf field) => some (.leaf field (.compared .eq))
  | some (.edge link) => some (.edge link false)
  | none => none

def uniqueReverse? (node : Node) (key : String) : Option FilterKey := do
  let relation ← node.reverseEdge? key
  guard (relation.multiplicity = .unique)
  return .uniqueReverse relation

def negatedEdge? (node : Node) (key : String) : Option FilterKey := do
  let .edge link ← node.component? (← Text.before? "_not" key) | none
  return .edge link true

def quantified? (node : Node) (key : String) : Option FilterKey :=
  quantifierEndings.findSome? fun (ending, quantifier) => do
    let relation ← node.reverseEdge? (← Text.before? ending key)
    guard (relation.multiplicity = .multiple)
    return .quantified relation quantifier

def count? (node : Node) (key : String) : Option FilterKey :=
  countEndings.findSome? fun (ending, comparison) => do
    let name ← Text.before? "Count" (← Text.before? ending key)
    return .count (← node.reverseEdge? name) comparison

def comparedLeaf? (node : Node) (key : String) : Option FilterKey :=
  leafEndings.findSome? fun (ending, operator) => do
    let .leaf field ← node.component? (← Text.before? ending key) | none
    return .leaf field operator

/-- What a key stands for on a node. Of several readings the first one counts. -/
def resolve? (node : Node) (key : String) : Option FilterKey :=
  junction? key <|> component? node key <|> uniqueReverse? node key <|> negatedEdge? node key <|>
    quantified? node key <|> count? node key <|> comparedLeaf? node key

end FilterKey

namespace Predicate

def negatedIf (negated : Bool) (predicate : Predicate) : Predicate :=
  if negated then .negation predicate else predicate

/-- The condition that so many heads meet the given one. -/
def quantify (relation : ReverseEdge) (quantifier : Quantifier) (head : Predicate) : Predicate :=
  match quantifier with
  | .some => .reverse relation (some head)
  | .every => .negation (.reverse relation (some (.negation head)))
  | .none => .negation (.reverse relation (some head))

def invalidInput {α : Type} (path reason : String) : Except StatementError α :=
  .error (.invalidInput path reason)

def countInput (node : Node) (relation : ReverseEdge) (comparison : Comparison) (path : String)
    (value : Json) : Except StatementError Predicate :=
  match value.count? with
  | some number => return (← Filter.count node relation.name comparison number).predicate
  | none => invalidInput path "expected a non-negative integer"

mutual

/-- The condition that an input object states; null states none. -/
def parse (catalog : Catalog) (node : Node) (path : String) : Json →
    Except StatementError Predicate
  | .null => .ok (.constant true)
  | .object entries => return .junction .all (← parseEntries catalog node path entries)
  | _ => invalidInput path "expected an object"

def parseEntries (catalog : Catalog) (node : Node) (path : String) : List (String × Json) →
    Except StatementError (List Predicate)
  | [] => .ok []
  | (key, value) :: rest => do
    let path' := path ++ "." ++ key
    let condition ←
      match FilterKey.resolve? node key with
      | some (.junction kind) => Predicate.junction kind <$> parseOperands catalog node path' value
      | some .negation => Predicate.negation <$> parse catalog node path' value
      | some (.leaf field operator) =>
        Filter.predicate <$> Filter.leaf node field.name operator (.ofJson value)
      | some (.edge link negated) =>
        if value.isNull then pure (negatedIf negated (.negation (.edge link none)))
        else do
          let head ← catalog.edgeHead link
          let condition ← parse catalog head path' value
          pure (negatedIf negated (.edge link (some condition)))
      | some (.uniqueReverse relation) => do
        let head ← catalog.reverseEdgeHead relation
        if value.isNull then pure (.negation (.reverse relation none))
        else do
          let condition ← parse catalog head path' value
          pure (.reverse relation (some condition))
      | some (.quantified relation quantifier) => do
        let head ← catalog.reverseEdgeHead relation
        quantify relation quantifier <$> parse catalog head path' value
      | some (.count relation comparison) => countInput node relation comparison path' value
      | none => invalidInput path' s!"unknown filter key `{key}` on `{node.name}`"
    return condition :: (← parseEntries catalog node path rest)

/-- The operands of a junction: a list of objects, or one object. -/
def parseOperands (catalog : Catalog) (node : Node) (path : String) : Json →
    Except StatementError (List Predicate)
  | .array items => parseItems catalog node path 0 items
  | .object entries => return [.junction .all (← parseEntries catalog node path entries)]
  | _ => invalidInput path "expected a list of objects"

def parseItems (catalog : Catalog) (node : Node) (path : String) (index : Nat) : List Json →
    Except StatementError (List Predicate)
  | [] => .ok []
  | item :: rest => do
    let operand ← parse catalog node s!"{path}[{index}]" item
    return operand :: (← parseItems catalog node path (index + 1) rest)

end

end Predicate

/-- The filter that a where-input states. -/
def Filter.parse (catalog : Catalog) (node : Node) (input : Json) : Except StatementError Filter :=
  return ⟨node, ← Predicate.parse catalog node node.name input⟩

end LiveQuery
