import LiveQuery.Filter

set_option autoImplicit false

namespace LiveQuery

namespace Predicate

/-- The operands of a junction of the same kind, or the predicate alone. -/
def spread (kind : Junction) : Predicate → List Predicate
  | .junction inner operands =>
    if inner = kind then operands else [.junction inner operands]
  | operand => [operand]

def isConstant : Predicate → Bool
  | .constant _ => true
  | _ => false

def member (operand : Predicate) (operands : List Predicate) : Bool :=
  operands.any (· == operand)

/-- The operands without those that occur earlier. -/
def distinct (operands : List Predicate) : List Predicate :=
  operands.foldl (fun kept operand => if member operand kept then kept else kept ++ [operand]) []

/-- An operand that occurs together with its negation. -/
def contradicts (operands : List Predicate) : Bool :=
  operands.any fun
    | .negation inner => member inner operands
    | _ => false

/-- A junction of operands in normal form. -/
def joinReduced (kind : Junction) (operands : List Predicate) : Predicate :=
  let flat := operands.flatMap (spread kind)
  let absorbing := Predicate.constant (!kind.unit)
  if flat.any (· == absorbing) then absorbing
  else
    let kept := distinct (flat.filter (!·.isConstant))
    if contradicts kept then absorbing
    else
      match kept with
      | [] => .constant kind.unit
      | [single] => single
      | several => .junction kind several

/-- The negation of an operand in normal form. -/
def negateReduced : Predicate → Predicate
  | .constant value => .constant (!value)
  | .negation inner => inner
  | operand => .negation operand

/-- Membership in no value or in one. -/
def reduceLeaf (field : Leaf) (operator : LeafOperator) (value : Value) : Predicate :=
  match operator, value with
  | .among, .list [] => .constant false
  | .notAmong, .list [] => .constant true
  | .among, .list [single] => .leaf field (.compared .eq) single
  | .notAmong, .list [single] => .leaf field (.compared .ne) single
  | operator, value => .leaf field operator value

/-- A relation to a head whose condition is in normal form. -/
def relateReduced (relate : Option Predicate → Predicate) (bare : Predicate) :
    Option Predicate → Predicate
  | none => bare
  | some head =>
    match head with
    | .constant value => if value then bare else .constant false
    | head => relate (some head)

def reduceCount (relation : ReverseEdge) (comparison : Comparison) (number : Nat) : Predicate :=
  match comparison, number with
  | .ge, 0 => .constant true
  | .lt, 0 => .constant false
  | comparison, number => .count relation comparison number

mutual

def reduced : Predicate → Predicate
  | .constant value => .constant value
  | .junction kind operands => joinReduced kind (reducedAll operands)
  | .negation operand => negateReduced (reduced operand)
  | .leaf field operator value => reduceLeaf field operator value
  | .edge link head =>
    let bare := if link.nullable then .edge link none else .constant true
    relateReduced (.edge link) bare (reducedHead head)
  | .reverse relation head =>
    relateReduced (.reverse relation) (.reverse relation none) (reducedHead head)
  | .count relation comparison number => reduceCount relation comparison number
  | .raw sql => .raw sql

def reducedAll : List Predicate → List Predicate
  | [] => []
  | operand :: rest => reduced operand :: reducedAll rest

def reducedHead : Option Predicate → Option Predicate
  | none => none
  | some head => some (reduced head)

end

/-- The operator that holds where this one does not. An order on a nullable leaf has none, since
nothing compares with null. -/
def oppositeOperator? (field : Leaf) : LeafOperator → Option LeafOperator
  | .compared comparison =>
    if comparison.isOrder && field.nullable then none else some (.compared comparison.opposite)
  | .among => some .notAmong
  | .notAmong => some .among
  | .fullText => none

mutual

/-- The negation, pushed into junctions and comparisons. -/
def complement : Predicate → Predicate
  | .constant value => .constant (!value)
  | .junction kind operands => .junction kind.dual (complementAll operands)
  | .negation operand => operand
  | .leaf field operator value =>
    match oppositeOperator? field operator with
    | some opposite => .leaf field opposite value
    | none => .negation (.leaf field operator value)
  | .count relation comparison number => .count relation comparison.opposite number
  | .edge link head => .negation (.edge link head)
  | .reverse relation head => .negation (.reverse relation head)
  | .raw sql => .negation (.raw sql)

def complementAll : List Predicate → List Predicate
  | [] => []
  | operand :: rest => complement operand :: complementAll rest

end

end Predicate

namespace Filter

def reduced (filter : Filter) : Filter := ⟨filter.node, filter.predicate.reduced⟩

def complement (filter : Filter) : Filter := ⟨filter.node, filter.predicate.complement⟩

end Filter

end LiveQuery
