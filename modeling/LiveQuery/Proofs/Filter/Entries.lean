import LiveQuery.Proofs.Selection.Readable

set_option autoImplicit false

namespace LiveQuery

namespace Predicate

variable {catalog : Catalog} {node : Node} {path : String} {operands : List Predicate}

/-- A condition is read of an entry's value, going by what the entry's key stands for. -/
inductive OfEntry (catalog : Catalog) (node : Node) (path : String) (value : Json) :
    FilterKey → Predicate → Prop
  | junction {kind : Junction} {operands : List Predicate}
      (inner : parseOperands catalog node path value = .ok operands) :
      OfEntry catalog node path value (.junction kind) (.junction kind operands)
  | negation {condition : Predicate} (inner : parse catalog node path value = .ok condition) :
      OfEntry catalog node path value .negation (.negation condition)
  | leaf {field : Leaf} {operator : LeafOperator} {filter : Filter}
      (inner : Filter.leaf node field.name operator (.ofJson value) = .ok filter) :
      OfEntry catalog node path value (.leaf field operator) filter.predicate
  | noEdge {link : Edge} {negated : Bool} (null : value.isNull = true) :
      OfEntry catalog node path value (.edge link negated)
        (negatedIf negated (.negation (.edge link none)))
  | edge {link : Edge} {negated : Bool} {head : Node} {condition : Predicate}
      (set : ¬value.isNull = true) (leads : catalog.node? link.head = some head)
      (inner : parse catalog head path value = .ok condition) :
      OfEntry catalog node path value (.edge link negated)
        (negatedIf negated (.edge link (some condition)))
  | noReverse {relation : ReverseEdge} (null : value.isNull = true) :
      OfEntry catalog node path value (.uniqueReverse relation) (.negation (.reverse relation none))
  | reverse {relation : ReverseEdge} {head : Node} {condition : Predicate}
      (set : ¬value.isNull = true) (leads : catalog.node? relation.head = some head)
      (inner : parse catalog head path value = .ok condition) :
      OfEntry catalog node path value (.uniqueReverse relation) (.reverse relation (some condition))
  | quantified {relation : ReverseEdge} {quantifier : Quantifier} {head : Node}
      {condition : Predicate} (leads : catalog.node? relation.head = some head)
      (inner : parse catalog head path value = .ok condition) :
      OfEntry catalog node path value (.quantified relation quantifier)
        (quantify relation quantifier condition)
  | count {relation : ReverseEdge} {comparison : Comparison} {condition : Predicate}
      (inner : countInput node relation comparison path value = .ok condition) :
      OfEntry catalog node path value (.count relation comparison) condition

/-- Every entry of an input is read: for each there is a condition. -/
theorem ofEntry_of_parseEntries {key : String} {value : Json} {rest : List (String × Json)}
    (read : parseEntries catalog node path ((key, value) :: rest) = .ok operands) :
    ∃ reading condition others, FilterKey.resolve? node key = some reading ∧
      OfEntry catalog node (path ++ "." ++ key) value reading condition ∧
      parseEntries catalog node path rest = .ok others ∧ operands = condition :: others := by
  have goOn {reading : FilterKey} {condition : Predicate}
      (resolved : FilterKey.resolve? node key = some reading)
      (read : (do return condition :: (← parseEntries catalog node path rest)) = .ok operands)
      (entry : OfEntry catalog node (path ++ "." ++ key) value reading condition) :
      ∃ reading condition others, FilterKey.resolve? node key = some reading ∧
        OfEntry catalog node (path ++ "." ++ key) value reading condition ∧
        parseEntries catalog node path rest = .ok others ∧ operands = condition :: others := by
    obtain ⟨others, behind, read⟩ := Outcome.bind_eq_ok.mp read
    cases read
    exact ⟨reading, condition, others, resolved, entry, behind, rfl⟩
  rw [parseEntries] at read
  dsimp only at read
  split at read
  · rename_i resolved
    obtain ⟨_, made, read⟩ := Outcome.bind_eq_ok.mp read
    obtain ⟨conditions, inner, rfl⟩ := SelectionField.map_eq_ok made
    exact goOn resolved read (.junction inner)
  · rename_i resolved
    obtain ⟨_, made, read⟩ := Outcome.bind_eq_ok.mp read
    obtain ⟨condition, inner, rfl⟩ := SelectionField.map_eq_ok made
    exact goOn resolved read (.negation inner)
  · rename_i resolved
    obtain ⟨_, made, read⟩ := Outcome.bind_eq_ok.mp read
    obtain ⟨filter, inner, rfl⟩ := SelectionField.map_eq_ok made
    exact goOn resolved read (.leaf inner)
  · rename_i resolved
    split at read
    · rename_i null
      exact goOn resolved read (.noEdge null)
    · rename_i set
      obtain ⟨head, lifted, read⟩ := Outcome.bind_eq_ok.mp read
      have leads := SelectionField.node?_of_edgeHead (SelectionField.lift_eq_ok lifted)
      obtain ⟨condition, inner, read⟩ := Outcome.bind_eq_ok.mp read
      exact goOn resolved read (.edge set leads inner)
  · rename_i resolved
    obtain ⟨head, lifted, read⟩ := Outcome.bind_eq_ok.mp read
    have leads := SelectionField.node?_of_reverseEdgeHead (SelectionField.lift_eq_ok lifted)
    split at read
    · rename_i null
      exact goOn resolved read (.noReverse null)
    · rename_i set
      obtain ⟨condition, inner, read⟩ := Outcome.bind_eq_ok.mp read
      exact goOn resolved read (.reverse set leads inner)
  · rename_i resolved
    obtain ⟨head, lifted, read⟩ := Outcome.bind_eq_ok.mp read
    have leads := SelectionField.node?_of_reverseEdgeHead (SelectionField.lift_eq_ok lifted)
    obtain ⟨_, made, read⟩ := Outcome.bind_eq_ok.mp read
    obtain ⟨condition, inner, rfl⟩ := SelectionField.map_eq_ok made
    exact goOn resolved read (.quantified leads inner)
  · rename_i resolved
    obtain ⟨condition, inner, read⟩ := Outcome.bind_eq_ok.mp read
    exact goOn resolved read (.count inner)
  · cases read

theorem parseEntries_cons (node : Node) (path : String) (entry : String × Json)
    (rest : List (String × Json)) :
    parseEntries catalog node path (entry :: rest) = do
      let first ← parseEntries catalog node path [entry]
      let others ← parseEntries catalog node path rest
      return first ++ others := by
  obtain ⟨key, value⟩ := entry
  rw [parseEntries, parseEntries]
  dsimp only
  split <;> try split
  all_goals simp [parseEntries, bind_assoc, invalidInput]

theorem parseEntries_append (node : Node) (path : String) (before rest : List (String × Json)) :
    parseEntries catalog node path (before ++ rest) = do
      let first ← parseEntries catalog node path before
      let others ← parseEntries catalog node path rest
      return first ++ others := by
  induction before with
  | nil =>
    rw [List.nil_append, parseEntries, Outcome.ok_bind]
    exact (bind_pure _).symm
  | cons entry more ih =>
    rw [List.cons_append, parseEntries_cons, parseEntries_cons node path entry more, ih]
    simp [bind_assoc]

theorem parseItems_append (node : Node) (path : String) (index : Nat) (front back : List Json) :
    parseItems catalog node path index (front ++ back) = do
      let first ← parseItems catalog node path index front
      let others ← parseItems catalog node path (index + front.length) back
      return first ++ others := by
  induction front generalizing index with
  | nil =>
    rw [List.nil_append, parseItems, Outcome.ok_bind]
    exact (bind_pure _).symm
  | cons item rest ih =>
    rw [List.cons_append, parseItems, parseItems, ih (index + 1)]
    simp [bind_assoc, Nat.add_assoc, Nat.add_comm 1]

end Predicate

end LiveQuery
