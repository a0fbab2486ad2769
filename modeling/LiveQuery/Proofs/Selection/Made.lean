import LiveQuery.Proofs.Filter.Entries
import LiveQuery.Proofs.Filter.Made
import LiveQuery.Proofs.Selection.Readable
import LiveQuery.Proofs.Value.Coercion

set_option autoImplicit false

namespace LiveQuery

section Filters

variable {field : Leaf} {value made : Value}

theorem Leaf.same_of_coerce (coerced : field.coerce value = .ok made) : made.same made = true :=
  (Leaf.canonical_of_coerce coerced).alike.same

theorem Filter.same_of_coerceOrNull (coerced : coerceOrNull field value = .ok made) :
    made.same made = true := by
  unfold coerceOrNull at coerced
  split at coerced
  · cases coerced
    rfl
  · exact Leaf.same_of_coerce coerced

theorem Value.sameItems_self {items : List Value} (each : ∀ item ∈ items, item.same item = true) :
    sameItems items items = true := by
  induction items with
  | nil => rfl
  | cons item rest ih =>
    rw [List.forall_mem_cons] at each
    rw [sameItems, Bool.and_eq_true]
    exact ⟨each.1, ih each.2⟩

/-- What a leaf is compared with equals itself. -/
theorem Filter.same_of_operand {operator : LeafOperator}
    (compared : operand field operator value = .ok made) : made.same made = true := by
  have listed {items : List Value}
      (coerced : (do return Value.list (← items.mapM (coerceOrNull field))) = Except.ok made) :
      made.same made = true := by
    obtain ⟨values, mapped, coerced⟩ := Outcome.bind_eq_ok.mp coerced
    cases coerced
    rw [Value.same]
    refine Value.sameItems_self fun item inside => ?_
    obtain ⟨raw, -, coerced⟩ := Outcome.exists_of_mem_mapM mapped inside
    exact same_of_coerceOrNull coerced
  cases operator with
  | compared comparison =>
    rw [operand] at compared
    split at compared
    · exact same_of_coerceOrNull compared
    · split at compared
      · cases compared
      · exact Leaf.same_of_coerce compared
  | among | notAmong =>
    cases value with
    | list items => exact listed compared
    | _ => cases compared
  | fullText =>
    cases value with
    | string text =>
      cases type : field.type <;> simp only [operand, type, unsupported, reduceCtorEq,
        Except.ok.injEq] at compared
      subst compared
      exact decide_eq_true rfl
    | _ => cases compared

theorem Filter.same_of_leaf {node : Node} {name : String} {operator : LeafOperator}
    {filter : Filter} (tested : Filter.leaf node name operator value = .ok filter) :
    filter.predicate.same filter.predicate = true := by
  obtain ⟨field, -, tested⟩ := Outcome.bind_eq_ok.mp tested
  obtain ⟨made, compared, tested⟩ := Outcome.bind_eq_ok.mp tested
  cases tested
  rw [Predicate.same, decide_eq_true rfl, decide_eq_true rfl]
  exact same_of_operand compared

namespace Predicate

variable {catalog : Catalog} {node : Node} {path : String} {predicate : Predicate}
  {operands : List Predicate}

theorem sameAll_self (each : ∀ operand ∈ operands, operand.same operand = true) :
    sameAll operands operands = true :=
  sameAll_iff.mpr (List.forall₂_same.mpr each)

theorem same_junction (kind : Junction) (each : ∀ operand ∈ operands, operand.same operand = true) :
    (junction kind operands).same (junction kind operands) = true := by
  rw [same, decide_eq_true rfl, Bool.true_and]
  exact sameAll_self each

theorem same_negatedIf (negated : Bool) (equal : predicate.same predicate = true) :
    (negatedIf negated predicate).same (negatedIf negated predicate) = true := by
  cases negated <;> exact equal

theorem same_edge (link : Edge) {head : Option Predicate} (equal : sameHead head head = true) :
    (edge link head).same (edge link head) = true := by
  rw [same, decide_eq_true rfl, Bool.true_and]
  exact equal

theorem same_reverse (relation : ReverseEdge) {head : Option Predicate}
    (equal : sameHead head head = true) :
    (reverse relation head).same (reverse relation head) = true := by
  rw [same, decide_eq_true rfl, Bool.true_and]
  exact equal

theorem same_quantify (relation : ReverseEdge) (quantifier : Quantifier)
    (equal : predicate.same predicate = true) :
    (quantify relation quantifier predicate).same (quantify relation quantifier predicate) =
      true := by
  cases quantifier <;> exact same_reverse relation equal

theorem same_count (relation : ReverseEdge) (comparison : Comparison) (number : Nat) :
    (count relation comparison number).same (count relation comparison number) = true := by
  simp only [same, decide_true, Bool.and_self]

theorem same_of_countInput {relation : ReverseEdge} {comparison : Comparison} {value : Json}
    (read : countInput node relation comparison path value = .ok predicate) :
    predicate.same predicate = true := by
  unfold countInput at read
  split at read
  · obtain ⟨filter, counted, read⟩ := Outcome.bind_eq_ok.mp read
    cases read
    obtain ⟨relation, -, counted⟩ := Outcome.bind_eq_ok.mp counted
    split at counted
    · cases counted
      exact same_count relation comparison _
    · cases counted
  · cases read

/-- The condition of an entry equals itself if what is read of its value does. -/
theorem OfEntry.same {value : Json} {reading : FilterKey}
    (entry : OfEntry catalog node path value reading predicate)
    (below : ∀ {head : Node} {condition : Predicate},
      parse catalog head path value = .ok condition → condition.same condition = true)
    (joined : ∀ {operands : List Predicate}, parseOperands catalog node path value = .ok operands →
      ∀ operand ∈ operands, operand.same operand = true) :
    predicate.same predicate = true := by
  cases entry with
  | junction inner => exact same_junction _ (joined inner)
  | negation inner =>
    have equal := below inner
    exact equal
  | leaf inner => exact Filter.same_of_leaf inner
  | noEdge null => exact same_negatedIf _ (same_edge _ rfl)
  | edge set leads inner => exact same_negatedIf _ (same_edge _ (below inner))
  | noReverse null => exact same_reverse _ rfl
  | reverse set leads inner => exact same_reverse _ (below inner)
  | quantified leads inner => exact same_quantify _ _ (below inner)
  | count inner => exact same_of_countInput inner

mutual

theorem same_of_parse {node : Node} {path : String} {predicate : Predicate} :
    ∀ {input : Json}, parse catalog node path input = .ok predicate →
      predicate.same predicate = true
  | .null, read => by
    rw [parse] at read
    cases read
    rfl
  | .object entries, read => by
    rw [parse] at read
    obtain ⟨operands, below, read⟩ := Outcome.bind_eq_ok.mp read
    cases read
    exact same_junction .all (same_of_parseEntries below)
  | .boolean _, read | .integer _, read | .float _, read | .string _, read | .array _, read => by
    rw [parse] at read
    cases read
    all_goals simp

theorem same_of_parseEntries {node : Node} {path : String} {operands : List Predicate} :
    ∀ {entries : List (String × Json)}, parseEntries catalog node path entries = .ok operands →
      ∀ operand ∈ operands, operand.same operand = true
  | [], read => by
    rw [parseEntries] at read
    cases read
    simp
  | (key, value) :: rest, read => by
    obtain ⟨reading, condition, others, -, entry, behind, rfl⟩ := ofEntry_of_parseEntries read
    have equal := entry.same (fun inner => same_of_parse inner)
      fun inner => same_of_parseOperands inner
    exact List.forall_mem_cons.mpr ⟨equal, same_of_parseEntries behind⟩

theorem same_of_parseOperands {node : Node} {path : String} {operands : List Predicate} :
    ∀ {input : Json}, parseOperands catalog node path input = .ok operands →
      ∀ operand ∈ operands, operand.same operand = true
  | .array items, read => by
    rw [parseOperands] at read
    exact same_of_parseItems read
  | .object entries, read => by
    rw [parseOperands] at read
    obtain ⟨conditions, below, read⟩ := Outcome.bind_eq_ok.mp read
    cases read
    have each := same_of_parseEntries below
    exact List.forall_mem_singleton.mpr (same_junction .all each)
  | .null, read | .boolean _, read | .integer _, read | .float _, read | .string _, read => by
    rw [parseOperands] at read
    cases read
    all_goals simp

theorem same_of_parseItems {node : Node} {path : String} {operands : List Predicate} :
    ∀ {index : Nat} {items : List Json}, parseItems catalog node path index items = .ok operands →
      ∀ operand ∈ operands, operand.same operand = true
  | _, [], read => by
    rw [parseItems] at read
    cases read
    simp
  | _, item :: rest, read => by
    rw [parseItems] at read
    obtain ⟨operand, first, read⟩ := Outcome.bind_eq_ok.mp read
    obtain ⟨others, below, read⟩ := Outcome.bind_eq_ok.mp read
    cases read
    exact List.forall_mem_cons.mpr ⟨same_of_parse first, same_of_parseItems below⟩

end

end Predicate

end Filters

section Made

variable {catalog : Catalog} {node : Node} {filter : Filter}

theorem Filter.same_of_parse {input : Json} (read : parse catalog node input = .ok filter) :
    filter.predicate.same filter.predicate = true := by
  obtain ⟨predicate, parsed, same⟩ := Outcome.bind_eq_ok.mp read
  cases same
  exact Predicate.same_of_parse parsed

end Made

section Selections

mutual

/-- The selections that can be made over a catalog. -/
inductive Selection.Made (catalog : Catalog) : Selection → Prop
  | parsed {node : Node} {input : Json} {selection : Selection}
    (read : Selection.parse catalog node input = .ok selection) : Selection.Made catalog selection
  | identifier {node : Node} {selection : Selection}
    (identified : Selection.identifier catalog node = .ok selection) :
    Selection.Made catalog selection
  | fields {node : Node} {fields : List SelectionField} {selection : Selection}
    (each : ∀ field ∈ fields, SelectionField.Made catalog field)
    (made : Selection.make node fields = .ok selection) : Selection.Made catalog selection
  | merged {mine theirs selection : Selection} (first : Selection.Made catalog mine)
    (second : Selection.Made catalog theirs) (merges : mine.merge theirs = .ok selection) :
    Selection.Made catalog selection

/-- The fields that a selection can be put together from: what is wanted of the heads is a selection
of their node, and the filters are any that equal themselves, as all do that are parsed. -/
inductive SelectionField.Made (catalog : Catalog) : SelectionField → Prop
  | leaf (key : String) (field : Leaf) : SelectionField.Made catalog (.leaf key field)
  | edge {key : String} {link : Edge} {head : Selection} (below : Selection.Made catalog head)
    (named : head.node.name = link.head) :
    SelectionField.Made catalog (.edge key link head.fields)
  | unique {key : String} {relation : ReverseEdge} {head : Selection}
    (below : Selection.Made catalog head) (named : head.node.name = relation.head) :
    SelectionField.Made catalog (.unique key relation head.fields)
  | multiple {key : String} {relation : ReverseEdge} {window : Window} {head : Selection}
    (below : Selection.Made catalog head) (named : head.node.name = relation.head)
    (equal : Predicate.sameHead window.filter window.filter = true) :
    SelectionField.Made catalog (.multiple key relation window head.fields)
  | count {key : String} {relation : ReverseEdge} {filter : Option Predicate}
    (equal : Predicate.sameHead filter filter = true) :
    SelectionField.Made catalog (.count key relation filter)

end

namespace SelectionField

variable {catalog : Catalog} {node : Node} {fields : List SelectionField} {path : String}

theorem validAll_of_identifier (identified : identifier catalog node = .ok fields) :
    ValidAll node.name fields := by
  have whole : Selection.identifier catalog node = .ok ⟨node, fields⟩ := by
    rw [Selection.identifier, identified]
    rfl
  exact (Selection.identifier_valid whole).2

theorem sameFilter_of_filterInput {head : Node} {arguments : Json} {filter : Option Predicate}
    (read : filterInput catalog head arguments = .ok filter) :
    Predicate.sameHead filter filter = true := by
  unfold filterInput at read
  split at read
  · obtain ⟨filter, parsed, read⟩ := Outcome.bind_eq_ok.mp read
    cases read
    exact Filter.same_of_parse parsed
  · cases read
    rfl

theorem valid_of_numberInput {key : String} {relation : ReverseEdge} {value : Json}
    {made : SelectionField} (read : numberInput catalog key relation path value = .ok made) :
    made.valid = true := by
  unfold numberInput at read
  split at read
  · cases read
    rfl
  · split at read
    · obtain ⟨head, -, read⟩ := Outcome.bind_eq_ok.mp read
      obtain ⟨filter, parsed, read⟩ := Outcome.bind_eq_ok.mp read
      cases read
      exact Filter.same_of_parse parsed
    · cases read
      rfl
  · cases read

theorem validAll_of_check {name : String} {checked : List SelectionField}
    (each : ∀ field ∈ fields, field.valid = true) (passed : check name fields = .ok checked) :
    ValidAll name checked := by
  obtain rfl := check_eq_ok passed
  exact ⟨fault?_of_check passed, each⟩

section Heads

variable {key name : String} {relation : ReverseEdge} {head : List SelectionField}

theorem valid_edge {link : Edge} (named : name = link.head) (heads : ValidAll name head) :
    (edge key link head).valid = true := by
  subst named
  exact valid_iff.mpr ⟨by simp [akin], heads⟩

theorem valid_unique (named : name = relation.head) (heads : ValidAll name head) :
    (unique key relation head).valid = true := by
  subst named
  exact valid_iff.mpr ⟨by simp [akin], heads⟩

theorem valid_multiple {window : Window} (named : name = relation.head)
    (heads : ValidAll name head)
    (equal : Predicate.sameHead window.filter window.filter = true) :
    (multiple key relation window head).valid = true := by
  subst named
  exact valid_iff.mpr ⟨by simp [akin, Window.same, equal], heads⟩

end Heads

mutual

theorem validAll_of_parse {node : Node} {path : String} {fields : List SelectionField} :
    ∀ {input : Json}, parse catalog node path input = .ok fields → ValidAll node.name fields
  | .object entries, read => by
    rw [parse] at read
    obtain ⟨listed, below, passed⟩ := Outcome.bind_eq_ok.mp read
    exact validAll_of_check (valid_of_parseEntries below) passed
  | .null, read | .boolean _, read | .integer _, read | .float _, read | .string _, read
  | .array _, read => by
    rw [parse] at read
    cases read
    all_goals simp

theorem valid_of_parseEntries {node : Node} {path : String} {fields : List SelectionField} :
    ∀ {entries : List (String × Json)}, parseEntries catalog node path entries = .ok fields →
      ∀ field ∈ fields, field.valid = true
  | [], read => by
    rw [parseEntries] at read
    cases read
    simp
  | (entry, value) :: rest, read => by
    obtain ⟨key, field, others, -, entry, behind, rfl⟩ := ofEntry_of_parseEntries read
    have valid : field.valid = true := by
      cases entry with
      | leaf inner =>
        unfold leafInput at inner
        split at inner <;> cases inner
        rfl
      | edge leads inner =>
        exact valid_edge (Catalog.name_of_node? leads) (validAll_of_parse inner)
      | unique leads inner =>
        exact valid_unique (Catalog.name_of_node? leads) (validAll_of_parse inner)
      | multiple inside leads filtered inner =>
        exact valid_multiple (Catalog.name_of_node? leads) (validAll_of_parseHead inner)
          (sameFilter_of_filterInput filtered)
      | count inner => exact valid_of_numberInput inner
    exact List.forall_mem_cons.mpr ⟨valid, valid_of_parseEntries behind⟩

theorem validAll_of_parseHead {node : Node} {path : String} {fields : List SelectionField} :
    ∀ {input : Json}, parseHead catalog node path input = .ok fields → ValidAll node.name fields
  | .object arguments, read => by
    rw [parseHead] at read
    exact validAll_of_parseArgument read
  | .null, read | .boolean _, read | .integer _, read | .float _, read | .string _, read
  | .array _, read => by
    rw [parseHead] at read
    · exact validAll_of_identifier read
    all_goals simp

theorem validAll_of_parseArgument {node : Node} {path : String} {fields : List SelectionField} :
    ∀ {arguments : List (String × Json)},
      parseArgument catalog node path arguments = .ok fields → ValidAll node.name fields
  | [], read => by
    rw [parseArgument] at read
    exact validAll_of_identifier read
  | (key, value) :: rest, read => by
    rw [parseArgument] at read
    split at read
    · exact validAll_of_parse read
    · exact validAll_of_parseArgument read

end

end SelectionField

mutual

/-- However a selection is made, it is well-formed. -/
theorem Selection.Made.valid {catalog : Catalog} :
    ∀ {selection : Selection}, selection.Made catalog → selection.Valid
  | _, .parsed read => by
    obtain ⟨fields, parsed, same⟩ := Outcome.bind_eq_ok.mp read
    cases same
    exact SelectionField.validAll_of_parse parsed
  | _, .identifier identified => (Selection.identifier_valid identified).2
  | _, .fields each made => by
    obtain ⟨checked, passed, same⟩ := Outcome.bind_eq_ok.mp made
    cases same
    exact SelectionField.validAll_of_check (fun field inside => (each field inside).valid) passed
  | _, .merged first second merges => (Selection.merge_spec first.valid second.valid merges).1

theorem SelectionField.Made.valid {catalog : Catalog} :
    ∀ {field : SelectionField}, field.Made catalog → field.valid = true
  | _, .leaf _ _ => rfl
  | _, .edge below named => SelectionField.valid_edge named below.valid
  | _, .unique below named => SelectionField.valid_unique named below.valid
  | _, .multiple below named equal => SelectionField.valid_multiple named below.valid equal
  | _, .count equal => equal

end

end Selections

namespace Samples

/-- The number of a task, under a key of its own. -/
def numberOnly : Selection := ⟨task, [.leaf "number" ⟨"Task", "id", "id", .int, false⟩]⟩

/-- The owner of a task. -/
def ownerOnly : Selection :=
  ⟨task, [.edge "owner" owner [.leaf "id" ⟨"Person", "id", "id", .int, false⟩]]⟩

/-- Both. -/
def taskSheet : Selection := ⟨task, numberOnly.fields ++ ownerOnly.fields⟩

theorem made_numberOnly : numberOnly.Made boardCatalog :=
  .parsed (show Selection.parse boardCatalog task (.object [("number:id", .boolean true)]) =
    .ok numberOnly from rfl)

theorem made_ownerOnly : ownerOnly.Made boardCatalog :=
  .parsed (show Selection.parse boardCatalog task
    (.object [("owner", .object [("id", .boolean true)])]) = .ok ownerOnly from rfl)

theorem merge_sheet : numberOnly.merge ownerOnly = .ok taskSheet := rfl

end Samples

end LiveQuery
