import LiveQuery.Filter.Identifier
import LiveQuery.Proofs.Filter.Entries
import LiveQuery.Proofs.Filter.Keys
import LiveQuery.Proofs.Filter.Made
import LiveQuery.Proofs.Filter.Reduction
import LiveQuery.Proofs.Selection.Readable
import LiveQuery.Proofs.Value.Coercion

set_option autoImplicit false

namespace LiveQuery

/-- The type has the value in the form that it keeps. -/
def LeafType.Keeps (type : LeafType) (value : Value) : Prop := type.coerce? value = some value

/-- What an operator can compare a leaf with. -/
inductive Leaf.Admits (field : Leaf) : LeafOperator → Value → Prop
  | equality {comparison : Comparison} {value : Value} (unordered : comparison.isOrder = false)
    (kept : value = .null ∨ field.type.Keeps value) : Admits field (.compared comparison) value
  | order {comparison : Comparison} {value : Value} (ordered : comparison.isOrder = true)
    (comparable : field.type.isComparable = true) (kept : field.type.Keeps value) :
    Admits field (.compared comparison) value
  | among {items : List Value} (kept : ∀ item ∈ items, item = .null ∨ field.type.Keeps item) :
    Admits field .among (.list items)
  | notAmong {items : List Value} (kept : ∀ item ∈ items, item = .null ∨ field.type.Keeps item) :
    Admits field .notAmong (.list items)
  | fullText (text : String) (type : field.type = .string) : Admits field .fullText (.string text)

/-- A predicate on the instances of a node of this name, with leaves and relations of the node. -/
inductive Predicate.Typed (catalog : Catalog) : String → Predicate → Prop
  | constant {node : String} (value : Bool) : Typed catalog node (.constant value)
  | raw {node : String} (sql : String) : Typed catalog node (.raw sql)
  | junction {node : String} {kind : Junction} {operands : List Predicate}
    (each : ∀ operand ∈ operands, Typed catalog node operand) :
    Typed catalog node (.junction kind operands)
  | negation {node : String} {operand : Predicate} (below : Typed catalog node operand) :
    Typed catalog node (.negation operand)
  | leaf {home : Node} {field : Leaf} {operator : LeafOperator} {value : Value}
    (found : catalog.node? home.name = some home)
    (part : home.component? field.name = some (.leaf field))
    (admits : field.Admits operator value) :
    Typed catalog home.name (.leaf field operator value)
  | edge {home : Node} {link : Edge} {head : Option Predicate}
    (found : catalog.node? home.name = some home)
    (part : home.component? link.name = some (.edge link))
    (below : ∀ inner, head = some inner → Typed catalog link.head inner) :
    Typed catalog home.name (.edge link head)
  | reverse {home : Node} {relation : ReverseEdge} {head : Option Predicate}
    (found : catalog.node? home.name = some home)
    (part : home.reverseEdge? relation.name = some relation)
    (below : ∀ inner, head = some inner → Typed catalog relation.head inner) :
    Typed catalog home.name (.reverse relation head)
  | count {home : Node} {relation : ReverseEdge} (found : catalog.node? home.name = some home)
    (part : home.reverseEdge? relation.name = some relation) (comparison : Comparison)
    (number : Nat) : Typed catalog home.name (.count relation comparison number)

namespace Predicate.Typed

variable {catalog : Catalog} {name : String}

theorem of_junction {kind : Junction} {operands : List Predicate}
    (typed : (Predicate.junction kind operands).Typed catalog name) :
    ∀ operand ∈ operands, operand.Typed catalog name := by
  cases typed with
  | junction each => exact each

theorem of_negation {operand : Predicate} (typed : (Predicate.negation operand).Typed catalog name) :
    operand.Typed catalog name := by
  cases typed with
  | negation below => exact below

theorem of_leaf {field : Leaf} {operator : LeafOperator} {value : Value}
    (typed : (Predicate.leaf field operator value).Typed catalog name) :
    ∃ home, catalog.node? name = some home ∧
      home.component? field.name = some (.leaf field) ∧ field.Admits operator value := by
  cases typed with
  | leaf found part admits => exact ⟨_, found, part, admits⟩

theorem of_edge {link : Edge} {head : Option Predicate}
    (typed : (Predicate.edge link head).Typed catalog name) :
    ∃ home, catalog.node? name = some home ∧ home.component? link.name = some (.edge link) ∧
      ∀ inner, head = some inner → inner.Typed catalog link.head := by
  cases typed with
  | edge found part below => exact ⟨_, found, part, below⟩

theorem of_reverse {relation : ReverseEdge} {head : Option Predicate}
    (typed : (Predicate.reverse relation head).Typed catalog name) :
    ∃ home, catalog.node? name = some home ∧ home.reverseEdge? relation.name = some relation ∧
      ∀ inner, head = some inner → inner.Typed catalog relation.head := by
  cases typed with
  | reverse found part below => exact ⟨_, found, part, below⟩

theorem of_count {relation : ReverseEdge} {comparison : Comparison} {number : Nat}
    (typed : (Predicate.count relation comparison number).Typed catalog name) :
    ∃ home, catalog.node? name = some home ∧ home.reverseEdge? relation.name = some relation := by
  cases typed with
  | count found part => exact ⟨_, found, part⟩

end Predicate.Typed

section Operands

variable {field : Leaf} {raw value : Value}

theorem LeafType.Keeps.isNull_eq {type : LeafType} (kept : type.Keeps value) :
    value.isNull = false := by
  cases value with
  | null => cases type <;> cases kept
  | _ => rfl

theorem Filter.keeps_of_coerce (set : raw.isNull = false)
    (coerced : field.coerce raw = .ok value) : field.type.Keeps value := by
  unfold Leaf.coerce Leaf.coerce? at coerced
  rw [set, Bool.and_false, if_neg Bool.false_ne_true] at coerced
  split at coerced
  · rename_i kept
    cases coerced
    exact LeafType.coerce?_idem kept
  · cases coerced

theorem Filter.null_or_keeps_of_coerceOrNull (coerced : coerceOrNull field raw = .ok value) :
    value = .null ∨ field.type.Keeps value := by
  unfold coerceOrNull at coerced
  cases null : raw.isNull with
  | true =>
    rw [null] at coerced
    cases coerced
    exact Or.inl rfl
  | false =>
    rw [null] at coerced
    exact Or.inr (keeps_of_coerce null coerced)

theorem Filter.kept_of_mapM {items kept : List Value}
    (coerced : items.mapM (coerceOrNull field) = .ok kept) :
    ∀ item ∈ kept, item = .null ∨ field.type.Keeps item := by
  intro item inside
  obtain ⟨_, -, made⟩ := Outcome.exists_of_mem_mapM coerced inside
  exact null_or_keeps_of_coerceOrNull made

/-- What a filter compares a leaf with is what the operator can compare it with. -/
theorem Filter.admits_of_operand {operator : LeafOperator}
    (made : operand field operator raw = .ok value) : field.Admits operator value := by
  unfold operand at made
  split at made
  · rename_i comparison
    split at made
    · rename_i unordered
      exact .equality (by simpa using unordered) (null_or_keeps_of_coerceOrNull made)
    · rename_i ordered
      split at made
      · cases made
      · rename_i open_
        simp only [Bool.or_eq_true, Bool.not_eq_true', not_or, Bool.not_eq_false] at open_ ordered
        exact .order ordered open_.1 (keeps_of_coerce (Bool.eq_false_iff.mpr open_.2) made)
  · split at made
    · obtain ⟨kept, coerced, same⟩ := Outcome.bind_eq_ok.mp made
      cases same
      exact .among (kept_of_mapM coerced)
    · cases made
  · split at made
    · obtain ⟨kept, coerced, same⟩ := Outcome.bind_eq_ok.mp made
      cases same
      exact .notAmong (kept_of_mapM coerced)
    · cases made
  · split at made
    · rename_i type
      cases made
      exact .fullText _ type
    · cases made

end Operands

namespace Filter

variable {catalog : Catalog} {node : Node}

/-- A filter whose predicate is typed at the filter's node. -/
def Typed (catalog : Catalog) (filter : Filter) : Prop :=
  filter.predicate.Typed catalog filter.node.name

theorem component?_of_leaf {name : String} {field : Leaf} (named : node.leaf name = .ok field) :
    node.component? field.name = some (.leaf field) := by
  unfold Node.leaf at named
  split at named
  · rename_i known
    cases named
    have same : field.name = name := Node.name_of_component? known
    rw [same, known]
  · cases named

theorem typed_leaf (found : catalog.node? node.name = some node) {name : String}
    {operator : LeafOperator} {value : Value} {filter : Filter}
    (made : leaf node name operator value = .ok filter) : filter.Typed catalog := by
  obtain ⟨field, named, behind⟩ := Outcome.bind_eq_ok.mp made
  obtain ⟨expected, compared, same⟩ := Outcome.bind_eq_ok.mp behind
  cases same
  have known := SelectionField.lift_eq_ok named
  exact .leaf found (component?_of_leaf known) (admits_of_operand compared)

theorem predicate_typed_leaf (found : catalog.node? node.name = some node) {name : String}
    {operator : LeafOperator} {value : Value} {filter : Filter}
    (made : leaf node name operator value = .ok filter) :
    filter.predicate.Typed catalog node.name := by
  have typed := typed_leaf found made
  obtain ⟨_, -, behind⟩ := Outcome.bind_eq_ok.mp made
  obtain ⟨_, -, same⟩ := Outcome.bind_eq_ok.mp behind
  cases same
  exact typed

theorem typed_junction {kind : Junction} {operands : List Filter} {filter : Filter}
    (made : junction node kind operands = .ok filter)
    (each : ∀ operand ∈ operands, operand.Typed catalog) : filter.Typed catalog := by
  obtain ⟨⟨⟩, checked, same⟩ := Outcome.bind_eq_ok.mp made
  cases same
  apply Predicate.Typed.junction
  intro predicate inside
  obtain ⟨operand, member, rfl⟩ := List.mem_map.mp inside
  have here : operand.node.name = node.name :=
    node_of_checkNode (Outcome.passes_of_forM_eq_ok checked operand member)
  exact here ▸ each operand member

theorem typed_of_headPredicate {expected : String} {head : Option Filter}
    {condition : Option Predicate} (read : headPredicate expected head = .ok condition)
    (below : ∀ inner, head = some inner → inner.Typed catalog) :
    ∀ inner, condition = some inner → inner.Typed catalog expected := by
  cases head with
  | none =>
    cases read
    simp
  | some inner =>
    obtain ⟨⟨⟩, checked, same⟩ := Outcome.bind_eq_ok.mp read
    cases same
    rintro _ ⟨⟩
    rw [← node_of_checkNode checked]
    exact below inner rfl

theorem typed_edge (found : catalog.node? node.name = some node) {name : String}
    {head : Option Filter} {filter : Filter} (made : edge node name head = .ok filter)
    (below : ∀ inner, head = some inner → inner.Typed catalog) : filter.Typed catalog := by
  obtain ⟨link, named, behind⟩ := Outcome.bind_eq_ok.mp made
  obtain ⟨condition, read, same⟩ := Outcome.bind_eq_ok.mp behind
  cases same
  have known := component?_of_edge (SelectionField.lift_eq_ok named)
  exact .edge found known (typed_of_headPredicate read below)

theorem typed_reverse (found : catalog.node? node.name = some node) {name : String}
    {head : Option Filter} {filter : Filter} (made : reverse node name head = .ok filter)
    (below : ∀ inner, head = some inner → inner.Typed catalog) : filter.Typed catalog := by
  obtain ⟨relation, named, behind⟩ := Outcome.bind_eq_ok.mp made
  obtain ⟨condition, read, same⟩ := Outcome.bind_eq_ok.mp behind
  cases same
  have known := reverseEdge?_of_reverseEdge (SelectionField.lift_eq_ok named)
  exact .reverse found known (typed_of_headPredicate read below)

theorem typed_count (found : catalog.node? node.name = some node) {name : String}
    {comparison : Comparison} {number : Nat} {filter : Filter}
    (made : count node name comparison number = .ok filter) : filter.Typed catalog := by
  obtain ⟨relation, named, behind⟩ := Outcome.bind_eq_ok.mp made
  have known := reverseEdge?_of_reverseEdge (SelectionField.lift_eq_ok named)
  split at behind
  · cases behind
    exact .count found known comparison number
  · cases behind

end Filter

theorem Leaf.Admits.opposite {field : Leaf} {operator other : LeafOperator} {value : Value}
    (admits : field.Admits operator value)
    (turned : Predicate.oppositeOperator? field operator = some other) :
    field.Admits other value := by
  cases admits with
  | @equality comparison value unordered kept =>
    unfold Predicate.oppositeOperator? at turned
    dsimp only at turned
    rw [unordered, Bool.false_and, if_neg Bool.false_ne_true] at turned
    cases turned
    refine .equality ?_ kept
    cases comparison <;> first | rfl | cases unordered
  | @order comparison value ordered comparable kept =>
    unfold Predicate.oppositeOperator? at turned
    dsimp only at turned
    split at turned
    · cases turned
    · cases turned
      refine .order ?_ comparable kept
      cases comparison <;> first | rfl | cases ordered
  | among kept => cases turned; exact .notAmong kept
  | notAmong kept => cases turned; exact .among kept
  | fullText => cases turned

namespace Predicate

variable {catalog : Catalog} {node : Node} {path : String} {predicate : Predicate}
  {operands : List Predicate}

theorem Typed.negatedIf {name : String} (negated : Bool) (typed : predicate.Typed catalog name) :
    (predicate.negatedIf negated).Typed catalog name := by
  cases negated with
  | true => exact .negation typed
  | false => exact typed

theorem Typed.quantify {relation : ReverseEdge} (quantifier : Quantifier)
    (found : catalog.node? node.name = some node)
    (part : node.reverseEdge? relation.name = some relation)
    (typed : predicate.Typed catalog relation.head) :
    (Predicate.quantify relation quantifier predicate).Typed catalog node.name := by
  cases quantifier with
  | every => exact .negation (.reverse found part fun _ same => by cases same; exact .negation typed)
  | some => exact .reverse found part fun _ same => by cases same; exact typed
  | none => exact .negation (.reverse found part fun _ same => by cases same; exact typed)

theorem typed_of_countInput (found : catalog.node? node.name = some node) {relation : ReverseEdge}
    {comparison : Comparison} {value : Json}
    (read : countInput node relation comparison path value = .ok predicate) :
    predicate.Typed catalog node.name := by
  unfold countInput at read
  split at read
  · obtain ⟨filter, counted, same⟩ := Outcome.bind_eq_ok.mp read
    cases same
    have typed := Filter.typed_count found counted
    obtain ⟨_, -, behind⟩ := Outcome.bind_eq_ok.mp counted
    split at behind <;> cases behind
    exact typed
  · cases read

/-- The condition of an entry is typed if what is read of its value is. -/
theorem OfEntry.typed {value : Json} {reading : FilterKey}
    (entry : OfEntry catalog node path value reading predicate)
    (found : catalog.node? node.name = some node) (part : reading.PartOf node)
    (here : ∀ {head : Node} {condition : Predicate}, catalog.node? head.name = some head →
      parse catalog head path value = .ok condition → condition.Typed catalog head.name)
    (joined : ∀ {operands : List Predicate}, parseOperands catalog node path value = .ok operands →
      ∀ operand ∈ operands, operand.Typed catalog node.name) :
    predicate.Typed catalog node.name := by
  have below {name : String} {head : Node} {condition : Predicate}
      (leads : catalog.node? name = some head)
      (inner : parse catalog head path value = .ok condition) : condition.Typed catalog name := by
    have named := Catalog.name_of_node? leads
    exact named ▸ here (named ▸ leads) inner
  cases entry with
  | junction inner => exact .junction (joined inner)
  | negation inner => exact .negation (here found inner)
  | leaf inner => exact Filter.predicate_typed_leaf found inner
  | noEdge null => exact .negatedIf _ (.negation (.edge found part (by simp)))
  | edge set leads inner =>
    exact .negatedIf _ (.edge found part fun _ same => by cases same; exact below leads inner)
  | noReverse null => exact .negation (.reverse found part.1 (by simp))
  | reverse set leads inner =>
    exact .reverse found part.1 fun _ same => by cases same; exact below leads inner
  | quantified leads inner => exact (below leads inner).quantify _ found part.1
  | count inner => exact typed_of_countInput found inner

mutual

theorem typed_of_parse {node : Node} {path : String} {predicate : Predicate}
    (found : catalog.node? node.name = some node) :
    ∀ {input : Json}, parse catalog node path input = .ok predicate →
      predicate.Typed catalog node.name
  | .null, read => by
    rw [parse] at read
    cases read
    exact .constant true
  | .object entries, read => by
    rw [parse] at read
    obtain ⟨operands, below, read⟩ := Outcome.bind_eq_ok.mp read
    cases read
    exact .junction (typed_of_parseEntries found below)
  | .boolean _, read | .integer _, read | .float _, read | .string _, read | .array _, read => by
    rw [parse] at read
    cases read
    all_goals simp

theorem typed_of_parseEntries {node : Node} {path : String} {operands : List Predicate}
    (found : catalog.node? node.name = some node) :
    ∀ {entries : List (String × Json)}, parseEntries catalog node path entries = .ok operands →
      ∀ operand ∈ operands, operand.Typed catalog node.name
  | [], read => by
    rw [parseEntries] at read
    cases read
    simp
  | (key, value) :: rest, read => by
    obtain ⟨reading, condition, others, resolved, entry, behind, rfl⟩ :=
      ofEntry_of_parseEntries read
    have typed := entry.typed found (FilterKey.partOf_of_resolve? resolved)
      (fun found inner => typed_of_parse found inner) fun inner => typed_of_parseOperands found inner
    exact List.forall_mem_cons.mpr ⟨typed, typed_of_parseEntries found behind⟩

theorem typed_of_parseOperands {node : Node} {path : String} {operands : List Predicate}
    (found : catalog.node? node.name = some node) :
    ∀ {input : Json}, parseOperands catalog node path input = .ok operands →
      ∀ operand ∈ operands, operand.Typed catalog node.name
  | .array items, read => by
    rw [parseOperands] at read
    exact typed_of_parseItems found read
  | .object entries, read => by
    rw [parseOperands] at read
    obtain ⟨conditions, below, read⟩ := Outcome.bind_eq_ok.mp read
    cases read
    have each := typed_of_parseEntries found below
    exact List.forall_mem_singleton.mpr (.junction each)
  | .null, read | .boolean _, read | .integer _, read | .float _, read | .string _, read => by
    rw [parseOperands] at read
    cases read
    all_goals simp

theorem typed_of_parseItems {node : Node} {path : String} {operands : List Predicate}
    (found : catalog.node? node.name = some node) :
    ∀ {index : Nat} {items : List Json}, parseItems catalog node path index items = .ok operands →
      ∀ operand ∈ operands, operand.Typed catalog node.name
  | _, [], read => by
    rw [parseItems] at read
    cases read
    simp
  | _, item :: rest, read => by
    rw [parseItems] at read
    obtain ⟨operand, first, read⟩ := Outcome.bind_eq_ok.mp read
    obtain ⟨others, below, read⟩ := Outcome.bind_eq_ok.mp read
    cases read
    exact List.forall_mem_cons.mpr ⟨typed_of_parse found first, typed_of_parseItems found below⟩

end

theorem complementAll_eq_map (operands : List Predicate) :
    complementAll operands = operands.map complement := by
  induction operands with
  | nil => rfl
  | cons operand rest ih => rw [complementAll, ih, List.map_cons]

/-- The complement of a typed predicate is typed. -/
theorem Typed.complement {node : String} (typed : predicate.Typed catalog node) :
    predicate.complement.Typed catalog node := by
  induction typed with
  | constant value => exact .constant _
  | raw sql => exact .negation (.raw sql)
  | @junction node kind operands _ ih =>
    rw [Predicate.complement, complementAll_eq_map]
    exact .junction (List.forall_mem_map.mpr ih)
  | negation below _ => exact below
  | @leaf home field operator value found part admits =>
    rw [Predicate.complement]
    split
    · rename_i turned
      exact .leaf found part (admits.opposite turned)
    · exact .negation (.leaf found part admits)
  | edge found part below _ => exact .negation (.edge found part below)
  | reverse found part below _ => exact .negation (.reverse found part below)
  | count found part comparison number => exact .count found part _ number

theorem inherited_typed : Inherited fun (node : String) predicate =>
    predicate.Typed catalog node where
  constant value := .constant value
  junction := ⟨Typed.of_junction, .junction⟩
  negation := ⟨Typed.of_negation, .negation⟩
  among typed := by
    cases typed with
    | leaf found part admits =>
      cases admits with
      | among kept => exact .leaf found part (.equality rfl (kept _ (List.mem_singleton_self _)))
  notAmong typed := by
    cases typed with
    | leaf found part admits =>
      cases admits with
      | notAmong kept => exact .leaf found part (.equality rfl (kept _ (List.mem_singleton_self _)))
  edge typed kept := by
    cases typed with
    | edge found part below =>
      refine .edge found part fun inner' same => ?_
      obtain ⟨inner, rfl, keeps⟩ := kept inner' same
      exact keeps _ (below inner rfl)
  reverse typed kept := by
    cases typed with
    | reverse found part below =>
      refine .reverse found part fun inner' same => ?_
      obtain ⟨inner, rfl, keeps⟩ := kept inner' same
      exact keeps _ (below inner rfl)

theorem Typed.reduced {node : String} (typed : predicate.Typed catalog node) :
    predicate.reduced.Typed catalog node :=
  inherited_typed.reduced node typed

end Predicate

namespace Filter

variable {catalog : Catalog} {node : Node}

/-- The filters that there can be on the nodes of a catalog: those of the constructors, those that
are read from inputs or made from identifiers, and what they are complemented and reduced to. -/
inductive Arises (catalog : Catalog) : Filter → Prop
  | constant {node : Node} (found : catalog.node? node.name = some node) (value : Bool) :
    Arises catalog (.constant node value)
  | raw {node : Node} (found : catalog.node? node.name = some node) (sql : String) :
    Arises catalog (.raw node sql)
  | leaf {node : Node} {name : String} {operator : LeafOperator} {value : Value} {filter : Filter}
    (found : catalog.node? node.name = some node)
    (made : Filter.leaf node name operator value = .ok filter) : Arises catalog filter
  | negation {operand : Filter} (below : Arises catalog operand) : Arises catalog operand.negation
  | junction {node : Node} {kind : Junction} {operands : List Filter} {filter : Filter}
    (found : catalog.node? node.name = some node)
    (made : Filter.junction node kind operands = .ok filter)
    (below : ∀ operand ∈ operands, Arises catalog operand) : Arises catalog filter
  | edge {node : Node} {name : String} {head : Option Filter} {filter : Filter}
    (found : catalog.node? node.name = some node) (made : Filter.edge node name head = .ok filter)
    (below : ∀ inner, head = some inner → Arises catalog inner) : Arises catalog filter
  | reverse {node : Node} {name : String} {head : Option Filter} {filter : Filter}
    (found : catalog.node? node.name = some node)
    (made : Filter.reverse node name head = .ok filter)
    (below : ∀ inner, head = some inner → Arises catalog inner) : Arises catalog filter
  | count {node : Node} {name : String} {comparison : Comparison} {number : Nat} {filter : Filter}
    (found : catalog.node? node.name = some node)
    (made : Filter.count node name comparison number = .ok filter) : Arises catalog filter
  | parse {node : Node} {input : Json} {filter : Filter}
    (found : catalog.node? node.name = some node)
    (read : Filter.parse catalog node input = .ok filter) : Arises catalog filter
  | identifier {node : Node} {id : Record} {filter : Filter}
    (found : catalog.node? node.name = some node)
    (made : Filter.identifier catalog node id = .ok filter) : Arises catalog filter
  | complement {operand : Filter} (below : Arises catalog operand) :
    Arises catalog operand.complement
  | reduced {operand : Filter} (below : Arises catalog operand) : Arises catalog operand.reduced

theorem typed_of_headCondition (found : catalog.node? node.name = some node) {id : Record}
    {component : Component} {condition : Predicate}
    (made : headCondition node id component = .ok condition) :
    condition.Typed catalog node.name := by
  obtain ⟨value, -, made⟩ := Outcome.bind_eq_ok.mp made
  cases component with
  | edge => cases made
  | leaf field =>
    obtain ⟨filter, tested, same⟩ := Outcome.bind_eq_ok.mp made
    cases same
    exact predicate_typed_leaf found tested

theorem typed_of_identifierCondition (found : catalog.node? node.name = some node) {id : Record}
    {component : Component} (inside : component ∈ node.identifierComponents)
    {condition : Predicate}
    (made : identifierCondition catalog node id component = .ok condition) :
    condition.Typed catalog node.name := by
  obtain ⟨value, -, made⟩ := Outcome.bind_eq_ok.mp made
  cases component with
  | leaf field =>
    obtain ⟨filter, tested, same⟩ := Outcome.bind_eq_ok.mp made
    cases same
    exact predicate_typed_leaf found tested
  | edge link =>
    obtain ⟨head, lifted, made⟩ := Outcome.bind_eq_ok.mp made
    have looked := SelectionField.node?_of_edgeHead (SelectionField.lift_eq_ok lifted)
    have named := Catalog.name_of_node? looked
    cases value with
    | record headId =>
      obtain ⟨conditions, mapped, same⟩ := Outcome.bind_eq_ok.mp made
      cases same
      refine .edge found (Node.component?_of_identifier inside) fun inner same => ?_
      cases same
      apply Predicate.Typed.reduced
      apply Predicate.Typed.junction
      intro condition member
      obtain ⟨part, -, tested⟩ := Outcome.exists_of_mem_mapM mapped member
      rw [← named]
      exact typed_of_headCondition (named ▸ looked) tested
    | _ => cases made

theorem typed_of_identifier (found : catalog.node? node.name = some node) {id : Record}
    {filter : Filter} (made : identifier catalog node id = .ok filter) : filter.Typed catalog := by
  obtain ⟨conditions, mapped, same⟩ := Outcome.bind_eq_ok.mp made
  cases same
  apply Predicate.Typed.reduced
  apply Predicate.Typed.junction
  intro condition member
  obtain ⟨component, inside, tested⟩ := Outcome.exists_of_mem_mapM mapped member
  exact typed_of_identifierCondition found inside tested

/-- Every filter is typed. -/
theorem typed_of_arises {filter : Filter} (arises : Arises catalog filter) :
    filter.Typed catalog := by
  induction arises with
  | constant _ value => exact .constant value
  | raw _ sql => exact .raw sql
  | leaf found made => exact typed_leaf found made
  | negation _ ih => exact .negation ih
  | junction _ made _ ih => exact typed_junction made ih
  | edge found made _ ih => exact typed_edge found made ih
  | reverse found made _ ih => exact typed_reverse found made ih
  | count found made => exact typed_count found made
  | parse found read =>
    obtain ⟨predicate, parsed, same⟩ := Outcome.bind_eq_ok.mp read
    cases same
    exact Predicate.typed_of_parse found parsed
  | identifier found made => exact typed_of_identifier found made
  | complement _ ih => exact ih.complement
  | reduced _ ih => exact ih.reduced

end Filter

end LiveQuery
