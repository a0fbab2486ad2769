import LiveQuery.Proofs.Selection.Inclusion
import LiveQuery.Selection.Input
import LiveQuery.Sql.Reading

set_option autoImplicit false

namespace LiveQuery

/-- A key that can be a part of a dotted name, and is not kept for internal columns. -/
structure IsPlainKey (key : String) : Prop where
  whole : '.' ∉ key.toList
  outward : ¬ "__".toList <+: key.toList

/-- Every node is identified, by each of the components only once, and no component has a name that
is kept for internal columns. -/
structure Catalog.Outward (catalog : Catalog) : Prop where
  identified : ∀ node ∈ catalog.nodes, node.identifierComponents ≠ []
  once : ∀ node ∈ catalog.nodes, (node.identifierComponents.map (·.name)).Nodup
  names : ∀ node ∈ catalog.nodes, ∀ component ∈ node.components, IsPlainKey component.name

/-- Names of components have no points. -/
theorem CatalogDefinition.outward_of_build {definitions : CatalogDefinition} {catalog : Catalog}
    (built : definitions.build = .ok catalog)
    (identified : ∀ node ∈ catalog.nodes, node.identifierComponents ≠ [])
    (once : ∀ node ∈ catalog.nodes, (node.identifierComponents.map (·.name)).Nodup)
    (names : ∀ node ∈ catalog.nodes, ∀ component ∈ node.components,
      ¬ "__".toList <+: component.name.toList) : catalog.Outward := by
  refine ⟨identified, once, fun node inside component part => ⟨fun point => ?_, ?_⟩⟩
  · obtain ⟨nodes, whole⟩ := build_spec built
    have found : catalog.node? node.name = some node := node?_of_mem whole inside
    exact absurd (isNameCharacter_of_isName (isName_of_build built found part) point) (by decide)
  · exact names node inside component part

theorem IsPlainKey.ne_internal {key : String} (plain : IsPlainKey key) :
    key ≠ Sql.identifierKey ∧ key ≠ Sql.parentKey := by
  constructor
  · rintro rfl
    exact plain.outward (by decide)
  · rintro rfl
    exact plain.outward (by decide)

theorem isPlainKey_of_isSelectionKey {key : String} (checked : isSelectionKey key = true) :
    IsPlainKey key := by
  simp only [isSelectionKey, Bool.and_eq_true, Bool.not_eq_true', List.all_eq_true,
    Bool.or_eq_true, decide_eq_true_eq] at checked
  obtain ⟨⟨-, outward⟩, letters⟩ := checked
  constructor
  · intro inside
    exact absurd (letters '.' inside) (by decide)
  · rw [← List.isPrefixOf_iff_prefix, outward]
    exact Bool.false_ne_true

theorem Catalog.mem_of_node? {catalog : Catalog} {name : String} {node : Node}
    (found : catalog.node? name = some node) : node ∈ catalog.nodes :=
  List.mem_of_find?_eq_some found

namespace SelectionField

/-- A field whose records can be read as nested records: its keys are plain, below it no two fields
of one node have one key, and its relation belongs to the node. -/
inductive Readable (catalog : Catalog) : Node → SelectionField → Prop
  | leaf {node : Node} {key : String} {field : Leaf} (plain : IsPlainKey key) :
      Readable catalog node (.leaf key field)
  | edge {node target : Node} {key : String} {link : Edge} {head : List SelectionField}
      (plain : IsPlainKey key) (found : catalog.node? link.head = some target)
      (whole : fault? target.name [] head = none)
      (heads : ∀ field ∈ head, Readable catalog target field) :
      Readable catalog node (.edge key link head)
  | unique {node target : Node} {key : String} {relation : ReverseEdge}
      {head : List SelectionField} (plain : IsPlainKey key)
      (found : catalog.node? relation.head = some target)
      (whole : fault? target.name [] head = none)
      (heads : ∀ field ∈ head, Readable catalog target field) :
      Readable catalog node (.unique key relation head)
  | multiple {node target : Node} {key : String} {relation : ReverseEdge} {window : Window}
      {head : List SelectionField} (plain : IsPlainKey key)
      (belongs : relation ∈ node.reverseEdges) (found : catalog.node? relation.head = some target)
      (whole : fault? target.name [] head = none)
      (heads : ∀ field ∈ head, Readable catalog target field) :
      Readable catalog node (.multiple key relation window head)
  | count {node : Node} {key : String} {relation : ReverseEdge} {filter : Option Predicate}
      (plain : IsPlainKey key) : Readable catalog node (.count key relation filter)

/-- Fields of a node that can be read together. -/
structure ReadableAll (catalog : Catalog) (node : Node) (fields : List SelectionField) : Prop where
  whole : fault? node.name [] fields = none
  each : ∀ field ∈ fields, Readable catalog node field

variable {catalog : Catalog} {node head : Node} {fields : List SelectionField} {path : String}

theorem Readable.plain {field : SelectionField} (readable : Readable catalog node field) :
    IsPlainKey field.key := by
  cases readable <;> assumption

theorem lift_eq_ok {α : Type} {looked : Except CatalogError α} {found : α}
    (lifted : (liftM looked : Except StatementError α) = .ok found) : looked = .ok found := by
  cases looked with
  | error => cases lifted
  | ok => cases lifted; rfl

theorem node?_of_edgeHead {link : Edge} (looked : catalog.edgeHead link = .ok head) :
    catalog.node? link.head = some head := by
  unfold Catalog.edgeHead Catalog.node at looked
  split at looked
  · rename_i found
    cases looked
    exact found
  · cases looked

theorem node?_of_reverseEdgeHead {relation : ReverseEdge}
    (looked : catalog.reverseEdgeHead relation = .ok head) :
    catalog.node? relation.head = some head := by
  unfold Catalog.reverseEdgeHead Catalog.node at looked
  split at looked
  · rename_i found
    cases looked
    exact found
  · cases looked

section Identifier

variable (outward : catalog.Outward)

include outward

theorem plain_of_identifier (inside : node ∈ catalog.nodes) {component : Component}
    (member : component ∈ node.identifierComponents) : IsPlainKey component.name :=
  outward.names node inside component (Node.mem_of_identifier member)

theorem readable_headIdentifier (inside : node ∈ catalog.nodes)
    (made : headIdentifier node = .ok fields) : ReadableAll catalog node fields := by
  unfold headIdentifier at made
  obtain ⟨listed, mapped, passed⟩ := Outcome.bind_eq_ok.mp made
  refine ⟨check_eq_ok passed ▸ fault?_of_check passed, fun field member => ?_⟩
  obtain rfl := check_eq_ok passed
  obtain ⟨component, part, made⟩ := Outcome.exists_of_mem_mapM mapped member
  cases component with
  | leaf leaf =>
    cases made
    exact .leaf (plain_of_identifier outward inside part)
  | edge => cases made

theorem readable_identifier (inside : node ∈ catalog.nodes)
    (made : identifier catalog node = .ok fields) : ReadableAll catalog node fields := by
  unfold identifier at made
  obtain ⟨listed, mapped, passed⟩ := Outcome.bind_eq_ok.mp made
  refine ⟨check_eq_ok passed ▸ fault?_of_check passed, fun field member => ?_⟩
  obtain rfl := check_eq_ok passed
  obtain ⟨component, part, made⟩ := Outcome.exists_of_mem_mapM mapped member
  cases component with
  | leaf leaf =>
    cases made
    exact .leaf (plain_of_identifier outward inside part)
  | edge link =>
    obtain ⟨target, looked, made⟩ := Outcome.bind_eq_ok.mp made
    obtain ⟨heads, below, made⟩ := Outcome.bind_eq_ok.mp made
    cases made
    have found := node?_of_edgeHead (lift_eq_ok looked)
    obtain ⟨whole, each⟩ := readable_headIdentifier outward (Catalog.mem_of_node? found) below
    exact .edge (plain_of_identifier outward inside part) found whole each

end Identifier

section Parsing

/-- What a name stands for among the reverse edges of a node belongs to it. -/
theorem mem_of_resolve? {name : String} {relation : ReverseEdge}
    (resolved : SelectionTarget.resolve? node name = some (.multiple relation)) :
    relation ∈ node.reverseEdges := by
  unfold SelectionTarget.resolve? at resolved
  cases component : node.component? name with
  | some known =>
    rw [component] at resolved
    cases known <;> cases resolved
  | none =>
    cases reverse : node.reverseEdge? name with
    | some known =>
      rw [component, reverse] at resolved
      have same : SelectionTarget.ofReverseEdge known = .multiple relation :=
        Option.some.inj resolved
      unfold SelectionTarget.ofReverseEdge at same
      split at same <;> cases same
      exact List.mem_of_find?_eq_some reverse
    | none =>
      rw [component, reverse] at resolved
      obtain ⟨_, -, counts⟩ := Option.bind_eq_some_iff.mp resolved
      obtain ⟨_, -, counts⟩ := Option.bind_eq_some_iff.mp counts
      obtain ⟨_, -, counts⟩ := Option.bind_eq_some_iff.mp counts
      cases counts

theorem map_eq_ok {ε α β : Type} {change : α → β} {attempt : Except ε α} {result : β}
    (mapped : change <$> attempt = .ok result) :
    ∃ value, attempt = .ok value ∧ result = change value := by
  cases attempt with
  | error => cases mapped
  | ok value => cases mapped; exact ⟨value, rfl, rfl⟩

/-- A field is read of an entry's value, under the key that the entry gives it. -/
inductive OfEntry (catalog : Catalog) (node : Node) (path key : String) (value : Json) :
    SelectionField → Prop
  | leaf {leaf : Leaf} {field : SelectionField}
      (inner : leafInput key leaf path value = .ok field) : OfEntry catalog node path key value field
  | edge {link : Edge} {head : Node} {fields : List SelectionField}
      (leads : catalog.node? link.head = some head)
      (inner : parse catalog head path value = .ok fields) :
      OfEntry catalog node path key value (.edge key link fields)
  | unique {relation : ReverseEdge} {head : Node} {fields : List SelectionField}
      (leads : catalog.node? relation.head = some head)
      (inner : parse catalog head path value = .ok fields) :
      OfEntry catalog node path key value (.unique key relation fields)
  | multiple {relation : ReverseEdge} {head : Node} {window : Window}
      {fields : List SelectionField} (inside : relation ∈ node.reverseEdges)
      (leads : catalog.node? relation.head = some head)
      (filtered : filterInput catalog head value = .ok window.filter)
      (inner : parseHead catalog head path value = .ok fields) :
      OfEntry catalog node path key value (.multiple key relation window fields)
  | count {relation : ReverseEdge} {field : SelectionField}
      (inner : numberInput catalog key relation path value = .ok field) :
      OfEntry catalog node path key value field

/-- Every entry of an input is read: for each there is a field. -/
theorem ofEntry_of_parseEntries {path entry : String} {value : Json}
    {rest : List (String × Json)} {fields : List SelectionField}
    (read : parseEntries catalog node path ((entry, value) :: rest) = .ok fields) :
    ∃ key field others, isSelectionKey key = true ∧
      OfEntry catalog node (path ++ "." ++ entry) key value field ∧
      parseEntries catalog node path rest = .ok others ∧ fields = field :: others := by
  obtain ⟨key, name, parts⟩ : ∃ key name, splitAlias entry = (key, name) := ⟨_, _, rfl⟩
  rw [parseEntries] at read
  simp only [parts] at read
  split at read
  · cases read
  rename_i checked
  have plain : isSelectionKey key = true := by simpa using checked
  have goOn {field : SelectionField}
      (read : (do return field :: (← parseEntries catalog node path rest)) = .ok fields)
      (made : OfEntry catalog node (path ++ "." ++ entry) key value field) :
      ∃ key field others, isSelectionKey key = true ∧
        OfEntry catalog node (path ++ "." ++ entry) key value field ∧
        parseEntries catalog node path rest = .ok others ∧ fields = field :: others := by
    obtain ⟨others, behind, read⟩ := Outcome.bind_eq_ok.mp read
    cases read
    exact ⟨key, field, others, plain, made, behind, rfl⟩
  split at read
  · obtain ⟨field, inner, read⟩ := Outcome.bind_eq_ok.mp read
    exact goOn read (.leaf inner)
  · obtain ⟨head, looked, read⟩ := Outcome.bind_eq_ok.mp read
    obtain ⟨field, made, read⟩ := Outcome.bind_eq_ok.mp read
    obtain ⟨heads, inner, rfl⟩ := map_eq_ok made
    exact goOn read (.edge (node?_of_edgeHead (lift_eq_ok looked)) inner)
  · obtain ⟨head, looked, read⟩ := Outcome.bind_eq_ok.mp read
    obtain ⟨field, made, read⟩ := Outcome.bind_eq_ok.mp read
    obtain ⟨heads, inner, rfl⟩ := map_eq_ok made
    exact goOn read (.unique (node?_of_reverseEdgeHead (lift_eq_ok looked)) inner)
  · rename_i resolved
    obtain ⟨head, looked, read⟩ := Outcome.bind_eq_ok.mp read
    split at read
    · cases read
    · obtain ⟨filter, filtered, read⟩ := Outcome.bind_eq_ok.mp read
      obtain ⟨ordering, -, read⟩ := Outcome.bind_eq_ok.mp read
      obtain ⟨limit, -, read⟩ := Outcome.bind_eq_ok.mp read
      obtain ⟨heads, inner, read⟩ := Outcome.bind_eq_ok.mp read
      obtain ⟨offset, -, read⟩ := Outcome.bind_eq_ok.mp read
      have found := node?_of_reverseEdgeHead (lift_eq_ok looked)
      exact goOn read (.multiple (mem_of_resolve? resolved) found filtered inner)
  · obtain ⟨field, inner, read⟩ := Outcome.bind_eq_ok.mp read
    exact goOn read (.count inner)
  · cases read

theorem readable_of_leafInput {key path : String} {field : Leaf} {value : Json}
    {made : SelectionField} (plain : IsPlainKey key)
    (read : leafInput key field path value = .ok made) : Readable catalog node made := by
  unfold leafInput at read
  split at read <;> cases read
  exact .leaf plain

theorem readable_of_numberInput {key path : String} {relation : ReverseEdge} {value : Json}
    {made : SelectionField} (plain : IsPlainKey key)
    (read : numberInput catalog key relation path value = .ok made) :
    Readable catalog node made := by
  unfold numberInput at read
  split at read
  · cases read
    exact .count plain
  · split at read
    · obtain ⟨_, -, read⟩ := Outcome.bind_eq_ok.mp read
      obtain ⟨_, -, read⟩ := Outcome.bind_eq_ok.mp read
      cases read
      exact .count plain
    · cases read
      exact .count plain
  · cases read

mutual

theorem readable_of_parse (outward : catalog.Outward) {node : Node} {path : String}
    {fields : List SelectionField} :
    ∀ {input : Json}, parse catalog node path input = .ok fields → ReadableAll catalog node fields
  | .object entries, read => by
    rw [parse] at read
    obtain ⟨listed, below, passed⟩ := Outcome.bind_eq_ok.mp read
    obtain rfl := check_eq_ok passed
    exact ⟨fault?_of_check passed, readable_of_parseEntries outward below⟩
  | .null, read | .boolean _, read | .integer _, read | .float _, read | .string _, read
  | .array _, read => by
    rw [parse] at read
    cases read
    all_goals simp

theorem readable_of_parseEntries (outward : catalog.Outward) {node : Node} {path : String}
    {fields : List SelectionField} :
    ∀ {entries : List (String × Json)}, parseEntries catalog node path entries = .ok fields →
      ∀ field ∈ fields, Readable catalog node field
  | [], read => by
    rw [parseEntries] at read
    cases read
    simp
  | (entry, value) :: rest, read => by
    obtain ⟨key, field, others, checked, entry, behind, rfl⟩ := ofEntry_of_parseEntries read
    have plain : IsPlainKey key := isPlainKey_of_isSelectionKey checked
    have readable : Readable catalog node field := by
      cases entry with
      | leaf inner => exact readable_of_leafInput plain inner
      | edge leads inner =>
        obtain ⟨whole, each⟩ := readable_of_parse outward inner
        exact .edge plain leads whole each
      | unique leads inner =>
        obtain ⟨whole, each⟩ := readable_of_parse outward inner
        exact .unique plain leads whole each
      | multiple inside leads filtered inner =>
        obtain ⟨whole, each⟩ :=
          readable_of_parseHead outward (Catalog.mem_of_node? leads) inner
        exact .multiple plain inside leads whole each
      | count inner => exact readable_of_numberInput plain inner
    exact List.forall_mem_cons.mpr ⟨readable, readable_of_parseEntries outward behind⟩

theorem readable_of_parseHead (outward : catalog.Outward) {node : Node} {path : String}
    {fields : List SelectionField} :
    ∀ {input : Json}, node ∈ catalog.nodes → parseHead catalog node path input = .ok fields →
      ReadableAll catalog node fields
  | .object arguments, inside, read => by
    rw [parseHead] at read
    exact readable_of_parseArgument outward inside read
  | .null, inside, read | .boolean _, inside, read | .integer _, inside, read
  | .float _, inside, read | .string _, inside, read | .array _, inside, read => by
    rw [parseHead] at read
    · exact readable_identifier outward inside read
    all_goals simp

theorem readable_of_parseArgument (outward : catalog.Outward) {node : Node} {path : String}
    {fields : List SelectionField} :
    ∀ {arguments : List (String × Json)}, node ∈ catalog.nodes →
      parseArgument catalog node path arguments = .ok fields → ReadableAll catalog node fields
  | [], inside, read => by
    rw [parseArgument] at read
    exact readable_identifier outward inside read
  | (key, value) :: rest, inside, read => by
    rw [parseArgument] at read
    split at read
    · exact readable_of_parse outward read
    · exact readable_of_parseArgument outward inside read

end

end Parsing

end SelectionField

/-- Selections that are read from inputs can be read as nested records. -/
theorem Selection.readable_of_parse {catalog : Catalog} (outward : catalog.Outward) {node : Node}
    {input : Json} {selection : Selection} (parsed : parse catalog node input = .ok selection) :
    selection.node = node ∧ SelectionField.ReadableAll catalog node selection.fields := by
  obtain ⟨fields, read, same⟩ := Outcome.bind_eq_ok.mp parsed
  cases same
  exact ⟨rfl, SelectionField.readable_of_parse outward read⟩

end LiveQuery
