import LiveQuery.Change
import LiveQuery.Proofs.Statement.Identify
import LiveQuery.Proofs.Value.Coercion
import LiveQuery.Proofs.Value.Text

set_option autoImplicit false

namespace LiveQuery

/-- Values of the type are told apart by their texts. Dates are cut to the millisecond there, and
two zeros of floats are one number. -/
def LeafType.isPlain : LeafType → Bool
  | .boolean | .int | .string | .uuid => true
  | .float | .instant => false

/-- The leaf, or every leaf that identifies the head of the edge, is of a plain type. -/
def Catalog.Plain (catalog : Catalog) : Component → Prop
  | .leaf field => field.type.isPlain = true
  | .edge link => ∀ head, catalog.node? link.head = some head →
      ∀ field, .leaf field ∈ head.identifierComponents → field.type.isPlain = true

/-- The node is identified by leaves of plain types, also where edges identify it. -/
def Catalog.PlainlyIdentified (catalog : Catalog) (node : Node) : Prop :=
  ∀ component ∈ node.identifierComponents, catalog.Plain component

variable {catalog : Catalog} {node : Node} {name : String}

theorem LeafType.legible_of_coerce? {type : LeafType} (plain : type.isPlain = true)
    {value value' : Value} (kept : type.coerce? value = some value)
    (kept' : type.coerce? value' = some value') : value.Legible value' := by
  have shape := shape_of_coerce? kept
  have shape' := shape_of_coerce? kept'
  cases type with
  | boolean =>
    obtain ⟨content, rfl⟩ := shape
    obtain ⟨content', rfl⟩ := shape'
    exact Value.legible_boolean content content'
  | int =>
    obtain ⟨content, rfl⟩ := shape
    obtain ⟨content', rfl⟩ := shape'
    exact Value.legible_int content content'
  | string | uuid =>
    obtain ⟨content, rfl⟩ := shape
    obtain ⟨content', rfl⟩ := shape'
    exact Value.legible_string content content'
  | float | instant => cases plain

theorem Edge.project?_of_reference {link : Edge} {head : Record} {value : Value}
    (cut : link.reference (.record head) = .ok value) :
    ∃ fields, Edge.project? head link.columns = some fields ∧
      value = .record (Entries.ofList fields) := by
  unfold Edge.reference at cut
  cases projected : Edge.project? head link.columns with
  | none => simp only [projected] at cut; cases cut
  | some fields =>
    simp only [projected, Except.ok.injEq] at cut
    exact ⟨fields, rfl, cut.symm⟩

theorem Edge.record_of_reference {link : Edge} (required : link.nullable = false)
    {raw value : Value} (cut : link.reference raw = .ok value) :
    ∃ reference, raw = .record reference := by
  unfold Edge.reference at cut
  split at cut
  · rw [required] at cut
    cases cut
  · exact ⟨_, rfl⟩
  · cases cut

/-- The leaves that a component is told by: itself, or those that identify the head of an edge. -/
def Catalog.ToldBy (catalog : Catalog) : Component → Leaf → Prop
  | .leaf field, other => other = field
  | .edge link, other => ∃ head, catalog.node? link.head = some head ∧
      .leaf other ∈ head.identifierComponents

/-- Values in the form of a leaf that the component is told by are related. -/
def Catalog.RelatesLeaves (catalog : Catalog) (R : Value → Value → Prop) (component : Component) :
    Prop :=
  ∀ field, catalog.ToldBy component field → ∀ value value',
    field.type.coerce? value = some value → field.type.coerce? value' = some value' →
      R value value'

theorem Catalog.Plain.relates_legible {component : Component} (plain : catalog.Plain component) :
    catalog.RelatesLeaves Value.Legible component := by
  intro field told value value' kept kept'
  cases component with
  | leaf other =>
    obtain rfl : field = other := told
    exact LeafType.legible_of_coerce? plain kept kept'
  | edge link =>
    obtain ⟨head, found, inside⟩ := told
    exact LeafType.legible_of_coerce? (plain head found field inside) kept kept'

theorem Leaf.Canonical.coerce?_type {field : Leaf} {value : Value}
    (canonical : field.Canonical value) (required : field.nullable = false) :
    field.type.coerce? value = some value := by
  rcases canonical.null_or_type with ⟨nullable, -⟩ | kept
  · rw [required] at nullable
    cases nullable
  · exact kept

variable {R : Value → Value → Prop}

/-- Two references of one edge are related, whatever else the records held that they are cut
from. -/
theorem Edge.related_project? (wellFormed : catalog.WellFormed) {link : Edge} {head : Node}
    (leads : catalog.Leads link head) (relates : catalog.RelatesLeaves R (.edge link))
    {columns : List ForeignKeyColumn} (within : columns ⊆ link.columns)
    {reference reference' fields fields' : Record} (identifies : catalog.Identifies link reference)
    (identifies' : catalog.Identifies link reference')
    (cut : Edge.project? reference columns = some fields)
    (cut' : Edge.project? reference' columns = some fields') :
    List.Forall₂ (Value.RelatedField R) fields fields' := by
  induction columns generalizing fields fields' with
  | nil =>
    cases cut
    cases cut'
    exact .nil
  | cons column rest ih =>
    obtain ⟨value, known, cut⟩ := Option.bind_eq_some_iff.mp cut
    obtain ⟨⟨⟩, -, cut⟩ := Option.bind_eq_some_iff.mp cut
    obtain ⟨others, behind, same⟩ := Option.bind_eq_some_iff.mp cut
    obtain ⟨value', known', cut'⟩ := Option.bind_eq_some_iff.mp cut'
    obtain ⟨⟨⟩, -, cut'⟩ := Option.bind_eq_some_iff.mp cut'
    obtain ⟨others', behind', same'⟩ := Option.bind_eq_some_iff.mp cut'
    cases same
    cases same'
    obtain ⟨first, within⟩ := List.cons_subset.mp within
    refine .cons ⟨rfl, ?_⟩ (ih within behind behind')
    obtain ⟨field, part, named⟩ := leads.leaf_of_column first
    obtain ⟨stored, found, canonical⟩ := identifies head leads.node field part
    obtain ⟨stored', found', canonical'⟩ := identifies' head leads.node field part
    rw [named, known, Option.some.injEq] at found
    rw [named, known', Option.some.injEq] at found'
    subst found
    subst found'
    have required : field.nullable = false := wellFormed.required leads.node _ part
    exact relates field ⟨head, leads.node, part⟩ value value' (canonical.coerce?_type required)
      (canonical'.coerce?_type required)

theorem Component.related_coerce (wellFormed : catalog.WellFormed)
    (found : catalog.node? name = some node) {component : Component}
    (inside : component ∈ node.identifierComponents) (relates : catalog.RelatesLeaves R component)
    (records : Value.RelatesRecords R) {record record' : Record}
    (keeps : catalog.KeepsReferences node record) (keeps' : catalog.KeepsReferences node record')
    {raw raw' value value' : Value} (stored : record.get? component.name = some raw)
    (stored' : record'.get? component.name = some raw') (coerced : component.coerce raw = .ok value)
    (coerced' : component.coerce raw' = .ok value') : R value value' := by
  have required := wellFormed.required found component inside
  cases component with
  | leaf field =>
    have canonical := Leaf.canonical_of_coerce coerced
    have canonical' := Leaf.canonical_of_coerce coerced'
    exact relates field rfl value value' (canonical.coerce?_type required)
      (canonical'.coerce?_type required)
  | edge link =>
    obtain ⟨head, leads⟩ := wellFormed.heads found link (Node.mem_of_identifier inside)
    obtain ⟨reference, rfl⟩ := Edge.record_of_reference required coerced
    obtain ⟨reference', rfl⟩ := Edge.record_of_reference required coerced'
    obtain ⟨fields, cut, rfl⟩ := Edge.project?_of_reference coerced
    obtain ⟨fields', cut', rfl⟩ := Edge.project?_of_reference coerced'
    exact records _ _ (Entries.forall₂_ofList
      (Edge.related_project? wellFormed leads relates (List.Subset.refl _)
        (keeps link inside reference stored) (keeps' link inside reference' stored') cut cut'))

theorem Node.related_identify {record record' known known' id id' : Record}
    {components : List Component}
    (each : ∀ component ∈ components, ∀ raw raw' value value',
      record.get? component.name = some raw → record'.get? component.name = some raw' →
      component.coerce raw = .ok value → component.coerce raw' = .ok value' → R value value')
    (before : List.Forall₂ (Value.RelatedField R) known known')
    (read : node.identify record known components = .ok id)
    (read' : node.identify record' known' components = .ok id') :
    List.Forall₂ (Value.RelatedField R) id id' := by
  induction components generalizing known known' with
  | nil =>
    cases read
    cases read'
    exact before
  | cons component rest ih =>
    rw [List.forall_mem_cons] at each
    unfold Node.identify at read read'
    cases stored : record.get? component.name with
    | none => simp only [stored] at read; cases read
    | some raw =>
      cases stored' : record'.get? component.name with
      | none => simp only [stored'] at read'; cases read'
      | some raw' =>
        simp only [stored] at read
        simp only [stored'] at read'
        obtain ⟨value, coerced, read⟩ := Outcome.bind_eq_ok.mp read
        obtain ⟨value', coerced', read'⟩ := Outcome.bind_eq_ok.mp read'
        have related := each.1 raw raw' value value' stored stored' coerced coerced'
        exact ih each.2 (Entries.forall₂_insert before related) read read'

/-- What relates values in the form of the leaves that a node is identified by relates its
identifiers, where the heads of its edges are in that form too. -/
theorem Node.related_identifierOf (wellFormed : catalog.WellFormed)
    (found : catalog.node? name = some node)
    (relates : ∀ component ∈ node.identifierComponents, catalog.RelatesLeaves R component)
    (records : Value.RelatesRecords R) {record record' id id' : Record}
    (keeps : catalog.KeepsReferences node record) (keeps' : catalog.KeepsReferences node record')
    (read : node.identifierOf record = .ok id) (read' : node.identifierOf record' = .ok id') :
    R (.record id) (.record id') := by
  refine records _ _ (Node.related_identify ?_ .nil read read')
  intro component inside raw raw' value value' stored stored' coerced coerced'
  exact component.related_coerce wellFormed found inside (relates component inside) records keeps
    keeps' stored stored' coerced coerced'

theorem Node.legible_identifierOf (wellFormed : catalog.WellFormed)
    (found : catalog.node? name = some node) (plain : catalog.PlainlyIdentified node)
    {record record' id id' : Record} (names : catalog.Names node record)
    (names' : catalog.Names node record') (read : node.identifierOf record = .ok id)
    (read' : node.identifierOf record' = .ok id') : (Value.record id).Legible (.record id') :=
  Node.related_identifierOf wellFormed found
    (fun component inside => (plain component inside).relates_legible)
    Value.relatesRecords_legible names.keepsReferences names'.keepsReferences read read'

theorem colon_not_mem_name {name : String} (named : isName name = true) :
    ':' ∉ name.toList := by
  intro inside
  exact absurd (CatalogDefinition.isNameCharacter_of_isName named inside) (by decide)

theorem eq_of_colon {front front' rest rest' : List Char} (absent : ':' ∉ front)
    (absent' : ':' ∉ front') (same : front ++ ':' :: rest = front' ++ ':' :: rest') :
    front = front' ∧ rest = rest' := by
  have equal : front = front' := by
    have cut (text more : List Char) (absent : ':' ∉ text) :
        (text ++ ':' :: more).takeWhile (· != ':') = text := by
      have passes : ∀ c ∈ text, (c != ':') = true := by
        intro c inside
        rw [bne_iff_ne]
        rintro rfl
        exact absent inside
      rw [List.takeWhile_append_of_pos passes]
      simp
    rw [← cut front rest absent, same, cut front' rest' absent']
  subst equal
  simpa using same

/-- Changes that meet under one text are changes of one instance. -/
theorem Change.instanceKey_eq_iff {definitions : CatalogDefinition}
    (built : definitions.build = .ok catalog) {change change' : Change}
    (found : catalog.node? change.node.name = some change.node)
    (found' : catalog.node? change'.node.name = some change'.node)
    (plain : catalog.PlainlyIdentified change.node) {record record' : Record}
    (names : catalog.Names change.node record) (names' : catalog.Names change'.node record')
    (read : change.node.identifierOf record = .ok change.identifier)
    (read' : change'.node.identifierOf record' = .ok change'.identifier) :
    change.instanceKey = change'.instanceKey ↔
      change.node = change'.node ∧ change.identifier = change'.identifier := by
  constructor
  · intro same
    have valid := colon_not_mem_name (CatalogDefinition.isName_node_of_build built found)
    have valid' := colon_not_mem_name (CatalogDefinition.isName_node_of_build built found')
    have texts := congrArg String.toList same
    unfold Change.instanceKey at texts
    simp only [String.toList_append, List.append_assoc] at texts
    obtain ⟨names_eq, identifiers⟩ := eq_of_colon valid valid' texts
    have node_eq := Catalog.eq_of_name_eq found found' (String.toList_inj.mp names_eq)
    rw [← node_eq] at names' read'
    refine ⟨node_eq, ?_⟩
    have legible := Node.legible_identifierOf (CatalogDefinition.build_wellFormed built) found plain
      names names' read read'
    exact Value.record.inj (legible.eq_of_text_eq (String.toList_inj.mp identifiers))
  · rintro ⟨nodes, identifiers⟩
    unfold Change.instanceKey
    rw [nodes, identifiers]

end LiveQuery
