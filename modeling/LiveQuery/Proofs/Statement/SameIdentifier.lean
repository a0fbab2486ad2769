import LiveQuery.Proofs.Statement.InstanceKey
import LiveQuery.Proofs.Value.Same

set_option autoImplicit false

namespace LiveQuery

def Value.IsSame (a b : Value) : Prop := a.same b = true

theorem Value.sameFields_iff_forall₂ {fields fields' : Record} :
    sameFields fields fields' = true ↔ List.Forall₂ (RelatedField IsSame) fields fields' := by
  induction fields generalizing fields' with
  | nil => cases fields' <;> simp [sameFields]
  | cons entry rest ih =>
    cases fields' with
    | nil => simp [sameFields]
    | cons other rest' => simp [sameFields, RelatedField, IsSame, ih]

variable {catalog : Catalog} {node : Node} {name : String}
  {record record' known known' id id' reference reference' : Record}

theorem Record.atom?_of_same (same : record.same record' = true) (key : String) :
    record.atom? key = record'.atom? key := by
  unfold Record.atom?
  rcases Value.get?_of_sameFields same key with ⟨absent, absent'⟩ | ⟨a, b, stored, stored', equal⟩
  · rw [absent, absent']
  · rw [stored, stored', Option.bind_some, Option.bind_some, Value.atom?_eq_of_same equal]

theorem Component.key_of_same (component : Component) (same : record.same record' = true) :
    component.key record = component.key record' := by
  cases component with
  | leaf field => rw [key, key, Record.atom?_of_same same]
  | edge link =>
    simp only [key, Edge.target]
    rcases Value.get?_of_sameFields same link.name with
      ⟨absent, absent'⟩ | ⟨a, b, stored, stored', equal⟩
    · rw [absent, absent']
    · rw [stored, stored']
      cases a with
      | record reference =>
        cases b with
        | record reference' =>
          simp only [Value.same] at equal
          exact Lists.mapM_congr fun column _ => Record.atom?_of_same equal column.headLeaf
        | _ => cases equal
      | _ => cases b <;> first | rfl | cases equal

theorem Edge.columnsOf_eq_iff {link : Edge} {head : Node} (leads : catalog.Leads link head)
    (identifies : catalog.Identifies link reference)
    (identifies' : catalog.Identifies link reference') :
    link.columnsOf reference = link.columnsOf reference' ↔
      ∀ column ∈ link.columns,
        reference.atom? column.headLeaf = reference'.atom? column.headLeaf := by
  have present {known : Record} (identifies : catalog.Identifies link known) :
      ∀ column ∈ link.columns, (known.atom? column.headLeaf).isSome := by
    intro column inside
    obtain ⟨field, part, named⟩ := leads.leaf_of_column inside
    obtain ⟨value, stored, canonical⟩ := identifies head leads.node field part
    rw [← named, Record.atom?, stored, Option.bind_some]
    exact canonical.atom?_isSome
  exact Lists.mapM_eq_mapM_iff (present identifies) (present identifies')

theorem Edge.project?_of_get? {head fields : Record} {column : ForeignKeyColumn}
    {rest : List ForeignKeyColumn} {value : Value}
    (known : head.get? column.headLeaf = some value) (set : value.isNull = false)
    (cut : Edge.project? head rest = some fields) :
    Edge.project? head (column :: rest) = some ((column.headLeaf, value) :: fields) := by
  refine Option.bind_eq_some_iff.mpr ⟨value, known, Option.bind_eq_some_iff.mpr ⟨(), ?_, ?_⟩⟩
  · rw [set]
    rfl
  · exact Option.bind_eq_some_iff.mpr ⟨fields, cut, rfl⟩

/-- Heads that agree in the columns of an edge can be cut down to them, and are the same then. -/
theorem Edge.exists_same_project? (wellFormed : catalog.WellFormed) {link : Edge} {head : Node}
    (leads : catalog.Leads link head) (identifies : catalog.Identifies link reference)
    (identifies' : catalog.Identifies link reference') {columns : List ForeignKeyColumn}
    (within : columns ⊆ link.columns)
    (atoms : ∀ column ∈ columns,
      reference.atom? column.headLeaf = reference'.atom? column.headLeaf) :
    ∃ fields fields', Edge.project? reference columns = some fields ∧
      Edge.project? reference' columns = some fields' ∧
      List.Forall₂ (Value.RelatedField Value.IsSame) fields fields' := by
  induction columns with
  | nil => exact ⟨[], [], rfl, rfl, .nil⟩
  | cons column rest ih =>
    obtain ⟨first, within⟩ := List.cons_subset.mp within
    rw [List.forall_mem_cons] at atoms
    obtain ⟨fields, fields', cut, cut', related⟩ := ih within atoms.2
    obtain ⟨field, part, named⟩ := leads.leaf_of_column first
    have required : field.nullable = false := wellFormed.required leads.node _ part
    have set {value : Value} (canonical : field.Canonical value) : value.isNull = false := by
      have apart := canonical.atom?_ne_null required
      cases value with
      | null => exact absurd rfl apart
      | _ => rfl
    obtain ⟨value, stored, canonical⟩ := identifies head leads.node field part
    obtain ⟨value', stored', canonical'⟩ := identifies' head leads.node field part
    rw [named] at stored stored'
    have alike : value.Alike value' := by
      refine ⟨canonical.atom?_isSome, ?_⟩
      simpa only [Record.atom?, stored, stored', Option.bind_some] using atoms.1
    exact ⟨(column.headLeaf, value) :: fields, (column.headLeaf, value') :: fields',
      Edge.project?_of_get? stored (set canonical) cut,
      Edge.project?_of_get? stored' (set canonical') cut', .cons ⟨rfl, alike.same⟩ related⟩

/-- Components that tell two instances alike are read as values that are the same. -/
theorem Component.exists_same_coerce (wellFormed : catalog.WellFormed)
    (found : catalog.node? name = some node) {component : Component}
    (inside : component ∈ node.identifierComponents) (holds : catalog.Holds component record)
    (holds' : catalog.Holds component record')
    (keys : component.key record = component.key record') :
    ∃ raw raw' value value', record.get? component.name = some raw ∧
      record'.get? component.name = some raw' ∧ component.coerce raw = .ok value ∧
      component.coerce raw' = .ok value' ∧ value.same value' = true := by
  cases component with
  | leaf field =>
    obtain ⟨value, stored, canonical⟩ := holds
    obtain ⟨value', stored', canonical'⟩ := holds'
    have alike : value.Alike value' := by
      refine ⟨canonical.atom?_isSome, ?_⟩
      have apart : Function.Injective fun atom : Atom => [atom] := fun _ _ => List.singleton_inj.mp
      have atoms := Option.map_injective apart keys
      simpa only [Record.atom?, stored, stored', Option.bind_some] using atoms
    exact ⟨value, value', value, value', stored, stored', canonical.coerce, canonical'.coerce,
      alike.same⟩
  | edge link =>
    have required : link.nullable = false := wellFormed.required found _ inside
    obtain ⟨head, leads⟩ := wellFormed.heads found link (Node.mem_of_identifier inside)
    obtain ⟨reference, stored, identifies⟩ := reference_of_required required holds
    obtain ⟨reference', stored', identifies'⟩ := reference_of_required required holds'
    have columns : link.columnsOf reference = link.columnsOf reference' := by
      simpa only [Component.key, Edge.target, stored, stored'] using keys
    obtain ⟨fields, fields', cut, cut', related⟩ := Edge.exists_same_project? wellFormed leads
      identifies identifies' (List.Subset.refl _)
      ((Edge.columnsOf_eq_iff leads identifies identifies').mp columns)
    refine ⟨.record reference, .record reference', .record (Entries.ofList fields),
      .record (Entries.ofList fields'), stored, stored', ?_, ?_, ?_⟩
    · simp only [Component.coerce, Edge.reference, cut]
    · simp only [Component.coerce, Edge.reference, cut']
    · simp only [Value.same]
      exact Value.sameFields_iff_forall₂.mpr (Entries.forall₂_ofList related)

namespace Node

/-- Identifiers can be read off records that name instances, and are the same where the records
agree in every component. -/
theorem exists_same_identify (wellFormed : catalog.WellFormed)
    (found : catalog.node? name = some node) {components : List Component}
    (within : components ⊆ node.identifierComponents)
    (holds : ∀ component ∈ components, catalog.Holds component record)
    (holds' : ∀ component ∈ components, catalog.Holds component record')
    (keys : ∀ component ∈ components, component.key record = component.key record')
    (before : List.Forall₂ (Value.RelatedField Value.IsSame) known known') :
    ∃ id id', node.identify record known components = .ok id ∧
      node.identify record' known' components = .ok id' ∧ Record.same id id' = true := by
  induction components generalizing known known' with
  | nil => exact ⟨known, known', rfl, rfl, Value.sameFields_iff_forall₂.mpr before⟩
  | cons component rest ih =>
    obtain ⟨first, within⟩ := List.cons_subset.mp within
    rw [List.forall_mem_cons] at holds holds' keys
    obtain ⟨raw, raw', value, value', stored, stored', coerced, coerced', same⟩ :=
      component.exists_same_coerce wellFormed found first holds.1 holds'.1 keys.1
    have more : List.Forall₂ (Value.RelatedField Value.IsSame)
        (known.insert component.name value) (known'.insert component.name value') :=
      Entries.forall₂_insert before same
    obtain ⟨id, id', read, read', equal⟩ := ih within holds.2 holds'.2 keys.2 more
    refine ⟨id, id', ?_, ?_, equal⟩
    · rw [identify, stored]
      simp only [coerced, Outcome.ok_bind, read]
    · rw [identify, stored']
      simp only [coerced', Outcome.ok_bind, read']

section Read

variable (wellFormed : catalog.WellFormed) (found : catalog.node? name = some node)
  (names : catalog.Names node record)

include wellFormed found names

theorem exists_identifierOf : ∃ id, node.identifierOf record = .ok id := by
  obtain ⟨id, -, read, -, -⟩ := exists_same_identify wellFormed found (List.Subset.refl _) names
    names (fun _ _ => rfl) .nil
  exact ⟨id, read⟩

theorem identifierOf_names (read : node.identifierOf record = .ok id) :
    catalog.Names node id ∧ node.key id = node.key record :=
  identifierOf_spec wellFormed found names (fun _ _ _ same => same) read

/-- Identifiers that were read off records are the same exactly if the records name one instance. -/
theorem same_identifierOf_iff (names' : catalog.Names node record')
    (read : node.identifierOf record = .ok id) (read' : node.identifierOf record' = .ok id') :
    Record.same id id' = true ↔ node.key record = node.key record' := by
  constructor
  · intro same
    rw [← (identifierOf_names wellFormed found names read).2,
      ← (identifierOf_names wellFormed found names' read').2]
    exact Lists.mapM_congr fun component _ => component.key_of_same same
  · intro same
    obtain ⟨_, _, first, second, equal⟩ := exists_same_identify wellFormed found
      (List.Subset.refl _) names names' ((names.key_eq_iff wellFormed found names').mp same) .nil
    rw [identifierOf, first] at read
    rw [identifierOf, second] at read'
    cases read
    cases read'
    exact equal

end Read

end Node

end LiveQuery
