import LiveQuery.Proofs.Entries
import LiveQuery.Proofs.Store.Identity
import LiveQuery.Statement.Coercion

set_option autoImplicit false

namespace LiveQuery

variable {catalog : Catalog} {node : Node} {name : String}

theorem Edge.project?_eq_some {head : Record} {columns : List ForeignKeyColumn} {fields : Record}
    (projected : Edge.project? head columns = some fields) :
    fields.map (·.1) = columns.map (·.headLeaf) ∧
      ∀ pair ∈ fields, head.get? pair.1 = some pair.2 := by
  induction columns generalizing fields with
  | nil =>
    cases projected
    exact ⟨rfl, by simp⟩
  | cons column rest ih =>
    obtain ⟨value, known, projected⟩ := Option.bind_eq_some_iff.mp projected
    obtain ⟨⟨⟩, -, projected⟩ := Option.bind_eq_some_iff.mp projected
    obtain ⟨others, behind, same⟩ := Option.bind_eq_some_iff.mp projected
    cases same
    obtain ⟨names, values⟩ := ih behind
    exact ⟨by rw [List.map_cons, List.map_cons, names], List.forall_mem_cons.mpr ⟨known, values⟩⟩

/-- A reference names the head that it was cut from. -/
theorem Edge.get?_reference {link : Edge} {head : Record} {value : Value}
    (cut : link.reference (.record head) = .ok value) :
    ∃ reference : Record, value = .record reference ∧
      ∀ column ∈ link.columns, reference.get? column.headLeaf = head.get? column.headLeaf := by
  unfold Edge.reference at cut
  cases projected : Edge.project? head link.columns with
  | none => simp only [projected] at cut; cases cut
  | some fields =>
    simp only [projected] at cut
    cases cut
    obtain ⟨names, values⟩ := Edge.project?_eq_some projected
    refine ⟨_, rfl, fun column inside => ?_⟩
    have member : column.headLeaf ∈ fields.map (·.1) := by
      rw [names]
      exact List.mem_map_of_mem inside
    obtain ⟨pair, part, same⟩ := List.mem_map.mp member
    have known := values pair part
    rw [← same, known]
    refine Entries.get?_ofList part fun other part' same' => ?_
    have known' := values other part'
    rw [same', known] at known'
    exact (Option.some.inj known').symm

theorem Node.identify_congr {first second known : Record} {components : List Component}
    (same : ∀ component ∈ components, first.get? component.name = second.get? component.name) :
    node.identify first known components = node.identify second known components := by
  induction components generalizing known with
  | nil => rfl
  | cons component rest ih =>
    rw [List.forall_mem_cons] at same
    rw [identify, identify, same.1]
    cases second.get? component.name with
    | none => rfl
    | some raw =>
      refine congrArg (component.coerce raw >>= ·) (funext fun value => ?_)
      exact ih same.2

/-- What ends up under the components that were read. -/
theorem Node.identify_spec {record known id : Record} {components : List Component}
    (apart : ∀ first ∈ components, ∀ second ∈ components, first.name = second.name →
      first = second)
    (read : node.identify record known components = .ok id) :
    (∀ key, (∀ component ∈ components, component.name ≠ key) → id.get? key = known.get? key) ∧
      ∀ component ∈ components, ∃ raw value, record.get? component.name = some raw ∧
        component.coerce raw = .ok value ∧ id.get? component.name = some value := by
  induction components generalizing known with
  | nil =>
    cases read
    exact ⟨fun _ _ => rfl, by simp⟩
  | cons component rest ih =>
    unfold Node.identify at read
    cases found : record.get? component.name with
    | none => simp only [found] at read; cases read
    | some raw =>
      simp only [found] at read
      obtain ⟨value, coerced, read⟩ := Outcome.bind_eq_ok.mp read
      obtain ⟨others, each⟩ := ih (fun first inside second inside' =>
        apart first (List.mem_cons_of_mem _ inside) second (List.mem_cons_of_mem _ inside')) read
      constructor
      · intro key absent
        rw [List.forall_mem_cons] at absent
        rw [others key absent.2, Entries.get?_insert_of_ne _ _ _ _ (Ne.symm absent.1)]
      · rw [List.forall_mem_cons]
        refine ⟨⟨raw, value, found, coerced, ?_⟩, each⟩
        by_cases later : ∃ other ∈ rest, other.name = component.name
        · obtain ⟨other, member, same⟩ := later
          have equal := apart other (List.mem_cons_of_mem _ member) component
            (List.mem_cons_self ..) same
          obtain ⟨raw', value', found', coerced', stored⟩ := each other member
          rw [equal, found, Option.some.injEq] at found'
          rw [equal, ← found', coerced, Except.ok.injEq] at coerced'
          rw [equal] at stored
          rw [stored, coerced']
        · rw [others _ fun other member same => later ⟨other, member, same⟩,
            Entries.get?_insert_self]

theorem Node.apart_of_identifier (node : Node) : ∀ first ∈ node.identifierComponents,
    ∀ second ∈ node.identifierComponents, first.name = second.name → first = second := by
  intro first inside second inside' same
  have looked := Node.component?_of_identifier inside
  rw [same, Node.component?_of_identifier inside'] at looked
  exact (Option.some.inj looked).symm

/-- The heads of the identifying edges are in the form that stores keep. -/
def Catalog.KeepsReferences (catalog : Catalog) (node : Node) (record : Record) : Prop :=
  ∀ link, .edge link ∈ node.identifierComponents → ∀ reference,
    record.get? link.name = some (.record reference) → catalog.Identifies link reference

theorem Catalog.Names.keepsReferences {record : Record} (names : catalog.Names node record) :
    catalog.KeepsReferences node record := by
  intro link inside reference stored
  rcases names _ inside with ⟨-, null⟩ | ⟨other, known, identifies⟩
  · rw [null] at stored
    cases stored
  · rw [known] at stored
    cases stored
    exact identifies

/-- Coercion of what a component holds changes neither the key nor the form. -/
theorem Component.key_of_coerce (wellFormed : catalog.WellFormed)
    (found : catalog.node? name = some node) {component : Component}
    (inside : component ∈ node.identifierComponents) {row id : Record} {raw value : Value}
    (holds : catalog.Holds component row) (stored : row.get? component.name = some raw)
    (coerced : component.coerce raw = .ok value) (kept : id.get? component.name = some value) :
    component.key id = component.key row ∧ catalog.Holds component id := by
  cases component with
  | leaf field =>
    obtain ⟨value', stored', canonical⟩ := holds
    have same : value' = raw := Option.some.inj (stored'.symm.trans stored)
    subst same
    have unchanged : value = value' := Except.ok.inj (coerced.symm.trans canonical.coerce)
    subst unchanged
    refine ⟨?_, value, kept, canonical⟩
    simp only [key, Record.atom?]
    rw [show id.get? field.name = some value from kept, stored']
  | edge link =>
    have required : link.nullable = false := wellFormed.required found _ inside
    obtain ⟨head, leads⟩ := wellFormed.heads found link (Node.mem_of_identifier inside)
    obtain ⟨stored', same, identifies⟩ := reference_of_required required holds
    rw [show row.get? link.name = some raw from stored, Option.some.injEq] at same
    subst same
    obtain ⟨reference, rfl, columns⟩ := Edge.get?_reference coerced
    have kept : id.get? link.name = some (.record reference) := kept
    have stored : row.get? link.name = some (.record stored') := stored
    constructor
    · simp only [key, Edge.target, kept, stored]
      exact Edge.columnsOf_congr columns
    · refine Or.inr ⟨reference, kept, fun head' found' field part => ?_⟩
      obtain ⟨value, known, canonical⟩ := identifies head' found' field part
      refine ⟨value, ?_, canonical⟩
      obtain ⟨column, member, named⟩ := leads.column_of_leaf found' part
      rw [← named, columns column member, named, known]

theorem Node.identifierOf_spec (wellFormed : catalog.WellFormed)
    (found : catalog.node? name = some node) {row record id : Record}
    (names : catalog.Names node row)
    (told : ∀ component ∈ node.identifierComponents, ∀ value,
      record.get? component.name = some value → row.get? component.name = some value)
    (read : node.identifierOf record = .ok id) :
    catalog.Names node id ∧ node.key id = node.key row := by
  obtain ⟨-, each⟩ := Node.identify_spec node.apart_of_identifier read
  have kept : ∀ component ∈ node.identifierComponents,
      component.key id = component.key row ∧ catalog.Holds component id := by
    intro component inside
    obtain ⟨raw, value, known, coerced, stored⟩ := each component inside
    exact component.key_of_coerce wellFormed found inside (names component inside)
      (told component inside raw known) coerced stored
  have names' : catalog.Names node id := fun component inside => (kept component inside).2
  exact ⟨names', (names'.key_eq_iff wellFormed found names).mpr fun component inside =>
    (kept component inside).1⟩

end LiveQuery
