import LiveQuery.Proofs.Selection.Readable
import LiveQuery.Proofs.Sql.Storing
import LiveQuery.Proofs.Statement.Identify
import LiveQuery.Proofs.Store.Basic
import LiveQuery.Sql.Mutation

set_option autoImplicit false

namespace LiveQuery

namespace Entries

variable {α : Type} {entries others : Entries α} {key : String} {value : α}

theorem get?_eq_some_iff (unique : entries.keys.Nodup) :
    entries.get? key = some value ↔ (key, value) ∈ entries := by
  refine ⟨mem_of_get?, fun inside => ?_⟩
  induction entries with
  | nil => cases inside
  | cons entry rest ih =>
    obtain ⟨present, old⟩ := entry
    rw [keys_cons, List.nodup_cons] at unique
    rcases List.mem_cons.mp inside with same | behind
    · cases same
      exact if_pos rfl
    · have apart : present ≠ key := by
        rintro rfl
        exact unique.1 (List.mem_map.mpr ⟨(present, value), behind, rfl⟩)
      simp only [get?, apart, ↓reduceIte]
      exact ih unique.2 behind

theorem get?_of_perm (unique : entries.keys.Nodup) (reordered : entries.Perm others) :
    entries.get? key = others.get? key := by
  have unique' : others.keys.Nodup := (reordered.map Prod.fst).nodup_iff.mp unique
  refine Option.ext fun value => ?_
  rw [get?_eq_some_iff unique, get?_eq_some_iff unique', reordered.mem_iff]

end Entries

namespace Node

variable {node : Node} {record known kept : Record}

/-- The kept value is the raw one in the form of the component under the key. -/
def Keeps (node : Node) (key : String) (raw value : Value) : Prop :=
  ∃ component, node.component? key = some component ∧ component.coerce raw = .ok value

theorem coerceFields_cons_eq_ok {key : String} {raw : Value} {rest : Record} :
    node.coerceFields known ((key, raw) :: rest) = .ok kept ↔
      ∃ value, node.Keeps key raw value ∧
        node.coerceFields (known.insert key value) rest = .ok kept := by
  rw [coerceFields]
  unfold Keeps
  cases found : node.component? key with
  | none => exact ⟨by rintro ⟨⟩, by simp⟩
  | some component =>
    constructor
    · intro coerced
      obtain ⟨value, first, behind⟩ := Outcome.bind_eq_ok.mp coerced
      exact ⟨value, ⟨component, rfl, first⟩, behind⟩
    · rintro ⟨value, ⟨_, ⟨⟩, first⟩, behind⟩
      exact Outcome.bind_eq_ok.mpr ⟨value, first, behind⟩

/-- Under the keys of the fields stands what is kept of them, and elsewhere what was known. -/
theorem get?_of_coerceFields {fields : Record} (unique : fields.keys.Nodup)
    (coerced : node.coerceFields known fields = .ok kept) (key : String) :
    (fields.get? key = none → kept.get? key = known.get? key) ∧
      ∀ raw, fields.get? key = some raw →
        ∃ value, node.Keeps key raw value ∧ kept.get? key = some value := by
  induction fields generalizing known with
  | nil =>
    cases coerced
    exact ⟨fun _ => rfl, by rintro _ ⟨⟩⟩
  | cons field rest ih =>
    obtain ⟨present, raw⟩ := field
    rw [Entries.keys_cons, List.nodup_cons] at unique
    obtain ⟨value, first, behind⟩ := coerceFields_cons_eq_ok.mp coerced
    obtain ⟨absent, found⟩ := ih unique.2 behind
    by_cases same : present = key
    · subst same
      have last : Entries.get? rest present = none := by
        cases later : Entries.get? rest present with
        | none => rfl
        | some => exact absurd (List.mem_map_of_mem (Entries.mem_of_get? later)) unique.1
      simp only [Entries.get?, ↓reduceIte]
      refine ⟨by rintro ⟨⟩, ?_⟩
      rintro _ ⟨⟩
      exact ⟨value, first, (absent last).trans (Entries.get?_insert_self ..)⟩
    · simp only [Entries.get?, same, ↓reduceIte]
      refine ⟨fun missing => ?_, found⟩
      exact (absent missing).trans (Entries.get?_insert_of_ne _ _ _ _ (Ne.symm same))

theorem rel_get?_of_coerceRecord (unique : record.keys.Nodup)
    (coerced : node.coerceRecord record = .ok kept) (key : String) :
    Option.Rel (node.Keeps key) (record.get? key) (kept.get? key) := by
  obtain ⟨absent, found⟩ := get?_of_coerceFields unique coerced key
  cases carried : record.get? key with
  | none =>
    rw [absent carried]
    exact .none
  | some raw =>
    obtain ⟨value, keeps, there⟩ := found raw carried
    rw [there]
    exact .some keeps

theorem exists_coerceFields_iff {fields : Record} :
    (∃ kept, node.coerceFields known fields = .ok kept) ↔
      ∀ field ∈ fields, ∃ value, node.Keeps field.1 field.2 value := by
  induction fields generalizing known with
  | nil => exact iff_of_true ⟨known, rfl⟩ (by simp)
  | cons field rest ih =>
    obtain ⟨key, raw⟩ := field
    rw [List.forall_mem_cons]
    constructor
    · rintro ⟨kept, coerced⟩
      obtain ⟨value, first, behind⟩ := coerceFields_cons_eq_ok.mp coerced
      exact ⟨⟨value, first⟩, ih.mp ⟨kept, behind⟩⟩
    · rintro ⟨⟨value, first⟩, behind⟩
      obtain ⟨kept, coerced⟩ := ih.mpr behind
      exact ⟨kept, coerceFields_cons_eq_ok.mpr ⟨value, first, coerced⟩⟩

theorem Keeps.unique {key : String} {raw value value' : Value} (keeps : node.Keeps key raw value)
    (keeps' : node.Keeps key raw value') : value = value' := by
  obtain ⟨component, found, first⟩ := keeps
  obtain ⟨component', found', second⟩ := keeps'
  cases Option.some.inj (found.symm.trans found')
  exact Except.ok.inj (first.symm.trans second)

theorem coerceRecord_of_perm {other : Record} (unique : record.keys.Nodup)
    (coerced : node.coerceRecord record = .ok kept) (reordered : record.Perm other) :
    ∃ kept', node.coerceRecord other = .ok kept' ∧ ∀ key, kept.get? key = kept'.get? key := by
  obtain ⟨kept', coerced'⟩ := exists_coerceFields_iff.mpr fun field inside =>
    exists_coerceFields_iff.mp ⟨kept, coerced⟩ field (reordered.mem_iff.mpr inside)
  refine ⟨kept', coerced', fun key => ?_⟩
  have unique' : other.keys.Nodup := (reordered.map Prod.fst).nodup_iff.mp unique
  have first := rel_get?_of_coerceRecord unique coerced key
  have second := rel_get?_of_coerceRecord unique' coerced' key
  rw [← Entries.get?_of_perm unique reordered] at second
  generalize record.get? key = carried, kept.get? key = value,
    kept'.get? key = value' at first second
  cases first with
  | none =>
    cases second
    rfl
  | some keeps =>
    cases second with
    | some keeps' => rw [keeps.unique keeps']

end Node

namespace Sql

/-- Where one cell of a row comes from: a leaf, or the part of an edge's foreign key that repeats a
leaf of the head. -/
inductive Slot where
  | leaf (field : Leaf)
  | key (link : Edge) (foreignKey : ForeignKeyColumn)

namespace Slot

def column : Slot → String
  | .leaf field => field.column
  | .key _ foreignKey => foreignKey.column

/-- The name of the component that the slot is part of. -/
def component : Slot → String
  | .leaf field => field.name
  | .key link _ => link.name

def ofComponent : Component → List Slot
  | .leaf field => [.leaf field]
  | .edge link => link.columns.map (.key link)

theorem map_column_ofComponent (component : Component) :
    (ofComponent component).map column = component.columns := by
  cases component with
  | leaf field => rfl
  | edge link => exact List.map_map

theorem map_column_ofComponents (components : List Component) :
    (components.flatMap ofComponent).map column = components.flatMap (·.columns) := by
  rw [List.map_flatMap]
  exact List.flatMap_congr fun component _ => map_column_ofComponent component

/-- What a record puts into a slot: the literal of its leaf's value, of the head's value for the
foreign key, or null where an edge leads nowhere. A record without the component puts nothing. -/
inductive Fills (catalog : Catalog) (record : Record) : Slot → Cell → Prop
  | missing {slot : Slot} (absent : record.get? slot.component = none) :
    Fills catalog record slot none
  | leaf {field : Leaf} {raw value : Value} {literal : Literal}
    (carried : record.get? field.name = some raw) (kept : field.coerce raw = .ok value)
    (written : Literal.ofValue field.type value = .ok literal) :
    Fills catalog record (.leaf field) (some literal)
  | null {link : Edge} {foreignKey : ForeignKeyColumn}
    (carried : record.get? link.name = some .null) :
    Fills catalog record (.key link foreignKey) (some .null)
  | key {link : Edge} {foreignKey : ForeignKeyColumn} {reference : Record} {head : Node}
    {field : Leaf} {value : Value} {literal : Literal}
    (carried : record.get? link.name = some (.record reference))
    (leads : catalog.node? link.head = some head)
    (part : head.component? foreignKey.headLeaf = some (.leaf field))
    (held : reference.get? foreignKey.headLeaf = some value)
    (written : Literal.ofValue field.type value = .ok literal) :
    Fills catalog record (.key link foreignKey) (some literal)

end Slot

variable {catalog : Catalog} {node : Node} {records kept others : List Record}
  {record row : Record} {component : Component} {statement : Statement}

theorem liftStatement_eq_ok {α : Type} {attempt : Except StatementError α} {value : α} :
    (liftM attempt : Except Error α) = .ok value ↔ attempt = .ok value := by
  cases attempt with
  | error => constructor <;> rintro ⟨⟩
  | ok found => constructor <;> rintro ⟨⟩ <;> rfl

theorem leafLiteral_eq_ok {head : Node} {reference : Record} {name : String} {literal : Literal}
    (made : leafLiteral head reference name = .ok literal) :
    ∃ value field, reference.get? name = some value ∧
      head.component? name = some (.leaf field) ∧
        Literal.ofValue field.type value = .ok literal := by
  unfold leafLiteral at made
  cases held : reference.get? name with
  | none =>
    rw [held] at made
    cases made
  | some value =>
    rw [held] at made
    obtain ⟨field, looked, written⟩ := Outcome.bind_eq_ok.mp made
    have found : head.leaf name = .ok field := liftCatalog_eq_ok.mp looked
    unfold Node.leaf at found
    split at found
    · rename_i part
      cases found
      exact ⟨value, field, rfl, part, written⟩
    · cases found

/-- The literals of a kept value fill the slots of its component with what the record gave. -/
theorem fills_componentLiterals {raw value : Value} {literals : List Literal}
    (carried : record.get? component.name = some raw) (coerced : component.coerce raw = .ok value)
    (made : componentLiterals catalog component value = .ok literals) :
    List.Forall₂ (Slot.Fills catalog record) (Slot.ofComponent component) (literals.map some) := by
  cases component with
  | leaf field =>
    obtain ⟨literal, written, made⟩ := Outcome.bind_eq_ok.mp made
    cases made
    exact .cons (.leaf carried coerced written) .nil
  | edge link =>
    obtain ⟨head, looked, made⟩ := Outcome.bind_eq_ok.mp made
    have leads := SelectionField.node?_of_edgeHead (liftCatalog_eq_ok.mp looked)
    have cut : link.reference raw = .ok value := coerced
    rw [Slot.ofComponent, List.forall₂_map_left_iff, List.forall₂_map_right_iff]
    cases raw with
    | null =>
      have kept : value = .null := by
        simp only [Edge.reference] at cut
        split at cut <;> cases cut
        rfl
      subst kept
      cases made
      rw [List.forall₂_map_right_iff]
      exact List.forall₂_same.mpr fun _ _ => .null carried
    | record whole =>
      obtain ⟨reference, rfl, same⟩ := Edge.get?_reference cut
      have each := Lists.forall₂_mem (Outcome.mapM_eq_ok_iff.mp made)
      refine each.imp fun foreignKey literal ⟨single, inside, _⟩ => ?_
      obtain ⟨value, field, held, part, written⟩ := leafLiteral_eq_ok single
      exact .key carried leads part ((same foreignKey inside).symm.trans held) written
    | _ => cases cut

/-- The cells of a row for one component, be it there or not. -/
theorem fills_componentCells {cells : List Cell}
    (keeps : Option.Rel (node.Keeps component.name) (record.get? component.name)
      (row.get? component.name))
    (own : node.component? component.name = some component)
    (made : componentCells catalog row component = .ok cells) :
    List.Forall₂ (Slot.Fills catalog record) (Slot.ofComponent component) cells := by
  unfold componentCells at made
  cases carried : record.get? component.name with
  | none =>
    rw [carried] at keeps
    generalize row.get? component.name = entry at keeps made
    cases keeps
    cases made
    have named : ∀ slot ∈ Slot.ofComponent component, slot.component = component.name := by
      cases component with
      | leaf field => simp [Slot.ofComponent, Slot.component, Component.name]
      | edge link => simp [Slot.ofComponent, Slot.component, Component.name]
    rw [← Slot.map_column_ofComponent, List.map_map, List.forall₂_map_right_iff]
    exact List.forall₂_same.mpr fun slot inside => .missing (named slot inside ▸ carried)
  | some raw =>
    rw [carried] at keeps
    generalize row.get? component.name = entry at keeps made
    cases keeps with
    | @some _ value keeps =>
      obtain ⟨component', found, coerced⟩ := keeps
      cases Option.some.inj (own.symm.trans found)
      obtain ⟨literals, written, made⟩ := Outcome.bind_eq_ok.mp made
      cases made
      exact fills_componentLiterals carried coerced written

/-- The cells of one row, component by component. -/
def rowCells (catalog : Catalog) (components : List Component) (record : Record) :
    Except Error (List Cell) :=
  return (← components.mapM (componentCells catalog record)).flatten

theorem insert_eq_ok_iff : insert catalog node records = .ok statement ↔
    records.isEmpty = false ∧ ∃ kept, records.mapM node.coerceRecord = .ok kept ∧
      ∃ columns, ((writtenComponents node kept).flatMap (·.columns)).mapM Identifier.ofText =
        .ok columns ∧
      ∃ rows, kept.mapM (rowCells catalog (writtenComponents node kept)) = .ok rows ∧
      ∃ table, Identifier.ofText node.table = .ok table ∧
        statement = .insert table columns rows := by
  unfold insert
  cases records.isEmpty with
  | true => exact ⟨by rintro ⟨⟩, by rintro ⟨⟨⟩, -⟩⟩
  | false =>
    constructor
    · intro made
      obtain ⟨kept, coerced, made⟩ := Outcome.bind_eq_ok.mp made
      obtain ⟨columns, named, made⟩ := Outcome.bind_eq_ok.mp made
      obtain ⟨rows, filled, made⟩ := Outcome.bind_eq_ok.mp made
      obtain ⟨table, titled, made⟩ := Outcome.bind_eq_ok.mp made
      exact ⟨rfl, kept, liftStatement_eq_ok.mp coerced, columns, named, rows, filled, table, titled,
        (Except.ok.inj made).symm⟩
    · rintro ⟨-, kept, coerced, columns, named, rows, filled, table, titled, rfl⟩
      refine Outcome.bind_eq_ok.mpr ⟨kept, liftStatement_eq_ok.mpr coerced, ?_⟩
      refine Outcome.bind_eq_ok.mpr ⟨columns, named, Outcome.bind_eq_ok.mpr ⟨rows, filled, ?_⟩⟩
      exact Outcome.bind_eq_ok.mpr ⟨table, titled, rfl⟩

theorem mem_writtenComponents : component ∈ writtenComponents node records ↔
    component ∈ node.components ∧
      ∃ record ∈ records, ∃ value, record.get? component.name = some value := by
  simp only [writtenComponents, List.mem_filter, List.any_eq_true, Entries.contains,
    Option.isSome_iff_exists]

theorem writtenComponents_congr
    (same : List.Forall₂ (fun record other => ∀ component ∈ node.components,
      record.contains component.name = Entries.contains other component.name) records others) :
    writtenComponents node records = writtenComponents node others := by
  refine List.filter_congr fun component inside => ?_
  exact Lists.any_eq_of_forall₂ same fun record other alike => alike component inside

/-- The kept records have the components that the records have. -/
theorem writtenComponents_coerced (unique : ∀ record ∈ records, record.keys.Nodup)
    (coerced : records.mapM node.coerceRecord = .ok kept) :
    writtenComponents node records = writtenComponents node kept := by
  refine writtenComponents_congr ((Lists.forall₂_mem (Outcome.mapM_eq_ok_iff.mp coerced)).imp ?_)
  rintro record row ⟨single, inside, -⟩ component -
  have keeps := Node.rel_get?_of_coerceRecord (unique record inside) single component.name
  unfold Entries.contains
  generalize record.get? component.name = carried, row.get? component.name = value at keeps
  cases keeps <;> rfl

theorem rowCells_congr {other : Record} {components : List Component}
    (same : ∀ key, row.get? key = other.get? key) :
    rowCells catalog components row = rowCells catalog components other := by
  have cells : componentCells catalog row = componentCells catalog other := by
    funext component
    rw [componentCells, componentCells, same]
  rw [rowCells, rowCells, cells]

theorem exists_coerced_of_perm (unique : ∀ record ∈ records, record.keys.Nodup)
    (accepted : List.Forall₂ (fun record row => node.coerceRecord record = .ok row) records kept)
    (reordered : List.Forall₂ List.Perm records others) :
    ∃ kept', List.Forall₂ (fun record row => node.coerceRecord record = .ok row) others kept' ∧
      List.Forall₂ (fun row row' => ∀ key, row.get? key = row'.get? key) kept kept' := by
  induction accepted generalizing others with
  | nil =>
    cases reordered
    exact ⟨[], .nil, .nil⟩
  | cons coerced _ ih =>
    cases reordered with
    | cons perm behind =>
      rw [List.forall_mem_cons] at unique
      obtain ⟨row', coerced', same⟩ := Node.coerceRecord_of_perm unique.1 coerced perm
      obtain ⟨kept', accepted', alike⟩ := ih unique.2 behind
      exact ⟨row' :: kept', .cons coerced' accepted', .cons same alike⟩

/-- A row fills the slots of the components that it is made for. -/
theorem fills_rowCells (wellFormed : catalog.WellFormed)
    (found : catalog.node? node.name = some node) (unique : record.keys.Nodup)
    (coerced : node.coerceRecord record = .ok row) {components : List Component}
    (within : components ⊆ node.components) {cells : List Cell}
    (made : rowCells catalog components row = .ok cells) :
    List.Forall₂ (Slot.Fills catalog record) (components.flatMap Slot.ofComponent) cells := by
  obtain ⟨parts, each, made⟩ := Outcome.bind_eq_ok.mp made
  cases made
  refine List.rel_flatten (List.forall₂_map_left_iff.mpr ?_)
  refine (Lists.forall₂_mem (Outcome.mapM_eq_ok_iff.mp each)).imp ?_
  rintro component part ⟨single, inside, -⟩
  exact fills_componentCells (Node.rel_get?_of_coerceRecord unique coerced component.name)
    (wellFormed.components found component (within inside)) single

/-- The statement is the same in whatever order the keys of the records come. -/
theorem insert_of_perm (unique : ∀ record ∈ records, record.keys.Nodup)
    (made : insert catalog node records = .ok statement)
    (reordered : List.Forall₂ List.Perm records others) :
    insert catalog node others = .ok statement := by
  obtain ⟨given, kept, coerced, columns, named, rows, filled, table, titled, rfl⟩ :=
    insert_eq_ok_iff.mp made
  obtain ⟨kept', coerced', same⟩ :=
    exists_coerced_of_perm unique (Outcome.mapM_eq_ok_iff.mp coerced) reordered
  have listed : writtenComponents node kept' = writtenComponents node kept :=
    writtenComponents_congr (same.flip.imp fun _ _ alike (component : Component) _ =>
      congrArg Option.isSome (alike component.name).symm)
  have filled' : kept'.mapM (rowCells catalog (writtenComponents node kept)) = .ok rows := by
    rw [← filled]
    exact Outcome.mapM_eq_of_forall₂ (same.flip.imp fun _ _ alike =>
      (rowCells_congr fun key => (alike key).symm))
  have present : others.isEmpty = false := by
    cases reordered with
    | nil => exact given
    | cons => rfl
  refine insert_eq_ok_iff.mpr ⟨present, kept', Outcome.mapM_eq_ok_iff.mpr coerced', ?_⟩
  rw [listed]
  exact ⟨columns, named, rows, filled', table, titled, rfl⟩

/-- Rows are aligned with the columns: every row has as many cells as there are columns, and each is
what the row's record puts into the slot of its column. A component is listed exactly if some record
carries it, and those listed stand in the order of the node. The statement is the same in whatever
order the keys of the records come. -/
theorem insert_aligned {definitions : CatalogDefinition} (built : definitions.build = .ok catalog)
    (found : catalog.node? node.name = some node) (unique : ∀ record ∈ records, record.keys.Nodup)
    (made : insert catalog node records = .ok statement) :
    (∃ components : List Component, ∃ table columns rows, statement = .insert table columns rows ∧
      table.text = node.table ∧ components.Sublist node.components ∧
      (∀ component ∈ node.components, component ∈ components ↔
        ∃ record ∈ records, ∃ value, record.get? component.name = some value) ∧
      columns.map (·.text) = (components.flatMap Slot.ofComponent).map (·.column) ∧
      List.Forall₂ (fun record row => row.length = columns.length ∧
        List.Forall₂ (Slot.Fills catalog record) (components.flatMap Slot.ofComponent) row)
        records rows) ∧
    ∀ others, List.Forall₂ List.Perm records others →
      insert catalog node others = .ok statement := by
  have wellFormed := CatalogDefinition.build_wellFormed built
  refine ⟨?_, fun others reordered => insert_of_perm unique made reordered⟩
  obtain ⟨-, kept, coerced, columns, named, rows, filled, table, titled, rfl⟩ :=
    insert_eq_ok_iff.mp made
  rw [← writtenComponents_coerced unique coerced] at named filled
  have columnTexts : columns.map (·.text) =
      ((writtenComponents node records).flatMap Slot.ofComponent).map (·.column) := by
    rw [Slot.map_column_ofComponents, ← List.forall₂_eq_eq_eq, List.forall₂_map_left_iff]
    exact (Outcome.mapM_eq_ok_iff.mp named).flip.imp fun _ _ => Name.ofText_eq_ok
  refine ⟨writtenComponents node records, table, columns, rows, rfl, Name.ofText_eq_ok titled,
    List.filter_sublist, fun component inside => mem_writtenComponents.trans (and_iff_right inside),
    columnTexts, ?_⟩
  have accepted := Lists.forall₂_mem (Outcome.mapM_eq_ok_iff.mp coerced)
  refine Lists.forall₂_of_left ?_ accepted.flip (Outcome.mapM_eq_ok_iff.mp filled)
  rintro row record cells ⟨single, inside, -⟩ cut
  have fills := fills_rowCells wellFormed found (unique record inside) single
    (List.filter_subset_self _) cut
  have lengths := congrArg List.length columnTexts
  rw [List.length_map, List.length_map] at lengths
  exact ⟨fills.length_eq.symm.trans lengths.symm, fills⟩

end Sql

namespace Samples

open Sql

def shopCatalog : Catalog :=
  match shop.build with
  | .ok catalog => catalog
  | .error _ => ⟨[]⟩

theorem build_shop : shop.build = .ok shopCatalog := rfl

def store : Node := (shopCatalog.node? "Store").getD task

/-- Stores of a region, of none, and of whatever the default says. One of them has a name, none an
owner. -/
def newStores : List Record :=
  [[("region", .record [("title", .null), ("code", .string "N"), ("number", .int 4)]),
      ("id", .int 7)],
    [("id", .int 8), ("region", .null), ("name", .string "Quay")], [("id", .int 9)]]

/-- The same stores with the keys in another order. -/
def newStoresReordered : List Record :=
  [[("id", .int 7),
      ("region", .record [("title", .null), ("code", .string "N"), ("number", .int 4)])],
    [("id", .int 8), ("name", .string "Quay"), ("region", .null)], [("id", .int 9)]]

def newStoresStatement : Statement :=
  .insert ⟨"sto`res", by decide⟩
    [⟨"store id", by decide⟩, ⟨"name", by decide⟩, ⟨"region_number", by decide⟩,
      ⟨"rcode", by decide⟩]
    [[some (.int 7), none, some (.int 4), some (.string "N")],
      [some (.int 8), some (.string "Quay"), some .null, some .null],
      [some (.int 9), none, none, none]]

theorem newStores_aligned :
    (shopCatalog.node? store.name = some store ∧ (∀ record ∈ newStores, record.keys.Nodup) ∧
      insert shopCatalog store newStores = .ok newStoresStatement) ∧
    (∃ components : List Component, ∃ table columns rows,
      newStoresStatement = .insert table columns rows ∧
      table.text = "sto`res" ∧ components.Sublist store.components ∧
      (∀ component ∈ store.components, component ∈ components ↔
        ∃ record ∈ newStores, ∃ value, record.get? component.name = some value) ∧
      columns.map (·.text) = (components.flatMap Slot.ofComponent).map (·.column) ∧
      List.Forall₂ (fun record row => row.length = columns.length ∧
        List.Forall₂ (Slot.Fills shopCatalog record) (components.flatMap Slot.ofComponent) row)
        newStores rows) ∧
    (∃ owner ∈ store.components, owner.name = "owner" ∧
      ∀ record ∈ newStores, record.get? "owner" = none) ∧
    insert shopCatalog store newStoresReordered = .ok newStoresStatement := by
  have unique : ∀ record ∈ newStores, record.keys.Nodup := by decide
  have made : insert shopCatalog store newStores = .ok newStoresStatement := rfl
  have settled := insert_aligned build_shop rfl unique made
  refine ⟨⟨rfl, unique, made⟩, settled.1, ?_, settled.2 newStoresReordered ?_⟩
  · have listed : store.component? "owner" = some (.edge
        ⟨"Store", "owner", "Person", false, [⟨"id", "owner_id"⟩]⟩) := rfl
    exact ⟨_, Node.mem_of_component? listed, rfl, by decide⟩
  · exact .cons (.swap ..) (.cons (.cons _ (.swap ..)) (.cons (.refl _) .nil))

end Samples

end LiveQuery
