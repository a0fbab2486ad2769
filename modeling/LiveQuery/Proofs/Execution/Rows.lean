import LiveQuery.Proofs.Execution.Copying
import LiveQuery.Proofs.Filter.Identifier

set_option autoImplicit false

namespace LiveQuery

/-- A row of a statement holds a tree under the labels of the columns, in any order. -/
def Sql.Find.Holds (query : Sql.Find) (tree row : Record) : Prop :=
  row.Perm (query.columns.map fun column =>
    (column.label.text, tree.under (Text.splitAtPoints column.label.text)))

/-- A head together with the identifier of its parent. -/
def Record.tagged (parent head : Record) : Record :=
  Entries.insert head Sql.parentKey (.record parent)

section Cells

open Paths Record

variable {catalog : Catalog} {node : Node} {name : String} {fields : List SelectionField}

/-- A path that is found again in its dotted text. -/
structure IsPlainPath (path : List String) : Prop where
  some_ : path ≠ []
  whole : ∀ key ∈ path, '.' ∉ key.toList

theorem IsPlainPath.cons {key : String} {path : List String} (whole : '.' ∉ key.toList)
    (plain : ∀ key ∈ path, '.' ∉ key.toList) : IsPlainPath (key :: path) :=
  ⟨List.cons_ne_nil _ _, List.forall_mem_cons.mpr ⟨whole, plain⟩⟩

theorem plain_of_column (outward : catalog.Outward) {link : Edge} {head : Node}
    (leads : catalog.Leads link head) {column : ForeignKeyColumn} (inside : column ∈ link.columns) :
    '.' ∉ column.headLeaf.toList := by
  obtain ⟨field, part, named⟩ := leads.leaf_of_column inside
  have plain := outward.names head (Catalog.mem_of_node? leads.node) _ (Node.mem_of_identifier part)
  rw [← named]
  exact plain.whole

theorem plain_of_identifierPaths (wellFormed : catalog.WellFormed) (outward : catalog.Outward)
    (found : catalog.node? name = some node) :
    ∀ path ∈ node.identifierPaths, ∀ key ∈ path, '.' ∉ key.toList := by
  intro path inside key member
  obtain ⟨component, part, inner⟩ := List.mem_flatMap.mp inside
  have named : '.' ∉ component.name.toList :=
    (outward.names node (Catalog.mem_of_node? found) _ (Node.mem_of_identifier part)).whole
  cases component with
  | leaf field =>
    rw [Component.paths, List.mem_singleton] at inner
    subst inner
    rw [List.mem_singleton] at member
    subst member
    exact named
  | edge link =>
    obtain ⟨column, stored, rfl⟩ := List.mem_map.mp inner
    obtain ⟨head, leads⟩ := wellFormed.heads found link (Node.mem_of_identifier part)
    rcases List.mem_cons.mp member with rfl | last
    · exact named
    · rw [List.mem_singleton.mp last]
      exact plain_of_column outward leads stored

theorem plain_of_recordPaths_of (wellFormed : catalog.WellFormed) (outward : catalog.Outward)
    (found : catalog.node? name = some node) (plain : ∀ field ∈ fields, IsPlainKey field.key)
    (each : ∀ field ∈ fields, ∀ path ∈ field.innerPaths catalog, ∀ key ∈ path, '.' ∉ key.toList) :
    ∀ path ∈ SelectionField.recordPaths catalog name fields, IsPlainPath path := by
  intro path inside
  rw [SelectionField.recordPaths_eq found] at inside
  rcases List.mem_append.mp inside with identifying | selected
  · obtain ⟨inner, member, rfl⟩ := List.mem_map.mp identifying
    exact .cons (by decide) (plain_of_identifierPaths wellFormed outward found inner member)
  · obtain ⟨field, part, below⟩ := List.mem_flatMap.mp selected
    obtain ⟨inner, member, rfl⟩ := List.mem_map.mp below
    exact .cons (plain field part).whole (each field part inner member)

theorem plain_of_innerPaths (wellFormed : catalog.WellFormed) (outward : catalog.Outward)
    {field : SelectionField} (readable : field.Readable catalog node) :
    ∀ path ∈ field.innerPaths catalog, ∀ key ∈ path, '.' ∉ key.toList := by
  induction field using SelectionField.induction_head generalizing node with
  | step field ih =>
    cases readable with
    | leaf | count =>
      intro path inside key member
      rw [List.mem_singleton.mp inside] at member
      cases member
    | edge plain found whole heads | unique plain found whole heads =>
      intro path inside
      have below := plain_of_recordPaths_of wellFormed outward found
        (fun field member => (heads field member).plain)
        (fun field member => ih field member (heads field member))
      exact (below path inside).whole
    | multiple => exact fun path inside => nomatch inside

theorem plain_of_recordPaths (wellFormed : catalog.WellFormed) (outward : catalog.Outward)
    (found : catalog.node? name = some node)
    (readable : SelectionField.ReadableAll catalog node fields) :
    ∀ path ∈ SelectionField.recordPaths catalog name fields, IsPlainPath path :=
  plain_of_recordPaths_of wellFormed outward found
    (fun field inside => (readable.each field inside).plain)
    (fun field inside => plain_of_innerPaths wellFormed outward (readable.each field inside))

theorem cells_of_holds {query : Sql.Find} {tree row : Record} {paths : List (List String)}
    (labels : (query.columns.map (·.label.text)).Perm (paths.map (".".intercalate ·)))
    (plain : ∀ path ∈ paths, IsPlainPath path) (holds : query.Holds tree row) :
    (Row.cells row).Perm (cellsOf tree paths) := by
  let cellOf (label : String) : PathCell :=
    (Text.splitAtPoints label, tree.under (Text.splitAtPoints label))
  have read : (Row.cells row).Perm ((query.columns.map (·.label.text)).map cellOf) := by
    rw [List.map_map]
    have cells := holds.map fun column => ((Text.splitAtPoints column.1, column.2) : PathCell)
    rwa [List.map_map] at cells
  refine read.trans ((labels.map cellOf).trans (List.Perm.of_eq ?_))
  rw [List.map_map]
  refine List.map_congr_left fun path inside => ?_
  have split := Text.splitAtPoints_intercalate (plain path inside).some_ (plain path inside).whole
  simp only [Function.comp_apply, cellOf, split]

theorem flattened_of_find (wellFormed : catalog.WellFormed) (outward : catalog.Outward)
    {settings : Settings} {selection : Selection} {request : Request} {query : Sql.Find}
    (found : catalog.node? selection.node.name = some selection.node)
    (readable : SelectionField.ReadableAll catalog selection.node selection.fields)
    (made : Sql.find catalog settings selection request = .ok query) {tree row : Record}
    (holds : query.Holds tree row) :
    SelectionField.Flattened catalog selection.node.name selection.fields tree
      (Row.cells row) := by
  intro key _
  exact behind_perm (cells_of_holds (Sql.labels_of_find found made)
    (plain_of_recordPaths wellFormed outward found readable) holds)

end Cells

section Heads

open Paths Record

variable {catalog : Catalog} {parent target : Node} {followup : Followup}

theorem get?_tagged {key : String} (id head : Record) (other : key ≠ Sql.parentKey) :
    (tagged id head).get? key = head.get? key :=
  Entries.get?_insert_of_ne _ _ _ _ other

theorem under_tagged {key : String} (id head : Record) (path : List String)
    (other : key ≠ Sql.parentKey) :
    (tagged id head).under (key :: path) = head.under (key :: path) := by
  cases path with
  | nil => rw [under, under, get?_tagged id head other]
  | cons => rw [under, under, get?_tagged id head other]

theorem parentPaths_eq (relation : ReverseEdge) : Sql.parentPaths relation =
    (relation.edge.columns.map fun column => [column.headLeaf]).map (Sql.parentKey :: ·) := by
  rw [List.map_map]
  rfl

/-- How a followup is placed: its relation belongs to the parent's node, and its heads are read like
records of their own. -/
structure Followup.Rooted (catalog : Catalog) (followup : Followup) (parent target : Node) :
    Prop where
  found : catalog.node? followup.relation.node = some parent
  belongs : followup.relation ∈ parent.reverseEdges
  heads : catalog.node? followup.relation.head = some target
  readable : SelectionField.ReadableAll catalog target followup.head
  next : followup.next = Followup.ofFields [] followup.head

theorem Followup.Rooted.leads (wellFormed : catalog.WellFormed)
    (rooted : followup.Rooted catalog parent target) :
    catalog.Leads followup.relation.edge parent := by
  obtain ⟨head, other, found, part⟩ :=
    wellFormed.relations rooted.found followup.relation rooted.belongs
  obtain ⟨node, leads⟩ := wellFormed.heads found followup.relation.edge part
  have known := leads.node
  rw [head, Catalog.name_of_node? rooted.found, rooted.found, Option.some.injEq] at known
  exact known ▸ leads

variable (wellFormed : catalog.WellFormed) (outward : catalog.Outward)
  (rooted : followup.Rooted catalog parent target) {settings : Settings} {parents : List Record}
  {query : Sql.Find} (made : Sql.followUp catalog settings followup parents = .ok query)
  {id head row : Record} (holds : query.Holds (tagged id head) row)

include wellFormed outward rooted made holds

theorem cells_of_head : (Row.cells row).Perm (cellsOf (tagged id head)
    (SelectionField.recordPaths catalog followup.relation.head followup.head ++
      Sql.parentPaths followup.relation)) := by
  refine cells_of_holds (Sql.labels_of_followUp made) (fun path inside => ?_) holds
  rcases List.mem_append.mp inside with own | tag
  · exact plain_of_recordPaths wellFormed outward rooted.heads rooted.readable path own
  · obtain ⟨column, part, rfl⟩ := List.mem_map.mp tag
    refine .cons (by decide) fun key member => ?_
    rw [List.mem_singleton.mp member]
    exact plain_of_column outward (rooted.leads wellFormed) part

theorem flattened_of_followUp : SelectionField.Flattened catalog followup.relation.head
    followup.head head (Row.cells row) := by
  intro key other
  have cells := @behind_perm key _ _ (cells_of_head wellFormed outward rooted made holds)
  have absent : below key (Sql.parentPaths followup.relation) = [] := by
    rw [parentPaths_eq, below_map_of_ne other.symm]
  rw [behind_cellsOf, below_append, absent, List.append_nil] at cells
  rw [behind_cellsOf]
  refine cells.trans (List.Perm.of_eq (List.map_congr_left fun path _ => ?_))
  rw [under_tagged id head path other]

theorem parent_of_followUp : (behind Sql.parentKey (Row.cells row)).Perm
    (cellsOf id (followup.relation.edge.columns.map fun column => [column.headLeaf])) := by
  have cells := @behind_perm Sql.parentKey _ _ (cells_of_head wellFormed outward rooted made holds)
  have known : (tagged id head).get? Sql.parentKey = some (.record id) :=
    Entries.get?_insert_self ..
  rw [behind_cellsOf, below_append, SelectionField.below_parent rooted.heads rooted.readable,
    List.nil_append, parentPaths_eq, below_map_self] at cells
  refine cells.trans (List.Perm.of_eq (List.map_congr_left fun path inside => ?_))
  obtain ⟨column, -, rfl⟩ := List.mem_map.mp inside
  rw [under_of_child known (List.cons_ne_nil _ _)]

end Heads

section Parents

open Paths Record

variable {catalog : Catalog} {link : Edge} {parent : Node} {cells : List PathCell}

theorem mem_of_mem_fill {record : Record} (single : ∀ cell ∈ cells, ∃ key, cell.1 = [key])
    {entry : String × Value} (inside : entry ∈ fill record cells) :
    entry ∈ record ∨ ([entry.1], entry.2) ∈ cells := by
  induction cells generalizing record with
  | nil => exact Or.inl inside
  | cons cell rest ih =>
    obtain ⟨⟨key, ends⟩, others⟩ := List.forall_mem_cons.mp single
    obtain ⟨path, value⟩ := cell
    subst ends
    rw [fill, List.foldl_cons] at inside
    rcases ih others inside with first | later
    · rcases Entries.mem_of_mem_insert first with rfl | before
      · exact Or.inr (List.mem_cons_self ..)
      · exact Or.inl before
    · exact Or.inr (List.mem_cons_of_mem _ later)

variable {tag own own' : Record}

/-- Whether a head belongs to a record is settled leaf by leaf. -/
theorem isChildOf_iff_columns (outward : catalog.Outward) (leads : catalog.Leads link parent)
    (tags : (behind Sql.parentKey cells).Perm
      (cellsOf tag (link.columns.map fun column => [column.headLeaf]))) :
    Row.isChildOf (Row.ofCells cells) own' = true ↔ ∀ column ∈ link.columns, ∃ value,
      own'.get? column.headLeaf = some value ∧
        value.looselyEqual (tag.under [column.headLeaf]) = true := by
  obtain ⟨some_, apart⟩ := leads.columns_spec outward
  have filled := get?_of_deep tags (by simpa [cellsOf] using some_) (by simp [cellsOf])
  have carried : (Row.ofCells cells).carried? Sql.parentKey =
      some (fill [] (behind Sql.parentKey cells)) := by
    rw [carried?, Row.get?_ofCells_internal cells (Or.inr rfl), filled]
  rw [Row.isChildOf, carried]
  simp only [List.all_eq_true]
  constructor
  · intro all column inside
    have entry := all _ (Entries.mem_of_get? (get?_of_singles tags apart inside))
    cases known : own'.get? column.headLeaf with
    | none => simp [known] at entry
    | some value => exact ⟨value, rfl, by simpa [known] using entry⟩
  · intro each entry inside
    have single : ∀ cell ∈ behind Sql.parentKey cells, ∃ key, cell.1 = [key] := by
      intro cell member
      obtain ⟨path, part, rfl⟩ := List.mem_map.mp (tags.mem_iff.mp member)
      obtain ⟨column, -, rfl⟩ := List.mem_map.mp part
      exact ⟨_, rfl⟩
    have member := (mem_of_mem_fill single inside).resolve_left List.not_mem_nil
    obtain ⟨path, part, same⟩ := List.mem_map.mp (tags.mem_iff.mp member)
    obtain ⟨column, stored, rfl⟩ := List.mem_map.mp part
    obtain ⟨key, value⟩ := entry
    cases same
    obtain ⟨value, known, equal⟩ := each column stored
    simp only [known]
    exact equal

/-- A head belongs to the records that have the identifier of its parent. -/
theorem isChildOf_iff (wellFormed : catalog.WellFormed) (outward : catalog.Outward)
    (leads : catalog.Leads link parent)
    (tags : (behind Sql.parentKey cells).Perm
      (cellsOf tag (link.columns.map fun column => [column.headLeaf])))
    (names : catalog.Names parent tag) (names' : catalog.Names parent own)
    (agrees : ∀ field, .leaf field ∈ parent.identifierComponents →
      own'.get? field.name = own.get? field.name) :
    Row.isChildOf (Row.ofCells cells) own' = true ↔ parent.key own = parent.key tag := by
  have leafwise {field : Leaf} (inside : .leaf field ∈ parent.identifierComponents) :
      (∃ value, own'.get? field.name = some value ∧
        value.looselyEqual (tag.under [field.name]) = true) ↔
      (Component.leaf field).key own = (Component.leaf field).key tag := by
    obtain ⟨value, known, canonical⟩ := names _ inside
    obtain ⟨value', known', canonical'⟩ := names' _ inside
    have injective : Function.Injective fun atom : Atom => [atom] := fun _ _ same =>
      List.singleton_inj.mp same
    rw [agrees field inside, known', under, known, Option.getD_some, Component.key, Component.key,
      (Option.map_injective injective).eq_iff, atom?, atom?, known, known']
    simp [canonical'.looselyEqual_eq canonical]
  rw [isChildOf_iff_columns outward leads tags,
    names'.key_eq_iff wellFormed leads.node names]
  constructor
  · intro each component inside
    obtain ⟨field, rfl⟩ := leads.leaf_of_identifier inside
    obtain ⟨column, stored, named⟩ := leads.column_of_leaf leads.node inside
    refine (leafwise inside).mp ?_
    rw [← named]
    exact each column stored
  · intro each column stored
    obtain ⟨field, inside, named⟩ := leads.leaf_of_column stored
    rw [← named]
    exact (leafwise inside).mpr (each _ inside)

end Parents

end LiveQuery
