import LiveQuery.Proofs.Execution.Assembly
import LiveQuery.Proofs.Sql.Columns

set_option autoImplicit false

namespace LiveQuery

/-- The record carries the identifier of an instance of the node. -/
def Catalog.Identified (catalog : Catalog) (name : String) (tree : Record) : Prop :=
  ∃ node id, catalog.node? name = some node ∧ tree.carried? Sql.identifierKey = some id ∧
    catalog.Names node id

namespace SelectionField

mutual

/-- What a record of the shape of a selection has under the key of a field: a scalar, null or a
record behind a relation to one head, and records behind a relation to many. -/
def Shapes (catalog : Catalog) : SelectionField → Record → Prop
  | .leaf key _, tree | .count key _ _, tree =>
    ∃ value, tree.get? key = some value ∧ value.record? = none
  | .edge key link head, tree =>
    tree.get? key = some .null ∨ ∃ child, tree.get? key = some (.record child) ∧
      catalog.Identified link.head child ∧ ShapesAll catalog head child
  | .unique key relation head, tree =>
    tree.get? key = some .null ∨ ∃ child, tree.get? key = some (.record child) ∧
      catalog.Identified relation.head child ∧ ShapesAll catalog head child
  | .multiple key relation _ head, tree =>
    ∃ items : List Record, tree.get? key = some (.list (items.map .record)) ∧
      ∀ item ∈ items, catalog.Identified relation.head item ∧ ShapesAll catalog head item

def ShapesAll (catalog : Catalog) : List SelectionField → Record → Prop
  | [], _ => True
  | field :: rest, tree => Shapes catalog field tree ∧ ShapesAll catalog rest tree

end

variable {catalog : Catalog} {fields : List SelectionField} {tree twin : Record}

theorem shapesAll_iff :
    ShapesAll catalog fields tree ↔ ∀ field ∈ fields, Shapes catalog field tree := by
  induction fields with
  | nil => simp [ShapesAll]
  | cons field rest ih => rw [ShapesAll, ih, List.forall_mem_cons]

end SelectionField

/-- The record has the leaves of the identifier that the tree has. -/
def Catalog.Carries (catalog : Catalog) (name : String) (twin tree : Record) : Prop :=
  ∃ id id', tree.carried? Sql.identifierKey = some id ∧
    twin.carried? Sql.identifierKey = some id' ∧
    ∀ node, catalog.node? name = some node → ∀ field, .leaf field ∈ node.identifierComponents →
      id'.get? field.name = id.get? field.name

namespace SelectionField

mutual

/-- A record has under the key of a field what a tree has. The heads of relations to many count only
where the record is complete. -/
def Copied (catalog : Catalog) (complete : Bool) : SelectionField → Record → Record → Prop
  | .leaf key _, twin, tree | .count key _ _, twin, tree => twin.get? key = tree.get? key
  | .edge key link head, twin, tree =>
    (twin.get? key = some .null ∧ tree.get? key = some .null) ∨
      ∃ twin' child, twin.get? key = some (.record twin') ∧ tree.get? key = some (.record child) ∧
        catalog.Carries link.head twin' child ∧ CopiedAll catalog complete head twin' child
  | .unique key relation head, twin, tree =>
    (twin.get? key = some .null ∧ tree.get? key = some .null) ∨
      ∃ twin' child, twin.get? key = some (.record twin') ∧ tree.get? key = some (.record child) ∧
        catalog.Carries relation.head twin' child ∧ CopiedAll catalog complete head twin' child
  | .multiple key _ _ head, twin, tree => complete = true → ∃ twins items : List Record,
      twin.get? key = some (.list (twins.map .record)) ∧
      tree.get? key = some (.list (items.map .record)) ∧
      List.Forall₂ (CopiedAll catalog complete head) twins items

def CopiedAll (catalog : Catalog) (complete : Bool) :
    List SelectionField → Record → Record → Prop
  | [], _, _ => True
  | field :: rest, twin, tree =>
    Copied catalog complete field twin tree ∧ CopiedAll catalog complete rest twin tree

end

variable {catalog : Catalog} {complete : Bool} {fields : List SelectionField} {tree twin : Record}

theorem copiedAll_iff : CopiedAll catalog complete fields twin tree ↔
    ∀ field ∈ fields, Copied catalog complete field twin tree := by
  induction fields with
  | nil => simp [CopiedAll]
  | cons field rest ih => rw [CopiedAll, ih, List.forall_mem_cons]

end SelectionField

namespace Paths

variable {key other : String} {paths rest : List (List String)}

/-- What is behind a key in a path that starts with it. -/
def below? (key : String) : List String → Option (List String)
  | [] => none
  | first :: rest => if first = key then some rest else none

/-- The paths that start with a key, cut down to what is behind it. -/
def below (key : String) (paths : List (List String)) : List (List String) :=
  paths.filterMap (below? key)

theorem below?_self (path : List String) : below? key (key :: path) = some path := if_pos rfl

theorem below?_of_ne (path : List String) (apart : other ≠ key) :
    below? key (other :: path) = none :=
  if_neg apart

theorem below_append : below key (paths ++ rest) = below key paths ++ below key rest :=
  List.filterMap_append ..

theorem below_map_self : below key (paths.map (key :: ·)) = paths := by
  induction paths with
  | nil => rfl
  | cons path rest ih =>
    rw [List.map_cons, below, List.filterMap_cons_some (below?_self path)]
    exact congrArg _ ih

theorem below_map_of_ne (apart : other ≠ key) : below key (paths.map (other :: ·)) = [] := by
  induction paths with
  | nil => rfl
  | cons path rest ih =>
    rw [List.map_cons, below, List.filterMap_cons_none (below?_of_ne path apart)]
    exact ih

/-- What a tree has under paths. -/
def cellsOf (tree : Record) (paths : List (List String)) : List PathCell :=
  paths.map fun path => (path, tree.under path)

theorem behind?_eq (path : List String) (value : Value) :
    Record.behind? key (path, value) = (below? key path).map fun rest => (rest, value) := by
  cases path with
  | nil => rfl
  | cons first rest =>
    by_cases same : first = key
    · simp [Record.behind?, below?, same]
    · simp [Record.behind?, below?, same]

theorem eq_of_below? {path inner : List String} (found : below? key path = some inner) :
    path = key :: inner := by
  cases path with
  | nil => cases found
  | cons first rest =>
    by_cases same : first = key
    · rw [same, below?_self] at found
      cases found
      rw [same]
    · rw [below?_of_ne rest same] at found
      cases found

theorem behind_cellsOf {tree : Record} : Record.behind key (cellsOf tree paths) =
    (below key paths).map fun path => (path, tree.under (key :: path)) := by
  rw [Record.behind, cellsOf, below, List.filterMap_map, List.map_filterMap]
  refine List.filterMap_congr fun path _ => ?_
  rw [Function.comp_apply, behind?_eq]
  cases found : below? key path with
  | none => rfl
  | some inner => rw [Option.map_some, Option.map_some, eq_of_below? found]

theorem below_flatMap_of_ne {α : Type} {name : α → String} {inner : α → List (List String)}
    {items : List α} (absent : ∀ item ∈ items, name item ≠ key) :
    below key (items.flatMap fun item => (inner item).map (name item :: ·)) = [] := by
  induction items with
  | nil => rfl
  | cons first rest ih =>
    rw [List.forall_mem_cons] at absent
    rw [List.flatMap_cons, below_append, below_map_of_ne absent.1, ih absent.2]
    rfl

theorem below_flatMap {α : Type} {name : α → String} {inner : α → List (List String)}
    {items : List α} {item : α} (apart : (items.map name).Nodup) (inside : item ∈ items) :
    below (name item) (items.flatMap fun item => (inner item).map (name item :: ·)) =
      inner item := by
  induction items with
  | nil => cases inside
  | cons first rest ih =>
    rw [List.map_cons, List.nodup_cons] at apart
    rw [List.flatMap_cons, below_append]
    rcases List.mem_cons.mp inside with rfl | behind
    · have absent : ∀ other ∈ rest, name other ≠ name item := fun other member same =>
        apart.1 (same ▸ List.mem_map_of_mem member)
      rw [below_map_self, below_flatMap_of_ne absent, List.append_nil]
    · have differs : name first ≠ name item := by
        intro same
        exact apart.1 (same ▸ List.mem_map_of_mem behind)
      rw [below_map_of_ne differs, List.nil_append]
      exact ih apart.2 behind

theorem below_singles {α : Type} {name : α → String} {items : List α} {item : α}
    (apart : (items.map name).Nodup) (inside : item ∈ items) :
    below (name item) (items.map fun item => [name item]) = [[]] := by
  rw [List.map_eq_flatMap]
  exact @below_flatMap _ _ (fun _ => [[]]) _ _ apart inside

theorem behind_cellsOf_child {tree child : Record} (found : tree.get? key = some (.record child))
    (deep : ∀ path ∈ below key paths, path ≠ []) :
    Record.behind key (cellsOf tree paths) = cellsOf child (below key paths) := by
  rw [behind_cellsOf]
  refine List.map_congr_left fun path inside => ?_
  rw [Record.under_of_child found (deep path inside)]

end Paths

section Cells

open Paths Record

variable {key : String} {cells expected : List PathCell} {value : Value}

theorem get?_of_single (single : (behind key cells).Perm [([], value)]) :
    (fill [] cells).get? key = some value :=
  get?_fill_of_behind_single (List.perm_singleton.mp single)

theorem get?_of_deep (same : (behind key cells).Perm expected) (some_ : expected ≠ [])
    (deep : ∀ cell ∈ expected, cell.1 ≠ []) :
    (fill [] cells).get? key = some (.record (fill [] (behind key cells))) := by
  refine get?_fill_of_behind ?_ fun cell inside => deep cell (same.mem_iff.mp inside)
  intro none_
  rw [none_] at same
  exact some_ (List.nil_perm.mp same)

theorem get?_of_singles {α : Type} {name : α → String} {items : List α} {item : α} {tree : Record}
    (same : cells.Perm (cellsOf tree (items.map fun item => [name item])))
    (apart : (items.map name).Nodup) (inside : item ∈ items) :
    (fill [] cells).get? (name item) = some (tree.under [name item]) := by
  have single := @behind_perm (name item) _ _ same
  rw [behind_cellsOf, below_singles apart inside, List.map_singleton] at single
  exact get?_of_single single

end Cells

section Identifiers

open Paths Record

variable {catalog : Catalog} {node : Node} {name : String} {tree id : Record}
  {cells : List PathCell}

/-- The paths behind the name of a component. -/
def Component.innerPaths : Component → List (List String)
  | .leaf _ => [[]]
  | .edge link => link.columns.map fun column => [column.headLeaf]

theorem Component.paths_eq (component : Component) :
    component.paths = component.innerPaths.map (component.name :: ·) := by
  cases component with
  | leaf => rfl
  | edge link =>
    rw [innerPaths, List.map_map]
    rfl

theorem Catalog.Leads.columns_spec (outward : catalog.Outward) {link : Edge} {head : Node}
    (leads : catalog.Leads link head) :
    link.columns ≠ [] ∧ (link.columns.map (·.headLeaf)).Nodup := by
  have inside := Catalog.mem_of_node? leads.node
  obtain ⟨leaves, identified, columns⟩ := leads.columns
  have names : head.identifierComponents.map (·.name) = link.columns.map (·.headLeaf) := by
    rw [identified, columns, List.map_map]
    rfl
  constructor
  · rintro none_
    rw [none_, List.map_nil, List.map_eq_nil_iff] at names
    exact outward.identified head inside names
  · rw [← names]
    exact outward.once head inside

theorem Component.innerPaths_ne_nil (wellFormed : catalog.WellFormed) (outward : catalog.Outward)
    (found : catalog.node? name = some node) {component : Component}
    (inside : component ∈ node.identifierComponents) : component.innerPaths ≠ [] := by
  cases component with
  | leaf => exact List.cons_ne_nil _ _
  | edge link =>
    obtain ⟨head, leads⟩ := wellFormed.heads found link (Node.mem_of_identifier inside)
    rw [innerPaths, ne_eq, List.map_eq_nil_iff]
    exact (leads.columns_spec outward).1

theorem Node.identifierPaths_spec (wellFormed : catalog.WellFormed) (outward : catalog.Outward)
    (found : catalog.node? name = some node) :
    node.identifierPaths ≠ [] ∧ ∀ path ∈ node.identifierPaths, path ≠ [] := by
  constructor
  · obtain ⟨component, rest, listed⟩ :=
      List.exists_cons_of_ne_nil (outward.identified node (Catalog.mem_of_node? found))
    have inside : component ∈ node.identifierComponents := listed ▸ List.mem_cons_self ..
    intro none_
    rw [identifierPaths, List.flatMap_eq_nil_iff] at none_
    have empty := none_ component inside
    rw [component.paths_eq, List.map_eq_nil_iff] at empty
    exact Component.innerPaths_ne_nil wellFormed outward found inside empty
  · intro path inside
    obtain ⟨component, -, member⟩ := List.mem_flatMap.mp inside
    rw [component.paths_eq] at member
    obtain ⟨inner, -, rfl⟩ := List.mem_map.mp member
    exact List.cons_ne_nil _ _

theorem behind_identifier (outward : catalog.Outward) (found : catalog.node? name = some node)
    (same : cells.Perm (cellsOf id node.identifierPaths)) {component : Component}
    (inside : component ∈ node.identifierComponents) :
    (behind component.name cells).Perm
      (component.innerPaths.map fun path => (path, id.under (component.name :: path))) := by
  have grouped : node.identifierPaths =
      node.identifierComponents.flatMap fun component =>
        component.innerPaths.map (component.name :: ·) :=
    List.flatMap_congr fun component _ => component.paths_eq
  have apart := outward.once node (Catalog.mem_of_node? found)
  have group : below component.name node.identifierPaths = component.innerPaths := by
    rw [grouped]
    exact below_flatMap apart inside
  rw [← group, ← behind_cellsOf]
  exact behind_perm same

theorem get?_leaf_of_identifier (outward : catalog.Outward)
    (found : catalog.node? name = some node) (names : catalog.Names node id)
    (same : cells.Perm (cellsOf id node.identifierPaths)) {field : Leaf}
    (inside : .leaf field ∈ node.identifierComponents) :
    ∃ value, (fill [] cells).get? field.name = some value ∧
      id.get? field.name = some value ∧ field.Canonical value := by
  obtain ⟨value, known, canonical⟩ := names _ inside
  refine ⟨value, ?_, known, canonical⟩
  have single := behind_identifier outward found same inside
  rw [Component.innerPaths, List.map_singleton, Component.name, under, known] at single
  exact get?_of_single single

theorem Leaf.Canonical.holdsNothing_eq {field : Leaf} {value : Value}
    (canonical : field.Canonical value) (required : field.nullable = false) :
    Row.holdsNothing value = false := by
  have scalar := canonical.atom?_isSome
  have set := canonical.atom?_ne_null required
  cases value <;> simp_all [Row.holdsNothing, Value.atom?]

/-- An identifier whose cells were filled in holds something. -/
theorem holdsNothingAt_identifier (wellFormed : catalog.WellFormed)
    (outward : catalog.Outward) (found : catalog.node? name = some node)
    (names : catalog.Names node id) (same : cells.Perm (cellsOf id node.identifierPaths)) :
    Row.holdsNothingAt (fill [] cells) = false := by
  obtain ⟨component, rest, listed⟩ :=
    List.exists_cons_of_ne_nil (outward.identified node (Catalog.mem_of_node? found))
  have inside : component ∈ node.identifierComponents := listed ▸ List.mem_cons_self ..
  rw [← Bool.not_eq_true]
  intro nothing
  cases component with
  | leaf field =>
    obtain ⟨value, filled, -, canonical⟩ := get?_leaf_of_identifier outward found names same inside
    have empty := Row.holdsNothing_of_get? nothing filled
    rw [canonical.holdsNothing_eq (wellFormed.required found _ inside)] at empty
    cases empty
  | edge link =>
    obtain ⟨head, leads⟩ := wellFormed.heads found link (Node.mem_of_identifier inside)
    obtain ⟨some_, apart⟩ := leads.columns_spec outward
    obtain ⟨column, others, listed'⟩ := List.exists_cons_of_ne_nil some_
    have member : column ∈ link.columns := listed' ▸ List.mem_cons_self ..
    obtain ⟨field, part, named⟩ := leads.leaf_of_column member
    obtain ⟨reference, known, identifies⟩ :=
      reference_of_required (wellFormed.required found _ inside) (names _ inside)
    obtain ⟨value, stored, canonical⟩ := identifies head leads.node field part
    have behind_ := behind_identifier outward found same inside
    have known : id.get? (Component.edge link).name = some (.record reference) := known
    have below : (behind (Component.edge link).name cells).Perm
        (cellsOf reference (link.columns.map fun column => [column.headLeaf])) := by
      refine behind_.trans (List.Perm.of_eq (List.map_congr_left fun path member => ?_))
      obtain ⟨other, -, rfl⟩ := List.mem_map.mp member
      rw [under_of_child known (List.cons_ne_nil _ _)]
    have filled := get?_of_deep below (by simpa [cellsOf] using some_) (by simp [cellsOf])
    have nothing' := Row.holdsNothing_of_get? nothing filled
    have empty := Row.holdsNothing_of_get? nothing' (get?_of_singles below apart member)
    rw [under, ← named, stored, Option.getD_some,
      canonical.holdsNothing_eq (wellFormed.required leads.node _ part)] at empty
    cases empty

end Identifiers

namespace SelectionField

open Paths Record

variable {catalog : Catalog} {node : Node} {name : String} {fields : List SelectionField}
  {tree : Record} {cells : List PathCell}

/-- The paths behind the key of a field. -/
def innerPaths (catalog : Catalog) : SelectionField → List (List String)
  | .leaf _ _ | .count _ _ _ => [[]]
  | .edge _ link head => recordPaths catalog link.head head
  | .unique _ relation head => recordPaths catalog relation.head head
  | .multiple _ _ _ _ => []

theorem fieldPaths_eq (fields : List SelectionField) : fieldPaths catalog fields =
    fields.flatMap fun field => (field.innerPaths catalog).map (field.key :: ·) := by
  induction fields with
  | nil => rfl
  | cons field rest ih =>
    rw [fieldPaths, List.flatMap_cons, ih]
    cases field <;> simp [ownPaths, headPaths, innerPaths, recordPaths, key]

theorem recordPaths_eq (found : catalog.node? name = some node) : recordPaths catalog name fields =
    node.identifierPaths.map (Sql.identifierKey :: ·) ++
      fields.flatMap fun field => (field.innerPaths catalog).map (field.key :: ·) := by
  rw [recordPaths, fieldPaths_eq, Catalog.identifierPaths, found]

theorem below_field (found : catalog.node? name = some node)
    (readable : ReadableAll catalog node fields) {field : SelectionField}
    (inside : field ∈ fields) :
    below field.key (recordPaths catalog name fields) = field.innerPaths catalog := by
  have outward := (readable.each field inside).plain.ne_internal.1
  have apart : (fields.map key).Nodup := (fault?_eq_none_iff.mp readable.whole).2.1
  rw [recordPaths_eq found, below_append, below_map_of_ne outward.symm, List.nil_append]
  exact below_flatMap apart inside

theorem below_identifier (found : catalog.node? name = some node)
    (readable : ReadableAll catalog node fields) :
    below Sql.identifierKey (recordPaths catalog name fields) = node.identifierPaths := by
  have plain : ∀ field ∈ fields, field.key ≠ Sql.identifierKey := fun field inside =>
    (readable.each field inside).plain.ne_internal.1
  rw [recordPaths_eq found, below_append, below_map_self, below_flatMap_of_ne plain,
    List.append_nil]

theorem below_parent (found : catalog.node? name = some node)
    (readable : ReadableAll catalog node fields) :
    below Sql.parentKey (recordPaths catalog name fields) = [] := by
  have plain : ∀ field ∈ fields, field.key ≠ Sql.parentKey := fun field inside =>
    (readable.each field inside).plain.ne_internal.2
  rw [recordPaths_eq found, below_append, below_map_of_ne (by decide), below_flatMap_of_ne plain]
  rfl

theorem recordPaths_spec (wellFormed : catalog.WellFormed) (outward : catalog.Outward)
    (found : catalog.node? name = some node) :
    recordPaths catalog name fields ≠ [] ∧ ∀ path ∈ recordPaths catalog name fields, path ≠ [] := by
  rw [recordPaths_eq found]
  constructor
  · have some_ := (Node.identifierPaths_spec wellFormed outward found).1
    simp [some_]
  · intro path inside
    rcases List.mem_append.mp inside with identifying | selected
    · obtain ⟨inner, -, rfl⟩ := List.mem_map.mp identifying
      exact List.cons_ne_nil _ _
    · obtain ⟨field, -, member⟩ := List.mem_flatMap.mp selected
      obtain ⟨inner, -, rfl⟩ := List.mem_map.mp member
      exact List.cons_ne_nil _ _

/-- The cells hold what a tree has under the paths of a record, but for the identifier of a
parent. -/
def Flattened (catalog : Catalog) (name : String) (fields : List SelectionField) (tree : Record)
    (cells : List PathCell) : Prop :=
  ∀ key, key ≠ Sql.parentKey →
    (behind key cells).Perm (behind key (cellsOf tree (recordPaths catalog name fields)))

/-- What is assembled from the cells of a tree. -/
structure Assembled (catalog : Catalog) (name : String) (fields : List SelectionField)
    (tree : Record) (cells : List PathCell) : Prop where
  copied : CopiedAll catalog false fields (Row.ofCells cells) tree
  carries : catalog.Carries name (Row.ofCells cells) tree
  kept : Row.isMissing (Row.ofCells cells) = false

/-- The cells behind the key of a field make up what the tree has there. -/
def Assembles (catalog : Catalog) (field : SelectionField) : Prop :=
  ∀ {node : Node} {tree : Record} {cells : List PathCell}, Readable catalog node field →
    Shapes catalog field tree →
    (behind field.key cells).Perm
      ((field.innerPaths catalog).map fun path => (path, tree.under (field.key :: path))) →
    Copied catalog false field (Row.ofCells cells) tree

section Assembling

variable (wellFormed : catalog.WellFormed) (outward : catalog.Outward)

include wellFormed outward

theorem assembled_of (found : catalog.node? name = some node)
    (readable : ReadableAll catalog node fields)
    (each : ∀ field ∈ fields, Assembles catalog field) (identified : catalog.Identified name tree)
    (shaped : ShapesAll catalog fields tree) (flat : Flattened catalog name fields tree cells) :
    Assembled catalog name fields tree cells := by
  obtain ⟨node', id, found', carried, names⟩ := identified
  obtain rfl : node = node' := Option.some.inj (found.symm.trans found')
  have known : tree.get? Sql.identifierKey = some (.record id) := by
    unfold carried? at carried
    split at carried
    · rename_i stored
      cases carried
      exact stored
    · cases carried
  have deep := Node.identifierPaths_spec wellFormed outward found
  have identifying : (behind Sql.identifierKey cells).Perm (cellsOf id node.identifierPaths) := by
    have same := flat Sql.identifierKey (by decide)
    rwa [behind_cellsOf_child known (by rw [below_identifier found readable]; exact deep.2),
      below_identifier found readable] at same
  have filled := get?_of_deep identifying (by simpa [cellsOf] using deep.1)
    (by simpa [cellsOf] using deep.2)
  have carried' : (Row.ofCells cells).carried? Sql.identifierKey =
      some (fill [] (behind Sql.identifierKey cells)) := by
    rw [carried?, Row.get?_ofCells_internal cells (Or.inl rfl), filled]
  refine ⟨copiedAll_iff.mpr fun field inside => ?_, ⟨id, _, carried, carried', ?_⟩, ?_⟩
  · have readable' := readable.each field inside
    refine each field inside readable' (shapesAll_iff.mp shaped field inside) ?_
    have same := flat field.key readable'.plain.ne_internal.2
    rwa [behind_cellsOf, below_field found readable inside] at same
  · intro node' found' field inside
    obtain rfl : node = node' := Option.some.inj (found.symm.trans found')
    obtain ⟨value, stored, stored', -⟩ :=
      get?_leaf_of_identifier outward found names identifying inside
    rw [stored, stored']
  · rw [Row.isMissing, carried']
    exact holdsNothingAt_identifier wellFormed outward found names identifying

theorem isMissing_of_nulls (found : catalog.node? name = some node)
    (readable : ReadableAll catalog node fields)
    (same : cells.Perm (cellsOf [] (recordPaths catalog name fields))) :
    Row.isMissing (Row.ofCells cells) = true := by
  have nulls : ∀ cell ∈ cells, cell.2 = .null := by
    intro cell inside
    obtain ⟨path, -, rfl⟩ := List.mem_map.mp (same.mem_iff.mp inside)
    exact under_nil
  have deep := Node.identifierPaths_spec wellFormed outward found
  have identifying := @behind_perm Sql.identifierKey _ _ same
  rw [behind_cellsOf, below_identifier found readable] at identifying
  have filled := get?_of_deep identifying (by simpa using deep.1) (by simpa using deep.2)
  have nothing : Row.holdsNothingAt (fill [] cells) = true := Row.holdsNothingAt_fill rfl nulls
  rw [Row.isMissing, carried?, Row.get?_ofCells_internal cells (Or.inl rfl), filled]
  exact Row.holdsNothing_of_get? nothing filled

/-- A relation to one head becomes null where the tree has null, and a record otherwise. -/
theorem assembled_head (found : catalog.node? name = some node)
    (readable : ReadableAll catalog node fields)
    (each : ∀ field ∈ fields, Assembles catalog field) {key : String} (plain : IsPlainKey key)
    (shaped : tree.get? key = some .null ∨ ∃ child, tree.get? key = some (.record child) ∧
      catalog.Identified name child ∧ ShapesAll catalog fields child)
    (same : (behind key cells).Perm
      ((recordPaths catalog name fields).map fun path => (path, tree.under (key :: path)))) :
    ((Row.ofCells cells).get? key = some .null ∧ tree.get? key = some .null) ∨
      ∃ twin child, (Row.ofCells cells).get? key = some (.record twin) ∧
        tree.get? key = some (.record child) ∧ catalog.Carries name twin child ∧
        CopiedAll catalog false fields twin child := by
  have paths : recordPaths catalog name fields ≠ [] ∧
      ∀ path ∈ recordPaths catalog name fields, path ≠ [] :=
    recordPaths_spec wellFormed outward found
  have filled := get?_of_deep same (by simpa using paths.1) (by simpa using paths.2)
  have collapsed : (Row.ofCells cells).get? key =
      some (if Row.isMissing (Row.ofCells (behind key cells)) then .null
        else .record (Row.ofCells (behind key cells))) := by
    rw [Row.get?_ofCells cells plain.ne_internal.1 plain.ne_internal.2, filled, Option.map_some,
      Row.collapseValue]
    rfl
  rcases shaped with null | ⟨child, known, identified, shaped⟩
  · left
    have nulls : (behind key cells).Perm (cellsOf [] (recordPaths catalog name fields)) := by
      refine same.trans (List.Perm.of_eq (List.map_congr_left fun path inside => ?_))
      rw [under_of_null null, under_nil]
    rw [isMissing_of_nulls wellFormed outward found readable nulls] at collapsed
    exact ⟨collapsed, null⟩
  · right
    have inner : (behind key cells).Perm (cellsOf child (recordPaths catalog name fields)) := by
      refine same.trans (List.Perm.of_eq (List.map_congr_left fun path inside => ?_))
      rw [under_of_child known (paths.2 path inside)]
    have assembled := assembled_of wellFormed outward found readable each identified shaped
      fun key _ => behind_perm inner
    rw [assembled.kept] at collapsed
    exact ⟨_, child, collapsed, known, assembled.carries, assembled.copied⟩

theorem assembles (field : SelectionField) : Assembles catalog field := by
  induction field using induction_head with
  | step field ih =>
    intro node tree cells readable shaped same
    cases readable with
    | leaf plain | count plain =>
      obtain ⟨value, known, scalar⟩ := shaped
      have filled := get?_of_single same
      have kept : Row.collapseValue value = value := by
        cases value <;> first | rfl | cases scalar
      rw [key, under, known, Option.getD_some] at filled
      show (Row.ofCells cells).get? _ = tree.get? _
      rw [Row.get?_ofCells cells plain.ne_internal.1 plain.ne_internal.2, filled, known,
        Option.map_some, kept]
    | edge plain found whole heads =>
      exact assembled_head wellFormed outward found ⟨whole, heads⟩ ih plain shaped same
    | unique plain found whole heads =>
      exact assembled_head wellFormed outward found ⟨whole, heads⟩ ih plain shaped same
    | multiple =>
      intro impossible
      cases impossible

theorem assembled (found : catalog.node? name = some node)
    (readable : ReadableAll catalog node fields) (identified : catalog.Identified name tree)
    (shaped : ShapesAll catalog fields tree) (flat : Flattened catalog name fields tree cells) :
    Assembled catalog name fields tree cells :=
  assembled_of wellFormed outward found readable
    (fun field _ => assembles wellFormed outward field) identified shaped flat

end Assembling

end SelectionField

end LiveQuery
