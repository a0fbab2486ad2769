import LiveQuery.Proofs.Sql.Truth
import LiveQuery.Proofs.Store.Basic

set_option autoImplicit false

namespace LiveQuery

open Sql

/-- What a row holds in the columns of a component. -/
def Component.StoredAs (component : Component) (record : Record) (row : Row) : Prop :=
  match component with
  | .leaf field => record.atom? field.name = some (row field.column)
  | .edge link =>
    match link.target record with
    | some target => (link.columns.map fun column => row column.column) = target
    | none => ∃ column ∈ link.columns, row column.column = .null

def Node.StoredAs (node : Node) (record : Record) (row : Row) : Prop :=
  ∀ component ∈ node.components, component.StoredAs record row

/-- The table of each node holds the rows of the node, in any order. -/
structure Sql.Database.Stores (catalog : Catalog) (database : Database) (store : Store) : Prop where
  tables : ∀ {name node}, catalog.node? name = some node →
    ∃ rows, rows.Perm (database node.table) ∧ List.Forall₂ node.StoredAs (store name) rows

/-- Every edge has a foreign key of at least one column. -/
def Catalog.Keyed (catalog : Catalog) : Prop :=
  ∀ {name node}, catalog.node? name = some node → ∀ link, .edge link ∈ node.components →
    link.columns ≠ []

theorem Node.mem_of_leaf {node : Node} {name : String} {field : Leaf}
    (known : node.leaf name = .ok field) : field.name = name ∧ .leaf field ∈ node.components := by
  unfold Node.leaf at known
  split at known
  · rename_i found
    cases known
    exact ⟨name_of_component? found, mem_of_component? found⟩
  · cases known

section Rows

variable {catalog : Catalog} {store : Store} {database : Database} {name : String} {node : Node}

/-- A test of records and a test of their rows select the same. -/
theorem Sql.Database.Stores.filter (stores : database.Stores catalog store)
    (found : catalog.node? name = some node) (test : Record → Bool) (rowTest : Row → Bool)
    (same : ∀ record ∈ store name, ∀ row, node.StoredAs record row → rowTest row = test record) :
    ∃ rows, rows.Perm ((database node.table).filter rowTest) ∧
      List.Forall₂ node.StoredAs ((store name).filter test) rows := by
  obtain ⟨rows, permuted, paired⟩ := stores.tables found
  refine ⟨rows.filter rowTest, permuted.filter rowTest, ?_⟩
  refine (Lists.forall₂_filter (Lists.forall₂_mem paired) ?_).imp fun _ _ both => both.1
  intro record row related
  exact (same record related.2.1 row related.1).symm

/-- A reference to a head has no null in it. -/
theorem Catalog.Leads.not_null_of_identifies {link : Edge} {head : Node}
    (wellFormed : catalog.WellFormed) (leads : catalog.Leads link head) {reference : Record}
    (identifies : catalog.Identifies link reference) {target : List Atom}
    (known : link.columnsOf reference = some target) : .null ∉ target := by
  obtain ⟨leaves, identified, columns⟩ := leads.columnsOf_eq reference
  have part : ∀ field ∈ leaves, reference.atom? field.name ≠ some .null := by
    intro field inside null
    have component : .leaf field ∈ head.identifierComponents := by
      rw [identified]
      exact List.mem_map_of_mem inside
    have required : field.nullable = false := wellFormed.required leads.node _ component
    obtain ⟨value, present, canonical⟩ := identifies head leads.node field component
    rw [Record.atom?, present, Option.bind_some] at null
    exact canonical.atom?_ne_null required null
  rw [columns] at known
  clear columns identified
  induction leaves generalizing target with
  | nil =>
    cases known
    exact List.not_mem_nil
  | cons field rest ih =>
    rw [List.forall_mem_cons] at part
    rw [List.mapM_cons] at known
    obtain ⟨atom, first, known⟩ := Option.bind_eq_some_iff.mp known
    obtain ⟨atoms, behind, known⟩ := Option.bind_eq_some_iff.mp known
    cases known
    rw [List.mem_cons, not_or]
    exact ⟨fun null => part.1 (null ▸ first), ih behind part.2⟩

theorem Store.Consistent.target_not_null (wellFormed : catalog.WellFormed)
    (consistent : store.Consistent catalog) (found : catalog.node? name = some node)
    {row : Record} (inside : row ∈ store name) {link : Edge} (part : .edge link ∈ node.components)
    {target : List Atom} (leads : link.target row = some target) : .null ∉ target := by
  obtain ⟨head, head_leads⟩ := wellFormed.heads found link part
  rcases consistent.complete found row inside (.edge link) part with
    ⟨-, null⟩ | ⟨reference, known, identifies⟩
  · simp only [Edge.target, null, reduceCtorEq] at leads
  · simp only [Edge.target, known] at leads
    exact head_leads.not_null_of_identifies wellFormed identifies leads

theorem Store.Consistent.filter_refers (consistent : store.Consistent catalog) {link : Edge}
    {head : Node} (leads : catalog.Leads link head) {row other : Record}
    (inside : other ∈ store link.head) (refers : link.refers row other = true) :
    (store link.head).filter (link.refers row) = [other] := by
  refine List.perm_singleton.mp ((List.perm_ext_iff_of_nodup ?_ (List.nodup_singleton _)).mpr ?_)
  · exact ((consistent.apart leads.node).of_map _).filter _
  · intro found
    rw [List.mem_filter, List.mem_singleton]
    constructor
    · rintro ⟨member, refers'⟩
      exact consistent.eq_of_refers leads member inside refers' refers
    · rintro rfl
      exact ⟨inside, refers⟩

end Rows

namespace Sql

/-- The columns of a foreign key paired with the columns of the head that they repeat. -/
def Pairs (link : Edge) (holder target : Table) (pairs : List Match) : Prop :=
  List.Forall₂ (fun (foreignKey : ForeignKeyColumn) (pair : Match) =>
    pair.left.table.text = holder.label ∧ pair.left.name.text = foreignKey.column ∧
      pair.right.table.text = target.label ∧
      ∃ field : Leaf, target.node.leaf foreignKey.headLeaf = .ok field ∧
        pair.right.name.text = field.column) link.columns pairs

theorem Name.ofText_eq_ok {limit : Nat} {text : String} {name : Name limit}
    (made : Name.ofText limit text = .ok name) : name.text = text := by
  unfold Name.ofText at made
  split at made
  · cases made
    rfl
  · cases made

theorem Table.column_eq_ok {table : Table} {name : String} {column : Column}
    (made : table.column name = .ok column) :
    column.table.text = table.label ∧ column.name.text = name := by
  obtain ⟨label, labelled, made⟩ := Outcome.bind_eq_ok.mp made
  obtain ⟨identifier, named, made⟩ := Outcome.bind_eq_ok.mp made
  cases made
  exact ⟨Name.ofText_eq_ok labelled, Name.ofText_eq_ok named⟩

theorem liftCatalog_eq_ok {α : Type} {attempt : Except CatalogError α} {value : α} :
    (liftM attempt : Except Error α) = .ok value ↔ attempt = .ok value := by
  cases attempt with
  | error => exact ⟨nofun, nofun⟩
  | ok found =>
    constructor <;> rintro ⟨⟩ <;> rfl

theorem pairs_of_correlate {link : Edge} {holder target : Table} {pairs : List Match}
    (made : Table.correlate link holder target = .ok pairs) : Pairs link holder target pairs := by
  refine (Outcome.mapM_eq_ok_iff.mp made).imp fun foreignKey pair made => ?_
  obtain ⟨field, known, made⟩ := Outcome.bind_eq_ok.mp made
  obtain ⟨left, written, made⟩ := Outcome.bind_eq_ok.mp made
  obtain ⟨right, written', made⟩ := Outcome.bind_eq_ok.mp made
  cases made
  exact ⟨(Table.column_eq_ok written).1, (Table.column_eq_ok written).2,
    (Table.column_eq_ok written').1, field, liftCatalog_eq_ok.mp known,
    (Table.column_eq_ok written').2⟩

theorem Match.truth_eq_true_iff {scope : Scope} {pair : Match} :
    pair.truth scope = some true ↔
      scope.value pair.left = scope.value pair.right ∧ scope.value pair.left ≠ .null := by
  rw [← Atom.compare?_eq_some_eq_iff, Match.truth, Operator.truth, Option.map_eq_some_iff]
  constructor
  · rintro ⟨order, compared, holds⟩
    rw [compared]
    cases order <;> first | rfl | cases holds
  · exact fun compared => ⟨.eq, compared, rfl⟩

section Matching

variable {link : Edge} {holder target : Table} {pairs : List Match} {inner : Scope}

theorem Pairs.select_eq_false (matched : Pairs link holder target pairs)
    (null : ∃ column ∈ link.columns, inner holder.label column.column = .null) :
    Truth.select (pairs.map (Match.truth inner)) = false := by
  obtain ⟨column, inside, null⟩ := null
  obtain ⟨pair, member, table, name, -⟩ := Lists.exists_right_of_forall₂ matched inside
  rw [Bool.eq_false_iff, ne_eq, Truth.select_eq_true_iff]
  intro each
  have equal := Match.truth_eq_true_iff.mp (each _ (List.mem_map_of_mem member))
  rw [Scope.value, table, name] at equal
  exact equal.2 null

/-- The server matches the rows of a reference and of its head. -/
theorem Pairs.select_eq (matched : Pairs link holder target pairs) {owner : Node}
    (part : .edge link ∈ owner.components) {record head : Record}
    (stored : owner.StoredAs record (inner holder.label))
    (stored' : target.node.StoredAs head (inner target.label))
    (set : ∀ atoms, link.target record = some atoms → .null ∉ atoms) :
    Truth.select (pairs.map (Match.truth inner)) = link.refers record head := by
  have columns : link.columnsOf head = some (pairs.map fun pair => inner.value pair.right) := by
    unfold Edge.columnsOf
    unfold Pairs at matched
    generalize link.columns = foreignKeys at matched
    clear set stored part
    induction matched with
    | nil => rfl
    | cons related _ ih =>
      obtain ⟨-, -, table, field, known, column⟩ := related
      obtain ⟨name, inside⟩ := Node.mem_of_leaf known
      have atom : head.atom? field.name = some (inner target.label field.column) :=
        stored' _ inside
      rw [List.mapM_cons, ih, ← name, atom, ← table, ← column]
      rfl
  have keys : (link.columns.map fun column => inner holder.label column.column) =
      pairs.map fun pair => inner.value pair.left := by
    unfold Pairs at matched
    generalize link.columns = foreignKeys at matched
    clear set columns part
    induction matched with
    | nil => rfl
    | cons related _ ih =>
      obtain ⟨table, column, -⟩ := related
      rw [List.map_cons, List.map_cons, ih, Scope.value, table, column]
  have held := stored _ part
  simp only [Component.StoredAs] at held
  cases leads : link.target record with
  | none =>
    rw [leads] at held
    rw [matched.select_eq_false held, Edge.refers, leads]
  | some atoms =>
    rw [leads, keys] at held
    have solid := set atoms leads
    rw [Edge.refers, leads, columns, ← held]
    rw [← held] at solid
    simp only [Option.some.injEq]
    rw [Bool.eq_iff_iff, Truth.select_eq_true_iff, decide_eq_true_iff, List.map_inj_left,
      List.forall_mem_map]
    constructor
    · exact fun each pair member => (Match.truth_eq_true_iff.mp (each pair member)).1.symm
    · intro each pair member
      refine Match.truth_eq_true_iff.mpr ⟨(each pair member).symm, fun null => ?_⟩
      exact solid (null ▸ List.mem_map_of_mem member)

end Matching

end Sql

end LiveQuery
