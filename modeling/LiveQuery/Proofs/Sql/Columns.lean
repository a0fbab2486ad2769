import LiveQuery.Proofs.Selection.Readable
import LiveQuery.Proofs.Sql.Faithful

set_option autoImplicit false

namespace LiveQuery

/-- The paths under which an identifier has what a component of it stores. -/
def Component.paths : Component → List (List String)
  | .leaf field => [[field.name]]
  | .edge link => link.columns.map fun column => [link.name, column.headLeaf]

def Node.identifierPaths (node : Node) : List (List String) :=
  node.identifierComponents.flatMap (·.paths)

/-- The paths under which a record of a node carries its identifier. -/
def Catalog.identifierPaths (catalog : Catalog) (name : String) : List (List String) :=
  match catalog.node? name with
  | some node => node.identifierPaths.map (Sql.identifierKey :: ·)
  | none => []

namespace SelectionField

/-- The path of what a field takes from the record itself. -/
def ownPaths : SelectionField → List (List String)
  | .leaf key _ | .count key _ _ => [[key]]
  | _ => []

mutual

/-- The paths of what a field takes from the record behind a relation to one head. -/
def headPaths (catalog : Catalog) : SelectionField → List (List String)
  | .edge key link head =>
    (catalog.identifierPaths link.head ++ fieldPaths catalog head).map (key :: ·)
  | .unique key relation head =>
    (catalog.identifierPaths relation.head ++ fieldPaths catalog head).map (key :: ·)
  | .leaf _ _ | .count _ _ _ | .multiple _ _ _ _ => []

/-- The paths of what fields take from a record and from those behind it. -/
def fieldPaths (catalog : Catalog) : List SelectionField → List (List String)
  | [] => []
  | field :: rest => ownPaths field ++ headPaths catalog field ++ fieldPaths catalog rest

end

/-- The paths of all that is read of a record of a node. -/
def recordPaths (catalog : Catalog) (node : String) (fields : List SelectionField) :
    List (List String) :=
  catalog.identifierPaths node ++ fieldPaths catalog fields

end SelectionField

namespace Sql

/-- The columns have the dotted paths below a path as their labels, in any order. -/
def Labelled (path : List String) (columns : List Selected) (paths : List (List String)) : Prop :=
  (columns.map (·.label.text)).Perm (paths.map fun inner => ".".intercalate (path ++ inner))

namespace Labelled

variable {path : List String} {columns others : List Selected} {paths rest : List (List String)}

theorem nil : Labelled path [] [] := List.Perm.nil

theorem append (first : Labelled path columns paths) (second : Labelled path others rest) :
    Labelled path (columns ++ others) (paths ++ rest) := by
  rw [Labelled, List.map_append, List.map_append]
  exact List.Perm.append first second

theorem of_key {key : String} (below : Labelled (path ++ [key]) columns paths) :
    Labelled path columns (paths.map (key :: ·)) := by
  rw [Labelled, List.map_map]
  refine below.trans (List.Perm.of_eq (List.map_congr_left fun inner _ => ?_))
  rw [Function.comp_apply, List.append_assoc, List.singleton_append]

end Labelled

section Own

variable {path : List String} {table after : Table} {catalog : Catalog}

theorem Alias.text_of_ofText {text : String} {label : Alias} (made : Alias.ofText text = .ok label) :
    label.text = text := by
  unfold Alias.ofText Name.ofText at made
  split at made <;> cases made
  rfl

theorem label_of_selectColumn {column : String} {selected : Selected}
    (made : selectColumn table column path = .ok selected) :
    selected.label.text = ".".intercalate path := by
  obtain ⟨_, -, made⟩ := Outcome.bind_eq_ok.mp made
  obtain ⟨label, named, made⟩ := Outcome.bind_eq_ok.mp made
  cases made
  exact Alias.text_of_ofText named

theorem labels_of_mapM {α : Type} {items : List α} {step : α → Except Error Selected}
    {label : α → String} {columns : List Selected}
    (each : ∀ item selected, step item = .ok selected → selected.label.text = label item)
    (made : items.mapM step = .ok columns) :
    columns.map (·.label.text) = items.map label := by
  have paired := Outcome.mapM_eq_ok_iff.mp made
  rw [← List.forall₂_eq_eq_eq, List.forall₂_map_left_iff, List.forall₂_map_right_iff]
  exact paired.flip.imp fun selected item => each item selected

theorem labelled_of_selectIdentifier {columns : List Selected}
    (made : selectIdentifier table path = .ok columns) :
    Labelled path columns (table.node.identifierPaths.map (identifierKey :: ·)) := by
  obtain ⟨listed, mapped, made⟩ := Outcome.bind_eq_ok.mp made
  cases made
  unfold Node.identifierPaths
  have paired := Outcome.mapM_eq_ok_iff.mp mapped
  clear mapped made
  generalize table.node.identifierComponents = components at paired
  induction paired with
  | nil => exact .nil
  | @cons component part components parts made _ ih =>
    rw [List.flatten_cons, List.flatMap_cons, List.map_append]
    refine .append ?_ ih
    cases component with
    | leaf field =>
      obtain ⟨selected, single, made⟩ := Outcome.bind_eq_ok.mp made
      cases made
      rw [Labelled, List.map_singleton, label_of_selectColumn single]
      exact List.Perm.refl _
    | edge link =>
      refine List.Perm.of_eq ?_
      rw [Component.paths, List.map_map, List.map_map]
      exact labels_of_mapM (fun _ _ => label_of_selectColumn) made

theorem labelled_of_selectOwn {field : SelectionField} {columns : List Selected}
    (made : selectOwn catalog path field table = .ok columns after) :
    after = table ∧ Labelled path columns field.ownPaths := by
  cases field with
  | leaf key field =>
    obtain ⟨_, _, got, built⟩ := Building.bind_eq_ok.mp made
    cases got
    obtain ⟨selected, _, lifted, finished⟩ := Building.bind_eq_ok.mp built
    obtain ⟨single, rfl⟩ := Building.lift_eq_ok.mp lifted
    cases finished
    refine ⟨rfl, ?_⟩
    rw [Labelled, List.map_singleton, label_of_selectColumn single]
    exact List.Perm.refl _
  | count key relation filter =>
    obtain ⟨_, _, counted, built⟩ := Building.bind_eq_ok.mp made
    obtain ⟨rfl, -⟩ := children_eq_ok counted
    obtain ⟨label, _, lifted, finished⟩ := Building.bind_eq_ok.mp built
    obtain ⟨named, rfl⟩ := Building.lift_eq_ok.mp lifted
    cases finished
    refine ⟨rfl, ?_⟩
    rw [Labelled, List.map_singleton, Alias.text_of_ofText named]
    exact List.Perm.refl _
  | edge | unique | multiple =>
    cases made
    exact ⟨rfl, .nil⟩

theorem labelled_of_selectOwns {fields : List SelectionField} {columns : List (List Selected)}
    (made : fields.mapM (selectOwn catalog path) table = .ok columns after) :
    after = table ∧ Labelled path columns.flatten (fields.flatMap (·.ownPaths)) := by
  induction fields generalizing columns with
  | nil =>
    cases made
    exact ⟨rfl, .nil⟩
  | cons field rest ih =>
    rw [List.mapM_cons] at made
    obtain ⟨first, between, single, built⟩ := Building.bind_eq_ok.mp made
    obtain ⟨same, labelled⟩ := labelled_of_selectOwn single
    rw [same] at built
    obtain ⟨others, between', behind, finished⟩ := Building.bind_eq_ok.mp built
    cases finished
    obtain ⟨same', labelled'⟩ := ih behind
    exact ⟨same', labelled.append labelled'⟩

end Own

/-- The node that a relation joins. -/
def JoinRelation.headName : JoinRelation → String
  | .edge link => link.head
  | .reverse relation => relation.head

/-- A table whose nodes are those that the relations lead to. -/
inductive Linked (catalog : Catalog) : Table → Prop
  | make {label name : String} {node : Node} {joins : List Join}
      (found : catalog.node? node.name = some node)
      (named : ∀ relation key joined, .make relation key joined ∈ joins →
        joined.node.name = relation.headName)
      (below : ∀ relation key joined, .make relation key joined ∈ joins → Linked catalog joined) :
      Linked catalog (.make label name node joins)

namespace Linked

variable {catalog : Catalog} {table : Table} {relation : JoinRelation} {key : Option String}

theorem found (linked : Linked catalog table) :
    catalog.node? table.node.name = some table.node := by
  cases linked
  assumption

theorem alone {node : Node} (known : catalog.node? node.name = some node) (label name : String) :
    Linked catalog (.make label name node []) :=
  .make known (by simp) (by simp)

theorem put (linked : Linked catalog table) {before behind : List Join} {joined' : Table}
    (joins : ∀ join ∈ before ++ behind, join ∈ table.joins)
    (named : joined'.node.name = relation.headName) (linked' : Linked catalog joined') :
    Linked catalog (table.withJoins (before ++ .make relation key joined' :: behind)) := by
  cases linked with
  | make found names below =>
    simp only [Table.joins, List.mem_append] at joins
    refine .make found (fun relation' key' other inside => ?_) fun relation' key' other inside => ?_
    · rcases List.mem_append.mp inside with first | later
      · exact names relation' key' other (joins _ (Or.inl first))
      · rcases List.mem_cons.mp later with same | last
        · cases same
          exact named
        · exact names relation' key' other (joins _ (Or.inr last))
    · rcases List.mem_append.mp inside with first | later
      · exact below relation' key' other (joins _ (Or.inl first))
      · rcases List.mem_cons.mp later with same | last
        · cases same
          exact linked'
        · exact below relation' key' other (joins _ (Or.inr last))

theorem node_withJoins (table : Table) (joins : List Join) :
    (table.withJoins joins).node = table.node := by
  cases table
  rfl

theorem node?_of_head {head : Node}
    (looked : (liftM (relation.head catalog) : Except Error Node) = .ok head) :
    catalog.node? relation.headName = some head := by
  have known : relation.head catalog = .ok head := by
    cases found : relation.head catalog with
    | error => rw [found] at looked; cases looked
    | ok => rw [found] at looked; cases looked; rfl
  cases relation with
  | edge link => exact SelectionField.node?_of_edgeHead known
  | reverse relation => exact SelectionField.node?_of_reverseEdgeHead known

/-- A visit runs on a table of the node that the relation leads to. -/
theorem visit (linked : Linked catalog table) {α : Type} {action : Building α} {value : α}
    {after : Table}
    (visited : Table.visit catalog relation key action table = .ok value after) :
    ∃ joined joined', Linked catalog joined ∧ joined.node.name = relation.headName ∧
      action joined = .ok value joined' ∧
      (Linked catalog joined' → joined'.node = joined.node →
        Linked catalog after ∧ after.node = table.node) := by
  cases went_of_visit visited with
  | @back before behind joined joined' joins ran =>
    have inside : Join.make relation key joined ∈ table.joins := by
      rw [joins]
      simp
    have known : joined.node.name = relation.headName ∧ Linked catalog joined := by
      cases linked with
      | make found names below => exact ⟨names _ _ _ inside, below _ _ _ inside⟩
    refine ⟨joined, joined', known.2, known.1, ran, fun linked' same => ⟨?_, node_withJoins _ _⟩⟩
    refine linked.put (fun join member => ?_) (same ▸ known.1) linked'
    rw [joins]
    rcases List.mem_append.mp member with first | last
    · exact List.mem_append_left _ first
    · exact List.mem_append_right _ (List.mem_cons_of_mem _ last)
  | @anew head joined' _ looked ran =>
    have known : catalog.node? relation.headName = some head := node?_of_head looked
    have named := Catalog.name_of_node? known
    refine ⟨_, joined', .alone (named ▸ known) _ _, named, ran, fun linked' same =>
      ⟨?_, node_withJoins _ _⟩⟩
    refine linked.put (fun join member => ?_) (same ▸ named) linked'
    rwa [List.append_nil] at member

end Linked

section Select

variable {catalog : Catalog} {settings : Settings} {path : List String}

/-- What selecting leaves of a table, and how it labels the columns. -/
structure Selects (catalog : Catalog) (path : List String) (paths : List (List String))
    (table after : Table) (columns : List Selected) : Prop where
  linked : Linked catalog after
  node : after.node = table.node
  labelled : Labelled path columns paths

theorem fieldPaths_perm (fields : List SelectionField) :
    (fields.flatMap (·.ownPaths) ++ fields.flatMap (·.headPaths catalog)).Perm
      (SelectionField.fieldPaths catalog fields) := by
  induction fields with
  | nil => exact List.Perm.nil
  | cons field rest ih =>
    rw [SelectionField.fieldPaths, List.flatMap_cons, List.flatMap_cons]
    have swapped := (List.perm_append_comm_assoc (rest.flatMap (·.ownPaths))
      (field.headPaths catalog) (rest.flatMap (·.headPaths catalog)))
    rw [List.append_assoc, List.append_assoc]
    exact (swapped.trans (ih.append_left _)).append_left _

/-- The columns of a record are those of its identifier, its own and those behind it. -/
theorem selects_with {fields : List SelectionField} {heads : Building (List Selected)}
    {table after : Table} {columns : List Selected} (linked : Linked catalog table)
    (below : ∀ {after columns}, heads table = .ok columns after →
      Selects catalog path (fields.flatMap (·.headPaths catalog)) table after columns)
    (made : selectWith catalog path fields heads table = .ok columns after) :
    Selects catalog path (SelectionField.recordPaths catalog table.node.name fields) table after
      columns := by
  obtain ⟨_, _, got, identifying⟩ := Building.bind_eq_ok.mp made
  cases got
  obtain ⟨identifier, _, lifted, owning⟩ := Building.bind_eq_ok.mp identifying
  obtain ⟨identified, rfl⟩ := Building.lift_eq_ok.mp lifted
  obtain ⟨own, between, owned, heading⟩ := Building.bind_eq_ok.mp owning
  obtain ⟨same, labelled⟩ := labelled_of_selectOwns owned
  rw [same] at heading
  obtain ⟨others, _, headed, finished⟩ := Building.bind_eq_ok.mp heading
  cases finished
  have behind := below headed
  refine ⟨behind.linked, behind.node, ?_⟩
  have first : Labelled path identifier (catalog.identifierPaths table.node.name) := by
    rw [Catalog.identifierPaths, linked.found]
    exact labelled_of_selectIdentifier identified
  have rest := labelled.append behind.labelled
  rw [List.append_assoc, SelectionField.recordPaths]
  exact first.append (rest.trans ((fieldPaths_perm fields).map _))

mutual

theorem selects_head : ∀ {field : SelectionField} {path : List String} {table after : Table}
    {columns : List Selected}, Linked catalog table →
      selectHead catalog settings path field table = .ok columns after →
      Selects catalog path (field.headPaths catalog) table after columns
  | .leaf _ _, _, _, _, _, linked, made | .count _ _ _, _, _, _, _, linked, made => by
    cases made
    exact ⟨linked, rfl, .nil⟩
  | .multiple _ _ _ _, _, _, _, _, linked, made => by
    obtain ⟨_, _, lifted, finished⟩ := Building.bind_eq_ok.mp made
    obtain ⟨-, rfl⟩ := Building.lift_eq_ok.mp lifted
    cases finished
    exact ⟨linked, rfl, .nil⟩
  | .edge key link head, path, table, after, columns, linked, made => by
    obtain ⟨joined, joined', linked', named, ran, put⟩ := linked.visit made
    have inner := selects_with linked' (fun headed => selects_heads linked' headed) ran
    obtain ⟨whole, same⟩ := put inner.linked inner.node
    refine ⟨whole, same, ?_⟩
    have labelled := inner.labelled
    rw [named] at labelled
    exact labelled.of_key
  | .unique key relation head, path, table, after, columns, linked, made => by
    obtain ⟨joined, joined', linked', named, ran, put⟩ := linked.visit made
    have inner := selects_with linked' (fun headed => selects_heads linked' headed) ran
    obtain ⟨whole, same⟩ := put inner.linked inner.node
    refine ⟨whole, same, ?_⟩
    have labelled := inner.labelled
    rw [named] at labelled
    exact labelled.of_key

theorem selects_heads : ∀ {fields : List SelectionField} {path : List String}
    {table after : Table} {columns : List Selected}, Linked catalog table →
      selectHeads catalog settings path fields table = .ok columns after →
      Selects catalog path (fields.flatMap (·.headPaths catalog)) table after columns
  | [], _, _, _, _, linked, made => by
    cases made
    exact ⟨linked, rfl, .nil⟩
  | field :: rest, _, _, _, _, linked, made => by
    obtain ⟨first, between, single, built⟩ := Building.bind_eq_ok.mp made
    obtain ⟨others, _, behind, finished⟩ := Building.bind_eq_ok.mp built
    cases finished
    have one := selects_head linked single
    have more := selects_heads one.linked behind
    exact ⟨more.linked, more.node.trans one.node, one.labelled.append more.labelled⟩

end

theorem labels_of_select {fields : List SelectionField} {node : Node}
    (found : catalog.node? node.name = some node) {label name : String} {after : Table}
    {columns : List Selected}
    (made : select catalog settings fields (.make label name node []) = .ok columns after) :
    (columns.map (·.label.text)).Perm
      ((SelectionField.recordPaths catalog node.name fields).map (".".intercalate ·)) :=
  (selects_with (.alone found label name) (selects_heads (.alone found label name)) made).labelled

theorem Building.on_eq_ok {α : Type} {table : Table} {action : Building α} {value : α}
    (ran : Building.on table action = .ok value) : ∃ after, action table = .ok value after := by
  unfold Building.on at ran
  split at ran
  · rename_i after done
    cases ran
    exact ⟨after, done⟩
  · cases ran

/-- The labels of a statement that reads instances. -/
theorem labels_of_find {selection : Selection} {request : Request} {query : Find}
    (found : catalog.node? selection.node.name = some selection.node)
    (made : find catalog settings selection request = .ok query) :
    (query.columns.map (·.label.text)).Perm
      ((SelectionField.recordPaths catalog selection.node.name selection.fields).map
        (".".intercalate ·)) := by
  obtain ⟨_, -, checked⟩ := Outcome.bind_eq_ok.mp made
  obtain ⟨_, -, limited⟩ := Outcome.bind_eq_ok.mp checked
  obtain ⟨limit, -, built⟩ := Outcome.bind_eq_ok.mp limited
  simp only at built
  split at built
  · obtain ⟨staged, -, built⟩ := Outcome.bind_eq_ok.mp built
    obtain ⟨_, ran⟩ := Building.on_eq_ok built
    obtain ⟨columns, _, selected, ordering⟩ := Building.bind_eq_ok.mp ran
    obtain ⟨_, _, -, sourcing⟩ := Building.bind_eq_ok.mp ordering
    obtain ⟨_, _, -, finishing⟩ := Building.bind_eq_ok.mp sourcing
    obtain ⟨_, _, -, finished⟩ := Building.bind_eq_ok.mp finishing
    cases finished
    exact labels_of_select found selected
  · obtain ⟨_, ran⟩ := Building.on_eq_ok built
    obtain ⟨columns, _, selected, filtering⟩ := Building.bind_eq_ok.mp ran
    obtain ⟨_, _, -, ordering⟩ := Building.bind_eq_ok.mp filtering
    obtain ⟨_, _, -, sourcing⟩ := Building.bind_eq_ok.mp ordering
    obtain ⟨_, _, -, finishing⟩ := Building.bind_eq_ok.mp sourcing
    obtain ⟨_, _, -, finished⟩ := Building.bind_eq_ok.mp finishing
    cases finished
    exact labels_of_select found selected

/-- The paths under which a head carries the identifier of its parent. -/
def parentPaths (relation : ReverseEdge) : List (List String) :=
  relation.edge.columns.map fun column => [parentKey, column.headLeaf]

/-- The labels of a follow-up: those of the heads, and those of the parent. -/
theorem labels_of_followUp {followup : Followup} {parents : List Record} {query : Find}
    (made : followUp catalog settings followup parents = .ok query) :
    (query.columns.map (·.label.text)).Perm
      ((SelectionField.recordPaths catalog followup.relation.head followup.head ++
        parentPaths followup.relation).map (".".intercalate ·)) := by
  obtain ⟨_, -, looking⟩ := Outcome.bind_eq_ok.mp made
  obtain ⟨parent, -, looking⟩ := Outcome.bind_eq_ok.mp looking
  obtain ⟨head, looked, ranking⟩ := Outcome.bind_eq_ok.mp looking
  obtain ⟨ranking, -, built⟩ := Outcome.bind_eq_ok.mp ranking
  obtain ⟨_, ran⟩ := Building.on_eq_ok built
  obtain ⟨columns, _, selected, getting⟩ := Building.bind_eq_ok.mp ran
  obtain ⟨table, _, got, referring⟩ := Building.bind_eq_ok.mp getting
  obtain ⟨parents, _, lifted, keying⟩ := Building.bind_eq_ok.mp referring
  obtain ⟨referred, -⟩ := Building.lift_eq_ok.mp lifted
  obtain ⟨_, _, -, naming⟩ := Building.bind_eq_ok.mp keying
  obtain ⟨_, _, -, joining⟩ := Building.bind_eq_ok.mp naming
  obtain ⟨_, _, -, finished⟩ := Building.bind_eq_ok.mp joining
  cases finished
  have known : catalog.node? (JoinRelation.reverse followup.relation).headName = some head :=
    Linked.node?_of_head looked
  have named := Catalog.name_of_node? known
  have labels := labels_of_select (named ▸ known) selected
  rw [named] at labels
  have tagged : parents.map (·.label.text) =
      followup.relation.edge.columns.map fun column =>
        ".".intercalate [parentKey, column.headLeaf] :=
    labels_of_mapM (fun _ _ => label_of_selectColumn) referred
  rw [Find.columns, List.map_append, List.map_append, tagged, parentPaths, List.map_map]
  exact labels.append (List.Perm.refl _)

end Select

end Sql

end LiveQuery
