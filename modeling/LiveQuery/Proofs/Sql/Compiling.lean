import LiveQuery.Proofs.Filter.Alternatives
import LiveQuery.Proofs.Selection.Widening
import LiveQuery.Proofs.Catalog.Consistent
import LiveQuery.Proofs.Sql.Staging

set_option autoImplicit false

namespace LiveQuery.Sql

open Table (Stands)

variable {α β : Type}

/-- An action succeeds on a table, and whatever it joins can be written. -/
def Compiles (catalog : Catalog) (table : Table) (action : Building α) : Prop :=
  ∃ value after, action table = .ok value after ∧
    ∀ route, after.Has route → Writable catalog table route

/-- A relation leads from a table to the table of its head, which can be joined. -/
structure Reaches (catalog : Catalog) (table : Table) (relation : JoinRelation)
    (key : Option String) (head : Node) : Prop where
  owner : relation.owner = table.node.name
  single : relation.check = .ok ()
  leads : relation.head catalog = .ok head
  named : ∃ named, (Table.ofNode head (table.joinAlias relation key)).named = .ok named
  matching : ∃ pairs,
    table.matching (.ofNode head (table.joinAlias relation key)) relation = .ok pairs

theorem Steady.became {catalog : Catalog} {action : Building α} (steady : Steady catalog action)
    {table after : Table} (routed : Routed catalog table) {value : α}
    (ran : action table = .ok value after) : ∃ added, Became catalog table after added := by
  obtain ⟨_, added, -, became, -⟩ := steady.alike routed routed ⟨rfl, rfl⟩ ran
  exact ⟨added, became⟩

namespace Compiles

variable {catalog : Catalog} {node : Node} {label : String}

theorem pure (value : α) : Compiles catalog (.ofNode node label) (Pure.pure value) := by
  refine ⟨value, _, rfl, fun route has => ?_⟩
  rw [Table.has_ofNode.mp has]
  trivial

section Binding

variable {action : Building α} {step : α → Building β} (steady : Steady catalog action)
  (steady' : ∀ value, Steady catalog (step value))

include steady steady'

/-- What can be compiled on its own can be compiled together. -/
theorem bind (first : Compiles catalog (.ofNode node label) action)
    (behind : ∀ value, Compiles catalog (.ofNode node label) (step value)) :
    Compiles catalog (.ofNode node label) (action >>= step) := by
  obtain ⟨value, between, ran, writable⟩ := first
  obtain ⟨result, alone, ran', writable'⟩ := behind value
  obtain ⟨_, became⟩ := steady.became (routed_ofNode label) ran
  obtain ⟨after, _, ran'', became', became''⟩ :=
    (steady' value).alike (routed_ofNode label) became.routed became.stands.symm ran'
  refine ⟨result, after, Building.bind_eq_ok.mpr ⟨value, between, ran, ran''⟩,
    fun route has => ?_⟩
  rcases (became''.has route).mp has with early | late
  · exact writable route early
  · exact writable' route ((became'.has route).mpr (Or.inr late))

theorem of_bind (compiles : Compiles catalog (.ofNode node label) (action >>= step)) :
    Compiles catalog (.ofNode node label) action ∧
      ∃ value, Compiles catalog (.ofNode node label) (step value) := by
  obtain ⟨result, after, ran, writable⟩ := compiles
  obtain ⟨value, between, first, second⟩ := Building.bind_eq_ok.mp ran
  obtain ⟨_, became⟩ := steady.became (routed_ofNode label) first
  obtain ⟨alone, _, ran', became', became''⟩ :=
    (steady' value).alike became.routed (routed_ofNode label) became.stands second
  refine ⟨⟨value, between, first, fun route has => ?_⟩,
    value, result, alone, ran', fun route has => ?_⟩
  · exact writable route ((became'.has route).mpr (Or.inl has))
  · rcases (became''.has route).mp has with early | late
    · rw [Table.has_ofNode.mp early]
      trivial
    · exact writable route ((became'.has route).mpr (Or.inr late))

end Binding

theorem map_iff {change : α → β} {action : Building α} :
    Compiles catalog (.ofNode node label) (change <$> action) ↔
      Compiles catalog (.ofNode node label) action := by
  simp only [Compiles, Building.map_eq_ok]
  constructor
  · rintro ⟨_, after, ⟨value, ran, -⟩, writable⟩
    exact ⟨value, after, ran, writable⟩
  · rintro ⟨value, after, ran, writable⟩
    exact ⟨_, after, ⟨value, ran, rfl⟩, writable⟩

theorem reading_iff {step : Table → Building β} :
    Compiles catalog (.ofNode node label) (MonadState.get >>= step) ↔
      Compiles catalog (.ofNode node label) (step (.ofNode node label)) := Iff.rfl

theorem lift_iff {attempt : Except Error α} :
    Compiles catalog (.ofNode node label) (liftM attempt : Building α) ↔
      ∃ value, attempt = .ok value := by
  constructor
  · rintro ⟨value, _, ran, -⟩
    exact ⟨value, (Building.lift_eq_ok.mp ran).1⟩
  · rintro ⟨value, made⟩
    refine ⟨value, _, Building.lift_eq_ok.mpr ⟨made, rfl⟩, fun route has => ?_⟩
    rw [Table.has_ofNode.mp has]
    trivial

theorem mapM_iff {items : List α} {step : α → Building β}
    (steady : ∀ item, Steady catalog (step item)) :
    Compiles catalog (.ofNode node label) (items.mapM step) ↔
      ∀ item ∈ items, Compiles catalog (.ofNode node label) (step item) := by
  induction items with
  | nil => exact iff_of_true (pure []) (by simp)
  | cons item rest ih =>
    rw [List.forall_mem_cons, ← ih, List.mapM_cons]
    have later (value : β) :
        Steady catalog (do return value :: (← rest.mapM step) : Building (List β)) :=
      (Steady.mapM steady).bind fun _ => .pure _
    constructor
    · intro compiles
      obtain ⟨first, value, behind⟩ := of_bind (steady item) later compiles
      exact ⟨first, (of_bind (Steady.mapM steady) (fun _ => .pure _) behind).1⟩
    · rintro ⟨first, behind⟩
      exact bind (steady item) later first fun value =>
        bind (Steady.mapM steady) (fun _ => .pure _) behind fun _ => pure _

/-- A visit can be compiled where the relation leads to a table that can be joined, and what is done
there can be compiled. -/
theorem visit_iff {relation : JoinRelation} {key : Option String} {action : Building α} :
    Compiles catalog (.ofNode node label) (Table.visit catalog relation key action) ↔
      ∃ head, Reaches catalog (.ofNode node label) relation key head ∧
        Compiles catalog
          (.ofNode head ((Table.ofNode node label).joinAlias relation key)) action := by
  constructor
  · rintro ⟨value, after, ran, writable⟩
    obtain ⟨owner, single, head, leads⟩ := stood_of_visit (routed_ofNode label) ran
    rw [visit_of_new owner single rfl leads] at ran
    obtain ⟨joined, inner, rfl⟩ := within_eq_ok ran
    have through (tail : Route) (further : joined.Has tail) :=
      writable ((relation, key) :: tail) (.along (List.mem_singleton_self _) further) head leads
    obtain ⟨named, matching, -⟩ := through [] .here
    exact ⟨head, ⟨owner, single, leads, named, matching⟩, value, joined, inner,
      fun tail further => (through tail further).2.2⟩
  · rintro ⟨head, ⟨owner, single, leads, named, matching⟩, value, joined, inner, writable⟩
    have ran : Table.visit catalog relation key action (.ofNode node label) = .ok value
        ((Table.ofNode node label).withJoins [.make relation key joined]) := by
      rw [visit_of_new owner single rfl leads]
      unfold Table.within
      rw [inner]
      rfl
    refine ⟨value, _, ran, fun route has => ?_⟩
    rcases Table.has_iff.mp has with rfl | along
    · trivial
    · rcases along_cons.mp along with ⟨tail, rfl, further⟩ | impossible
      · intro head' leads'
        cases leads.symm.trans leads'
        exact ⟨named, matching, writable tail further⟩
      · exact absurd impossible not_along_nil

end Compiles

section Columns

variable {table : Table} {path : List String} {column name : String}

theorem Alias.exists_ofText_iff {text : String} :
    (∃ named, Alias.ofText text = .ok named) ↔ Name.fault? 256 text = none := by
  unfold Alias.ofText Name.ofText
  split
  · rename_i valid
    exact iff_of_true ⟨_, rfl⟩ valid
  · rename_i fault refused
    refine iff_of_false ?_ (by simp [refused])
    rintro ⟨_, impossible⟩
    cases impossible

theorem Alias.ofText_of_shorter {text other : String}
    (made : ∃ named, Alias.ofText text = .ok named) (filled : other.isEmpty = false)
    (within : other.toList ⊆ text.toList) (short : other.length ≤ text.length) :
    ∃ named, Alias.ofText other = .ok named := by
  rw [Alias.exists_ofText_iff, Name.fault?_eq_none] at made ⊢
  exact ⟨filled, fun inside => made.2.1 (within inside), short.trans made.2.2⟩

theorem exists_selectColumn_iff : (∃ selected, selectColumn table column path = .ok selected) ↔
    (∃ found, table.column column = .ok found) ∧
      ∃ named, Alias.ofText (".".intercalate path) = .ok named := by
  constructor
  · rintro ⟨_, made⟩
    obtain ⟨found, first, made⟩ := Outcome.bind_eq_ok.mp made
    obtain ⟨named, second, -⟩ := Outcome.bind_eq_ok.mp made
    exact ⟨⟨found, first⟩, named, second⟩
  · rintro ⟨⟨found, first⟩, named, second⟩
    exact ⟨_, Outcome.bind_eq_ok.mpr ⟨found, first, Outcome.bind_eq_ok.mpr ⟨named, second, rfl⟩⟩⟩

/-- The identifier can be selected where each of its columns can. -/
theorem exists_selectIdentifier_iff : (∃ columns, selectIdentifier table path = .ok columns) ↔
    (∀ field, .leaf field ∈ table.node.identifierComponents → ∃ selected,
      selectColumn table field.column (path ++ [identifierKey, field.name]) = .ok selected) ∧
    ∀ link, .edge link ∈ table.node.identifierComponents → ∀ foreignKey ∈ link.columns, ∃ selected,
      selectColumn table foreignKey.column
        (path ++ [identifierKey, link.name, foreignKey.headLeaf]) = .ok selected := by
  constructor
  · rintro ⟨_, made⟩
    obtain ⟨listed, mapped, -⟩ := Outcome.bind_eq_ok.mp made
    have each := Outcome.exists_mapM_iff.mp ⟨listed, mapped⟩
    refine ⟨fun field inside => ?_, fun link inside => ?_⟩
    · obtain ⟨_, made⟩ := each (.leaf field) inside
      obtain ⟨selected, made, -⟩ := Outcome.bind_eq_ok.mp made
      exact ⟨selected, made⟩
    · exact Outcome.exists_mapM_iff.mp (each (.edge link) inside)
  · rintro ⟨leaves, edges⟩
    unfold selectIdentifier
    refine Exists.imp' List.flatten (fun _ made => Outcome.bind_eq_ok.mpr ⟨_, made, rfl⟩)
      (Outcome.exists_mapM_iff.mpr fun component inside => ?_)
    cases component with
    | leaf field =>
      obtain ⟨selected, made⟩ := leaves field inside
      exact ⟨[selected], Outcome.bind_eq_ok.mpr ⟨selected, made, rfl⟩⟩
    | edge link => exact Outcome.exists_mapM_iff.mpr (edges link inside)

end Columns

section Selections

variable {catalog : Catalog} {settings : Settings} {node : Node} {label key : String}
  {path : List String} {field : SelectionField} {fields : List SelectionField}

/-- What a field takes from a table and from those that it joins can be compiled. -/
def Selectable (catalog : Catalog) (settings : Settings) (table : Table) (path : List String)
    (field : SelectionField) : Prop :=
  Compiles catalog table (selectOwn catalog path field) ∧
    Compiles catalog table (selectHead catalog settings path field)

theorem compiles_selectHeads : Compiles catalog (.ofNode node label)
      (selectHeads catalog settings path fields) ↔
    ∀ field ∈ fields,
      Compiles catalog (.ofNode node label) (selectHead catalog settings path field) := by
  induction fields with
  | nil => exact iff_of_true (.pure []) (by simp)
  | cons field rest ih =>
    rw [List.forall_mem_cons, ← ih, selectHeads]
    have later (columns : List Selected) : Steady catalog
        (do return columns ++ (← selectHeads catalog settings path rest)) :=
      (steady_selectHeads path rest).bind fun _ => .pure _
    constructor
    · intro compiles
      obtain ⟨first, columns, behind⟩ := compiles.of_bind (steady_selectHead path field) later
      exact ⟨first, (behind.of_bind (steady_selectHeads path rest) fun _ => .pure _).1⟩
    · rintro ⟨first, behind⟩
      exact first.bind (steady_selectHead path field) later fun columns =>
        behind.bind (steady_selectHeads path rest) (fun _ => .pure _) fun _ => .pure _

/-- Fields can be selected together where the identifier and each of them can be selected. -/
theorem compiles_selectWith : Compiles catalog (.ofNode node label)
      (selectWith catalog path fields (selectHeads catalog settings path fields)) ↔
    (∃ columns, selectIdentifier (.ofNode node label) path = .ok columns) ∧
      ∀ field ∈ fields, Selectable catalog settings (.ofNode node label) path field := by
  have steady_heads := @steady_selectHeads catalog settings path fields
  have steady_owns : Steady catalog (fields.mapM (selectOwn catalog path)) :=
    Steady.mapM (steady_selectOwn path)
  have ending (identifier : List Selected) (own : List (List Selected)) : Steady catalog
      (do return identifier ++ own.flatten ++ (← selectHeads catalog settings path fields)) :=
    steady_heads.bind fun _ => .pure _
  have later (identifier : List Selected) : Steady catalog (do
      let own ← fields.mapM (selectOwn catalog path)
      return identifier ++ own.flatten ++ (← selectHeads catalog settings path fields)) :=
    steady_owns.bind fun own => ending identifier own
  constructor
  · intro compiles
    obtain ⟨first, identifier, behind⟩ :=
      (Compiles.reading_iff.mp compiles).of_bind (.lift _) later
    obtain ⟨second, own, behind⟩ := behind.of_bind steady_owns (ending identifier)
    have third := (behind.of_bind steady_heads fun _ => .pure _).1
    exact ⟨Compiles.lift_iff.mp first, fun field inside =>
      ⟨(Compiles.mapM_iff (steady_selectOwn path)).mp second field inside,
        compiles_selectHeads.mp third field inside⟩⟩
  · rintro ⟨identifier, each⟩
    have second := (Compiles.mapM_iff (steady_selectOwn path)).mpr fun field inside =>
      (each field inside).1
    have third := compiles_selectHeads.mpr fun field inside => (each field inside).2
    exact Compiles.reading_iff.mpr ((Compiles.lift_iff.mpr identifier).bind (.lift _) later
      fun identifier => second.bind steady_owns (ending identifier) fun _ =>
        third.bind steady_heads (fun _ => .pure _) fun _ => .pure _)

theorem selectable_leaf {part : Leaf} :
    Selectable catalog settings (.ofNode node label) path (.leaf key part) ↔
      ∃ selected, selectColumn (.ofNode node label) part.column (path ++ [key]) = .ok selected := by
  rw [← Compiles.lift_iff]
  refine (and_iff_left (.pure [])).trans (Compiles.reading_iff.trans ⟨fun compiles => ?_, ?_⟩)
  · exact (compiles.of_bind (.lift _) fun _ => .pure _).1
  · exact fun compiles => compiles.bind (.lift _) (fun _ => .pure _) fun _ => .pure _

theorem selectable_edge {link : Edge} {head : List SelectionField} :
    Selectable catalog settings (.ofNode node label) path (.edge key link head) ↔
      ∃ target, Reaches catalog (.ofNode node label) (.edge link) none target ∧
        Compiles catalog (.ofNode target ((Table.ofNode node label).joinAlias (.edge link) none))
          (selectWith catalog (path ++ [key]) head
            (selectHeads catalog settings (path ++ [key]) head)) := by
  rw [Selectable, ← Compiles.visit_iff]
  exact and_iff_right (.pure [])

end Selections

section Identifiers

open SelectionField

variable {catalog : Catalog} {settings : Settings} {node head : Node} {label key name : String}
  {path : List String} {field wide : SelectionField} {fields wider : List SelectionField}

theorem alias_of_identifier (filled : name.isEmpty = false)
    (short : path = [] ∨ ∃ key, path = [key])
    (made : ∃ named,
      Alias.ofText (".".intercalate (path ++ [identifierKey, name])) = .ok named) :
    ∃ named, Alias.ofText (".".intercalate (path ++ [name])) = .ok named := by
  rcases short with rfl | ⟨key, rfl⟩
  · refine Alias.ofText_of_shorter made (by simpa using filled) ?_ ?_
    · simp only [List.nil_append, List.subset_def]
      simp
      tauto
    · simp [String.intercalate_cons_cons]
  · refine Alias.ofText_of_shorter made (by simp [String.intercalate_cons_cons]) ?_ ?_
    · simp only [List.subset_def]
      simp
      tauto
    · simp [String.intercalate_cons_cons]

theorem alias_of_foreignKey
    (made : ∃ named, Alias.ofText (".".intercalate [identifierKey, key, name]) = .ok named) :
    ∃ named, Alias.ofText (".".intercalate [key, identifierKey, name]) = .ok named := by
  refine Alias.ofText_of_shorter made (by simp [String.intercalate_cons_cons]) ?_ ?_
  · simp only [String.intercalate_cons_cons, List.subset_def]
    simp
    tauto
  · simp [String.intercalate_cons_cons]
    omega

theorem selectable_identifierLeaf (short : path = [] ∨ ∃ key, path = [key])
    (filled : ∀ component ∈ head.identifierComponents, component.name.isEmpty = false)
    (identifier : ∃ columns, selectIdentifier (.ofNode head label) path = .ok columns)
    (identifying : IsIdentifierLeaf head field) :
    Selectable catalog settings (.ofNode head label) path field := by
  obtain ⟨part, inside, rfl⟩ := identifying
  obtain ⟨column, named⟩ :=
    exists_selectColumn_iff.mp ((exists_selectIdentifier_iff.mp identifier).1 part inside)
  exact selectable_leaf.mpr (exists_selectColumn_iff.mpr
    ⟨column, alias_of_identifier (filled _ inside) short named⟩)

theorem Reaches.target_eq {link : Edge} {target : Node} {table : Table} {key : Option String}
    (reaches : Reaches catalog table (.edge link) key target) (leads : catalog.Leads link head) :
    target = head :=
  Except.ok.inj (reaches.leads.symm.trans leads.edgeHead_eq)

/-- What identifies the head of an edge can be selected where the edge's own columns can. -/
theorem selectIdentifier_of_reaches {link : Edge} (leads : catalog.Leads link head)
    (reaches : Reaches catalog (.ofNode node label) (.edge link) none head)
    (inside : .edge link ∈ node.identifierComponents)
    (identifier : ∃ columns, selectIdentifier (.ofNode node label) [] = .ok columns) :
    ∃ columns, selectIdentifier
      (.ofNode head ((Table.ofNode node label).joinAlias (.edge link) none)) [link.name] =
        .ok columns := by
  refine exists_selectIdentifier_iff.mpr ⟨fun part member => exists_selectColumn_iff.mpr ?_,
    fun inner member => ?_⟩
  · obtain ⟨foreignKey, stored, named⟩ := leads.column_of_leaf leads.node member
    obtain ⟨_, matched⟩ := Outcome.exists_mapM_iff.mp reaches.matching foreignKey stored
    obtain ⟨leaf, looked, matched⟩ := Outcome.bind_eq_ok.mp matched
    obtain ⟨_, -, matched⟩ := Outcome.bind_eq_ok.mp matched
    obtain ⟨column, found, -⟩ := Outcome.bind_eq_ok.mp matched
    have same : Node.leaf head foreignKey.headLeaf = .ok part := by
      rw [named]
      exact Node.leaf_of_component? (Node.component?_of_identifier member)
    cases (liftCatalog_eq_ok.mp looked).symm.trans same
    obtain ⟨-, shown⟩ := exists_selectColumn_iff.mp
      ((exists_selectIdentifier_iff.mp identifier).2 link inside foreignKey stored)
    rw [named] at shown
    exact ⟨⟨column, found⟩, alias_of_foreignKey shown⟩
  · obtain ⟨_, impossible⟩ := leads.leaf_of_identifier member
    cases impossible

section Widened

variable (filled : ∀ {name : String} {node : Node}, catalog.node? name = some node →
    ∀ component ∈ node.identifierComponents, component.name.isEmpty = false)
  (identifier : ∃ columns, selectIdentifier (.ofNode node label) [] = .ok columns)

include filled

theorem selectable_of_widens (widens : Widens catalog node field wide)
    (selectable : Selectable catalog settings (.ofNode node label) [] field) :
    Selectable catalog settings (.ofNode node label) [] wide := by
  cases widens with
  | same => exact selectable
  | @edge key link head fields more _ _ leads _ leaves =>
    obtain ⟨target, reaches, compiles⟩ := selectable_edge.mp selectable
    obtain rfl := reaches.target_eq leads
    obtain ⟨heads, each⟩ := compiles_selectWith.mp compiles
    refine selectable_edge.mpr ⟨target, reaches, compiles_selectWith.mpr ⟨heads, ?_⟩⟩
    exact List.forall_mem_append.mpr ⟨each, fun inner member =>
      selectable_identifierLeaf (Or.inr ⟨key, rfl⟩) (filled leads.node) heads
        (leaves inner member)⟩

include identifier

theorem selectable_of_ofIdentifier (found : catalog.node? name = some node)
    (reached : ∀ link, .edge link ∈ node.identifierComponents →
      ∃ head, Reaches catalog (.ofNode node label) (.edge link) none head)
    (identifying : OfIdentifier catalog node field) :
    Selectable catalog settings (.ofNode node label) [] field := by
  cases identifying with
  | leaf inside =>
    exact selectable_identifierLeaf (Or.inl rfl) (filled found) identifier ⟨_, inside, rfl⟩
  | edge inside leads _ leaves =>
    obtain ⟨target, reaches⟩ := reached _ inside
    obtain rfl := reaches.target_eq leads
    have heads := selectIdentifier_of_reaches leads reaches inside identifier
    exact selectable_edge.mpr ⟨target, reaches, compiles_selectWith.mpr ⟨heads,
      fun inner member => selectable_identifierLeaf (Or.inr ⟨_, rfl⟩) (filled leads.node) heads
        (leaves inner member)⟩⟩

end Widened

/-- A selection can be compiled with the identifier merged into it, if the heads of the edges of the
identifier can be joined. -/
theorem compiles_select_of_identifies {selection wide : Selection}
    (filled : ∀ {name : String} {node : Node}, catalog.node? name = some node →
      ∀ component ∈ node.identifierComponents, component.name.isEmpty = false)
    (found : catalog.node? name = some selection.node)
    (reached : ∀ link, .edge link ∈ selection.node.identifierComponents →
      ∃ head, Reaches catalog (.ofNode selection.node label) (.edge link) none head)
    (identifies : Selection.Identifies catalog selection wide)
    (compiles : Compiles catalog (.ofNode selection.node label)
      (select catalog settings selection.fields)) :
    Compiles catalog (.ofNode selection.node label) (select catalog settings wide.fields) := by
  obtain ⟨identifier, each⟩ := compiles_selectWith.mp compiles
  obtain ⟨added, identifying, paired⟩ := identifies.fields
  refine compiles_selectWith.mpr ⟨identifier, fun field inside => ?_⟩
  obtain ⟨narrow, member, widens⟩ := Lists.exists_left_of_forall₂ paired inside
  refine selectable_of_widens filled widens ?_
  rcases List.mem_append.mp member with selected | more
  · exact each narrow selected
  · exact selectable_of_ofIdentifier filled identifier found reached (identifying narrow more)

end Identifiers

section Conditions

variable {catalog : Catalog} {node : Node} {label : String} {link : Edge} {predicate : Predicate}
  {operands : List Predicate}

open Condition

theorem compiles_of_ofPredicates
    (compiles : Compiles catalog (.ofNode node label) (ofPredicates catalog operands)) :
    ∀ operand ∈ operands, Compiles catalog (.ofNode node label) (ofPredicate catalog operand) := by
  induction operands with
  | nil => simp
  | cons operand rest ih =>
    have later (condition : Condition) : Steady catalog
        (do return condition :: (← ofPredicates catalog rest) : Building (List Condition)) :=
      (steady_ofPredicates fun _ _ => steady_ofPredicate _).bind fun _ => .pure _
    obtain ⟨first, condition, behind⟩ := compiles.of_bind (steady_ofPredicate operand) later
    exact List.forall_mem_cons.mpr ⟨first, ih (behind.of_bind
      (steady_ofPredicates fun _ _ => steady_ofPredicate _) fun _ => .pure _).1⟩

theorem reaches_of_ofHead {inner : Predicate}
    (compiles : Compiles catalog (.ofNode node label) (ofHead catalog link (some inner))) :
    ∃ head, Reaches catalog (.ofNode node label) (.edge link) none head := by
  obtain ⟨head, reaches, -⟩ := Compiles.visit_iff.mp (Compiles.map_iff.mp compiles)
  exact ⟨head, reaches⟩

theorem reaches_of_visits (visits : Predicate.Visits link predicate)
    (compiles : Compiles catalog (.ofNode node label) (ofPredicate catalog predicate)) :
    ∃ head, Reaches catalog (.ofNode node label) (.edge link) none head := by
  induction visits with
  | @edge inner =>
    have heads : Steady catalog (ofHead catalog link (some inner)) :=
      steady_ofHead fun _ _ => steady_ofPredicate _
    unfold ofPredicate at compiles
    split at compiles
    · obtain ⟨-, columns, behind⟩ := (Compiles.reading_iff.mp compiles).of_bind (.lift _)
        fun _ => heads.bind fun _ => .pure _
      exact reaches_of_ofHead (behind.of_bind heads fun _ => .pure _).1
    · exact reaches_of_ofHead (compiles.of_bind heads fun _ => .pure _).1
  | @junction kind operands operand inside _ ih =>
    unfold ofPredicate at compiles
    have each := (compiles.of_bind (steady_ofPredicates fun _ _ => steady_ofPredicate _)
      fun _ => .pure _).1
    exact ih (compiles_of_ofPredicates each operand inside)

theorem reaches_of_conditionOf {filter : Filter}
    (visits : Predicate.Visits link filter.reduced.predicate)
    (compiles : Compiles catalog (.ofNode node label) (conditionOf catalog (some filter))) :
    ∃ head, Reaches catalog (.ofNode node label) (.edge link) none head := by
  have varies : filter.reduced.isTrue = false := visits.isTrue_eq
  simp only [conditionOf, varies, Bool.false_eq_true, if_false] at compiles
  have behind := Compiles.reading_iff.mp (Compiles.map_iff.mp compiles)
  dsimp only at behind
  split at behind
  · obtain ⟨-, _, behind⟩ := behind.of_bind (.throw _) fun _ => steady_ofPredicate _
    exact reaches_of_visits visits behind
  · exact reaches_of_visits visits behind

end Conditions

section Statements

variable {catalog : Catalog} {settings : Settings} {selection wide : Selection}
  {filter : Option Filter} {expressions : List SortExpression}

theorem Compiles.of_yields {node : Node} {label : String} {action : Building α} {value : α}
    {added : Route → Prop} (yields : Yields catalog (.ofNode node label) action value added)
    (writable : ∀ route, added route → Writable catalog (.ofNode node label) route) :
    Compiles catalog (.ofNode node label) action := by
  obtain ⟨after, ran, became⟩ := yields _ (routed_ofNode label) ⟨rfl, rfl⟩
  refine ⟨value, after, ran, fun route has => ?_⟩
  rcases (became.has route).mp has with bare | inside
  · rw [Table.has_ofNode.mp bare]
    trivial
  · exact writable route inside

theorem Compiles.exists_yields {node : Node} {label : String} {action : Building α}
    (steady : Steady catalog action) (compiles : Compiles catalog (.ofNode node label) action) :
    ∃ value added, Yields catalog (.ofNode node label) action value added ∧
      ∀ route, added route → Writable catalog (.ofNode node label) route := by
  obtain ⟨value, after, ran, writable⟩ := compiles
  obtain ⟨added, yields, became⟩ := steady.yields (routed_ofNode label) ⟨rfl, rfl⟩ ran
  exact ⟨value, added, yields, fun route inside =>
    writable route ((became.has route).mpr (Or.inr inside))⟩

theorem isEmpty_of_isName {name : String} (valid : isName name = true) : name.isEmpty = false := by
  refine Bool.eq_false_iff.mpr fun empty => ?_
  rw [String.isEmpty_iff] at empty
  rw [empty] at valid
  cases valid

/-- A statement can be composed where each of its parts can be compiled. -/
theorem exists_composed_iff :
    (∃ columns condition order,
      Composed catalog settings selection filter expressions columns condition order) ↔
      (∃ named, (Table.root selection.node).named = .ok named) ∧
        Compiles catalog (.root selection.node) (select catalog settings selection.fields) ∧
        Compiles catalog (.root selection.node) (conditionOf catalog filter) ∧
        Compiles catalog (.root selection.node) (orderOf catalog expressions) := by
  constructor
  · rintro ⟨columns, condition, order, named, selected, filtered, sorted, yields, yields', yields'',
      writable⟩
    exact ⟨named, .of_yields yields fun route inside => writable route (Or.inl inside),
      .of_yields yields' fun route inside => writable route (Or.inr (Or.inl inside)),
      .of_yields yields'' fun route inside => writable route (Or.inr (Or.inr inside))⟩
  · rintro ⟨named, select_, conditions, orders⟩
    obtain ⟨columns, selected, yields, writable⟩ := select_.exists_yields (steady_select _)
    obtain ⟨condition, filtered, yields', writable'⟩ :=
      conditions.exists_yields (steady_conditionOf _)
    obtain ⟨order, sorted, yields'', writable''⟩ := orders.exists_yields (steady_orderOf _)
    refine ⟨columns, condition, order, named, selected, filtered, sorted, yields, yields', yields'',
      ?_⟩
    rintro route (inside | inside | inside)
    · exact writable route inside
    · exact writable' route inside
    · exact writable'' route inside

theorem exists_find_iff {request : Request} :
    (∃ query, find catalog settings selection request = .ok query) ↔
      (∃ limit, Admitted settings.maxLimit selection.node request limit) ∧
        (∃ named, (Table.root selection.node).named = .ok named) ∧
        Compiles catalog (.root selection.node) (select catalog settings selection.fields) ∧
        Compiles catalog (.root selection.node) (conditionOf catalog request.filter) ∧
        Compiles catalog (.root selection.node) (orderOf catalog (requestedOrder request)) ∧
        (settings.staged = true →
          ∃ stage, Identifier.ofText (stageName selection.node) = .ok stage) := by
  obtain ⟨staged_, maxLimit⟩ := settings
  cases staged_ with
  | false =>
    constructor
    · rintro ⟨query, made⟩
      obtain ⟨limit, admitted, after, ran⟩ := find_plain_eq_ok.mp made
      obtain ⟨columns, condition, order, _, composed, -⟩ := composed_of_direct ran
      obtain ⟨named, select_, conditions, orders⟩ :=
        exists_composed_iff.mp ⟨columns, condition, order, composed⟩
      exact ⟨⟨limit, admitted⟩, named, select_, conditions, orders, nofun⟩
    · rintro ⟨⟨limit, admitted⟩, named, select_, conditions, orders, -⟩
      obtain ⟨columns, condition, order, composed⟩ :=
        exists_composed_iff.mpr ⟨named, select_, conditions, orders⟩
      obtain ⟨source, after, ran⟩ := direct_of_composed composed
      exact ⟨_, find_plain_eq_ok.mpr ⟨limit, admitted, after, ran⟩⟩
  | true =>
    constructor
    · rintro ⟨query, made⟩
      obtain ⟨limit, admitted, stage, listing, ⟨_, inner⟩, ⟨_, outer⟩⟩ := find_staged_eq_ok.mp made
      obtain ⟨columns, condition, order, _, composed, -, -, -, staging, -⟩ :=
        composed_of_staged inner outer
      obtain ⟨named, select_, conditions, orders⟩ :=
        exists_composed_iff.mp ⟨columns, condition, order, composed⟩
      exact ⟨⟨limit, admitted⟩, named, select_, conditions, orders, fun _ => ⟨stage, staging⟩⟩
    · rintro ⟨⟨limit, admitted⟩, named, select_, conditions, orders, staging⟩
      obtain ⟨stage, staging⟩ := staging rfl
      obtain ⟨columns, condition, order, composed⟩ :=
        exists_composed_iff.mpr ⟨named, select_, conditions, orders⟩
      obtain ⟨source, source', listed, after, inner, outer⟩ :=
        staged_of_composed composed staging limit
      exact ⟨_, find_staged_eq_ok.mpr
        ⟨limit, admitted, stage, _, ⟨listed, inner⟩, ⟨after, outer⟩⟩⟩

/-- A selection can be read with the identifier merged into it where it can be read by itself, if
the filter goes to the heads of the identifier's edges, as filters on identifiers do. -/
theorem find_of_identifies {definitions : CatalogDefinition}
    (built : definitions.build = .ok catalog)
    (found : catalog.node? selection.node.name = some selection.node)
    (identifies : Selection.Identifies catalog selection wide) {request : Request} {filter : Filter}
    (filtered : request.filter = some filter)
    (visits : ∀ link, .edge link ∈ selection.node.identifierComponents →
      Predicate.Visits link filter.reduced.predicate)
    (readable : ∃ query, find catalog settings selection request = .ok query) :
    ∃ query, find catalog settings wide request = .ok query := by
  obtain ⟨admitted, named, select_, conditions, orders, staging⟩ := exists_find_iff.mp readable
  have filled {name : String} {node : Node} (known : catalog.node? name = some node)
      (component : Component) (inside : component ∈ node.identifierComponents) :
      component.name.isEmpty = false :=
    isEmpty_of_isName
      (CatalogDefinition.isName_of_build built known (Node.mem_of_identifier inside))
  have wider := compiles_select_of_identifies filled found
    (fun link inside => reaches_of_conditionOf (visits link inside) (filtered ▸ conditions))
    identifies select_
  rw [exists_find_iff, identifies.node]
  exact ⟨admitted, named, wider, conditions, orders, staging⟩

end Statements

end LiveQuery.Sql
