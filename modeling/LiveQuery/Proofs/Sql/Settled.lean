import LiveQuery.Proofs.Catalog.Identified
import LiveQuery.Proofs.Impact.Pruning
import LiveQuery.Proofs.Selection.Followups
import LiveQuery.Proofs.Sql.Scoped
import LiveQuery.Proofs.Sql.Tied

set_option autoImplicit false

namespace LiveQuery

/-- A request whose filter and ordering follow relations of the catalog only. -/
structure Request.Charted (catalog : Catalog) (request : Request) : Prop where
  filter : ∀ filter, request.filter = some filter → filter.charted catalog = true
  ordering : ∀ order, request.ordering = some order → ∀ expression ∈ order.expressions,
    expression.charted catalog order.node.name = true

namespace Sql

open Table (Stands)

section Selecting

variable {catalog : Catalog} {base : Table} {settings : Settings} {name : String}
  {path : List String} {fields : List SelectionField}

/-- The terms of selected columns are tied. -/
def TiedTerms (columns : List Selected) : Prop := ∀ selected ∈ columns, selected.term.Tied

theorem TiedTerms.append {columns others : List Selected} (first : TiedTerms columns)
    (second : TiedTerms others) : TiedTerms (columns ++ others) :=
  List.forall_mem_append.mpr ⟨first, second⟩

theorem TiedTerms.flatten {parts : List (List Selected)} (each : ∀ part ∈ parts, TiedTerms part) :
    TiedTerms parts.flatten := by
  intro selected inside
  obtain ⟨part, member, inside⟩ := List.mem_flatten.mp inside
  exact each part member selected inside

theorem tied_of_selectColumn {table : Table} {column : String} {selected : Selected}
    (made : selectColumn table column path = .ok selected) : selected.term.Tied := by
  obtain ⟨written, label, -, rfl, -⟩ := selectColumn_eq_ok made
  trivial

theorem tiedTerms_of_selectColumns {α : Type} {items : List α} {step : α → Except Error Selected}
    {columns : List Selected} (each : ∀ item selected, step item = .ok selected →
      selected.term.Tied) (made : items.mapM step = .ok columns) : TiedTerms columns := by
  intro selected inside
  obtain ⟨item, -, made⟩ := Outcome.exists_of_mem_mapM made inside
  exact each item selected made

theorem tiedTerms_of_selectIdentifier {table : Table} {columns : List Selected}
    (made : selectIdentifier table path = .ok columns) : TiedTerms columns := by
  obtain ⟨parts, mapped, made⟩ := Outcome.bind_eq_ok.mp made
  cases made
  refine .flatten fun part inside => ?_
  obtain ⟨component, -, made⟩ := Outcome.exists_of_mem_mapM mapped inside
  cases component with
  | leaf field =>
    obtain ⟨selected, read, made⟩ := Outcome.bind_eq_ok.mp made
    cases made
    exact List.forall_mem_singleton.mpr (tied_of_selectColumn read)
  | edge link => exact tiedTerms_of_selectColumns (fun _ _ => tied_of_selectColumn) made

theorem ties_selectHeads {part : List SelectionField}
    (each : ∀ field ∈ part, ∀ base path,
      Ties base (selectHead catalog settings path field) TiedTerms) :
    Ties base (selectHeads catalog settings path part) TiedTerms := by
  induction part with
  | nil => exact .pure (List.forall_mem_nil _)
  | cons field rest ih =>
    rw [List.forall_mem_cons] at each
    exact (each.1 base path).bind fun columns first => (ih each.2).bind fun others second =>
      .pure (first.append second)

variable (wellFormed : catalog.WellFormed) (keyed : catalog.Keyed)

include wellFormed keyed

theorem ties_selectOwn {field : SelectionField} (charted : field.charted catalog name = true) :
    Ties base (selectOwn catalog path field) TiedTerms := by
  cases field with
  | leaf key field =>
    exact .reading fun table _ _ => Ties.attempted.bind fun selected read =>
      .pure (List.forall_mem_singleton.mpr (tied_of_selectColumn read))
  | count key relation filter =>
    rw [SelectionField.charted, Bool.and_eq_true, decide_eq_true_iff] at charted
    have some_ := columns_of_reverseEdge wellFormed keyed charted.1
    exact (Ties.children some_ fun _ => Condition.ties_ofReduced wellFormed keyed charted.2).bind
      fun (children, condition) tied => Ties.attempted.bind fun label _ =>
        .pure (List.forall_mem_singleton.mpr tied)
  | edge | unique | multiple => exact .pure (List.forall_mem_nil _)

theorem ties_selectWith (charted : SelectionField.chartedAll catalog name fields = true)
    {heads : Building (List Selected)} (behind : Ties base heads TiedTerms) :
    Ties base (selectWith catalog path fields heads) TiedTerms := by
  have own : Ties base (fields.mapM (selectOwn catalog path))
      (List.Forall₂ (fun _ => TiedTerms) fields) :=
    .mapM fun field inside => ties_selectOwn wellFormed keyed
      (SelectionField.chartedAll_iff.mp charted field inside)
  refine .reading fun table _ _ => Ties.attempted.bind fun identifier made =>
    own.bind fun parts each => behind.bind fun columns tied => .pure ?_
  refine ((tiedTerms_of_selectIdentifier made).append (.flatten fun part inside => ?_)).append tied
  obtain ⟨_, -, here⟩ := Lists.exists_left_of_forall₂ each inside
  exact here

theorem ties_selectHead {field : SelectionField} (charted : field.charted catalog name = true) :
    ∀ base path, Ties base (selectHead catalog settings path field) TiedTerms := by
  induction field generalizing name with
  | leaf | count => exact fun _ _ => .pure (List.forall_mem_nil _)
  | multiple key relation window head _ =>
    exact fun _ _ => Ties.attempted.bind fun _ _ => .pure (List.forall_mem_nil _)
  | edge key link head ih =>
    rw [SelectionField.charted, Bool.and_eq_true, decide_eq_true_iff] at charted
    have some_ : (JoinRelation.edge link).link.columns ≠ [] := columns_of_edge keyed charted.1
    exact fun base path => .visit some_ fun base => ties_selectWith wellFormed keyed charted.2
      (ties_selectHeads fun field inside =>
        ih field inside (SelectionField.chartedAll_iff.mp charted.2 field inside))
  | unique key relation head ih =>
    rw [SelectionField.charted, Bool.and_eq_true, decide_eq_true_iff] at charted
    have some_ : (JoinRelation.reverse relation).link.columns ≠ [] :=
      columns_of_reverseEdge wellFormed keyed charted.1
    exact fun base path => .visit some_ fun base => ties_selectWith wellFormed keyed charted.2
      (ties_selectHeads fun field inside =>
        ih field inside (SelectionField.chartedAll_iff.mp charted.2 field inside))

theorem ties_select (charted : SelectionField.chartedAll catalog name fields = true) :
    Ties base (select catalog settings fields) TiedTerms :=
  ties_selectWith wellFormed keyed charted (ties_selectHeads fun field inside =>
    ties_selectHead wellFormed keyed (SelectionField.chartedAll_iff.mp charted field inside))

end Selecting

section Listing

variable {catalog : Catalog} {base : Table} {name : String} {expressions : List SortExpression}

/-- What a list sorts the rows of a table on: terms that are tied, and every column of the table's
identifier. -/
structure Settles (base : Table) (order : List SortItem) : Prop where
  tied : ∀ item ∈ order, item.term.Tied
  covers : ∀ component ∈ base.node.identifierComponents, ∀ name ∈ component.columns,
    ∃ item ∈ order, ∃ column, base.column name = .ok column ∧ item.term = .column column

theorem Settles.orders {order : List SortItem} (settles : Settles base order) {label : Alias}
    (labelled : Alias.ofText base.label = .ok label)
    (some_ : ∃ component ∈ base.node.identifierComponents, component.columns ≠ []) :
    Orders base.node label order := by
  refine ⟨?_, fun component inside name stored => ?_⟩
  · obtain ⟨component, inside, filled⟩ := some_
    obtain ⟨name, stored⟩ := List.exists_mem_of_ne_nil _ filled
    obtain ⟨item, listed, -⟩ := settles.covers component inside name stored
    exact List.ne_nil_of_mem listed
  · obtain ⟨item, listed, column, read, same⟩ := settles.covers component inside name stored
    refine ⟨item, listed, column, same, ?_, (Table.column_eq_ok read).2⟩
    obtain ⟨label', labelled', read⟩ := Outcome.bind_eq_ok.mp read
    obtain ⟨identifier, -, read⟩ := Outcome.bind_eq_ok.mp read
    cases read
    exact Except.ok.inj (labelled'.symm.trans labelled)

variable (wellFormed : catalog.WellFormed) (keyed : catalog.Keyed)

include wellFormed keyed

theorem ties_ofExpression {expression : SortExpression}
    (charted : expression.charted catalog name = true) :
    Ties base (SortItem.ofExpression catalog expression) fun item => item.term.Tied ∧
      ∀ field, expression.target = .leaf field →
        ∃ column, base.column field.column = .ok column ∧ item.term = .column column := by
  unfold SortItem.ofExpression
  refine .reading fun table _ stands => ?_
  cases target : expression.target with
  | leaf field =>
    have item : Ties base (do
        return ⟨.column (← (table.column field.column : Except Error Column)),
          expression.direction⟩) fun item : SortItem => item.term.Tied ∧
        ∀ field', SortTarget.leaf field = .leaf field' →
          ∃ column, base.column field'.column = .ok column ∧ item.term = .column column := by
      refine Ties.attempted.bind fun column read => .pure ⟨trivial, ?_⟩
      rintro _ ⟨⟩
      exact ⟨column, stands.column field.column ▸ read, rfl⟩
    by_cases foreign : field.node ≠ table.node.name
    · simp only [if_pos foreign]
      exact Ties.thrown
    · simp only [if_neg foreign]
      exact item
  | count relation =>
    rw [SortExpression.charted, target, decide_eq_true_iff] at charted
    have some_ := columns_of_reverseEdge wellFormed keyed charted
    have all (base : Table) : Ties base (Pure.pure none) Condition.TiedOption := .pure trivial
    exact (Ties.children some_ all).bind fun (children, _) tied =>
      .pure ⟨⟨tied.1, trivial⟩, nofun⟩

/-- Rows are sorted on the columns of their identifier, be it for the expressions or behind them. -/
theorem ties_orderOf
    (charted : ∀ expression ∈ expressions, expression.charted catalog name = true) :
    Ties base (orderOf catalog expressions) (Settles base) := by
  refine (Ties.mapM fun expression inside =>
    ties_ofExpression wellFormed keyed (charted expression inside)).bind fun items each =>
      .reading fun table _ stands => ?_
  have rest : Ties base
      (((table.node.identifierComponents.flatMap (·.columns)).filter
          (!(sortedColumns expressions).contains ·)).mapM fun name => do
        return ⟨.column (← (table.column name : Except Error Column)), .ascending⟩)
      (List.Forall₂ (fun name (item : SortItem) =>
        ∃ column, base.column name = .ok column ∧ item.term = .column column) _) :=
    .mapM fun name _ => Ties.attempted.bind fun column read =>
      .pure ⟨column, stands.column name ▸ read, rfl⟩
  refine rest.bind fun others behind => .pure ⟨List.forall_mem_append.mpr ⟨?_, ?_⟩, ?_⟩
  · intro item inside
    obtain ⟨_, -, tied, -⟩ := Lists.exists_left_of_forall₂ each inside
    exact tied
  · intro item inside
    obtain ⟨_, -, column, -, same⟩ := Lists.exists_left_of_forall₂ behind inside
    rw [same]
    trivial
  · intro component inside name stored
    by_cases sorted : name ∈ sortedColumns expressions
    · obtain ⟨expression, wanted, on⟩ := List.mem_filterMap.mp sorted
      obtain ⟨item, listed, -, covers⟩ := Lists.exists_right_of_forall₂ each wanted
      cases target : expression.target with
      | leaf field =>
        rw [target] at on
        cases on
        exact ⟨item, List.mem_append_left _ listed, covers field target⟩
      | count =>
        rw [target] at on
        cases on
    · have left : name ∈ (table.node.identifierComponents.flatMap (·.columns)).filter
          (!(sortedColumns expressions).contains ·) := by
        rw [List.mem_filter, List.mem_flatMap, stands.node]
        exact ⟨⟨component, inside, stored⟩, by simpa using sorted⟩
      obtain ⟨item, listed, covers⟩ := Lists.exists_right_of_forall₂ behind left
      exact ⟨item, List.mem_append_right _ listed, covers⟩

theorem ties_conditionOf {filter : Option Filter}
    (charted : ∀ given, filter = some given → given.charted catalog = true) :
    Ties base (conditionOf catalog filter) Condition.TiedOption := by
  cases filter with
  | none => exact .pure trivial
  | some filter =>
    unfold conditionOf
    by_cases trivial_ : filter.reduced.isTrue = true
    · simp only [if_pos trivial_]
      exact .pure trivial
    · simp only [if_neg trivial_]
      have compiled : Ties base (Condition.ofNodeFilter catalog filter.reduced) Condition.Tied := by
        refine .reading fun table _ _ => ?_
        by_cases foreign : filter.reduced.node.name ≠ table.node.name
        · simp only [if_pos foreign]
          exact Ties.thrown
        · simp only [if_neg foreign]
          exact Condition.bound wellFormed keyed
            (Predicate.charted_reduced wellFormed (charted filter rfl)) base
      exact compiled.map fun _ => id

end Listing

section Statements

variable {catalog : Catalog} {base : Table} {settings : Settings} {node : Node}
  {filter : Option Filter} {expressions : List SortExpression} {limit : Option Limit}
  {statement : Statement}

/-- Identifiers that name something are stored in some column. -/
def Stored (node : Node) : Prop := ∃ component ∈ node.identifierComponents, component.columns ≠ []

theorem stored_of_mem (keyed : catalog.Keyed) (found : catalog.node? node.name = some node)
    (identified : node.identifierComponents ≠ []) : Stored node := by
  obtain ⟨component, inside⟩ := List.exists_mem_of_ne_nil _ identified
  refine ⟨component, inside, ?_⟩
  cases component with
  | leaf field => exact List.cons_ne_nil _ _
  | edge link =>
    have some_ := keyed found link (Node.mem_of_identifier inside)
    simpa [Component.columns] using some_

/-- A listing of the rows of a node. -/
structure Lists (node : Node) (listing : Listing) : Prop where
  orders : Orders node listing.source.table.label listing.order
  tied : listing.Tied

theorem foreignKey_of_stands {table : Table} (stands : Stands table base) (link : Edge) :
    foreignKey table link = foreignKey base link := by
  unfold foreignKey
  simp only [stands.column]

variable (wellFormed : catalog.WellFormed) (keyed : catalog.Keyed)

include wellFormed keyed

section Finding

variable {selection : Selection}
  (selects : selection.charted catalog = true)
  (filters : ∀ given, filter = some given → given.charted catalog = true) {name : String}
  (sorts : ∀ expression ∈ expressions, expression.charted catalog name = true)
  (stored : Stored base.node)

include sorts stored

include filters in
theorem ties_listStage : Ties base (listStage catalog node filter expressions limit)
    fun stage => Lists base.node stage.2 := by
  refine (ties_conditionOf wellFormed keyed filters).bind fun condition holds =>
    (ties_orderOf wellFormed keyed sorts).bind fun order settles => Ties.attempted.bind fun stage _ =>
    .reading fun table _ _ => Ties.attempted.bind fun _ _ =>
    .source fun source tied labelled => ?_
  exact ⟨settles.orders labelled stored, tied, holds, settles.tied⟩

include selects

include filters in
theorem ties_findDirect :
    Ties base (findDirect catalog settings selection filter expressions limit) fun query =>
      query.Ordered base.node ∧ query.Tied := by
  refine (ties_select wellFormed keyed selects).bind fun columns terms =>
    (ties_conditionOf wellFormed keyed filters).bind fun condition holds =>
    (ties_orderOf wellFormed keyed sorts).bind fun order settles =>
    .source fun source tied labelled => ?_
  exact ⟨settles.orders labelled stored, terms, tied, holds, settles.tied⟩

variable (base) in
theorem ties_findStaged {stage : Identifier} {listing : Listing} (lists : Lists base.node listing) :
    Ties base (findStaged catalog settings selection expressions stage listing) fun query =>
      query.Ordered base.node ∧ query.Tied := by
  refine (ties_select wellFormed keyed selects).bind fun columns terms =>
    (ties_orderOf wellFormed keyed sorts).bind fun order settles =>
    .source fun source tied labelled => ?_
  exact ⟨⟨lists.orders, settles.orders labelled stored⟩, lists.tied, terms, tied, settles.tied⟩

end Finding

theorem settled_of_find {selection : Selection} {request : Request} {query : Find}
    (selects : selection.charted catalog = true) (requested : request.Charted catalog)
    (stored : Stored selection.node)
    (made : find catalog settings selection request = .ok query) :
    query.Ordered selection.node ∧ query.Tied := by
  obtain ⟨_, -, made⟩ := Outcome.bind_eq_ok.mp made
  obtain ⟨_, -, made⟩ := Outcome.bind_eq_ok.mp made
  obtain ⟨limit, -, made⟩ := Outcome.bind_eq_ok.mp made
  obtain ⟨name, sorts⟩ : ∃ name, ∀ expression ∈
      ((request.ordering.map (·.reduced)).map (·.expressions)).getD [],
      expression.charted catalog name = true := by
    cases given : request.ordering with
    | none => exact ⟨selection.node.name, List.forall_mem_nil _⟩
    | some order => exact ⟨order.node.name, fun expression inside =>
        requested.ordering order given expression (SortOrder.mem_of_decisive inside)⟩
  let root := Table.root selection.node
  simp only at made
  split at made
  · obtain ⟨⟨stage, listing⟩, listed, made⟩ := Outcome.bind_eq_ok.mp made
    have lists := (ties_listStage wellFormed keyed requested.filter sorts stored :
      Ties root _ _).result (.alone ..) listed
    exact (ties_findStaged (root.withName (stageName selection.node)) wellFormed keyed selects
      sorts stored lists).result (.alone ..) made
  · exact (ties_findDirect wellFormed keyed selects requested.filter sorts stored :
      Ties root _ _).result (.alone ..) made

section FollowingUp

variable {followup : Followup} {parent : Node} {parents : List Record}

theorem ties_rank (charted : followup.Charted catalog) (stored : Stored base.node) :
    Ties base (rank catalog followup parent parents) fun ranking =>
      Orders base.node ranking.source.table.label ranking.order ∧ ranking.Tied ∧
        foreignKey base followup.relation.edge = .ok ranking.foreignKey ∧
        Alias.ofText base.label = .ok ranking.source.table.label := by
  obtain ⟨owner, related⟩ := charted.related
  have some_ := columns_of_reverseEdge wellFormed keyed related
  have windowed := charted.window
  rw [Window.charted, Bool.and_eq_true, List.all_eq_true] at windowed
  refine .reading fun table _ stands => Ties.attempted.bind fun columns read =>
    Ties.attempted.bind fun keys written =>
    (Condition.ties_ofReduced wellFormed keyed windowed.1).bind fun condition holds => ?_
  have sorts : ∀ expression ∈ ((followup.window.ordering.map fun order =>
      (SortOrder.mk table.node order).reduced.expressions).getD []),
      expression.charted catalog followup.relation.head = true := by
    intro expression inside
    refine windowed.2 expression ?_
    cases given : followup.window.ordering with
    | none =>
      rw [given] at inside
      exact inside
    | some order =>
      rw [given] at inside
      exact SortOrder.mem_of_decisive inside
  refine (ties_orderOf wellFormed keyed sorts).bind fun order settles =>
    Ties.attempted.bind fun _ _ => .source fun source tied labelled => ?_
  refine ⟨settles.orders labelled stored, ⟨tied, ?_, ?_, holds, settles.tied⟩, ?_, labelled⟩
  · rintro rfl
    exact some_ (Outcome.eq_nil_of_mapM read)
  · rintro _ inside rfl
    obtain ⟨record, -, made⟩ := Outcome.exists_of_mem_mapM written inside
    exact some_ (Outcome.eq_nil_of_mapM made)
  · exact foreignKey_of_stands stands _ ▸ read

theorem ties_findRanked (charted : followup.Charted catalog) {ranking : Ranking}
    (orders : Orders base.node ranking.source.table.label ranking.order) (ranked : ranking.Tied)
    (keys : foreignKey base followup.relation.edge = .ok ranking.foreignKey)
    (labelled : Alias.ofText base.label = .ok ranking.source.table.label) :
    Ties base (findRanked catalog settings followup ranking) fun query =>
      query.Ordered base.node ∧ query.Tied := by
  refine (ties_select wellFormed keyed charted.head).bind fun columns terms =>
    .reading fun table tied stands => Ties.attempted.bind fun parents tagged =>
    Ties.attempted.bind fun columns' read => Ties.attempted.bind fun label named =>
    Ties.attempted.bind fun joins joined => .pure ?_
  have same : columns' = ranking.foreignKey :=
    Except.ok.inj ((foreignKey_of_stands stands _ ▸ read).symm.trans keys)
  have same' : label = ranking.source.table.label :=
    Except.ok.inj ((stands.label ▸ named).symm.trans labelled)
  subst same same'
  exact ⟨⟨orders, ranked.foreignKey, rfl, rfl⟩, ranked,
    terms.append (tiedTerms_of_selectColumns (fun _ _ => tied_of_selectColumn) tagged),
    tied.leftJoins joined, ranked.foreignKey⟩

theorem settled_of_followUp (identified : ∀ head ∈ catalog.nodes, head.identifierComponents ≠ [])
    (charted : followup.Charted catalog) {query : Find}
    (made : followUp catalog settings followup parents = .ok query) :
    ∃ head ∈ catalog.nodes, head.name = followup.relation.head ∧
      query.Ordered head ∧ query.Tied := by
  obtain ⟨_, -, made⟩ := Outcome.bind_eq_ok.mp made
  obtain ⟨parent, -, made⟩ := Outcome.bind_eq_ok.mp made
  obtain ⟨head, looked, made⟩ := Outcome.bind_eq_ok.mp made
  obtain ⟨ranking, ranked, made⟩ := Outcome.bind_eq_ok.mp made
  have reached : catalog.node? (JoinRelation.reverse followup.relation).headName = some head :=
    Linked.node?_of_head looked
  have named : head.name = followup.relation.head := Catalog.name_of_node? reached
  have inside := Catalog.mem_of_node? reached
  have stored := stored_of_mem keyed (named ▸ reached) (identified head inside)
  obtain ⟨orders, tied, keys, labelled⟩ :=
    (ties_rank wellFormed keyed charted stored : Ties (.root head) _ _).result (.alone ..) ranked
  exact ⟨head, inside, named,
    (ties_findRanked wellFormed keyed charted orders tied keys labelled :
      Ties (.root head) _ _).result (.alone ..) made⟩

end FollowingUp

section Matching

variable (filters : ∀ given, filter = some given → given.charted catalog = true)

include filters

theorem tied_of_count (made : count catalog node filter = .ok statement) : statement.Tied := by
  obtain ⟨_, -, made⟩ := Outcome.bind_eq_ok.mp made
  refine Ties.result ?_ (.alone ..) made
  exact (ties_conditionOf wellFormed keyed filters).bind fun condition holds =>
    .source fun source tied _ => ⟨tied, holds⟩

theorem tied_of_delete (made : delete catalog node filter = .ok statement) : statement.Tied := by
  obtain ⟨_, -, made⟩ := Outcome.bind_eq_ok.mp made
  refine Ties.result ?_ (.alone ..) made
  exact (ties_conditionOf wellFormed keyed filters).bind fun condition holds =>
    .reading fun table _ _ => Ties.attempted.bind fun _ _ =>
      .source fun source tied _ => ⟨tied, holds⟩

theorem tied_of_update {record : Record} (made : update catalog node filter record = .ok statement) :
    statement.Tied := by
  obtain ⟨_, -, made⟩ := Outcome.bind_eq_ok.mp made
  obtain ⟨coerced, -, made⟩ := Outcome.bind_eq_ok.mp made
  split at made
  · cases made
  · refine Ties.result ?_ (.alone ..) made
    exact .reading fun table _ _ => Ties.attempted.bind fun assignments _ =>
      (ties_conditionOf wellFormed keyed filters).bind fun condition holds =>
        .source fun source tied _ => ⟨tied, holds⟩

end Matching

end Statements

theorem conditionOf_eq_ok {catalog : Catalog} {filter : Filter} {table after : Table}
    {condition : Option Condition} (varies : filter.reduced.isTrue = false)
    (made : conditionOf catalog (some filter) table = .ok condition after) :
    ∃ test, condition = some test := by
  unfold conditionOf at made
  simp only [varies, Bool.false_eq_true, if_false] at made
  obtain ⟨test, -, rfl⟩ := Building.map_eq_ok.mp made
  exact ⟨test, rfl⟩

theorem delete_eq_ok {catalog : Catalog} {node : Node} {filter : Filter} {statement : Statement}
    (varies : filter.reduced.isTrue = false)
    (made : delete catalog node (some filter) = .ok statement) :
    ∃ source test, statement = .delete source (some test) := by
  obtain ⟨_, -, made⟩ := Outcome.bind_eq_ok.mp made
  obtain ⟨_, made⟩ := Building.on_eq_ok made
  obtain ⟨condition, between, tested, made⟩ := Building.bind_eq_ok.mp made
  obtain ⟨test, rfl⟩ := conditionOf_eq_ok varies tested
  rw [Building.get_bind] at made
  obtain ⟨_, _, -, made⟩ := Building.bind_eq_ok.mp made
  rw [Building.get_bind] at made
  obtain ⟨source, _, -, made⟩ := Building.bind_eq_ok.mp made
  cases made
  exact ⟨source, test, rfl⟩

end Sql

/-- What identifiers are relied on for: the filter on one does not hold of everything, so neither a
deletion nor the analysis of a change by an identifier means every instance; what is read is sorted
on identifiers, and what is read through relations is tied to its row. -/
structure Catalog.Settled (catalog : Catalog) : Prop where
  filter : ∀ node ∈ catalog.nodes, ∀ id filter, Filter.identifier catalog node id = .ok filter →
    filter.isTrue = false
  deletion : ∀ node ∈ catalog.nodes, ∀ id filter statement,
    Filter.identifier catalog node id = .ok filter →
      Sql.delete catalog node (some filter) = .ok statement →
        ∃ source test, statement = .delete source (some test)
  changed : ∀ node ∈ catalog.nodes, ∀ change predicate,
    Predicate.changedInstance catalog node change = .ok predicate → predicate.isTrue = false
  parents : ∀ node ∈ catalog.nodes, ∀ value predicates,
    Predicate.parentOf catalog node value = .ok predicates →
      ∀ predicate ∈ predicates, predicate.isTrue = false
  find : ∀ settings selection request query, selection.node ∈ catalog.nodes →
    selection.charted catalog = true → request.Charted catalog →
      Sql.find catalog settings selection request = .ok query →
        query.Ordered selection.node ∧ query.Tied
  followUp : ∀ settings (selection : Selection) followup parents query,
    selection.charted catalog = true → selection.Defers followup →
      Sql.followUp catalog settings followup parents = .ok query →
        ∃ head ∈ catalog.nodes, head.name = followup.relation.head ∧
          query.Ordered head ∧ query.Tied
  count : ∀ node (filter : Option Filter) statement,
    (∀ given, filter = some given → given.charted catalog = true) →
      Sql.count catalog node filter = .ok statement → statement.Tied
  update : ∀ node (filter : Option Filter) record statement,
    (∀ given, filter = some given → given.charted catalog = true) →
      Sql.update catalog node filter record = .ok statement → statement.Tied
  delete : ∀ node (filter : Option Filter) statement,
    (∀ given, filter = some given → given.charted catalog = true) →
      Sql.delete catalog node filter = .ok statement → statement.Tied

section Catalogs

open Sql

variable {catalog : Catalog} {definitions : CatalogDefinition}

theorem Catalog.settled_of_identified (built : definitions.build = .ok catalog)
    (identified : ∀ node ∈ catalog.nodes, node.identifierComponents ≠ []) : catalog.Settled := by
  have wellFormed := CatalogDefinition.build_wellFormed built
  have keyed : catalog.Keyed := wellFormed.keyed identified
  have told {node : Node} (inside : node ∈ catalog.nodes) {id : Record} {filter : Filter}
      (made : Filter.identifier catalog node id = .ok filter) : filter.isTrue = false :=
    Filter.isTrue_of_identifier identified inside made
  refine {
    filter := fun node inside id filter => told inside
    deletion := fun node inside id filter statement made => delete_eq_ok ?_
    changed := fun node inside change predicate made => ?_
    parents := fun node inside value predicates made => ?_
    find := fun settings selection request query inside selects requested =>
      settled_of_find wellFormed keyed selects requested (stored_of_mem keyed ?_
        (identified selection.node inside))
    followUp := fun settings selection followup parents query selects deferred =>
      settled_of_followUp wellFormed keyed identified
        (Followup.charted_of_defers selects deferred)
    count := fun node filter statement => tied_of_count wellFormed keyed
    update := fun node filter record statement filters => tied_of_update wellFormed keyed filters
    delete := fun node filter statement => tied_of_delete wellFormed keyed }
  · rw [Filter.isTrue, Filter.reduced, Filter.reduced_of_identifier made,
      Filter.recognising_eq made]
    exact told inside made
  · obtain ⟨filter, named, made⟩ := Outcome.bind_eq_ok.mp made
    cases made
    exact told inside named
  · cases value with
    | record reference =>
      obtain ⟨filter, named, made⟩ := Outcome.bind_eq_ok.mp made
      cases made
      exact List.forall_mem_singleton.mpr (told inside named)
    | _ =>
      cases made
      exact List.forall_mem_nil _
  · exact Catalog.node_eq_ok_iff.mp
      ((CatalogDefinition.consistent_of_build built).nodes selection.node inside).found

/-- A catalog has the identifiers that were written, however many names these have. All of them can
be selected exactly if none names a component twice, and what else is relied on holds exactly if
each names some component. -/
theorem Catalog.settled_iff (built : definitions.build = .ok catalog) :
    List.Forall₂ NodeDefinition.Identifies definitions catalog.nodes ∧
      (catalog.NamesOnce ↔ ∀ node ∈ catalog.nodes,
        ∃ selection, Selection.identifier catalog node = .ok selection) ∧
      (catalog.NamesSome ↔ catalog.Settled) := by
  refine ⟨CatalogDefinition.identifies_of_build built, Catalog.namesOnce_iff_selection built, ?_⟩
  refine ⟨fun some_ => settled_of_identified built ?_, fun settled =>
    (Catalog.namesSome_iff_filter built).mpr settled.filter⟩
  exact (CatalogDefinition.consistent_of_build built).namesSome_iff.mp some_

end Catalogs

namespace Samples

open Sql

/-- Memos, which nothing tells apart. -/
def memos : CatalogDefinition := [⟨"Memo", "memos", [field "text" .string], [unique []], []⟩]

def memo : Node := ⟨"Memo", "memos", [.leaf ⟨"Memo", "text", "text", .string, false⟩], [],
  [⟨"", []⟩], ⟨"", []⟩⟩

def memoCatalog : Catalog := ⟨[memo]⟩

theorem build_memos : memos.build = .ok memoCatalog := rfl

/-- Tasks are told apart by a number. Memos are by nothing, so that deleting one by its identifier
deletes all of them. -/
theorem settled_iff_memos :
    (∃ selection, Selection.identifier boardCatalog task = .ok selection) ∧
    (∃ filter statement source test,
      Filter.identifier boardCatalog task [("id", .int 7)] = .ok filter ∧
        delete boardCatalog task (some filter) = .ok statement ∧
        statement = .delete source (some test)) ∧
    (∃ query, find boardCatalog ⟨true, 10⟩ sharing sharingRequest = .ok query ∧
      query.Ordered task ∧ query.Tied) ∧
    (∃ query, sharing.Defers colleagueTasks ∧
      followUp boardCatalog ⟨true, 10⟩ colleagueTasks [ada] = .ok query ∧
      query.Ordered task ∧ query.Tied) ∧
    ¬memoCatalog.Settled ∧ ∃ filter source,
      Filter.identifier memoCatalog memo [("text", .string "Buy milk")] = .ok filter ∧
        delete memoCatalog memo (some filter) = .ok (.delete source none) := by
  obtain ⟨-, once, some_⟩ := Catalog.settled_iff build_board
  obtain ⟨-, -, none_⟩ := Catalog.settled_iff build_memos
  have inside : task ∈ boardCatalog.nodes := List.mem_cons_of_mem _ (List.mem_singleton_self _)
  have settled : boardCatalog.Settled := some_.mp (by unfold Catalog.NamesSome; decide)
  have shared_charted : ∀ given, some shared = some given → given.charted boardCatalog = true := by
    rintro _ ⟨⟩
    rfl
  have requested : sharingRequest.Charted boardCatalog := ⟨shared_charted, by rintro _ ⟨⟩⟩
  have left : sharing.followups = [colleagueTasks] := rfl
  have deferred : sharing.Defers colleagueTasks := .first (left ▸ List.mem_singleton_self _)
  obtain ⟨filter, told⟩ : ∃ filter,
    Filter.identifier boardCatalog task [("id", .int 7)] = .ok filter := ⟨_, rfl⟩
  obtain ⟨statement, deleted⟩ : ∃ statement,
      delete boardCatalog task (some filter) = .ok statement := by
    cases told
    exact ⟨_, rfl⟩
  obtain ⟨query, found⟩ : ∃ query, find boardCatalog ⟨true, 10⟩ sharing sharingRequest =
    .ok query := ⟨_, rfl⟩
  obtain ⟨behind, followed⟩ : ∃ query, followUp boardCatalog ⟨true, 10⟩ colleagueTasks [ada] =
    .ok query := ⟨_, rfl⟩
  refine ⟨once.mp (by unfold Catalog.NamesOnce; decide) task inside, ?_,
    ⟨query, found, settled.find _ sharing _ query inside rfl requested found⟩, ?_, ?_,
    ⟨_, _, rfl, rfl⟩⟩
  · obtain ⟨source, test, same⟩ := settled.deletion task inside _ filter statement told deleted
    exact ⟨filter, statement, source, test, told, deleted, same⟩
  · obtain ⟨head, member, named, ordered⟩ :=
      settled.followUp _ sharing colleagueTasks [ada] behind rfl deferred followed
    obtain rfl : head = task := by
      rcases List.mem_cons.mp member with rfl | member
      · exact absurd named (by decide)
      · exact List.mem_singleton.mp member
    exact ⟨behind, deferred, followed, ordered⟩
  · intro settled
    exact none_.mpr settled memo (List.mem_singleton_self _) rfl

end Samples

end LiveQuery
