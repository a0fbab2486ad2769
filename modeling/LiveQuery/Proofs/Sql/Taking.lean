import LiveQuery.Proofs.Sql.Resolving

set_option autoImplicit false

namespace LiveQuery

theorem SortOrder.mem_of_decisive {node : Node} {seen : List String}
    {expressions : List SortExpression} {expression : SortExpression}
    (inside : expression ∈ decisive node seen expressions) : expression ∈ expressions := by
  induction expressions generalizing seen with
  | nil => exact inside
  | cons first rest ih =>
    rw [decisive] at inside
    split at inside
    · exact List.mem_cons_of_mem _ (ih inside)
    · split at inside
      · rw [List.mem_singleton.mp inside]
        exact List.mem_cons_self ..
      · rcases List.mem_cons.mp inside with rfl | later
        · exact List.mem_cons_self ..
        · exact List.mem_cons_of_mem _ (ih later)

namespace Sql

variable {catalog : Catalog} {node : Node} {settings : Settings}

theorem places_reduced (orderly : Orderly catalog) (found : catalog.node? node.name = some node)
    {filter : Option Predicate} (fits : Predicate.fitsHead catalog node.name filter = true) :
    Places catalog node (Condition.ofFilter catalog (filter.map (·.reduced)))
      (SaysFilter catalog (filter.map (·.reduced))) := by
  refine Condition.places_ofFilter found
    (fun predicate _ => Condition.resolves orderly predicate) ?_
  cases filter with
  | none => rfl
  | some predicate => exact Predicate.fits_reduced fits

section Selecting

variable {table : Table} {path : List String} {fields : List SelectionField}

theorem selectColumn_eq_ok {column : String} {selected : Selected}
    (made : selectColumn table column path = .ok selected) :
    ∃ written label, table.column column = .ok written ∧ selected = ⟨.column written, label⟩ ∧
      label.text = ".".intercalate path := by
  obtain ⟨written, read, made⟩ := Outcome.bind_eq_ok.mp made
  obtain ⟨label, named, made⟩ := Outcome.bind_eq_ok.mp made
  cases made
  exact ⟨written, label, read, rfl, Alias.text_of_ofText named⟩

theorem takes_identifier {site : Site} {columns : List Selected} (covers : Covers table site)
    (made : selectIdentifier table path = .ok columns) :
    ∀ selected ∈ columns, Takes catalog site path fields selected := by
  obtain ⟨listed, mapped, made⟩ := Outcome.bind_eq_ok.mp made
  cases made
  have paired := Lists.forall₂_mem (Outcome.mapM_eq_ok_iff.mp mapped)
  intro selected inside
  obtain ⟨part, member, inside⟩ := List.mem_flatten.mp inside
  obtain ⟨component, -, made, identifies, -⟩ := Lists.exists_left_of_forall₂ paired member
  have known : component ∈ table.node.components := Node.mem_of_identifier identifies
  have identifies' : component ∈ site.here.node.identifierComponents :=
    covers.node.symm ▸ identifies
  cases component with
  | leaf field =>
    obtain ⟨single, read, made⟩ := Outcome.bind_eq_ok.mp made
    cases made
    cases List.mem_singleton.mp inside
    obtain ⟨column, label, written, rfl, labelled⟩ := selectColumn_eq_ok read
    refine .identifier identifies' (List.mem_singleton_self _)
      (covers.denotes written (Node.mem_columns_of_leaf known)) ?_
    exact labelled
  | edge link =>
    have each := Lists.forall₂_mem (Outcome.mapM_eq_ok_iff.mp made)
    obtain ⟨foreignKey, -, read, held, -⟩ := Lists.exists_left_of_forall₂ each inside
    obtain ⟨column, label, written, rfl, labelled⟩ := selectColumn_eq_ok read
    refine .identifier identifies' (List.mem_map_of_mem held)
      (covers.denotes written (Node.mem_columns_of_edge known held)) ?_
    exact labelled

theorem places_selectOwn (orderly : Orderly catalog) (found : catalog.node? node.name = some node)
    {field : SelectionField} (wanted : field ∈ fields)
    (fits : field.fits catalog node.name = true) :
    Places catalog node (selectOwn catalog path field) fun site columns =>
      ∀ selected ∈ columns, Takes catalog site path fields selected := by
  cases field with
  | leaf key field =>
    have part : node.component? field.name = some (.leaf field) := by
      simpa [SelectionField.fits, found] using fits
    refine Places.reading fun table known => Places.attempted.bind fun selected =>
      .pure fun site made covers => ?_
    subst known
    obtain ⟨column, label, written, rfl, labelled⟩ := selectColumn_eq_ok made
    exact List.forall_mem_singleton.mpr (.leaf wanted (covers.denotes written
      (Node.mem_columns_of_leaf (Node.mem_of_component? part))) labelled)
  | count key relation filter =>
    rw [SelectionField.fits, Bool.and_eq_true, decide_eq_true_iff, found] at fits
    have inner (head : Node) (reached : catalog.node? relation.head = some head) :=
      have named : head.name = relation.head := Catalog.name_of_node? reached
      places_reduced orderly (named ▸ reached) (named.symm ▸ fits.2)
    refine (Places.children orderly found fits.1 inner).bind fun (children, condition) =>
      Places.attempted.bind fun label => .pure fun site named ⟨place, subquery, so⟩ =>
        List.forall_mem_singleton.mpr ?_
    exact .count wanted ⟨children, condition, place, rfl, subquery, so⟩
      (Alias.text_of_ofText named)
  | edge | unique | multiple => exact .pure fun _ => List.forall_mem_nil _

theorem places_selectWith (orderly : Orderly catalog) (found : catalog.node? node.name = some node)
    (fits : SelectionField.fitsAll catalog node.name fields = true)
    {heads : Building (List Selected)}
    (behind : Places catalog node heads fun site columns =>
      ∀ selected ∈ columns, Takes catalog site path fields selected) :
    Places catalog node (selectWith catalog path fields heads) fun site columns =>
      ∀ selected ∈ columns, Takes catalog site path fields selected := by
  have own : Places catalog node (fields.mapM (selectOwn catalog path)) fun site parts =>
      List.Forall₂ (fun _ columns => ∀ selected ∈ columns, Takes catalog site path fields selected)
        fields parts :=
    Places.mapM fun field inside => places_selectOwn orderly found inside
      (SelectionField.fitsAll_iff.mp fits field inside)
  refine Places.reading fun table _ => Places.attempted.bind fun identifier => own.bind fun owned =>
    behind.bind fun columns => .pure fun site joined each made covers => ?_
  rw [List.forall_mem_append, List.forall_mem_append]
  refine ⟨⟨takes_identifier covers made, fun selected inside => ?_⟩, joined⟩
  obtain ⟨part, member, inside⟩ := List.mem_flatten.mp inside
  obtain ⟨field, -, takes⟩ := Lists.exists_left_of_forall₂ each member
  exact takes selected inside

/-- What a field takes from joined tables is taken from those that it leads to. -/
def Joins (catalog : Catalog) (settings : Settings) (field : SelectionField) : Prop :=
  ∀ {node : Node} {path : List String} {fields : List SelectionField},
    catalog.node? node.name = some node → field.fits catalog node.name = true → field ∈ fields →
      Places catalog node (selectHead catalog settings path field) fun site columns =>
        ∀ selected ∈ columns, Takes catalog site path fields selected

theorem places_selectHeads (found : catalog.node? node.name = some node)
    {part : List SelectionField} (each : ∀ field ∈ part, Joins catalog settings field)
    (fits : SelectionField.fitsAll catalog node.name part = true)
    (wanted : ∀ field ∈ part, field ∈ fields) :
    Places catalog node (selectHeads catalog settings path part) fun site columns =>
      ∀ selected ∈ columns, Takes catalog site path fields selected := by
  induction part with
  | nil => exact .pure fun _ => List.forall_mem_nil _
  | cons field rest ih =>
    rw [List.forall_mem_cons] at each wanted
    rw [SelectionField.fitsAll, Bool.and_eq_true] at fits
    exact (each.1 found fits.1 wanted.1).bind fun columns => (ih each.2 fits.2 wanted.2).bind
      fun others => .pure fun site behind here => List.forall_mem_append.mpr ⟨here, behind⟩

theorem places_joined (orderly : Orderly catalog) {relation : JoinRelation}
    (part : relation.PartOf node) (each : ∀ field ∈ fields, Joins catalog settings field)
    (fits : SelectionField.fitsAll catalog relation.headName fields = true) :
    Places catalog node (Table.visit catalog relation none
        (selectWith catalog path fields (selectHeads catalog settings path fields)))
      fun site columns => ∃ target ∈ site.frame, target.route = site.here.route ++ [relation] ∧
        ∀ selected ∈ columns, Takes catalog (site.at target) path fields selected := by
  have inner : ∀ target, catalog.node? relation.headName = some target →
      Places catalog target
        (selectWith catalog path fields (selectHeads catalog settings path fields))
        fun site columns => ∀ selected ∈ columns, Takes catalog site path fields selected := by
    intro target reached
    have named : target.name = relation.headName := Catalog.name_of_node? reached
    rw [← named] at fits reached
    exact places_selectWith orderly reached fits
      (places_selectHeads reached each fits fun _ => id)
  exact Places.visit part inner

theorem joins (orderly : Orderly catalog) (settings : Settings) (field : SelectionField) :
    Joins catalog settings field := by
  induction field with
  | leaf | count => exact fun _ _ _ => .pure fun _ => List.forall_mem_nil _
  | multiple key relation window head _ =>
    exact fun _ _ _ => Places.attempted.bind fun _ => .pure fun _ _ => List.forall_mem_nil _
  | edge key link head ih =>
    intro node path fields found fits wanted
    rw [SelectionField.fits, Bool.and_eq_true, decide_eq_true_iff, found] at fits
    have part : JoinRelation.PartOf node (.edge link) := fits.1
    exact (places_joined orderly part ih fits.2).imp
      fun site columns ⟨target, inside, route, takes⟩ selected member =>
        .edge wanted inside route (takes selected member)
  | unique key relation head ih =>
    intro node path fields found fits wanted
    rw [SelectionField.fits, Bool.and_eq_true, decide_eq_true_iff, found] at fits
    have part : JoinRelation.PartOf node (.reverse relation) := fits.1
    exact (places_joined orderly part ih fits.2).imp
      fun site columns ⟨target, inside, route, takes⟩ selected member =>
        .unique wanted inside route (takes selected member)

end Selecting

section Listing

variable {expressions : List SortExpression}

end Listing

end Sql

end LiveQuery
