import LiveQuery.Proofs.Sql.Placing

set_option autoImplicit false

namespace LiveQuery.Sql

variable {α β : Type} {catalog : Catalog} {node : Node}

/-- An action on a table of a node only adds joins, and what it gives is so at every place that
speaks of the table as it becomes. -/
structure Places (catalog : Catalog) (node : Node) (action : Building α)
    (gives : Site → α → Prop) : Prop where
  ran : ∀ {table after : Table} {value : α}, Tidy catalog table → table.node = node →
    action table = .ok value after →
      Tidy catalog after ∧ Extends table after ∧ ∀ site, Covers after site → gives site value

namespace Places

variable {gives : Site → α → Prop} {then_ : Site → β → Prop}

theorem pure {value : α} (so : ∀ site, gives site value) :
    Places catalog node (Pure.pure value) gives := by
  refine ⟨fun {table after value} tidy _ made => ?_⟩
  cases made
  exact ⟨tidy, .refl _, fun site _ => so site⟩

/-- A step that reads the table speaks of it as it was then. -/
theorem reading {step : Table → Building β} (behind : ∀ table, table.node = node →
      Places catalog node (step table) fun site result => Covers table site → then_ site result) :
    Places catalog node (MonadState.get >>= step) then_ := by
  refine ⟨fun {table after result} tidy known made => ?_⟩
  obtain ⟨_, _, got, made⟩ := Building.bind_eq_ok.mp made
  cases got
  obtain ⟨tidy', extends_, so⟩ := (behind table known).ran tidy known made
  exact ⟨tidy', extends_, fun site covers => so site covers (covers.of_extends extends_)⟩

theorem lift {attempt : Except Error α}
    (so : ∀ value, attempt = .ok value → ∀ site, gives site value) :
    Places catalog node (liftM attempt) gives := by
  refine ⟨fun {table after value} tidy _ made => ?_⟩
  obtain ⟨succeeds, rfl⟩ := Building.lift_eq_ok.mp made
  exact ⟨tidy, .refl _, fun site _ => so value succeeds site⟩

theorem attempted {attempt : Except Error α} :
    Places catalog node (liftM attempt) fun _ value => attempt = .ok value :=
  lift fun _ succeeds _ => succeeds

theorem bind {action : Building α} {step : α → Building β}
    (first : Places catalog node action gives) (behind : ∀ value, Places catalog node (step value)
      fun site result => gives site value → then_ site result) :
    Places catalog node (action >>= step) then_ := by
  refine ⟨fun {table after result} tidy known made => ?_⟩
  obtain ⟨value, between, ran, made⟩ := Building.bind_eq_ok.mp made
  obtain ⟨tidy', extends_, so⟩ := first.ran tidy known ran
  obtain ⟨tidy'', extends', so'⟩ := (behind value).ran tidy' (extends_.node.trans known) made
  exact ⟨tidy'', extends_.trans extends', fun site covers =>
    so' site covers (so site (covers.of_extends extends'))⟩

theorem imp {other : Site → α → Prop} {action : Building α}
    (places : Places catalog node action gives)
    (weaker : ∀ site value, gives site value → other site value) :
    Places catalog node action other := by
  refine ⟨fun {table after value} tidy known made => ?_⟩
  obtain ⟨tidy', extends_, so⟩ := places.ran tidy known made
  exact ⟨tidy', extends_, fun site covers => weaker site value (so site covers)⟩

theorem map {action : Building α} {change : α → β} (places : Places catalog node action gives)
    (so : ∀ site value, gives site value → then_ site (change value)) :
    Places catalog node (change <$> action) then_ := by
  rw [map_eq_pure_bind]
  exact places.bind fun value => .pure fun site => so site value

theorem thrown {error : Error} {step : α → Building β} :
    Places catalog node (MonadExcept.throw error >>= step) then_ := by
  refine ⟨fun _ _ made => ?_⟩
  cases made

theorem mapM {items : List α} {step : α → Building β} {gives : α → Site → β → Prop}
    (each : ∀ item ∈ items, Places catalog node (step item) (gives item)) :
    Places catalog node (items.mapM step)
      fun site results =>
        List.Forall₂ (fun item result => gives item site result) items results := by
  induction items with
  | nil => exact .pure fun _ => .nil
  | cons item rest ih =>
    rw [List.forall_mem_cons] at each
    rw [List.mapM_cons]
    exact each.1.bind fun first => (ih each.2).bind fun others =>
      .pure fun _ behind here => .cons here behind

theorem visit {relation : JoinRelation} {action : Building α} (part : relation.PartOf node)
    (inner : ∀ head, catalog.node? relation.headName = some head →
      Places catalog head action gives) :
    Places catalog node (Table.visit catalog relation none action) fun site value =>
      ∃ target ∈ site.frame, target.route = site.here.route ++ [relation] ∧
        gives (site.at target) value := by
  refine ⟨fun {table after value} tidy known visited => ?_⟩
  obtain ⟨joined, joined', ran, visit⟩ := tidy.visit (known ▸ part) visited
  obtain ⟨tidy', extends_, so⟩ := (inner joined.node visit.head).ran visit.tidy rfl ran
  refine ⟨visit.after_tidy tidy' extends_, visit.extends_ extends_, fun site covers => ?_⟩
  let target : Declaration := ⟨joined'.label, joined'.node, site.here.route ++ [relation]⟩
  have inside : Covers joined' (site.at target) :=
    ⟨rfl, rfl, fun declaration member => covers.declared _ (visit.declared _ _ member),
      covers.distinct⟩
  exact ⟨target, inside.here_mem, rfl, so _ inside⟩

/-- The child rows of a relation stand in a subquery, whose first alias is none of those around
it. -/
theorem children (orderly : Orderly catalog) {relation : ReverseEdge}
    {filter : Building (Option Condition)} {gives : Site → Option Condition → Prop}
    (found : catalog.node? node.name = some node)
    (part : node.reverseEdge? relation.name = some relation)
    (inner : ∀ head, catalog.node? relation.head = some head →
      Places catalog head filter gives) :
    Places catalog node (Sql.children catalog relation filter) fun site result =>
      ∃ place, Subquery catalog site relation result.1 place ∧ gives place result.2 := by
  refine ⟨fun {table after result} tidy known made => ?_⟩
  obtain ⟨rfl, head, child, looked, filtered, written, pairs⟩ := children_eq_ok made
  refine ⟨tidy, .refl _, fun site covers => ?_⟩
  have reached : catalog.node? relation.head = some head :=
    SelectionField.node?_of_reverseEdgeHead looked
  have named := Catalog.name_of_node? reached
  have bare : Tidy catalog (.ofNode head (after.headAlias "<" relation.name)) :=
    .alone (named ▸ reached) _ _
  obtain ⟨tidy', extends_, so⟩ := (inner head reached).ran bare rfl filtered
  have label : child.label = after.label ++ "<" ++ relation.name := extends_.label
  have node' : child.node = head := extends_.node
  have name : child.name = child.node.table :=
    extends_.name.trans (congrArg Node.table node'.symm)
  have covers' := tidy'.covers orderly (site.frame :: site.outer)
  refine ⟨_, ⟨?_, name ▸ tidy'.opens orderly written _, rfl, ?_⟩, so _ covers'⟩
  · exact reached.trans (congrArg some node'.symm)
  -- The row around the subquery is meant by an alias that nothing in the subquery goes by.
  · refine correlates_of_pairs pairs covers.node (fun foreignKey member => ?_) ?_ ?_
    · exact Node.mem_columns_of_edge
        (node'.symm ▸ orderly.holds (known ▸ found) (known ▸ part) reached) member
    · exact extends_.label ▸ covers'.resolved
    · refine resolve?_outside (fun other inside => ?_) covers.resolved
      have onward : Onward after.label child.label :=
        label ▸ onward_append marks_reverse after.label relation.name
      exact (onward.trans (tidy'.within inside)).ne

/-- Child rows of which all are meant. -/
theorem counting (orderly : Orderly catalog) {relation : ReverseEdge}
    (found : catalog.node? node.name = some node)
    (part : node.reverseEdge? relation.name = some relation) :
    Places catalog node (Sql.children catalog relation (Pure.pure none)) fun site result =>
      ∃ place, Subquery catalog site relation result.1 place := by
  have all (head : Node) :
      Places catalog head (Pure.pure none) fun _ (_ : Option Condition) => True :=
    .pure fun _ => trivial
  exact (children orderly found part fun head _ => all head).imp
    fun _ _ ⟨place, subquery, _⟩ => ⟨place, subquery⟩

end Places

namespace Condition

section Leaves

variable {field : Leaf} {column : Column} {condition : Condition}

theorem tests_guarded (inner : Tests column condition) :
    Tests column (guarded field column condition) := by
  unfold guarded
  split
  · refine .junction .all ?_
    rw [List.forall_mem_cons, List.forall_mem_singleton]
    exact ⟨.isSet, inner⟩
  · exact inner

theorem tests_ofComparison {comparison : Comparison} {expected : Value}
    (made : ofComparison field column comparison expected = .ok condition) :
    Tests column condition := by
  cases comparison with
  | eq =>
    rw [ofComparison] at made
    split at made
    · cases made
      exact .isNull
    · obtain ⟨literal, -, made⟩ := Outcome.bind_eq_ok.mp made
      cases made
      exact .compared _ _
  | ne =>
    rw [ofComparison] at made
    split at made
    · cases made
      exact .isSet
    · split at made
      all_goals
        obtain ⟨literal, -, made⟩ := Outcome.bind_eq_ok.mp made
        cases made
      · exact .negation (.compared _ _)
      · exact .compared _ _
  | _ =>
    obtain ⟨literal, -, made⟩ := Outcome.bind_eq_ok.mp made
    cases made
    exact tests_guarded (.compared _ _)

theorem tests_parts {parts : List Condition}
    (made : (match parts with
      | [] => return .constant false
      | [part] => return part
      | parts => return .junction .any parts : Except Error Condition) = .ok condition)
    (each : ∀ part ∈ parts, Tests column part) : Tests column condition := by
  split at made
  · cases made
    exact .constant false
  · cases made
    exact each _ (List.mem_singleton_self _)
  · cases made
    exact .junction .any each

theorem tests_ofItems {items : List Value} (made : ofItems field column items = .ok condition) :
    Tests column condition := by
  obtain ⟨literals, -, made⟩ := Outcome.bind_eq_ok.mp made
  refine tests_parts made (List.forall_mem_append.mpr ⟨?_, ?_⟩)
  · split
    · exact List.forall_mem_nil _
    · exact List.forall_mem_singleton.mpr (tests_guarded (.among literals))
  · split
    · exact List.forall_mem_singleton.mpr .isNull
    · exact List.forall_mem_nil _

/-- A test of a leaf looks at the leaf's column only. -/
theorem tests_ofLeaf {table : Table} {operator : LeafOperator} {expected : Value}
    (made : ofLeaf table field operator expected = .ok condition) :
    ∃ column, table.column field.column = .ok column ∧ Tests column condition := by
  obtain ⟨column, written, made⟩ := Outcome.bind_eq_ok.mp made
  refine ⟨column, written, ?_⟩
  have listed {condition : Condition} (made : ofList field column expected = .ok condition) :
      Tests column condition := by
    cases expected with
    | list items => exact tests_ofItems made
    | _ => cases made
  cases operator with
  | compared comparison => exact tests_ofComparison made
  | among => exact listed made
  | notAmong =>
    obtain ⟨inner, within, made⟩ := Outcome.bind_eq_ok.mp made
    cases made
    exact .negation (listed within)
  | fullText =>
    cases expected with
    | string terms =>
      cases made
      exact .fullText terms
    | _ => cases made

end Leaves

section Predicates

/-- What a predicate is compiled to speaks of what the predicate is about. -/
def Resolves (catalog : Catalog) (predicate : Predicate) : Prop :=
  ∀ {node : Node}, catalog.node? node.name = some node →
    predicate.fits catalog node.name = true →
      Places catalog node (ofPredicate catalog predicate) (Says catalog predicate)

theorem places_leaf {field : Leaf} {operator : LeafOperator} {value : Value}
    (found : catalog.node? node.name = some node)
    (fits : (Predicate.leaf field operator value).fits catalog node.name = true) :
    Places catalog node (ofPredicate catalog (.leaf field operator value))
      (Says catalog (.leaf field operator value)) := by
  have part : node.component? field.name = some (.leaf field) := by
    simpa [Predicate.fits, found] using fits
  refine Places.reading fun table known => .lift fun condition made site covers => ?_
  subst known
  obtain ⟨column, written, tests⟩ := tests_ofLeaf made
  exact ⟨column, covers.denotes written
    (Node.mem_columns_of_leaf (Node.mem_of_component? part)), tests⟩

theorem places_ofPredicates {operands : List Predicate}
    (found : catalog.node? node.name = some node)
    (each : ∀ operand ∈ operands, Resolves catalog operand)
    (fits : Predicate.fitsAll catalog node.name operands = true) :
    Places catalog node (ofPredicates catalog operands) (SaysAll catalog operands) := by
  induction operands with
  | nil => exact .pure fun _ => rfl
  | cons operand rest ih =>
    rw [List.forall_mem_cons] at each
    rw [Predicate.fitsAll, Bool.and_eq_true] at fits
    exact (each.1 found fits.1).bind fun first => (ih each.2 fits.2).bind fun others =>
      .pure fun site behind here => ⟨first, others, rfl, here, behind⟩

theorem places_ofHead {link : Edge} {head : Option Predicate}
    (part : node.component? link.name = some (.edge link))
    (inner : ∀ predicate, head = some predicate → Resolves catalog predicate)
    (fits : Predicate.fitsHead catalog link.head head = true) :
    Places catalog node (ofHead catalog link head) (SaysHead catalog link head) := by
  cases head with
  | none => exact .pure fun _ => rfl
  | some predicate =>
    have visited : Places catalog node
        (Table.visit catalog (.edge link) none (ofPredicate catalog predicate))
        fun site condition => ∃ target ∈ site.frame,
          target.route = site.here.route ++ [.edge link] ∧
            Says catalog predicate (site.at target) condition := by
      refine .visit part fun target reached => ?_
      have named : target.name = link.head := Catalog.name_of_node? reached
      refine inner predicate rfl (named ▸ reached) ?_
      rw [named]
      exact fits
    exact visited.map fun site condition ⟨target, inside, route, so⟩ =>
      ⟨target, condition, inside, route, rfl, so⟩

theorem places_ofFilter {filter : Option Predicate} (found : catalog.node? node.name = some node)
    (inner : ∀ predicate, filter = some predicate → Resolves catalog predicate)
    (fits : Predicate.fitsHead catalog node.name filter = true) :
    Places catalog node (ofFilter catalog filter) (SaysFilter catalog filter) := by
  cases filter with
  | none => exact .pure fun _ => rfl
  | some predicate =>
    unfold ofFilter
    split
    · next trivial_ => exact .pure fun site => by simp only [SaysFilter, if_pos trivial_]
    · next open_ =>
      refine (inner predicate rfl found fits).map fun site condition so => ?_
      rw [SaysFilter, if_neg open_]
      exact ⟨condition, rfl, so⟩

theorem places_guards {link : Edge} {table : Table} (known : table.node = node)
    (part : node.component? link.name = some (.edge link)) :
    Places catalog node (liftM (guards table link)) fun site columns =>
      Covers table site → site.Refers link columns := by
  refine .lift fun columns made site covers => ?_
  exact covers.refers made (known ▸ Node.mem_of_component? part)

theorem places_edge {link : Edge} {head : Option Predicate}
    (found : catalog.node? node.name = some node)
    (inner : ∀ predicate, head = some predicate → Resolves catalog predicate)
    (fits : (Predicate.edge link head).fits catalog node.name = true) :
    Places catalog node (ofPredicate catalog (.edge link head))
      (Says catalog (.edge link head)) := by
  obtain ⟨⟨definition, found', part⟩, fits⟩ := Predicate.fits_edge fits
  rw [found, Option.some.injEq] at found'
  subst found'
  have headed := places_ofHead part inner fits
  unfold ofPredicate
  split
  · next nullable =>
    refine Places.reading fun table known => (places_guards known part).bind fun columns =>
      headed.bind fun condition => .pure fun site so refers covers => ?_
    rw [Says]
    refine ⟨condition, so, ?_⟩
    rw [if_pos nullable]
    exact ⟨columns, refers covers, rfl⟩
  · next required =>
    refine headed.bind fun condition => .pure fun site so => ?_
    rw [Says]
    refine ⟨condition, so, ?_⟩
    rw [if_neg required]

theorem places_reverse (orderly : Orderly catalog) {relation : ReverseEdge}
    {head : Option Predicate} (found : catalog.node? node.name = some node)
    (inner : ∀ predicate, head = some predicate → Resolves catalog predicate)
    (fits : (Predicate.reverse relation head).fits catalog node.name = true) :
    Places catalog node (ofPredicate catalog (.reverse relation head))
      (Says catalog (.reverse relation head)) := by
  obtain ⟨⟨definition, found', part⟩, fits⟩ := Predicate.fits_reverse fits
  rw [found, Option.some.injEq] at found'
  subst found'
  refine (Places.children orderly found part fun target reached => ?_).bind
    fun (children, filter) => .pure fun site ⟨place, subquery, so⟩ =>
      ⟨children, filter, place, rfl, subquery, so⟩
  have named : target.name = relation.head := Catalog.name_of_node? reached
  exact places_ofFilter (named ▸ reached) inner (named ▸ fits)

theorem places_count (orderly : Orderly catalog) {relation : ReverseEdge} {comparison : Comparison}
    {number : Nat} (found : catalog.node? node.name = some node)
    (fits : (Predicate.count relation comparison number).fits catalog node.name = true) :
    Places catalog node (ofPredicate catalog (.count relation comparison number))
      (Says catalog (.count relation comparison number)) := by
  have part : node.reverseEdge? relation.name = some relation := by
    rw [Predicate.fits, Bool.and_eq_true, decide_eq_true_iff, found] at fits
    exact fits.1
  refine (Places.counting orderly found part).bind ?_
  rintro ⟨children, _⟩
  refine .pure fun site counted => ?_
  obtain ⟨place, subquery⟩ := counted
  exact ⟨children, place, rfl, subquery⟩

theorem resolves (orderly : Orderly catalog) (predicate : Predicate) :
    Resolves catalog predicate := by
  induction predicate with
  | constant value => exact fun _ _ => .pure fun _ => rfl
  | junction kind operands ih =>
    intro node found fits
    exact (places_ofPredicates found ih fits).bind fun conditions =>
      .pure fun site so => ⟨conditions, rfl, so⟩
  | negation operand ih =>
    intro node found fits
    exact (ih found fits).bind fun condition => .pure fun site so => ⟨condition, rfl, so⟩
  | leaf field operator value => exact fun found fits => places_leaf found fits
  | edge link head ih => exact fun found fits => places_edge found ih fits
  | reverse relation head ih => exact fun found fits => places_reverse orderly found ih fits
  | count relation comparison number => exact fun found fits => places_count orderly found fits
  | raw sql =>
    intro node _ fits
    cases fits

end Predicates

end Condition

end LiveQuery.Sql
