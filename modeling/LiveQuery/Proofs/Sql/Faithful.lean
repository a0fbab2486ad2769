import LiveQuery.Proofs.Filter.NormalForm
import LiveQuery.Proofs.Sql.Building
import LiveQuery.Proofs.Sql.Comparing
import LiveQuery.Proofs.Store.Shown

set_option autoImplicit false

namespace LiveQuery

namespace Predicate

/-- What holds of every test of a leaf, at every depth. -/
def Leaves (P : Leaf → LeafOperator → Value → Prop) (predicate : Predicate) : Prop :=
  ∀ field operator value, .leaf field operator value ∈ predicate.parts → P field operator value

variable {P Q : Leaf → LeafOperator → Value → Prop}

theorem leaves_junction_iff {kind : Junction} {operands : List Predicate} :
    Leaves P (.junction kind operands) ↔ ∀ operand ∈ operands, operand.Leaves P := by
  simp only [Leaves, parts, List.mem_cons, reduceCtorEq, false_or, mem_partsAll]
  constructor
  · exact fun each operand inside field operator value member =>
      each field operator value ⟨operand, inside, member⟩
  · rintro each field operator value ⟨operand, inside, member⟩
    exact each operand inside field operator value member

theorem leaves_negation_iff {operand : Predicate} :
    Leaves P (.negation operand) ↔ operand.Leaves P := by
  simp only [Leaves, parts, List.mem_cons, reduceCtorEq, false_or]

theorem leaves_leaf_iff {field : Leaf} {operator : LeafOperator} {value : Value} :
    Leaves P (.leaf field operator value) ↔ P field operator value := by
  simp only [Leaves, parts, List.mem_singleton, Predicate.leaf.injEq]
  constructor
  · exact fun each => each field operator value ⟨rfl, rfl, rfl⟩
  · rintro holds _ _ _ ⟨rfl, rfl, rfl⟩
    exact holds

theorem Leaves.mono {predicate : Predicate} (leaves : predicate.Leaves P)
    (weaker : ∀ field operator value, P field operator value → Q field operator value) :
    predicate.Leaves Q :=
  fun field operator value member =>
    weaker field operator value (leaves field operator value member)

theorem leaves_of_constant (value : Bool) : Leaves P (.constant value) := by
  simp [Leaves, parts]

theorem leaves_edge_iff {link : Edge} {head : Option Predicate} :
    Leaves P (.edge link head) ↔ ∀ inner, head = some inner → inner.Leaves P := by
  cases head <;> simp [Leaves, parts, partsHead]

theorem leaves_reverse_iff {relation : ReverseEdge} {head : Option Predicate} :
    Leaves P (.reverse relation head) ↔ ∀ inner, head = some inner → inner.Leaves P := by
  cases head <;> simp [Leaves, parts, partsHead]

/-- Reduction keeps what it takes from the list of a membership test to its only item. -/
theorem Leaves.reduced {predicate : Predicate} (leaves : predicate.Leaves P)
    (among : ∀ field value, P field .among (.list [value]) → P field (.compared .eq) value)
    (notAmong : ∀ field value, P field .notAmong (.list [value]) → P field (.compared .ne) value) :
    predicate.reduced.Leaves P := by
  have inherited : Inherited fun (_ : Unit) predicate => Leaves P predicate :=
    { constant := leaves_of_constant
      junction := leaves_junction_iff
      negation := leaves_negation_iff
      among := fun held => leaves_leaf_iff.mpr (among _ _ (leaves_leaf_iff.mp held))
      notAmong := fun held => leaves_leaf_iff.mpr (notAmong _ _ (leaves_leaf_iff.mp held))
      edge := fun held kept => leaves_edge_iff.mpr fun inner' same => by
        obtain ⟨inner, found, keeps⟩ := kept inner' same
        exact keeps () (leaves_edge_iff.mp held inner found)
      reverse := fun held kept => leaves_reverse_iff.mpr fun inner' same => by
        obtain ⟨inner, found, keeps⟩ := kept inner' same
        exact keeps () (leaves_reverse_iff.mp held inner found) }
  exact inherited.reduced () leaves

end Predicate

namespace Sql

open Condition

variable {catalog : Catalog} {store : Store} {database : Database}

/-- What compiling against a table comes to: the table has grown, and over the rows of the table
that it has become what was compiled is true or false as it should be. -/
structure Compiled (catalog : Catalog) (store : Store) (table after : Table)
    (truth : Scope → Truth) (answer : Record → Bool) : Prop where
  sound : Sound catalog after
  grown : Grown store table after
  truth_eq : ∀ {scope record}, Placed store scope after record → truth scope = some (answer record)

/-- Whatever a predicate is compiled to, against any table of its node, means what the predicate
means. -/
def Translates (catalog : Catalog) (store : Store) (database : Database) (predicate : Predicate) :
    Prop :=
  ∀ ⦃table after : Table⦄ ⦃condition : Condition⦄, Sound catalog table →
    predicate.fits catalog table.node.name = true →
      ofPredicate catalog predicate table = .ok condition after →
        Compiled catalog store table after (truth database condition) (store.holds predicate)

section Cases

variable {table after : Table}

theorem compiled_all (kind : Junction) {operands : List Predicate} (sound : Sound catalog table)
    (each : ∀ operand ∈ operands, Translates catalog store database operand)
    (fits : ∀ operand ∈ operands, operand.fits catalog table.node.name = true)
    {conditions : List Condition}
    (made : ofPredicates catalog operands table = .ok conditions after) :
    Compiled catalog store table after
      (fun scope => Truth.join kind (truths database conditions scope))
      (store.holdsAll kind operands) := by
  induction operands generalizing table conditions with
  | nil =>
    cases made
    exact ⟨sound, .refl _, fun _ => rfl⟩
  | cons operand rest ih =>
    rw [List.forall_mem_cons] at each fits
    obtain ⟨condition, between, first, made⟩ := Building.bind_eq_ok.mp made
    obtain ⟨others, _, behind, made⟩ := Building.bind_eq_ok.mp made
    cases made
    have here := each.1 sound fits.1 first
    have later := ih here.sound each.2 (by rw [here.grown.node]; exact fits.2) behind
    refine ⟨later.sound, here.grown.trans later.grown, fun placed => ?_⟩
    rw [truths_eq_map, List.map_cons, ← truths_eq_map, here.truth_eq (later.grown.placed placed),
      Truth.join_cons_some, later.truth_eq placed, Store.holdsAll]
    split <;> rfl

theorem translates_junction {kind : Junction} {operands : List Predicate}
    (each : ∀ operand ∈ operands, Translates catalog store database operand) :
    Translates catalog store database (.junction kind operands) := by
  intro table after condition sound fits made
  rw [Predicate.fits, Predicate.fitsAll_iff] at fits
  obtain ⟨conditions, _, made, same⟩ := Building.bind_eq_ok.mp made
  cases same
  exact compiled_all kind sound each fits made

theorem translates_negation {operand : Predicate}
    (inner : Translates catalog store database operand) :
    Translates catalog store database (.negation operand) := by
  intro table after condition sound fits made
  obtain ⟨inside, _, made, same⟩ := Building.bind_eq_ok.mp made
  cases same
  have below := inner sound fits made
  refine ⟨below.sound, below.grown, fun placed => ?_⟩
  rw [truth_negation, below.truth_eq placed, Store.holds]
  rfl

theorem Serves.translates_leaf (serves : Serves catalog store database) {field : Leaf}
    {operator : LeafOperator} {value : Value} (testable : Testable field operator value) :
    Translates catalog store database (.leaf field operator value) := by
  intro table after condition sound fits made
  obtain ⟨_, _, got, made⟩ := Building.bind_eq_ok.mp made
  cases got
  obtain ⟨compiled, rfl⟩ := Building.lift_eq_ok.mp made
  refine ⟨sound, .refl _, fun {scope record} placed => ?_⟩
  rw [Predicate.fits, decide_eq_true_iff, sound.found, Option.bind_some] at fits
  have part := Node.mem_of_component? fits
  obtain ⟨inside, stored⟩ := placed.anchored
  obtain ⟨known, present, canonical⟩ := serves.consistent.complete sound.found record inside _ part
  have held : record.atom? field.name = some (scope table.label field.column) := stored _ part
  rw [Record.atom?, present, Option.bind_some] at held
  rw [truth_ofLeaf canonical held testable compiled, Store.holds, present]
  rfl

/-- The guards of an edge are true where the edge is set; elsewhere one of them is false. -/
theorem Serves.guards_cases (serves : Serves catalog store database) (sound : Sound catalog table)
    {link : Edge} (part : .edge link ∈ table.node.components) {columns : List Column}
    (made : guards table link = .ok columns) {scope : Scope} {record : Record}
    (anchored : Anchored store scope table.label table.node (some record)) :
    (link.target record ≠ none ∧ ∀ column ∈ columns, scope.value column ≠ .null) ∨
      (link.target record = none ∧ ∃ column ∈ columns, scope.value column = .null) := by
  obtain ⟨inside, stored⟩ := anchored
  have paired := Outcome.mapM_eq_ok_iff.mp made
  have held := stored _ part
  simp only [Component.StoredAs] at held
  cases leads : link.target record with
  | none =>
    rw [leads] at held
    obtain ⟨foreignKey, member, null⟩ := held
    obtain ⟨column, among, written⟩ := Lists.exists_right_of_forall₂ paired member
    obtain ⟨label, name⟩ := Table.column_eq_ok written
    exact Or.inr ⟨rfl, column, among, by rw [Scope.value, label, name, null]⟩
  | some target =>
    rw [leads] at held
    have solid :=
      serves.consistent.target_not_null serves.wellFormed sound.found inside part leads
    refine Or.inl ⟨Option.some_ne_none _, fun column among null => solid ?_⟩
    obtain ⟨foreignKey, member, written⟩ := Lists.exists_left_of_forall₂ paired among
    obtain ⟨label, name⟩ := Table.column_eq_ok written
    rw [Scope.value, label, name] at null
    rw [← held, ← null]
    exact List.mem_map_of_mem member

theorem Serves.exists_referred (serves : Serves catalog store database) {name : String}
    {node : Node} (found : catalog.node? name = some node) {record : Record}
    (inside : record ∈ store name) {link : Edge} (part : .edge link ∈ node.components)
    (set : link.target record ≠ none) :
    ∃ other ∈ store link.head, link.refers record other = true := by
  obtain ⟨target, leads⟩ := Option.ne_none_iff_exists'.mp set
  obtain ⟨other, member, columns⟩ :=
    serves.consistent.referential found record inside link part target leads
  exact ⟨other, member, Edge.refers_iff.mpr ⟨target, leads, columns⟩⟩

theorem Serves.target_ne_none (serves : Serves catalog store database) {name : String}
    {node : Node} (found : catalog.node? name = some node) {record : Record}
    (inside : record ∈ store name) {link : Edge} (part : .edge link ∈ node.components)
    (required : link.nullable = false) : link.target record ≠ none := by
  obtain ⟨head, leads⟩ := serves.wellFormed.heads found link part
  obtain ⟨reference, known, identifies⟩ :=
    reference_of_required required (serves.consistent.complete found record inside _ part)
  rw [Edge.target, known]
  exact Option.isSome_iff_ne_none.mp (leads.columnsOf_isSome identifies)

/-- What is compiled for the head of an edge, against the head's table. -/
theorem Serves.compiled_head (serves : Serves catalog store database) (sound : Sound catalog table)
    {link : Edge} (part : .edge link ∈ table.node.components) {head : Option Predicate}
    (each : ∀ inner, head = some inner → Translates catalog store database inner)
    (fits : Predicate.fitsHead catalog link.head head = true) {condition : Option Condition}
    (made : ofHead catalog link head table = .ok condition after) :
    Sound catalog after ∧ Grown store table after ∧
      ∀ {scope record other}, Placed store scope after record → other ∈ store link.head →
        link.refers record other = true →
          Truth.join .all (truthOption database condition scope) =
            some (store.holdsHead head other) := by
  cases head with
  | none =>
    cases made
    exact ⟨sound, .refl _, fun _ _ _ => rfl⟩
  | some inner =>
    obtain ⟨value, visit, rfl⟩ := Building.map_eq_ok.mp made
    obtain ⟨joined, joined', ran, visited⟩ := sound.visit serves.wellFormed store part visit
    have below := each inner rfl visited.sound (by rw [visited.head]; exact fits) ran
    refine ⟨visited.after_sound below.sound below.grown, visited.grown below.grown, ?_⟩
    intro scope record other placed inside refers
    rw [truthOption_some, Truth.join_singleton,
      below.truth_eq (visited.placed placed inside refers)]
    rfl

/-- The condition on an edge. A missing head makes it false, whatever the head's condition makes of
the nulls that are joined in the head's place. -/
theorem Serves.truth_guarded_edge (serves : Serves catalog store database)
    (sound : Sound catalog table) {link : Edge} (part : .edge link ∈ table.node.components)
    {columns : List Column} (made : guards table link = .ok columns) {head : Option Predicate}
    {condition : Option Condition} {scope : Scope} {record : Record}
    (anchored : Anchored store scope table.label table.node (some record))
    (below : ∀ other ∈ store link.head, link.refers record other = true →
      Truth.join .all (truthOption database condition scope) =
        some (store.holdsHead head other)) :
    truth database (.linked columns condition) scope =
      some (store.holds (.edge link head) record) := by
  obtain ⟨target, leads⟩ := serves.wellFormed.heads sound.found link part
  rw [truth_linked]
  rcases serves.guards_cases sound part made anchored with
    ⟨set, each⟩ | ⟨nowhere, column, among, null⟩
  · obtain ⟨other, inside, refers⟩ :=
      serves.exists_referred sound.found anchored.1 part set
    rw [Truth.join_all_of_forall, below other inside refers,
      serves.consistent.holds_edge_of_refers leads inside refers]
    simpa using each
  · rw [Store.holds_edge_of_target_eq_none nowhere]
    refine Truth.join_of_mem (List.mem_append_left _ (List.mem_map.mpr ⟨column, among, ?_⟩))
    rw [decide_eq_false (not_not_intro null)]
    rfl

theorem Serves.translates_edge (serves : Serves catalog store database) {link : Edge}
    {head : Option Predicate}
    (each : ∀ inner, head = some inner → Translates catalog store database inner) :
    Translates catalog store database (.edge link head) := by
  intro table after condition sound fits made
  obtain ⟨⟨definition, found, component⟩, fits⟩ := Predicate.fits_edge fits
  rw [sound.found, Option.some.injEq] at found
  subst found
  have part := Node.mem_of_component? component
  obtain ⟨target, leads⟩ := serves.wellFormed.heads sound.found link part
  rw [ofPredicate] at made
  by_cases nullable : link.nullable = true
  · rw [if_pos nullable] at made
    obtain ⟨_, _, got, made⟩ := Building.bind_eq_ok.mp made
    cases got
    obtain ⟨columns, _, lifted, made⟩ := Building.bind_eq_ok.mp made
    obtain ⟨guarded, rfl⟩ := Building.lift_eq_ok.mp lifted
    obtain ⟨inner, _, headed, made⟩ := Building.bind_eq_ok.mp made
    cases made
    obtain ⟨sound', grown, below⟩ := serves.compiled_head sound part each fits headed
    refine ⟨sound', grown, fun placed => ?_⟩
    exact serves.truth_guarded_edge sound part guarded (grown.placed placed).anchored
      fun other inside refers => below placed inside refers
  · rw [if_neg nullable] at made
    obtain ⟨inner, _, headed, made⟩ := Building.bind_eq_ok.mp made
    cases made
    obtain ⟨sound', grown, below⟩ := serves.compiled_head sound part each fits headed
    refine ⟨sound', grown, fun {scope record} placed => ?_⟩
    obtain ⟨inside, -⟩ := (grown.placed placed).anchored
    have set := serves.target_ne_none sound.found inside part (Bool.not_eq_true _ ▸ nullable)
    obtain ⟨other, member, refers⟩ := serves.exists_referred sound.found inside part set
    have whole := below placed member refers
    rw [serves.consistent.holds_edge_of_refers leads member refers, ← whole]
    cases inner with
    | none => rfl
    | some inner => rw [truthOption_some, Truth.join_singleton]; rfl

end Cases

section Children

variable {table after : Table}

theorem Pairs.congr {link : Edge} {holder holder' target : Table} {pairs : List Match}
    (matched : Pairs link holder target pairs) (same : holder'.label = holder.label) :
    Pairs link holder' target pairs :=
  matched.imp fun _ _ pair => ⟨pair.1.trans same.symm, pair.2⟩

/-- A subquery has a table of its own and leaves the outer table as it is. -/
theorem children_eq_ok {relation : ReverseEdge} {filter : Building (Option Condition)}
    {result : Children × Option Condition}
    (made : children catalog relation filter table = .ok result after) :
    after = table ∧ ∃ head child, catalog.reverseEdgeHead relation = .ok head ∧
      filter (Table.ofNode head (table.headAlias "<" relation.name)) = .ok result.2 child ∧
      child.source = .ok result.1.source ∧
      Pairs relation.edge (Table.ofNode head (table.headAlias "<" relation.name)) table
        result.1.matching := by
  obtain ⟨_, _, got, made⟩ := Building.bind_eq_ok.mp made
  cases got
  obtain ⟨head, _, looked, made⟩ := Building.bind_eq_ok.mp made
  obtain ⟨known, rfl⟩ := Building.lift_eq_ok.mp looked
  obtain ⟨matching, _, lifted, made⟩ := Building.bind_eq_ok.mp made
  obtain ⟨correlated, rfl⟩ := Building.lift_eq_ok.mp lifted
  cases filtered : filter (Table.ofNode head (table.headAlias "<" relation.name)) with
  | ok condition child =>
    simp only [filtered] at made
    obtain ⟨source, _, lifted, made⟩ := Building.bind_eq_ok.mp made
    obtain ⟨written, rfl⟩ := Building.lift_eq_ok.mp lifted
    cases made
    exact ⟨rfl, head, child, liftCatalog_eq_ok.mp known, filtered, written,
      pairs_of_correlate correlated⟩
  | error error child =>
    simp only [filtered] at made
    cases made

/-- The rows that a subquery selects are the rows that refer to the outer row and meet the
condition. -/
theorem Serves.length_children (serves : Serves catalog store database)
    (sound : Sound catalog table) {relation : ReverseEdge}
    (known : table.node.reverseEdge? relation.name = some relation)
    {filter : Building (Option Condition)} {result : Children × Option Condition}
    (made : children catalog relation filter table = .ok result after)
    (tests : Scope → List Truth) (answer : Record → Bool)
    (each : ∀ {before child : Table} {condition : Option Condition}, Sound catalog before →
      before.node.name = relation.head → filter before = .ok condition child →
        condition = result.2 → Compiled catalog store before child
          (fun scope => some (Truth.select (tests scope))) answer) :
    after = table ∧ ∀ {scope record}, Placed store scope table record →
      (result.1.selected database tests scope).length =
        ((store.children relation record).filter answer).length := by
  obtain ⟨-, head, found, part⟩ :=
    serves.wellFormed.relations sound.found relation (List.mem_of_find?_eq_some known)
  have named : head.name = relation.head := Catalog.name_of_node? found
  obtain ⟨rfl, _, child, looked, filtered, written, pairs⟩ := children_eq_ok made
  rw [Catalog.reverseEdgeHead, Catalog.node, found, Except.ok.injEq] at looked
  subst looked
  refine ⟨rfl, fun placed => ?_⟩
  have compiled := each (.ofNode (named ▸ found) _) named filtered rfl
  have node : child.node = head := compiled.grown.node
  refine serves.length_selected compiled.sound written (pairs.congr compiled.grown.label)
    (node ▸ named) (node ▸ part) ?_ placed.anchored fun record inner placed => ?_
  · rw [compiled.grown.label]
    exact not_under marks_reverse after.label relation.name
  · exact Option.some.inj (compiled.truth_eq placed)

end Children

section Reverse

variable {table after : Table} {relation : ReverseEdge}

theorem compiled_filter (sound : Sound catalog table) {head : Option Predicate}
    (each : ∀ inner, head = some inner → Translates catalog store database inner)
    (fits : Predicate.fitsHead catalog table.node.name head = true)
    {condition : Option Condition} (made : ofFilter catalog head table = .ok condition after) :
    Compiled catalog store table after
      (fun scope => some (Truth.select (truthOption database condition scope)))
      (store.holdsHead head) := by
  cases head with
  | none =>
    cases made
    exact ⟨sound, .refl _, fun _ => rfl⟩
  | some inner =>
    rw [ofFilter] at made
    by_cases trivial_ : inner.isTrue = true
    · rw [if_pos trivial_] at made
      cases made
      refine ⟨sound, .refl _, fun _ => ?_⟩
      cases inner with
      | constant value =>
        cases value
        · cases trivial_
        · rfl
      | _ => cases trivial_
    · rw [if_neg trivial_] at made
      obtain ⟨value, compiled, rfl⟩ := Building.map_eq_ok.mp made
      have below := each inner rfl sound fits compiled
      refine ⟨below.sound, below.grown, fun placed => ?_⟩
      rw [truthOption_some, Truth.select, Truth.join_singleton, below.truth_eq placed,
        Store.holdsHead]
      simp

theorem Serves.translates_reverse (serves : Serves catalog store database)
    {head : Option Predicate}
    (each : ∀ inner, head = some inner → Translates catalog store database inner) :
    Translates catalog store database (.reverse relation head) := by
  intro table after condition sound fits made
  obtain ⟨⟨definition, found, known⟩, fits⟩ := Predicate.fits_reverse fits
  rw [sound.found, Option.some.injEq] at found
  subst found
  obtain ⟨⟨children, filter⟩, _, made, same⟩ := Building.bind_eq_ok.mp made
  cases same
  obtain ⟨rfl, lengths⟩ := serves.length_children sound known made (truthOption database filter)
    (store.holdsHead head) (by
      intro before child condition start named filtered same
      subst same
      exact compiled_filter start each (by rw [named]; exact fits) filtered)
  refine ⟨sound, .refl _, fun placed => ?_⟩
  rw [truth_anyChild, Lists.not_isEmpty_eq_any (lengths placed), Store.holds]

theorem Serves.translates_count (serves : Serves catalog store database) {comparison : Comparison}
    {number : Nat} : Translates catalog store database (.count relation comparison number) := by
  intro table after condition sound fits made
  rw [Predicate.fits, Bool.and_eq_true, decide_eq_true_iff, sound.found, Option.bind_some] at fits
  obtain ⟨⟨children, filter⟩, _, made, same⟩ := Building.bind_eq_ok.mp made
  cases same
  obtain ⟨rfl, lengths⟩ := serves.length_children sound fits.1 made (fun _ => []) (fun _ => true)
    (by
      intro before child condition start named filtered same
      cases filtered
      exact ⟨start, .refl _, fun _ => rfl⟩)
  refine ⟨sound, .refl _, fun placed => ?_⟩
  rw [truth_childCount, lengths placed, List.filter_true, Store.holds]

end Reverse

/-- Every predicate without searches and plain SQL compiles to conditions that mean the same. -/
theorem Serves.translates (serves : Serves catalog store database) {predicate : Predicate}
    (testable : predicate.Leaves Testable) : Translates catalog store database predicate := by
  induction predicate with
  | constant value =>
    intro table after condition sound _ made
    cases made
    exact ⟨sound, .refl _, fun _ => rfl⟩
  | junction kind operands ih =>
    rw [Predicate.leaves_junction_iff] at testable
    exact translates_junction fun operand inside => ih operand inside (testable operand inside)
  | negation operand ih =>
    exact translates_negation (ih (Predicate.leaves_negation_iff.mp testable))
  | leaf field operator value =>
    exact serves.translates_leaf (Predicate.leaves_leaf_iff.mp testable)
  | edge link head ih =>
    exact serves.translates_edge fun inner same =>
      ih inner same (Predicate.leaves_edge_iff.mp testable inner same)
  | reverse relation head ih =>
    exact serves.translates_reverse fun inner same =>
      ih inner same (Predicate.leaves_reverse_iff.mp testable inner same)
  | count relation comparison number => exact serves.translates_count
  | raw =>
    intro table after condition _ fits _
    cases fits

end Sql

end LiveQuery
