import LiveQuery.Proofs.Sql.Faithful

set_option autoImplicit false

namespace LiveQuery.Sql

/-- How closely the outermost connective of a text binds. -/
inductive Level where
  /-- Parts joined by OR. -/
  | expression
  /-- Parts joined by AND. -/
  | conjunction
  /-- Possibly negated. -/
  | factor
  | test

/-- The level of parts that are joined. -/
def Level.joined : Junction → Level
  | .all => .conjunction
  | .any => .expression

/-- The level of each part. -/
def Level.part : Junction → Level
  | .all => .factor
  | .any => .conjunction

/-- The rows of a source for which a condition is true. -/
def Source.select (database : Database) (source : Source) (condition : Scope → Truth)
    (outer : Scope) : List Scope :=
  (source.scopes database outer).filter fun inner => condition inner = some true

/-- Texts of conditions, and what they mean. -/
inductive Reads (database : Database) : Level → String → (Scope → Truth) → Prop
  | constant (value : Bool) :
      Reads database .test (Condition.constantText value) fun _ => some value
  | compared (column : Column) (operator : Operator) (literal : Literal) :
      Reads database .test (column.text ++ " " ++ operator.symbol ++ " " ++ literal.text)
        fun scope => operator.truth (scope.value column) literal.value
  | matched (pair : Match) : Reads database .test pair.text fun scope => pair.truth scope
  | isNull (column : Column) : Reads database .test (column.text ++ " IS NULL")
      fun scope => some (decide (scope.value column = .null))
  | isSet (column : Column) : Reads database .test (column.text ++ " IS NOT NULL")
      fun scope => some (decide (scope.value column ≠ .null))
  | among (column : Column) {literals : List Literal} (filled : literals ≠ []) :
      Reads database .test
        (column.text ++ " IN (" ++ ", ".intercalate (literals.map (·.text)) ++ ")")
        fun scope => Truth.join .any (literals.map fun literal =>
          (Operator.compared .eq).truth (scope.value column) literal.value)
  | existing (source : Source) {text : String} {truth : Scope → Truth}
      (inner : Reads database .expression text truth) :
      Reads database .test ("EXISTS (SELECT 1 FROM " ++ source.text ++ " WHERE " ++ text ++ ")")
        fun scope => some !(source.select database truth scope).isEmpty
  | counted (source : Source) (comparison : Comparison) (number : Nat) {text : String}
      {truth : Scope → Truth} (inner : Reads database .expression text truth) :
      Reads database .test
        ("(SELECT COUNT(*) FROM " ++ source.text ++ " WHERE " ++ text ++ ") " ++
          comparison.symbol ++ " " ++ toString number)
        fun scope => some (comparison.holds
          (compare (source.select database truth scope).length number))
  | enclosed {text : String} {truth : Scope → Truth}
      (inner : Reads database .expression text truth) :
      Reads database .test ("(" ++ text ++ ")") truth
  | negated {text : String} {truth : Scope → Truth} (inner : Reads database .factor text truth) :
      Reads database .factor ("NOT " ++ text) fun scope => (truth scope).map not
  | joined (kind : Junction) {parts : List (String × (Scope → Truth))} (filled : parts ≠ [])
      (each : ∀ part ∈ parts, Reads database (Level.part kind) part.1 part.2) :
      Reads database (Level.joined kind)
        ((" " ++ kind.word ++ " ").intercalate (parts.map (·.1)))
        fun scope => Truth.join kind (parts.map fun part => part.2 scope)
  | ofTest {text : String} {truth : Scope → Truth} (inner : Reads database .test text truth) :
      Reads database .factor text truth
  | ofFactor {text : String} {truth : Scope → Truth} (inner : Reads database .factor text truth) :
      Reads database .conjunction text truth
  | ofConjunction {text : String} {truth : Scope → Truth}
      (inner : Reads database .conjunction text truth) : Reads database .expression text truth

section Readings

variable {database : Database}

theorem Reads.congr {level : Level} {text text' : String} {truth truth' : Scope → Truth}
    (reads : Reads database level text truth) (same : text' = text)
    (means : ∀ scope, truth' scope = truth scope) : Reads database level text' truth' := by
  subst same
  rw [funext means]
  exact reads

theorem Reads.join {α : Type} (kind : Junction) {items : List α} {text : α → String}
    {truth : α → Scope → Truth} (filled : items ≠ [])
    (each : ∀ item ∈ items, Reads database .factor (text item) (truth item)) :
    Reads database .expression ((" " ++ kind.word ++ " ").intercalate (items.map text))
      fun scope => Truth.join kind (items.map fun item => truth item scope) := by
  have parts : items.map (fun item => (text item, truth item)) ≠ [] := by simpa using filled
  cases kind with
  | all =>
    have joined := Reads.joined .all parts (List.forall_mem_map.mpr each)
    rw [List.map_map] at joined
    refine (Reads.ofConjunction joined).congr rfl fun scope => ?_
    rw [List.map_map]
    rfl
  | any =>
    have joined := Reads.joined .any parts
      (List.forall_mem_map.mpr fun item inside => .ofFactor (each item inside))
    rw [List.map_map] at joined
    refine joined.congr rfl fun scope => ?_
    rw [List.map_map]
    rfl

/-- A condition whose text is read as what it is. -/
def Condition.Legible (database : Database) (condition : Condition) : Prop :=
  Reads database .factor condition.text (condition.truth database)

namespace Condition

theorem texts_eq_map (operands : List Condition) : texts operands = operands.map text := by
  induction operands with
  | nil => rfl
  | cons operand rest ih => exact congrArg _ ih

theorem text_junction (kind : Junction) (operand : Condition) (rest : List Condition) :
    text (.junction kind (operand :: rest)) =
      "(" ++ (" " ++ kind.word ++ " ").intercalate ((operand :: rest).map text) ++ ")" := by
  rw [← texts_eq_map]
  rfl

theorem text_negation (operand : Condition) :
    text (.negation operand) = "NOT (" ++ operand.text ++ ")" := rfl

theorem text_linked_none (foreignKey : List Column) :
    text (.linked foreignKey none) =
      if foreignKey.length > 1 then "(" ++ " AND ".intercalate (foreignKey.map setText) ++ ")"
      else " AND ".intercalate (foreignKey.map setText) := rfl

theorem text_linked_some (foreignKey : List Column) (head : Condition) :
    text (.linked foreignKey (some head)) =
      "(" ++ " AND ".intercalate (foreignKey.map setText) ++ " AND " ++ head.text ++ ")" := rfl

theorem text_anyChild (children : Children) (filter : Option Condition) :
    text (.anyChild children filter) =
      "EXISTS (" ++ childrenText "1" children (textOption filter) ++ ")" := rfl

theorem text_childCount (children : Children) (comparison : Comparison) (number : Nat) :
    text (.childCount children comparison number) =
      "(" ++ childrenText "COUNT(*)" children none ++ ") " ++ comparison.symbol ++ " " ++
        toString number := rfl

theorem legible_constant (value : Bool) : (constant value).Legible database :=
  .ofTest (.constant value)

theorem legible_junction {kind : Junction} {operands : List Condition}
    (each : ∀ operand ∈ operands, operand.Legible database) :
    (junction kind operands).Legible database := by
  cases operands with
  | nil => exact .ofTest ((Reads.constant kind.unit).congr rfl fun _ => Truth.join_nil)
  | cons operand rest =>
    have joined := Reads.join kind (List.cons_ne_nil _ _) each
    refine (Reads.ofTest (.enclosed joined)).congr ?_ fun scope => ?_
    · rw [text_junction]
    · rw [truth_junction, truths_eq_map]

theorem legible_negation {operand : Condition} (legible : operand.Legible database) :
    (negation operand).Legible database := by
  have inner : Reads database .expression operand.text (operand.truth database) :=
    .ofConjunction (.ofFactor legible)
  refine (Reads.negated (.ofTest (.enclosed inner))).congr ?_ fun scope => truth_negation operand
  rw [text_negation]
  simp only [← String.append_assoc]
  rfl

theorem legible_compared (column : Column) (operator : Operator) (literal : Literal) :
    (compared column operator literal).Legible database :=
  .ofTest (.compared column operator literal)

theorem legible_isNull (column : Column) : (isNull column).Legible database :=
  .ofTest (.isNull column)

theorem legible_isSet (column : Column) : (isSet column).Legible database :=
  .ofTest (.isSet column)

theorem legible_among (column : Column) {literals : List Literal} (filled : literals ≠ []) :
    (among column literals).Legible database :=
  .ofTest (.among column filled)

theorem map_text_isSet (columns : List Column) :
    (columns.map isSet).map text = columns.map setText := by
  rw [List.map_map]
  rfl

theorem map_truth_isSet (columns : List Column) (scope : Scope) :
    (columns.map isSet).map (fun condition => truth database condition scope) =
      columns.map fun column => some (decide (scope.value column ≠ .null)) := by
  rw [List.map_map]
  rfl

theorem legible_linked {foreignKey : List Column} (filled : foreignKey ≠ [])
    {head : Option Condition}
    (each : ∀ condition, head = some condition → condition.Legible database) :
    (linked foreignKey head).Legible database := by
  have sets : ∀ condition ∈ foreignKey.map isSet, condition.Legible database := by
    rw [List.forall_mem_map]
    exact fun column _ => legible_isSet column
  have sets_filled : foreignKey.map isSet ≠ [] := by simpa using filled
  cases head with
  | none =>
    have joined := Reads.join .all sets_filled sets
    rw [map_text_isSet] at joined
    by_cases several : foreignKey.length > 1
    · refine (Reads.ofTest (.enclosed joined)).congr ?_ fun scope => ?_
      · rw [text_linked_none, if_pos several]
        rfl
      · rw [map_truth_isSet, truth_linked, truthOption_none, List.append_nil]
    · obtain ⟨column, rfl⟩ : ∃ column, foreignKey = [column] :=
        List.length_eq_one_iff.mp (by
          have positive := List.length_pos_iff.mpr filled
          omega)
      refine (legible_isSet column).congr ?_ fun scope => ?_
      · rw [text_linked_none, if_neg several, List.map_singleton, String.intercalate_singleton]
        rfl
      · rw [truth_linked, truthOption_none, List.append_nil, List.map_singleton,
          Truth.join_singleton, truth_isSet]
  | some head =>
    have parts : ∀ condition ∈ foreignKey.map isSet ++ [head], condition.Legible database := by
      rw [List.forall_mem_append, List.forall_mem_singleton]
      exact ⟨sets, each head rfl⟩
    have joined := Reads.join .all (List.append_ne_nil_of_right_ne_nil _ (List.cons_ne_nil _ _))
      parts
    refine (Reads.ofTest (.enclosed joined)).congr ?_ fun scope => ?_
    · rw [text_linked_some, List.map_append, map_text_isSet, List.map_singleton,
        String.intercalate_append_of_ne_nil (by simpa using filled) (List.cons_ne_nil _ _),
        String.intercalate_singleton]
      have word : " " ++ Junction.all.word ++ " " = " AND " := rfl
      simp only [word, String.append_assoc]
    · rw [truth_linked, truthOption_some, List.map_append, map_truth_isSet, List.map_singleton]

/-- What follows WHERE in a subquery. -/
theorem reads_children {pairs : List Match} (filled : pairs ≠ []) {filter : Option Condition}
    (each : ∀ condition, filter = some condition → condition.Legible database) :
    Reads database .expression
      (" AND ".intercalate (pairs.map (·.text) ++ (textOption filter).toList)) fun scope =>
        Truth.join .all (pairs.map (Match.truth scope) ++ truthOption database filter scope) := by
  have matched : ∀ part ∈ pairs.map fun pair => (pair.text, fun scope => Match.truth scope pair),
      Reads database .factor part.1 part.2 := by
    rw [List.forall_mem_map]
    exact fun pair _ => .ofTest (.matched pair)
  cases filter with
  | none =>
    refine (Reads.join .all (by simpa using filled) matched).congr ?_ fun scope => ?_
    · rw [List.map_map]
      exact congrArg " AND ".intercalate (List.append_nil _)
    · rw [List.map_map, truthOption_none, List.append_nil]
      rfl
  | some condition =>
    have parts : ∀ part ∈
        (pairs.map fun pair => (pair.text, fun scope => Match.truth scope pair)) ++
          [(condition.text, condition.truth database)],
        Reads database .factor part.1 part.2 := by
      rw [List.forall_mem_append, List.forall_mem_singleton]
      exact ⟨matched, each condition rfl⟩
    refine (Reads.join .all (List.append_ne_nil_of_right_ne_nil _ (List.cons_ne_nil _ _))
      parts).congr ?_ fun scope => ?_
    · rw [List.map_append, List.map_map]
      rfl
    · rw [List.map_append, List.map_map, truthOption_some]
      rfl

theorem legible_anyChild {children : Children} (filled : children.matching ≠ [])
    {filter : Option Condition}
    (each : ∀ condition, filter = some condition → condition.Legible database) :
    (anyChild children filter).Legible database := by
  refine (Reads.ofTest (.existing children.source (reads_children filled each))).congr ?_
    fun scope => rfl
  rw [text_anyChild, childrenText]
  simp only [← String.append_assoc]
  rfl

theorem legible_childCount {children : Children} (filled : children.matching ≠ [])
    (comparison : Comparison) (number : Nat) :
    (childCount children comparison number).Legible database := by
  have clause := @reads_children database children.matching filled none nofun
  refine (Reads.ofTest (.counted children.source comparison number clause)).congr ?_
    fun scope => rfl
  rw [text_childCount, childrenText]
  simp only [← String.append_assoc]
  rfl

section Compiling

variable {field : Leaf} {column : Column}

theorem legible_guarded {condition : Condition} (legible : condition.Legible database) :
    (guarded field column condition).Legible database := by
  unfold guarded
  split
  · refine legible_junction ?_
    rw [List.forall_mem_cons, List.forall_mem_singleton]
    exact ⟨legible_isSet column, legible⟩
  · exact legible

theorem legible_ofComparison {comparison : Comparison} {expected : Value} {condition : Condition}
    (made : ofComparison field column comparison expected = .ok condition) :
    condition.Legible database := by
  have compared (operator : Operator) {literal : Literal} :
      (Condition.compared column operator literal).Legible database :=
    legible_compared column operator literal
  cases comparison with
  | eq =>
    rw [ofComparison] at made
    split at made
    · cases made
      exact legible_isNull column
    · obtain ⟨literal, -, made⟩ := Outcome.bind_eq_ok.mp made
      cases made
      exact compared _
  | ne =>
    rw [ofComparison] at made
    split at made
    · cases made
      exact legible_isSet column
    · split at made
      all_goals
        obtain ⟨literal, -, made⟩ := Outcome.bind_eq_ok.mp made
        cases made
      · exact legible_negation (compared _)
      · exact compared _
  | _ =>
    obtain ⟨literal, -, made⟩ := Outcome.bind_eq_ok.mp made
    cases made
    exact legible_guarded (compared _)

theorem legible_parts {parts : List Condition} {condition : Condition}
    (made : (match parts with
      | [] => return .constant false
      | [part] => return part
      | parts => return .junction .any parts : Except Error Condition) = .ok condition)
    (each : ∀ part ∈ parts, part.Legible database) : condition.Legible database := by
  split at made
  · cases made
    exact legible_constant false
  · cases made
    exact each _ (List.mem_singleton_self _)
  · cases made
    exact legible_junction each

theorem legible_ofItems {items : List Value} {condition : Condition}
    (made : ofItems field column items = .ok condition) : condition.Legible database := by
  obtain ⟨literals, -, made⟩ := Outcome.bind_eq_ok.mp made
  refine legible_parts made (List.forall_mem_append.mpr ⟨?_, ?_⟩)
  · split
    · exact List.forall_mem_nil _
    · rename_i filled
      rw [List.forall_mem_singleton]
      exact legible_guarded (legible_among column (by simpa using filled))
  · split
    · rw [List.forall_mem_singleton]
      exact legible_isNull column
    · exact List.forall_mem_nil _

theorem legible_ofLeaf {table : Table} {operator : LeafOperator} {expected : Value}
    {condition : Condition} (plain : operator ≠ .fullText)
    (made : ofLeaf table field operator expected = .ok condition) :
    condition.Legible database := by
  obtain ⟨column, -, made⟩ := Outcome.bind_eq_ok.mp made
  have listed {condition : Condition} (made : ofList field column expected = .ok condition) :
      condition.Legible database := by
    cases expected with
    | list items => exact legible_ofItems made
    | _ => cases made
  cases operator with
  | compared comparison => exact legible_ofComparison made
  | among => exact listed made
  | notAmong =>
    obtain ⟨inner, within, made⟩ := Outcome.bind_eq_ok.mp made
    cases made
    exact legible_negation (listed within)
  | fullText => exact absurd rfl plain

end Compiling

section Predicates

variable {catalog : Catalog} {table after : Table}

/-- Whatever a predicate is compiled to can be read. -/
def Readable (catalog : Catalog) (database : Database) (predicate : Predicate) : Prop :=
  ∀ ⦃table after : Table⦄ ⦃condition : Condition⦄,
    ofPredicate catalog predicate table = .ok condition after → condition.Legible database

theorem legible_ofPredicates {operands : List Predicate}
    (each : ∀ operand ∈ operands, Readable catalog database operand)
    {conditions : List Condition}
    (made : ofPredicates catalog operands table = .ok conditions after) :
    ∀ condition ∈ conditions, condition.Legible database := by
  induction operands generalizing table conditions with
  | nil =>
    cases made
    exact List.forall_mem_nil _
  | cons operand rest ih =>
    rw [List.forall_mem_cons] at each
    obtain ⟨first, _, here, made⟩ := Building.bind_eq_ok.mp made
    obtain ⟨others, _, behind, made⟩ := Building.bind_eq_ok.mp made
    cases made
    rw [List.forall_mem_cons]
    exact ⟨each.1 here, ih each.2 behind⟩

theorem legible_ofHead {link : Edge} {head : Option Predicate}
    (each : ∀ inner, head = some inner → Readable catalog database inner)
    {condition : Option Condition} (made : ofHead catalog link head table = .ok condition after) :
    ∀ part, condition = some part → part.Legible database := by
  cases head with
  | none =>
    cases made
    exact nofun
  | some inner =>
    obtain ⟨value, visited, rfl⟩ := Building.map_eq_ok.mp made
    obtain ⟨_, _, ran⟩ := visit_ran visited
    rintro part ⟨⟩
    exact each inner rfl ran

theorem legible_ofFilter {head : Option Predicate}
    (each : ∀ inner, head = some inner → Readable catalog database inner)
    {condition : Option Condition} (made : ofFilter catalog head table = .ok condition after) :
    ∀ part, condition = some part → part.Legible database := by
  cases head with
  | none =>
    cases made
    exact nofun
  | some inner =>
    rw [ofFilter] at made
    split at made
    · cases made
      exact nofun
    · obtain ⟨value, ran, rfl⟩ := Building.map_eq_ok.mp made
      rintro part ⟨⟩
      exact each inner rfl ran

theorem matching_ne_nil (wellFormed : catalog.WellFormed) (keyed : catalog.Keyed) {name : String}
    {node : Node} (found : catalog.node? name = some node) {relation : ReverseEdge}
    (known : node.reverseEdge? relation.name = some relation)
    {filter : Building (Option Condition)} {result : Children × Option Condition}
    (made : children catalog relation filter table = .ok result after) :
    result.1.matching ≠ [] := by
  obtain ⟨-, head, found', part⟩ :=
    wellFormed.relations found relation (List.mem_of_find?_eq_some known)
  obtain ⟨-, _, _, -, -, -, pairs⟩ := children_eq_ok made
  intro empty
  rw [Pairs, empty, List.forall₂_nil_right_iff] at pairs
  exact keyed found' relation.edge part pairs

theorem readable_edge (keyed : catalog.Keyed) {name : String} {link : Edge}
    {head : Option Predicate} (fits : (Predicate.edge link head).fits catalog name = true)
    (each : ∀ inner, head = some inner → Readable catalog database inner) :
    Readable catalog database (.edge link head) := by
  intro table after condition made
  obtain ⟨⟨definition, found, component⟩, -⟩ := Predicate.fits_edge fits
  rw [ofPredicate] at made
  split at made
  · obtain ⟨_, _, -, made⟩ := Building.bind_eq_ok.mp made
    obtain ⟨columns, _, lifted, made⟩ := Building.bind_eq_ok.mp made
    obtain ⟨guarded, rfl⟩ := Building.lift_eq_ok.mp lifted
    obtain ⟨inner, _, below, made⟩ := Building.bind_eq_ok.mp made
    cases made
    refine legible_linked ?_ (legible_ofHead each below)
    rintro rfl
    refine keyed found link (Node.mem_of_component? component) ?_
    exact Outcome.eq_nil_of_mapM guarded
  · obtain ⟨inner, _, below, made⟩ := Building.bind_eq_ok.mp made
    cases made
    cases inner with
    | none => exact legible_constant true
    | some inner => exact legible_ofHead each below inner rfl

theorem readable_reverse (wellFormed : catalog.WellFormed) (keyed : catalog.Keyed) {name : String}
    {relation : ReverseEdge} {head : Option Predicate}
    (fits : (Predicate.reverse relation head).fits catalog name = true)
    (each : ∀ inner, head = some inner → Readable catalog database inner) :
    Readable catalog database (.reverse relation head) := by
  intro table after condition made
  obtain ⟨⟨definition, found, known⟩, -⟩ := Predicate.fits_reverse fits
  obtain ⟨⟨result, filter⟩, _, made, same⟩ := Building.bind_eq_ok.mp made
  cases same
  obtain ⟨-, _, _, -, filtered, -⟩ := children_eq_ok made
  exact legible_anyChild (matching_ne_nil wellFormed keyed found known made)
    (legible_ofFilter each filtered)

theorem readable_count (wellFormed : catalog.WellFormed) (keyed : catalog.Keyed) {name : String}
    {relation : ReverseEdge} {comparison : Comparison} {number : Nat}
    (fits : (Predicate.count relation comparison number).fits catalog name = true) :
    Readable catalog database (.count relation comparison number) := by
  intro table after condition made
  rw [Predicate.fits, Bool.and_eq_true, decide_eq_true_iff, Option.bind_eq_some_iff] at fits
  obtain ⟨⟨definition, found, known⟩, -⟩ := fits
  obtain ⟨⟨result, filter⟩, _, made, same⟩ := Building.bind_eq_ok.mp made
  cases same
  exact legible_childCount (matching_ne_nil wellFormed keyed found known made) _ _

/-- The text of what a filter is compiled to is read as what it was printed from. -/
theorem readable (wellFormed : catalog.WellFormed) (keyed : catalog.Keyed) {predicate : Predicate}
    {name : String} (fits : predicate.fits catalog name = true)
    (plain : predicate.Leaves fun _ operator _ => operator ≠ .fullText) :
    Readable catalog database predicate := by
  -- for every node at once: what is below a relation is compiled for the node that it leads to
  induction predicate generalizing name with
  | constant value =>
    intro table after condition made
    cases made
    exact legible_constant value
  | junction kind operands ih =>
    rw [Predicate.leaves_junction_iff] at plain
    rw [Predicate.fits, Predicate.fitsAll_iff] at fits
    intro table after condition made
    obtain ⟨conditions, _, made, same⟩ := Building.bind_eq_ok.mp made
    cases same
    exact legible_junction (legible_ofPredicates (fun operand inside =>
      ih operand inside (fits operand inside) (plain operand inside)) made)
  | negation operand ih =>
    intro table after condition made
    obtain ⟨inner, _, made, same⟩ := Building.bind_eq_ok.mp made
    cases same
    exact legible_negation (ih fits (Predicate.leaves_negation_iff.mp plain) made)
  | leaf field operator value =>
    intro table after condition made
    obtain ⟨_, _, got, made⟩ := Building.bind_eq_ok.mp made
    cases got
    obtain ⟨compiled, rfl⟩ := Building.lift_eq_ok.mp made
    exact legible_ofLeaf (Predicate.leaves_leaf_iff.mp plain) compiled
  | edge link head ih =>
    refine readable_edge keyed fits fun inner same => ?_
    subst same
    exact ih inner rfl (Predicate.fits_edge fits).2 (Predicate.leaves_edge_iff.mp plain inner rfl)
  | reverse relation head ih =>
    refine readable_reverse wellFormed keyed fits fun inner same => ?_
    subst same
    exact ih inner rfl (Predicate.fits_reverse fits).2
      (Predicate.leaves_reverse_iff.mp plain inner rfl)
  | count relation comparison number => exact readable_count wellFormed keyed fits
  | raw => cases fits

end Predicates

end Condition

end Readings

end LiveQuery.Sql
