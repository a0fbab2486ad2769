import LiveQuery.Proofs.Selection.Made
import LiveQuery.Proofs.Value.Coercion
import LiveQuery.Selection.Projection

set_option autoImplicit false

namespace LiveQuery

namespace SelectionField

variable {node node' : String} {fields : List SelectionField} {record selected : Record}

/-- A count stays as it is. -/
theorem countOf?_idem {raw value : Value} (counted : countOf? raw = some value) :
    countOf? value = some value := by
  cases raw with
  | int number =>
    simp only [countOf?] at counted
    split at counted
    · rename_i sign
      cases counted
      exact if_pos sign
    · cases counted
  | string text =>
    simp only [countOf?] at counted
    split at counted
    · rename_i number _
      split at counted
      · rename_i small
        cases counted
        have bound : number < 2 ^ 63 := by
          rw [Int64.toInt_maxValue] at small
          omega
        have sign : 0 ≤ (Int64.ofNat number).toInt := by
          rw [Int64.toInt_ofNat_of_lt bound]
          omega
        exact if_pos sign
      · cases counted
    · cases counted
  | _ => cases counted

section Steps

/-- A projected record holds, for each field in turn, what the field makes of the raw value under
its key. -/
theorem projectFields_eq_ok : projectFields node record fields = .ok selected ↔
    List.Forall₂ (fun field entry => entry.1 = field.key ∧
      ∃ raw, record.get? field.key = some raw ∧ projectValue node raw field = .ok entry.2)
      fields selected := by
  induction fields generalizing selected with
  | nil =>
    rw [projectFields, List.forall₂_nil_left_iff, Except.ok.injEq, eq_comm]
  | cons field rest ih =>
    rw [projectFields, List.forall₂_cons_left_iff]
    constructor
    · intro projected
      obtain ⟨raw, required, projected⟩ := Outcome.bind_eq_ok.mp projected
      obtain ⟨value, made, projected⟩ := Outcome.bind_eq_ok.mp projected
      obtain ⟨others, below, projected⟩ := Outcome.bind_eq_ok.mp projected
      cases projected
      refine ⟨_, others, ⟨rfl, raw, ?_, made⟩, ih.mp below, rfl⟩
      unfold Record.require at required
      cases found : record.get? field.key with
      | none => rw [found] at required; cases required
      | some value => rw [found] at required; cases required; rfl
    · rintro ⟨⟨key, value⟩, others, ⟨rfl, raw, found, made⟩, below, rfl⟩
      rw [Record.require, found, Outcome.ok_bind, made, Outcome.ok_bind, ih.mpr below]
      rfl

/-- A projected list holds a record for each of the raw ones. -/
theorem projectItems_eq_ok {key expected : String} {raw : Value}
    {project : Record → Except StatementError Record} {items values : List Value} :
    projectItems node key expected raw project items = .ok values ↔
      List.Forall₂ (fun item value => ∃ head record, item = .record head ∧
        project head = .ok record ∧ value = .record record) items values := by
  induction items generalizing values with
  | nil => rw [projectItems, List.forall₂_nil_left_iff, Except.ok.injEq, eq_comm]
  | cons item rest ih =>
    rw [List.forall₂_cons_left_iff]
    cases item with
    | record head =>
      rw [projectItems]
      constructor
      · intro projected
        obtain ⟨record, made, projected⟩ := Outcome.bind_eq_ok.mp projected
        obtain ⟨others, below, projected⟩ := Outcome.bind_eq_ok.mp projected
        cases projected
        exact ⟨_, others, ⟨head, record, rfl, made, rfl⟩, ih.mp below, rfl⟩
      · rintro ⟨_, others, ⟨_, record, same, made, rfl⟩, below, rfl⟩
        cases same
        rw [made, Outcome.ok_bind, ih.mpr below]
        rfl
    | _ =>
      constructor
      · intro projected
        cases projected
      · rintro ⟨_, _, ⟨_, _, same, -⟩, -⟩
        cases same

theorem projectValue_edge {key : String} {link : Edge} {head : List SelectionField}
    {raw value : Value} : projectValue node raw (.edge key link head) = .ok value ↔
      (link.nullable = true ∧ raw = .null ∧ value = .null) ∨
        ∃ record selected, raw = .record record ∧ value = .record selected ∧
          projectFields link.head record head = .ok selected := by
  cases raw with
  | null => cases nullable : link.nullable <;> simp [projectValue, nullable, invalid, eq_comm]
  | record record =>
    constructor
    · intro made
      obtain ⟨selected, projected, made⟩ := Outcome.bind_eq_ok.mp made
      cases made
      exact Or.inr ⟨record, selected, rfl, rfl, projected⟩
    · rintro (⟨-, same, -⟩ | ⟨_, selected, same, rfl, projected⟩)
      · cases same
      · cases same
        rw [projectValue, projected]
        rfl
  | _ => simp [projectValue, invalid]

theorem projectValue_unique {key : String} {relation : ReverseEdge} {head : List SelectionField}
    {raw value : Value} : projectValue node raw (.unique key relation head) = .ok value ↔
      (raw = .null ∧ value = .null) ∨
        ∃ record selected, raw = .record record ∧ value = .record selected ∧
          projectFields relation.head record head = .ok selected := by
  cases raw with
  | null => simp [projectValue, eq_comm]
  | record record =>
    constructor
    · intro made
      obtain ⟨selected, projected, made⟩ := Outcome.bind_eq_ok.mp made
      cases made
      exact Or.inr ⟨record, selected, rfl, rfl, projected⟩
    · rintro (⟨same, -⟩ | ⟨_, selected, same, rfl, projected⟩)
      · cases same
      · cases same
        rw [projectValue, projected]
        rfl
  | _ => simp [projectValue, invalid]

theorem projectValue_multiple {key : String} {relation : ReverseEdge} {window : Window}
    {head : List SelectionField} {raw value : Value} :
    projectValue node raw (.multiple key relation window head) = .ok value ↔
      ∃ items values, raw = .list items ∧ value = .list values ∧
        List.Forall₂ (fun item value => ∃ record selected, item = .record record ∧
          projectFields relation.head record head = .ok selected ∧ value = .record selected)
          items values := by
  cases raw with
  | list items =>
    simp only [projectValue]
    constructor
    · intro made
      obtain ⟨values, projected, made⟩ := Outcome.bind_eq_ok.mp made
      cases made
      exact ⟨items, values, rfl, rfl, projectItems_eq_ok.mp projected⟩
    · rintro ⟨_, values, same, rfl, projected⟩
      cases same
      rw [projectItems_eq_ok.mpr projected]
      rfl
  | _ => simp [projectValue, invalid]

theorem projectValue_count {key : String} {relation : ReverseEdge} {filter : Option Predicate}
    {raw value : Value} : projectValue node raw (.count key relation filter) = .ok value ↔
      countOf? raw = some value := by
  rw [projectValue]
  cases countOf? raw <;> simp [invalid]

end Steps

section Serving

variable {wide narrow : SelectionField}

theorem get?_of_projectFields (unique : (fields.map key).Nodup)
    (projected : projectFields node record fields = .ok selected) {field : SelectionField}
    (inside : field ∈ fields) : ∃ raw value, record.get? field.key = some raw ∧
      selected.get? field.key = some value ∧ projectValue node raw field = .ok value := by
  have paired := projectFields_eq_ok.mp projected
  clear projected
  induction paired with
  | nil => cases inside
  | @cons first entry rest others both _ ih =>
    obtain ⟨same, raw, present, made⟩ := both
    rw [List.map_cons, List.nodup_cons] at unique
    rcases List.mem_cons.mp inside with rfl | later
    · exact ⟨raw, entry.2, present, by rw [Entries.get?, if_pos same], made⟩
    · have apart : entry.1 ≠ field.key := by
        intro again
        apply unique.1
        rw [← same, again]
        exact List.mem_map_of_mem later
      obtain ⟨raw, value, present, found, made⟩ := ih unique.2 later
      exact ⟨raw, value, present, by rw [Entries.get?, if_neg apart, found], made⟩

/-- One field makes the same of a raw value and of what another one made of it. -/
def Serves (wide narrow : SelectionField) : Prop :=
  ∀ {node raw value}, projectValue node raw wide = .ok value →
    ∃ served, projectValue node raw narrow = .ok served ∧
      projectValue node value narrow = .ok served

/-- Fields that are each included in one that serves them are served together. -/
theorem projectFields_of_serves {others : List SelectionField}
    (each : ∀ wide ∈ fields, ∀ narrow, wide.includes narrow = true → Serves wide narrow)
    (unique : (fields.map key).Nodup) (includes : includesAll fields others = true)
    (projected : projectFields node record fields = .ok selected) :
    ∃ served, projectFields node record others = .ok served ∧
      projectFields node selected others = .ok served := by
  induction others with
  | nil => exact ⟨[], rfl, rfl⟩
  | cons narrow rest ih =>
    rw [includesAll, Bool.and_eq_true, List.any_eq_true] at includes
    obtain ⟨⟨wide, inside, above⟩, behind⟩ := includes
    obtain ⟨raw, value, present, found, made⟩ := get?_of_projectFields unique projected inside
    obtain ⟨served, first, again⟩ := each wide inside narrow above made
    obtain ⟨servedRest, firstRest, againRest⟩ := ih behind
    have keys : wide.key = narrow.key := (spec_of_akin (akin_of_includes above)).1
    rw [keys] at found present
    refine ⟨(narrow.key, served) :: servedRest, ?_, ?_⟩
    · simp only [projectFields, Record.require, present, Outcome.ok_bind, first, firstRest,
        Outcome.pure_eq_ok]
    · simp only [projectFields, Record.require, found, Outcome.ok_bind, again, againRest,
        Outcome.pure_eq_ok]

/-- A well-formed field serves what it includes. -/
theorem serves_of_includes (valid : wide.valid = true) (includes : wide.includes narrow = true) :
    Serves wide narrow := by
  induction wide using induction_head generalizing narrow with
  | step wide ih =>
    intro node raw value made
    rw [includes_eq, Bool.and_eq_true] at includes
    obtain ⟨same, heads⟩ := includes
    obtain ⟨-, -, unique, sound⟩ := (valid_iff.mp valid).imp_right validAll_iff.mp
    -- whichever relation leads to the heads, what is wanted of them is served
    have serve {target : String} {record selected : Record}
        (projected : projectFields target record wide.head = .ok selected) :
        ∃ served, projectFields target record narrow.head = .ok served ∧
          projectFields target selected narrow.head = .ok served :=
      projectFields_of_serves (fun inner inside _ => ih inner inside (sound inner inside)) unique
        heads projected
    cases wide <;> cases narrow <;>
      simp only [akin, Bool.and_eq_true, decide_eq_true_eq, Bool.false_eq_true] at same
    case leaf.leaf =>
      obtain ⟨rfl, rfl⟩ := same
      exact ⟨value, made, (Leaf.canonical_of_coerce made).coerce⟩
    case edge.edge =>
      obtain ⟨rfl, rfl⟩ := same
      rcases projectValue_edge.mp made with
        ⟨nullable, rfl, rfl⟩ | ⟨record, selected, rfl, rfl, projected⟩
      · exact ⟨.null, projectValue_edge.mpr (Or.inl ⟨nullable, rfl, rfl⟩),
          projectValue_edge.mpr (Or.inl ⟨nullable, rfl, rfl⟩)⟩
      · obtain ⟨served, first, again⟩ := serve projected
        exact ⟨.record served, projectValue_edge.mpr (Or.inr ⟨record, served, rfl, rfl, first⟩),
          projectValue_edge.mpr (Or.inr ⟨selected, served, rfl, rfl, again⟩)⟩
    case unique.unique =>
      obtain ⟨rfl, rfl⟩ := same
      rcases projectValue_unique.mp made with
        ⟨rfl, rfl⟩ | ⟨record, selected, rfl, rfl, projected⟩
      · exact ⟨.null, projectValue_unique.mpr (Or.inl ⟨rfl, rfl⟩),
          projectValue_unique.mpr (Or.inl ⟨rfl, rfl⟩)⟩
      · obtain ⟨served, first, again⟩ := serve projected
        exact ⟨.record served, projectValue_unique.mpr (Or.inr ⟨record, served, rfl, rfl, first⟩),
          projectValue_unique.mpr (Or.inr ⟨selected, served, rfl, rfl, again⟩)⟩
    case multiple.multiple =>
      obtain ⟨⟨rfl, rfl⟩, -⟩ := same
      obtain ⟨items, values, rfl, rfl, paired⟩ := projectValue_multiple.mp made
      clear made
      suffices ∃ served, _ ∧ _ by
        obtain ⟨served, first, again⟩ := this
        exact ⟨.list served, projectValue_multiple.mpr ⟨items, served, rfl, rfl, first⟩,
          projectValue_multiple.mpr ⟨values, served, rfl, rfl, again⟩⟩
      induction paired with
      | nil => exact ⟨[], .nil, .nil⟩
      | cons one _ below =>
        obtain ⟨record, selected, rfl, projected, rfl⟩ := one
        obtain ⟨served, first, again⟩ := serve projected
        obtain ⟨others, firstRest, againRest⟩ := below
        exact ⟨.record served :: others, .cons ⟨record, served, rfl, first, rfl⟩ firstRest,
          .cons ⟨selected, served, rfl, again, rfl⟩ againRest⟩
    case count.count =>
      obtain ⟨⟨rfl, rfl⟩, -⟩ := same
      have counted := projectValue_count.mp made
      exact ⟨value, projectValue_count.mpr counted, projectValue_count.mpr (countOf?_idem counted)⟩

end Serving

section Shape

mutual

/-- A value of the selected shape: behind relations, records of what is wanted of the heads. -/
def Shaped : SelectionField → Value → Prop
  | .leaf _ field, value => field.Canonical value
  | .edge _ link head, value =>
    (link.nullable = true ∧ value = .null) ∨ ∃ record, value = .record record ∧ ShapedAll head record
  | .unique _ _ head, value =>
    value = .null ∨ ∃ record, value = .record record ∧ ShapedAll head record
  | .multiple _ _ _ head, value =>
    ∃ items, value = .list items ∧ ∀ item ∈ items, ∃ record, item = .record record ∧
      ShapedAll head record
  | .count _ _ _, value => countOf? value = some value

/-- A record with exactly the keys of the fields, in their order, each with a value of its shape. -/
def ShapedAll : List SelectionField → Record → Prop
  | [], record => record = []
  | field :: rest, record =>
    ∃ value others, record = (field.key, value) :: others ∧ Shaped field value ∧
      ShapedAll rest others

end

theorem shapedAll_of {raw : Record}
    (each : ∀ field ∈ fields, ∀ {node raw value}, projectValue node raw field = .ok value →
      Shaped field value)
    (projected : projectFields node raw fields = .ok selected) : ShapedAll fields selected := by
  have paired := projectFields_eq_ok.mp projected
  clear projected
  induction paired with
  | nil => rfl
  | @cons field entry rest others both _ ih =>
    rw [List.forall_mem_cons] at each
    obtain ⟨key, value⟩ := entry
    obtain ⟨rfl, raw, -, made⟩ := both
    exact ⟨value, others, rfl, each.1 made, ih each.2⟩

theorem shaped_of_projectValue {field : SelectionField} {raw value : Value}
    (made : projectValue node raw field = .ok value) : Shaped field value := by
  induction field using induction_head generalizing node raw value with
  | step field ih =>
    cases field with
    | leaf key field => exact Leaf.canonical_of_coerce made
    | edge key link head =>
      exact (projectValue_edge.mp made).imp (fun null => ⟨null.1, null.2.2⟩)
        fun ⟨_, selected, _, same, projected⟩ => ⟨selected, same, shapedAll_of ih projected⟩
    | unique key relation head =>
      exact (projectValue_unique.mp made).imp And.right
        fun ⟨_, selected, _, same, projected⟩ => ⟨selected, same, shapedAll_of ih projected⟩
    | multiple key relation window head =>
      obtain ⟨items, values, -, rfl, paired⟩ := projectValue_multiple.mp made
      refine ⟨values, rfl, fun item inside => ?_⟩
      obtain ⟨_, -, record, selected, -, projected, rfl⟩ :=
        Lists.exists_left_of_forall₂ paired inside
      exact ⟨selected, rfl, shapedAll_of ih projected⟩
    | count => exact countOf?_idem (projectValue_count.mp made)

end Shape

end SelectionField

namespace Selection

variable {wide narrow : Selection} {raw selected : Record}

/-- What a selection made of a raw record has exactly its shape, at every level. -/
theorem shaped_of_project (projected : wide.project raw = .ok selected) :
    SelectionField.ShapedAll wide.fields selected :=
  SelectionField.shapedAll_of (fun _ _ => SelectionField.shaped_of_projectValue) projected

/-- What a well-formed selection made of a raw record serves every selection that it includes. -/
theorem project_of_includes (valid : wide.Valid) (includes : wide.includes narrow = true)
    (projected : wide.project raw = .ok selected) :
    ∃ served, narrow.project raw = .ok served ∧ narrow.project selected = .ok served := by
  obtain ⟨node, above⟩ := includes_iff.mp includes
  obtain ⟨-, unique, sound⟩ := SelectionField.validAll_iff.mp valid
  unfold project
  rw [← node]
  exact SelectionField.projectFields_of_serves
    (fun field inside _ => SelectionField.serves_of_includes (sound field inside)) unique above
    projected

/-- A record that was selected stands in for the raw one: what it is included in it serves, with
exactly the keys that were wanted. Inclusion is an order on the selections that can be made. -/
theorem narrowing {catalog : Catalog} :
    (∀ wide narrow : Selection, wide.Made catalog → wide.includes narrow = true →
      ∀ raw selected : Record, wide.project raw = .ok selected →
        (∃ served, narrow.project raw = .ok served ∧ narrow.project selected = .ok served) ∧
          SelectionField.ShapedAll wide.fields selected) ∧
      (∀ selection : Selection, selection.Made catalog → selection.includes selection = true) ∧
        ∀ wide middle narrow : Selection, wide.includes middle = true →
          middle.includes narrow = true → wide.includes narrow = true := by
  refine ⟨?_, ?_, ?_⟩
  · intro wide narrow made includes raw selected projected
    have served := project_of_includes made.valid includes projected
    exact ⟨served, shaped_of_project projected⟩
  · intro selection made
    exact includes_refl made.valid
  · intro wide middle narrow first second
    exact includes_trans first second

end Selection

namespace Samples

/-- A task as it may come from a store, with more in it than is wanted. -/
def rawTask : Record :=
  [("owner", .record [("id", .int 1), ("name", .string "Ada")]), ("number", .int 7)]

end Samples

open Samples

theorem Selection.narrowing_task_sheet :
    taskSheet.Made boardCatalog ∧ taskSheet.includes ownerOnly = true ∧
      taskSheet.project rawTask = .ok [("number", .int 7), ("owner", .record [("id", .int 1)])] ∧
        ∃ served, ownerOnly.project rawTask = .ok served ∧
          ownerOnly.project [("number", .int 7), ("owner", .record [("id", .int 1)])] =
            .ok served := by
  have made : taskSheet.Made boardCatalog := .merged made_numberOnly made_ownerOnly merge_sheet
  have includes : taskSheet.includes ownerOnly = true := by decide
  have projected : taskSheet.project rawTask =
    .ok [("number", .int 7), ("owner", .record [("id", .int 1)])] := rfl
  exact ⟨made, includes, projected,
    (narrowing.1 taskSheet ownerOnly made includes rawTask _ projected).1⟩

end LiveQuery
