import LiveQuery.Filter.Identifier
import LiveQuery.Proofs.Filter.Reduction
import LiveQuery.Proofs.Statement.SameIdentifier

set_option autoImplicit false

namespace LiveQuery

namespace Filter

/-- Conditions that test one record component by component, joined and reduced. -/
theorem evaluate_joined {α : Type} {node : String} {step : α → Except StatementError Predicate}
    {items : List α} {test : α → Record → Bool} {fits : Record → Prop}
    (each : ∀ item ∈ items, ∃ condition, step item = .ok condition ∧ ∀ record, fits record →
      condition.evaluate node record = .ok (test item record) ∧ condition.Respects record) :
    ∃ conditions, items.mapM step = .ok conditions ∧ ∀ record, fits record →
      (Predicate.junction .all conditions).reduced.evaluate node record =
          .ok (items.all fun item => test item record) ∧
        (Predicate.junction .all conditions).reduced.Respects record := by
  obtain ⟨conditions, mapped, origin, image⟩ := Outcome.mapM_eq_ok fun item inside =>
    (each item inside).imp fun condition spec => spec.1
  refine ⟨conditions, mapped, fun record shown => ?_⟩
  have known : ∀ condition ∈ conditions, ∃ item ∈ items, step item = .ok condition ∧
      condition.evaluate node record = .ok (test item record) ∧ condition.Respects record := by
    intro condition inside
    obtain ⟨item, member, found⟩ := origin condition inside
    obtain ⟨other, found', spec⟩ := each item member
    have same : other = condition := Except.ok.inj (found'.symm.trans found)
    exact ⟨item, member, found, same ▸ spec record shown⟩
  have settled : ∀ condition ∈ conditions, condition.Settled node record := by
    intro condition inside
    obtain ⟨item, -, -, evaluated, respected⟩ := known condition inside
    exact ⟨⟨_, evaluated⟩, respected⟩
  obtain ⟨value, evaluated, meaning⟩ := Predicate.evaluateAll_all fun condition inside =>
    (settled condition inside).evaluates
  have whole : (Predicate.junction .all conditions).Settled node record :=
    Predicate.Settled.junction settled
  refine ⟨?_, whole.reduced.respected⟩
  rw [whole.evaluate_reduced_eq, Predicate.evaluate_junction, evaluated]
  refine congrArg Except.ok (Bool.eq_iff_iff.mpr ?_)
  rw [meaning, List.all_eq_true]
  constructor
  · intro holds item inside
    obtain ⟨condition, member, found⟩ := image item inside
    obtain ⟨other, found', spec⟩ := each item inside
    have same : other = condition := Except.ok.inj (found'.symm.trans found)
    have tested := (spec record shown).1
    rw [same, holds condition member] at tested
    exact (Except.ok.inj tested).symm
  · intro holds condition inside
    obtain ⟨item, member, -, tested, -⟩ := known condition inside
    rw [tested, holds item member]

theorem coerceOrNull_of_canonical {field : Leaf} {value : Value}
    (canonical : field.Canonical value) : coerceOrNull field value = .ok value := by
  unfold coerceOrNull
  cases value with
  | null => rfl
  | _ => exact canonical.coerce

theorem leaf_of_canonical {node : Node} {field : Leaf} {value : Value}
    (found : node.component? field.name = some (.leaf field)) (canonical : field.Canonical value) :
    leaf node field.name (.compared .eq) value =
      .ok ⟨node, .leaf field (.compared .eq) value⟩ := by
  have looked : node.leaf field.name = .ok field := by
    unfold Node.leaf
    rw [found]
  have kept : operand field (.compared .eq) value = .ok value := coerceOrNull_of_canonical canonical
  unfold leaf
  rw [looked]
  change (operand field (.compared .eq) value >>= _) = _
  rw [kept]
  rfl

variable {catalog : Catalog} {node : Node} {name : String} {id record : Record}

theorem evaluate_leaf_condition {node : String} {field : Leaf} {value value' : Value}
    (known : id.get? field.name = some value) (canonical : field.Canonical value)
    (shown : record.get? field.name = some value') (canonical' : field.Canonical value') :
    (Predicate.leaf field (.compared .eq) value).evaluate node record =
      .ok (decide (record.atom? field.name = id.atom? field.name)) := by
  have required : record.require node field.name = .ok value' := by
    rw [Predicate.require_eq_ok, shown]
  rw [Predicate.evaluate, required, Outcome.ok_bind]
  simp only [LeafOperator.holds, canonical'.looselyEqual_eq canonical, Record.atom?, known, shown,
    Option.bind_some, Outcome.pure_eq_ok]

theorem requireComponent_eq (component : Component) {value : Value}
    (known : id.get? component.name = some value) :
    requireComponent node id component = .ok value := by
  unfold requireComponent
  rw [known]

theorem decide_leaf_key (field : Leaf) (record id : Record) :
    decide (Component.key (.leaf field) record = Component.key (.leaf field) id) =
      decide (record.atom? field.name = id.atom? field.name) := by
  have apart : Function.Injective fun atom : Atom => [atom] := fun _ _ => List.singleton_inj.mp
  exact decide_eq_decide.mpr (Option.map_injective apart).eq_iff

/-- The conditions on the head of an identifier's edge. -/
theorem headConditions_spec (wellFormed : catalog.WellFormed) {link : Edge} {head : Node}
    (leads : catalog.Leads link head) (identifies : catalog.Identifies link id) :
    ∃ conditions, head.identifierComponents.mapM (headCondition head id) = .ok conditions ∧
      ∀ record, catalog.Identifies link record →
        (Predicate.junction .all conditions).reduced.evaluate link.head record =
            .ok (decide (link.columnsOf record = link.columnsOf id)) ∧
          (Predicate.junction .all conditions).reduced.Respects record := by
  have each : ∀ component ∈ head.identifierComponents, ∃ condition,
      headCondition head id component = .ok condition ∧
        ∀ record, catalog.Identifies link record →
          condition.evaluate link.head record =
              .ok (decide (component.key record = component.key id)) ∧
            condition.Respects record := by
    intro component inside
    obtain ⟨field, rfl⟩ := leads.leaf_of_identifier inside
    obtain ⟨value, known, canonical⟩ := identifies head leads.node field inside
    refine ⟨.leaf field (.compared .eq) value, ?_, fun record shown => ⟨?_, trivial⟩⟩
    · unfold headCondition
      rw [requireComponent_eq (.leaf field) known, Outcome.ok_bind]
      simp only [leaf_of_canonical (Node.component?_of_identifier inside) canonical]
      rfl
    · obtain ⟨value', known', canonical'⟩ := shown head leads.node field inside
      rw [evaluate_leaf_condition known canonical known' canonical', decide_leaf_key]
  obtain ⟨conditions, mapped, spec⟩ := evaluate_joined each
  refine ⟨conditions, mapped, fun record shown => ?_⟩
  obtain ⟨evaluated, respected⟩ := spec record shown
  refine ⟨?_, respected⟩
  rw [evaluated]
  refine congrArg Except.ok (Bool.eq_iff_iff.mpr ?_)
  rw [List.all_eq_true, decide_eq_true_iff, ← leads.key_eq_iff,
    (leads.names shown).key_eq_iff wellFormed leads.node (leads.names identifies)]
  simp only [decide_eq_true_iff]

theorem identifierCondition_spec (wellFormed : catalog.WellFormed)
    (found : catalog.node? node.name = some node) {component : Component}
    (inside : component ∈ node.identifierComponents) (holds : catalog.Holds component id) :
    ∃ condition, identifierCondition catalog node id component = .ok condition ∧
      ∀ record, catalog.Names node record →
        condition.evaluate node.name record =
            .ok (decide (component.key record = component.key id)) ∧
          condition.Respects record := by
  cases component with
  | leaf field =>
    obtain ⟨value, known, canonical⟩ := holds
    refine ⟨.leaf field (.compared .eq) value, ?_, fun record shown => ⟨?_, trivial⟩⟩
    · unfold identifierCondition
      rw [requireComponent_eq (.leaf field) known, Outcome.ok_bind]
      simp only [leaf_of_canonical (Node.component?_of_identifier inside) canonical]
      rfl
    · obtain ⟨value', known', canonical'⟩ := shown _ inside
      rw [evaluate_leaf_condition known canonical known' canonical', decide_leaf_key]
  | edge link =>
    have required : link.nullable = false := wellFormed.required found _ inside
    obtain ⟨reference, known, identifies⟩ := reference_of_required required holds
    obtain ⟨head, leads⟩ := wellFormed.heads found link (Node.mem_of_identifier inside)
    obtain ⟨conditions, mapped, spec⟩ := headConditions_spec wellFormed leads identifies
    refine ⟨.edge link (some (Predicate.junction .all conditions).reduced), ?_,
      fun record shown => ?_⟩
    · unfold identifierCondition
      rw [requireComponent_eq (.edge link) known, Outcome.ok_bind]
      simp only [leads.edgeHead_eq]
      change (head.identifierComponents.mapM (headCondition head reference) >>= _) = _
      rw [mapped]
      rfl
    · obtain ⟨reference', known', identifies'⟩ := reference_of_required required (shown _ inside)
      obtain ⟨evaluated, respected⟩ := spec reference' identifies'
      constructor
      · rw [Predicate.evaluate_edge_eq_ok]
        refine ⟨.record reference', known', ?_⟩
        simp only [Component.key, Edge.target, known, known']
        exact evaluated
      · refine ⟨fun _ null => ?_, fun inner same => ?_⟩
        · rw [known'] at null
          cases null
        · rw [known'] at same
          cases same
          exact respected

/-- The filter on a complete identifier recognises the instance that it names. -/
theorem identifier_spec (wellFormed : catalog.WellFormed)
    (found : catalog.node? node.name = some node) (names : catalog.Names node id) :
    ∃ filter, identifier catalog node id = .ok filter ∧ filter.node = node ∧
      ∀ record, catalog.Names node record →
        filter.predicate.evaluate node.name record = .ok (decide (node.key record = node.key id)) ∧
          filter.predicate.Respects record := by
  have each := fun component inside =>
    identifierCondition_spec wellFormed found inside (names component inside)
  obtain ⟨conditions, mapped, spec⟩ := evaluate_joined each
  refine ⟨⟨node, (Predicate.junction .all conditions).reduced⟩, ?_, rfl, fun record shown => ?_⟩
  · unfold identifier
    rw [mapped]
    rfl
  · obtain ⟨evaluated, respected⟩ := spec record shown
    refine ⟨?_, respected⟩
    rw [evaluated]
    refine congrArg Except.ok (Bool.eq_iff_iff.mpr ?_)
    rw [List.all_eq_true, decide_eq_true_iff, shown.key_eq_iff wellFormed found names]
    simp only [decide_eq_true_iff]

/-- The filter on the identifier of a record exists, and tells of every record that names an
instance whether its identifier is that one. -/
theorem execute_identifier {definitions : CatalogDefinition}
    (built : definitions.build = .ok catalog) (found : catalog.node? node.name = some node)
    {origin : Record} (named : catalog.Names node origin)
    (read : node.identifierOf origin = .ok id) (names : catalog.Names node record) :
    ∃ filter own, identifier catalog node id = .ok filter ∧ node.identifierOf record = .ok own ∧
      filter.execute record = .ok (own.same id) := by
  have wellFormed := CatalogDefinition.build_wellFormed built
  obtain ⟨kept, key⟩ := Node.identifierOf_names wellFormed found named read
  obtain ⟨filter, made, same, spec⟩ := identifier_spec wellFormed found kept
  obtain ⟨own, read'⟩ := Node.exists_identifierOf wellFormed found names
  refine ⟨filter, own, made, read', ?_⟩
  rw [execute, same, (spec record names).1, key]
  refine congrArg Except.ok (Bool.eq_iff_iff.mpr ?_)
  rw [decide_eq_true_iff, Node.same_identifierOf_iff wellFormed found names named read' read]

end Filter

namespace Samples

/-- Rooms are identified by a label and by their building, which a street and a number identify. -/
def rooms : CatalogDefinition := [
  ⟨"Building", "buildings", [field "street" .string, field "number" .int],
    [unique ["street", "number"]], []⟩,
  ⟨"Room", "rooms", [field "label" .string, link "building" "Building"],
    [unique ["building", "label"]], []⟩]

def street : Leaf := ⟨"Building", "street", "street", .string, false⟩

def number : Leaf := ⟨"Building", "number", "number", .int, false⟩

def building : Node :=
  ⟨"Building", "buildings", [.leaf street, .leaf number], [],
    [⟨"street_number", ["street", "number"]⟩], ⟨"street_number", ["street", "number"]⟩⟩

def roomBuilding : Edge := ⟨"Room", "building", "Building", false,
  [⟨"street", "building_street"⟩, ⟨"number", "building_number"⟩]⟩

def roomLabel : Leaf := ⟨"Room", "label", "label", .string, false⟩

def room : Node :=
  ⟨"Room", "rooms", [.leaf roomLabel, .edge roomBuilding], [],
    [⟨"building_label", ["building", "label"]⟩], ⟨"building_label", ["building", "label"]⟩⟩

def roomCatalog : Catalog := ⟨[building, room]⟩

theorem build_rooms : rooms.build = .ok roomCatalog := rfl

/-- The room with this label in the building with this number, on one street. -/
def roomAt (number : Int64) (label : String) : Record :=
  [("label", .string label),
    ("building", .record [("street", .string "Main"), ("number", .int number)])]

theorem names_roomAt (number : Int64) (label : String) :
    roomCatalog.Names room (roomAt number label) := by
  intro component inside
  rcases List.mem_cons.mp
    (show component ∈ [.edge roomBuilding, .leaf roomLabel] from inside) with rfl | later
  · refine Or.inr ⟨_, rfl, fun head found field part => ?_⟩
    obtain rfl : building = head := Option.some.inj found
    rcases List.mem_cons.mp
      (show Component.leaf field ∈ [.leaf street, .leaf Samples.number] from part) with first | last
    · cases first
      exact ⟨.string "Main", rfl, rfl⟩
    · cases List.mem_singleton.mp last
      exact ⟨.int number, rfl, rfl⟩
  · cases List.mem_singleton.mp later
    exact ⟨.string label, rfl, rfl⟩

end Samples

open Samples

/-- Of three rooms the filter on the first one matches that one only. -/
theorem Filter.execute_identifier_rooms : ∃ id filter,
    room.identifierOf (roomAt 5 "A") = .ok id ∧ Filter.identifier roomCatalog room id = .ok filter ∧
      filter.execute (roomAt 5 "A") = .ok true ∧ filter.execute (roomAt 6 "A") = .ok false ∧
      filter.execute (roomAt 5 "B") = .ok false := by
  have found : roomCatalog.node? room.name = some room := rfl
  obtain ⟨id, read⟩ : ∃ id, room.identifierOf (roomAt 5 "A") = .ok id := ⟨_, rfl⟩
  obtain ⟨filter, own, made, own_read, own_test⟩ := execute_identifier build_rooms found
    (names_roomAt 5 "A") read (names_roomAt 5 "A")
  obtain ⟨_, other, made', other_read, other_test⟩ := execute_identifier build_rooms found
    (names_roomAt 5 "A") read (names_roomAt 6 "A")
  obtain ⟨_, third, made'', third_read, third_test⟩ := execute_identifier build_rooms found
    (names_roomAt 5 "A") read (names_roomAt 5 "B")
  cases made.symm.trans made'
  cases made.symm.trans made''
  cases read
  cases own_read
  cases other_read
  cases third_read
  exact ⟨_, filter, rfl, made, own_test, other_test, third_test⟩

end LiveQuery
