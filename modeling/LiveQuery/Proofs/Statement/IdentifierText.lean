import LiveQuery.Proofs.Catalog.WellFormed
import LiveQuery.Proofs.Statement.InstanceKey
import LiveQuery.Proofs.Value.Told

set_option autoImplicit false

namespace LiveQuery

/-- No instant is part of what identifies the node, also where edges identify it. -/
def Catalog.Timeless (catalog : Catalog) (node : Node) : Prop :=
  ∀ component ∈ node.identifierComponents, ∀ field, catalog.ToldBy component field →
    field.type ≠ .instant

variable {catalog : Catalog} {node : Node} {name : String} {record record' id id' : Record}

theorem Node.readsBehind_identifierOf (wellFormed : catalog.WellFormed)
    (found : catalog.node? name = some node) (keeps : catalog.KeepsReferences node record)
    (keeps' : catalog.KeepsReferences node record') (read : node.identifierOf record = .ok id)
    (read' : node.identifierOf record' = .ok id') :
    Value.ReadsBehind Value.ToldAlike (.record id) (.record id') :=
  Node.related_identifierOf wellFormed found
    (fun _ _ _ _ _ _ kept kept' => LeafType.readsBehind_of_coerce? kept kept')
    Value.relatesRecords_toldAlike.readsBehind keeps keeps' read read'

theorem Node.toldInFull_identifierOf (wellFormed : catalog.WellFormed)
    (found : catalog.node? name = some node) (timeless : catalog.Timeless node)
    (keeps : catalog.KeepsReferences node record) (keeps' : catalog.KeepsReferences node record')
    (read : node.identifierOf record = .ok id) (read' : node.identifierOf record' = .ok id') :
    (Value.record id).ToldInFull (.record id') := by
  refine Node.related_identifierOf wellFormed found ?_ Value.relatesRecords_toldInFull keeps keeps'
    read read'
  intro component inside field told value value' kept kept'
  have typed := timeless component inside field told
  exact ⟨LeafType.told_eq_of_coerce? typed kept, LeafType.told_eq_of_coerce? typed kept'⟩

/-- Identifiers of a node have one text exactly if they are told alike. Where they are told in full,
as they are without instants, the text tells which identifier it is. -/
theorem Node.text_identifierOf_eq_iff {definitions : CatalogDefinition}
    (built : definitions.build = .ok catalog) (found : catalog.node? name = some node)
    (keeps : catalog.KeepsReferences node record) (keeps' : catalog.KeepsReferences node record')
    (read : node.identifierOf record = .ok id) (read' : node.identifierOf record' = .ok id') :
    (id.text = id'.text ↔ (Value.record id).ToldAlike (.record id')) ∧
      ((Value.record id).ToldInFull (.record id') → (id.text = id'.text ↔ id = id')) ∧
      (catalog.Timeless node → (Value.record id).ToldInFull (.record id')) := by
  have wellFormed := CatalogDefinition.build_wellFormed built
  have told : id.text = id'.text ↔ (Value.record id).ToldAlike (.record id') := by
    constructor
    · intro same
      exact (readsBehind_identifierOf wellFormed found keeps keeps' read read').of_text_eq same
    · intro alike
      exact alike.text_eq
  refine ⟨told, ?_, fun timeless =>
    toldInFull_identifierOf wellFormed found timeless keeps keeps' read read'⟩
  rintro ⟨full, full'⟩
  rw [told, Value.ToldAlike, full, full', Value.record.injEq]

namespace Samples

/-- Readings are identified by their sensor and by when they were taken. -/
def readings : CatalogDefinition := [
  ⟨"Sensor", "sensors", [field "code" .int], [unique ["code"]], []⟩,
  ⟨"Reading", "readings", [link "sensor" "Sensor", field "at" .instant],
    [unique ["sensor", "at"]], []⟩]

def sensor : Node :=
  ⟨"Sensor", "sensors", [.leaf ⟨"Sensor", "code", "code", .int, false⟩], [],
    [⟨"code", ["code"]⟩], ⟨"code", ["code"]⟩⟩

def readingSensor : Edge := ⟨"Reading", "sensor", "Sensor", false, [⟨"code", "sensor_code"⟩]⟩

def readingTime : Leaf := ⟨"Reading", "at", "at", .instant, false⟩

def reading : Node :=
  ⟨"Reading", "readings", [.edge readingSensor, .leaf readingTime], [],
    [⟨"sensor_at", ["sensor", "at"]⟩], ⟨"sensor_at", ["sensor", "at"]⟩⟩

def readingCatalog : Catalog := ⟨[sensor, reading]⟩

theorem build_readings : readings.build = .ok readingCatalog := rfl

/-- A reading of the first sensor, so many microseconds within the first second. -/
def readingAt (micros : Fin 1000000) : Record :=
  [("sensor", .record [("code", .int 1)]),
    ("at", .instant ⟨0, micros * 1000, by omega⟩)]

theorem identifierOf_reading (micros : Fin 1000000) :
    reading.identifierOf (readingAt micros) = .ok (readingAt micros) := rfl

theorem keeps_reading (micros : Fin 1000000) :
    readingCatalog.KeepsReferences reading (readingAt micros) := by
  intro link inside reference stored head found field part
  obtain rfl : link = readingSensor := by
    rcases List.mem_cons.mp
      (show Component.edge link ∈ [.edge readingSensor, .leaf readingTime] from inside)
      with same | later
    · exact Component.edge.inj same
    · cases List.mem_singleton.mp later
  cases stored
  obtain rfl : sensor = head := Option.some.inj found
  cases List.mem_singleton.mp
    (show Component.leaf field ∈ [.leaf ⟨"Sensor", "code", "code", .int, false⟩] from part)
  exact ⟨.int 1, rfl, rfl⟩

theorem toldAlike_reading_iff (micros micros' : Fin 1000000) :
    (Value.record (readingAt micros)).ToldAlike (.record (readingAt micros')) ↔
      micros.val / 1000 = micros'.val / 1000 := by
  have cut (micros : Fin 1000000) : (Value.record (readingAt micros)).told =
      .record [("sensor", .record [("code", .int 1)]),
        ("at", .instant ⟨0, micros * 1000 / 1000000 * 1000000, by omega⟩)] := by
    have early : micros.val * 1000 < Instant.nanosPerSecond := by
      unfold Instant.nanosPerSecond
      omega
    simp only [readingAt, Value.told, Value.toldFields, Instant.told, early, true_or, ↓reduceIte]
  rw [Value.ToldAlike, cut, cut]
  simp only [Value.record.injEq, List.cons.injEq, Prod.mk.injEq, Value.instant.injEq,
    Instant.mk.injEq, true_and, and_true]
  omega

end Samples

open Samples

/-- Two readings within a millisecond have one text, though they are two. -/
theorem Node.text_identifierOf_eq_iff_readings : ∃ id id' later,
    reading.identifierOf (readingAt 250100) = .ok id ∧
      reading.identifierOf (readingAt 250200) = .ok id' ∧
      reading.identifierOf (readingAt 251000) = .ok later ∧
      id ≠ id' ∧ id.text = id'.text ∧ id.text ≠ later.text := by
  refine ⟨_, _, _, identifierOf_reading _, identifierOf_reading _, identifierOf_reading _, ?_⟩
  have found : readingCatalog.node? "Reading" = some reading := rfl
  have texts (micros micros' : Fin 1000000) :
      Record.text (readingAt micros) = Record.text (readingAt micros') ↔
        micros.val / 1000 = micros'.val / 1000 := by
    rw [(text_identifierOf_eq_iff build_readings found (keeps_reading micros)
      (keeps_reading micros') (identifierOf_reading micros) (identifierOf_reading micros')).1,
      toldAlike_reading_iff]
  rw [texts, ne_eq (Record.text _), texts]
  refine ⟨?_, by decide, by decide⟩
  simp [readingAt]

end LiveQuery
