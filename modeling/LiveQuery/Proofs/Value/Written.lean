import LiveQuery.Proofs.Filter.Keys
import LiveQuery.Proofs.Sql.Naming
import LiveQuery.Proofs.Statement.IdentifierText
import LiveQuery.Proofs.Value.Coercion
import LiveQuery.Proofs.Value.Told

set_option autoImplicit false

namespace LiveQuery

/-- An instant lies in a year of four digits; only then can its text be read. -/
def Value.Dated (value : Value) : Prop :=
  ∀ moment, value = .instant moment → 0 ≤ moment.date.year ∧ moment.date.year ≤ 9999

theorem Value.ofJson_toJson_int (number : Int64) :
    Value.ofJson (Value.int number).toJson = .int number := by
  rw [toJson, ofJson, if_pos ⟨number.minValue_le_toInt, number.toInt_le⟩, Int64.ofInt_toInt]

namespace LeafType

variable {type : LeafType} {value : Value}

/-- A type reads the document of a value that it keeps as what the document tells. -/
theorem coerce?_ofJson_toJson (kept : type.coerce? value = some value) (dated : value.Dated) :
    type.coerce? (.ofJson value.toJson) = some value.told := by
  have shape := shape_of_coerce? kept
  cases type with
  | boolean | string =>
    obtain ⟨content, rfl⟩ := shape
    rfl
  | int =>
    obtain ⟨content, rfl⟩ := shape
    rw [Value.ofJson_toJson_int]
    rfl
  | float =>
    obtain ⟨negative, magnitude, rfl⟩ := shape
    rfl
  | uuid =>
    obtain ⟨content, rfl⟩ := shape
    exact kept
  | instant =>
    obtain ⟨moment, rfl⟩ := shape
    obtain ⟨low, high⟩ := dated moment rfl
    simp only [Value.toJson, Value.ofJson, coerce?, Instant.read?_millisecondText low high,
      Option.map_some, Value.told]

theorem ofJson_toJson_ne_null (kept : type.coerce? value = some value) :
    (Value.ofJson value.toJson).isNull = false := by
  have shape := shape_of_coerce? kept
  cases type with
  | int =>
    obtain ⟨content, rfl⟩ := shape
    rw [Value.ofJson_toJson_int]
    rfl
  | float =>
    obtain ⟨negative, magnitude, rfl⟩ := shape
    rfl
  | _ =>
    obtain ⟨content, rfl⟩ := shape
    rfl

end LeafType

namespace Leaf

variable {field : Leaf} {value : Value}

/-- A leaf reads the document of a value that it keeps as what the document tells. -/
theorem Canonical.coerce?_ofJson_toJson (canonical : field.Canonical value) (dated : value.Dated) :
    field.coerce? (.ofJson value.toJson) = some value.told := by
  unfold coerce?
  rcases canonical.null_or_type with ⟨nullable, rfl⟩ | kept
  · rw [nullable]
    rfl
  · rw [LeafType.ofJson_toJson_ne_null kept, Bool.and_false, if_neg Bool.false_ne_true]
    exact LeafType.coerce?_ofJson_toJson kept dated

/-- What is told of a value is the value, but for what an instant has below its millisecond. -/
theorem Canonical.told_eq_self_iff (canonical : field.Canonical value) : value.told = value ↔
    ∀ moment, value = .instant moment → moment.nanos % 1000000 = 0 ∧
      (moment.nanos < 1000000000 ∨ moment.seconds % 60 = 59) := by
  rcases canonical.null_or_type with ⟨-, rfl⟩ | kept
  · exact ⟨fun _ _ impossible => (nomatch impossible), fun _ => rfl⟩
  by_cases timed : field.type = .instant
  · rw [timed] at kept
    obtain ⟨moment, rfl⟩ := LeafType.shape_of_coerce? kept
    rw [Value.told, Value.instant.injEq, Instant.told_eq_self_iff]
    exact ⟨fun whole _ same => Value.instant.inj same ▸ whole, fun whole => whole moment rfl⟩
  · refine ⟨fun _ moment same => ?_, fun _ => LeafType.told_eq_of_coerce? timed kept⟩
    rw [same] at kept
    cases type : field.type <;> rw [type] at kept timed <;>
      first | exact absurd rfl timed | cases kept

/-- A value and what is told of it are loosely equal only if it is told in full. -/
theorem Canonical.looselyEqual_told (canonical : field.Canonical value)
    (told : field.Canonical value.told) : value.looselyEqual value.told = true ↔ value.told = value := by
  rw [canonical.looselyEqual_eq told, decide_eq_true_eq]
  refine ⟨fun same => ?_, fun same => by rw [same]⟩
  rcases canonical.null_or_type with ⟨-, rfl⟩ | kept
  · rfl
  by_cases timed : field.type = .instant
  · rw [timed] at kept
    obtain ⟨moment, rfl⟩ := LeafType.shape_of_coerce? kept
    exact congrArg Value.instant (Atom.instant.inj (Option.some.inj same)).symm
  · exact LeafType.told_eq_of_coerce? timed kept

/-- A where-input that asks a leaf for the document of a value. -/
theorem parse_toJson {catalog : Catalog} {node : Node} {key : String}
    (asks : FilterKey.resolve? node key = some (.leaf field (.compared .eq)))
    (canonical : field.Canonical value) (dated : value.Dated) :
    Filter.parse catalog node (.object [(key, value.toJson)]) =
      .ok ⟨node, .junction .all [.leaf field (.compared .eq) value.told]⟩ := by
  have known : node.component? field.name = some (.leaf field) := FilterKey.partOf_of_resolve? asks
  have found : node.leaf field.name = .ok field := by
    unfold Node.leaf
    rw [known]
  have read : Filter.operand field (.compared .eq) (.ofJson value.toJson) = .ok value.told := by
    have coerced := canonical.coerce?_ofJson_toJson dated
    simp only [Filter.operand, Comparison.isOrder, Bool.not_false, ↓reduceIte, Filter.coerceOrNull]
    split
    · rename_i null
      rcases canonical.null_or_type with ⟨-, rfl⟩ | kept
      · rfl
      · rw [LeafType.ofJson_toJson_ne_null kept] at null
        cases null
    · unfold coerce
      rw [coerced]
  have condition : Filter.leaf node field.name (.compared .eq) (.ofJson value.toJson) =
      .ok ⟨node, .leaf field (.compared .eq) value.told⟩ := by
    unfold Filter.leaf
    rw [found]
    exact Outcome.bind_eq_ok.mpr ⟨field, rfl, Outcome.bind_eq_ok.mpr ⟨_, read, rfl⟩⟩
  unfold Filter.parse
  simp only [Predicate.parse, Predicate.parseEntries, asks, condition]
  rfl

end Leaf

variable {field : Leaf} {raw value : Value}

/-- A value that a leaf keeps comes back from its document cut to the millisecond. So it is found
again by the document, in a where-input, exactly if it lies on a whole millisecond. -/
theorem Leaf.coerce_ofJson_toJson (coerced : field.coerce raw = .ok value) (dated : value.Dated) :
    field.coerce (.ofJson value.toJson) = .ok value.told ∧
      (value.told = value ↔ ∀ moment, value = .instant moment → moment.nanos % 1000000 = 0 ∧
        (moment.nanos < 1000000000 ∨ moment.seconds % 60 = 59)) ∧
      ∀ (catalog : Catalog) (node : Node) (key : String),
        FilterKey.resolve? node key = some (.leaf field (.compared .eq)) →
        ∃ filter, Filter.parse catalog node (.object [(key, value.toJson)]) = .ok filter ∧
          ∀ record : Record, record.get? field.name = some value →
            ∃ found, filter.execute record = .ok found ∧ (found = true ↔ value.told = value) := by
  have canonical := canonical_of_coerce coerced
  have read := canonical.coerce?_ofJson_toJson dated
  refine ⟨by unfold coerce; rw [read], canonical.told_eq_self_iff, fun catalog node key asks => ?_⟩
  refine ⟨_, parse_toJson asks canonical dated, fun record holds => ⟨value.looselyEqual value.told,
    ?_, canonical.looselyEqual_told (canonical_of_coerce? read)⟩⟩
  have required : record.require node.name field.name = .ok value := by
    unfold Record.require
    rw [holds]
  simp only [Filter.execute, Predicate.evaluate, Predicate.evaluateAll, required,
    LeafOperator.holds, Outcome.ok_bind, Outcome.pure_eq_ok, Junction.unit]
  cases value.looselyEqual value.told <;> rfl

namespace Samples

theorem nanos_of_micros_lt (micros : Fin 1000000) : micros.val * 1000 < 2 * 1000000000 := by
  omega

/-- So many microseconds within the first second. -/
def within (micros : Fin 1000000) : Instant := ⟨0, micros.val * 1000, nanos_of_micros_lt micros⟩

/-- The first second of the year 10000. -/
def year10000 : Instant := ⟨253402300800, 0, by decide⟩

theorem dated_within (micros : Fin 1000000) : (Value.instant (within micros)).Dated := by
  intro moment same
  cases same
  have epoch : (within micros).date = ⟨1970, 1, 1⟩ := rfl
  rw [epoch]
  exact ⟨by decide, by decide⟩

end Samples

open Samples

/-- A quarter of a second comes back from its document, and a where-input with it finds it. -/
theorem Leaf.coerce_ofJson_toJson_quarter :
    readingTime.coerce (.ofJson (Value.instant (within 250000)).toJson) =
        .ok (.instant (within 250000)) ∧
      ∃ filter, Filter.parse readingCatalog reading
          (.object [("at", (Value.instant (within 250000)).toJson)]) = .ok filter ∧
        filter.execute (readingAt 250000) = .ok true := by
  have kept : readingTime.coerce (.instant (within 250000)) = .ok (.instant (within 250000)) := rfl
  obtain ⟨read, whole, finds⟩ := Leaf.coerce_ofJson_toJson kept (dated_within 250000)
  have told : (Value.instant (within 250000)).told = .instant (within 250000) := by
    refine whole.mpr fun moment same => ?_
    cases same
    decide
  rw [told] at read
  obtain ⟨filter, parsed, found⟩ := finds readingCatalog reading "at" rfl
  obtain ⟨answer, executed, yes⟩ := found (readingAt 250000) rfl
  rw [yes.mpr told] at executed
  exact ⟨read, filter, parsed, executed⟩

/-- Microseconds are lost in the document, and a year of five digits is written with a sign in front
that no text is read with. -/
theorem Leaf.coerce_ofJson_toJson_micros :
    (readingTime.coerce (.instant (within 250100)) = .ok (.instant (within 250100)) ∧
      readingTime.coerce (.ofJson (Value.instant (within 250100)).toJson) =
        .ok (.instant (within 250000)) ∧
      within 250000 ≠ within 250100) ∧
    readingTime.coerce (.instant year10000) = .ok (.instant year10000) ∧
      readingTime.coerce? (.ofJson (Value.instant year10000).toJson) = none := by
  have canonical : readingTime.Canonical (.instant (within 250100)) := rfl
  have read := canonical.coerce?_ofJson_toJson (dated_within 250100)
  refine ⟨⟨rfl, ?_, by decide⟩, rfl, by decide +kernel⟩
  unfold Leaf.coerce
  rw [read]
  rfl

section Spelled

open Text.Uuid (Spells)

/-- A leaf of UUIDs keeps canonical spellings. -/
theorem Leaf.coerce_spelling_iff {text : String} (typed : field.type = .uuid) :
    field.coerce (.string text) = .ok value ↔
      ∃ spelled, Text.Uuid.canonical? text = some spelled ∧ value = .string spelled := by
  unfold coerce coerce?
  rw [typed, show (Value.string text).isNull = false from rfl, Bool.and_false,
    if_neg Bool.false_ne_true, LeafType.coerce?]
  cases Text.Uuid.canonical? text <;> simp [eq_comm]

/-- A leaf keeps what it made of a value, null only where it may be null, and can write it as a
literal. A leaf of UUIDs reads every text that spells one. All that it reads spells one in lower
case, and two texts that it reads are told apart exactly if they spell different ones. -/
theorem Leaf.canonical_of_spelling (field : Leaf) :
    (∀ raw value, field.coerce raw = .ok value → field.coerce value = .ok value ∧
      (value = .null → field.nullable = true) ∧
      ∃ literal, Sql.Literal.ofValue field.type value = .ok literal) ∧
    (field.type = .uuid →
      (∀ text uuid, Spells uuid text.toList → ∃ value, field.coerce (.string text) = .ok value) ∧
      (∀ text value, field.coerce (.string text) = .ok value →
        ∃ uuid, Spells uuid (text.toList.map Char.toLower)) ∧
      ∀ text text' value value' uuid uuid', field.coerce (.string text) = .ok value →
        field.coerce (.string text') = .ok value' → Spells uuid (text.toList.map Char.toLower) →
        Spells uuid' (text'.toList.map Char.toLower) → (value = value' ↔ uuid = uuid')) := by
  refine ⟨fun raw value coerced => ?_, fun typed => ⟨fun text uuid spells => ?_,
    fun text value coerced => ?_,
    fun text text' value value' uuid uuid' coerced coerced' spells spells' => ?_⟩⟩
  · have canonical := canonical_of_coerce coerced
    refine ⟨canonical.coerce, ?_, ?_⟩
    · rintro rfl
      by_contra required
      exact canonical.atom?_ne_null (Bool.eq_false_of_not_eq_true required) rfl
    · rcases canonical.null_or_type with ⟨-, rfl⟩ | typed
      · exact ⟨.null, by cases field.type <;> rfl⟩
      · exact Sql.Literal.ofValue_of_keeps typed
  · obtain ⟨digits, -, read⟩ := Text.Uuid.canonical?_of_spells spells.map_toLower
    exact ⟨_, (coerce_spelling_iff typed).mpr ⟨_, read, rfl⟩⟩
  · obtain ⟨spelled, read, -⟩ := (coerce_spelling_iff typed).mp coerced
    exact Text.Uuid.exists_spells_of_canonical? read
  · obtain ⟨spelled, read, rfl⟩ := (coerce_spelling_iff typed).mp coerced
    obtain ⟨spelled', read', rfl⟩ := (coerce_spelling_iff typed).mp coerced'
    rw [Value.string.injEq, ← Text.Uuid.canonical?_eq_iff spells spells', read, read',
      Option.some.injEq]

namespace Samples

def ticketId : Leaf := ⟨"Ticket", "id", "id", .uuid, false⟩

def ticketNumber : BitVec 128 := 0x0b0ef7d44a0e4b8e8a3e6f1d2c3b4a59#128

theorem spells_ticket : Spells ticketNumber "0B0EF7D44A0E4B8E8A3E6F1D2C3B4A59".toList :=
  .plain ⟨rfl, rfl, rfl⟩

theorem spells_ticket_urn :
    Spells ticketNumber "urn:uuid:0b0ef7d4-4a0e-4b8e-8A3E-6F1D2C3B4A59".toList :=
  show Spells ticketNumber
      ("urn:uuid:".toList ++ Text.Uuid.hyphenated "0b0ef7d44a0e4b8e8A3E6F1D2C3B4A59".toList) from
    .urn ⟨rfl, rfl, rfl⟩

end Samples

open Samples

/-- Case and scheme make no difference to a ticket. -/
theorem Leaf.canonical_of_spelling_ticket : ∃ value,
    ticketId.coerce (.string "0B0EF7D44A0E4B8E8A3E6F1D2C3B4A59") = .ok value ∧
      ticketId.coerce (.string "urn:uuid:0b0ef7d4-4a0e-4b8e-8A3E-6F1D2C3B4A59") = .ok value ∧
      ticketId.coerce value = .ok value := by
  obtain ⟨keeps, spellings⟩ := Leaf.canonical_of_spelling ticketId
  obtain ⟨reads, -, tells⟩ := spellings rfl
  obtain ⟨value, read⟩ := reads _ _ spells_ticket
  obtain ⟨value', read'⟩ := reads _ _ spells_ticket_urn
  have same := tells _ _ _ _ _ _ read read' spells_ticket.map_toLower spells_ticket_urn.map_toLower
  rw [← same.mpr rfl] at read'
  exact ⟨value, read, read', (keeps _ _ read).1⟩

end Spelled

end LiveQuery
