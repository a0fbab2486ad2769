import LiveQuery.Proofs.Calendar.InstantText
import LiveQuery.Proofs.Number.Shortest
import LiveQuery.Proofs.Value.Atom
import LiveQuery.Proofs.Value.Text

set_option autoImplicit false

namespace LiveQuery

namespace Value

mutual

/-- What the text tells of a value. -/
def told : Value → Value
  | .null => .null
  | .boolean value => .boolean value
  | .int value => .int value
  | .float value => .float value
  | .string value => .string value
  | .instant value => .instant value.told
  | .record fields => .record (toldFields fields)
  | .list items => .list (toldItems items)

def toldItems : List Value → List Value
  | [] => []
  | item :: rest => told item :: toldItems rest

def toldFields : List (String × Value) → List (String × Value)
  | [] => []
  | (key, value) :: rest => (key, told value) :: toldFields rest

end

mutual

theorem text_told : ∀ value : Value, value.told.text = value.text
  | .null => by rw [told]
  | .boolean _ => by rw [told]
  | .int _ => by rw [told]
  | .float _ => by rw [told]
  | .string _ => by rw [told]
  | .instant moment => by rw [told, text, text, moment.millisecondText_told]
  | .record fields => by rw [told, text, text, fieldTexts_told fields]
  | .list items => by rw [told, text, text, itemTexts_told items]

theorem itemTexts_told : ∀ items : List Value, itemTexts (toldItems items) = itemTexts items
  | [] => by rw [toldItems]
  | item :: rest => by rw [toldItems, itemTexts, itemTexts, text_told item, itemTexts_told rest]

theorem fieldTexts_told : ∀ fields : List (String × Value),
    fieldTexts (toldFields fields) = fieldTexts fields
  | [] => by rw [toldFields]
  | (key, value) :: rest => by
    rw [toldFields, fieldTexts, fieldTexts, text_told value, fieldTexts_told rest]

end

/-- One thing is told of two values. -/
def ToldAlike (a b : Value) : Prop := a.told = b.told

/-- Both values are told in full. -/
def ToldInFull (a b : Value) : Prop := a.told = a ∧ b.told = b

theorem ToldAlike.text_eq {a b : Value} (alike : a.ToldAlike b) : a.text = b.text := by
  rw [← text_told a, ← text_told b, alike]

theorem relatesRecords_toldAlike : RelatesRecords ToldAlike := by
  intro fields fields' related
  have each : toldFields fields = toldFields fields' := by
    induction related with
    | nil => rfl
    | cons both _ ih => rw [toldFields, toldFields, both.1, both.2, ih]
  rw [ToldAlike, told, told, each]

theorem relatesRecords_toldInFull : RelatesRecords ToldInFull := by
  intro fields fields' related
  have each : toldFields fields = fields ∧ toldFields fields' = fields' := by
    induction related with
    | nil => exact ⟨rfl, rfl⟩
    | cons both _ ih =>
      obtain ⟨full, full'⟩ := both.2
      rw [toldFields, toldFields, full, full', ih.1, ih.2]
      exact ⟨rfl, rfl⟩
  rw [ToldInFull, told, told, each.1, each.2]
  exact ⟨rfl, rfl⟩

theorem Legible.toldAlike_behind {a b : Value} (legible : a.Legible b) :
    ReadsBehind ToldAlike a b := by
  intro front front' same
  obtain ⟨fronts, rfl⟩ := legible.behind front front' same
  exact ⟨fronts, rfl⟩

theorem readsBehind_finite (negative negative' : Bool) (m n : Binary64.Magnitude) :
    ReadsBehind ToldAlike (float (.finite negative m)) (float (.finite negative' n)) := by
  refine readsBehind_of_blank_not_mem (Binary64.blank_not_mem_text negative m)
    (Binary64.blank_not_mem_text negative' n) fun same => ?_
  rw [Binary64.finite_eq_of_text_eq same]
  rfl

theorem readsBehind_instant (a b : Instant) : ReadsBehind ToldAlike (instant a) (instant b) := by
  have quoted (moment : Instant) :
      (instant moment).text.toList = '\x27' :: (moment.millisecondText.toList ++ ['\x27']) := by
    simp [text]
  have blank (moment : Instant) : ' ' ∉ (instant moment).text.toList := by
    rw [quoted]
    simp [moment.blank_not_mem_millisecondText]
  refine readsBehind_of_blank_not_mem (blank a) (blank b) fun same => ?_
  have texts := congrArg String.toList same
  rw [quoted, quoted, List.cons.injEq] at texts
  have moments := String.toList_inj.mp (List.append_cancel_right texts.2)
  rw [ToldAlike, told, told, Instant.millisecondText_eq_iff_told.mp moments]

end Value

namespace LeafType

variable {type : LeafType} {value value' : Value}

/-- Values of one type that read alike are told alike. -/
theorem readsBehind_of_coerce? (kept : type.coerce? value = some value)
    (kept' : type.coerce? value' = some value') : Value.ReadsBehind Value.ToldAlike value value' := by
  have shape := shape_of_coerce? kept
  have shape' := shape_of_coerce? kept'
  cases type with
  | boolean =>
    obtain ⟨content, rfl⟩ := shape
    obtain ⟨content', rfl⟩ := shape'
    exact (Value.legible_boolean content content').toldAlike_behind
  | int =>
    obtain ⟨content, rfl⟩ := shape
    obtain ⟨content', rfl⟩ := shape'
    exact (Value.legible_int content content').toldAlike_behind
  | float =>
    obtain ⟨negative, m, rfl⟩ := shape
    obtain ⟨negative', n, rfl⟩ := shape'
    exact Value.readsBehind_finite negative negative' m n
  | string | uuid =>
    obtain ⟨content, rfl⟩ := shape
    obtain ⟨content', rfl⟩ := shape'
    exact (Value.legible_string content content').toldAlike_behind
  | instant =>
    obtain ⟨content, rfl⟩ := shape
    obtain ⟨content', rfl⟩ := shape'
    exact Value.readsBehind_instant content content'

theorem told_eq_of_coerce? (timeless : type ≠ .instant) (kept : type.coerce? value = some value) :
    value.told = value := by
  have shape := shape_of_coerce? kept
  cases type with
  | float =>
    obtain ⟨negative, m, rfl⟩ := shape
    rfl
  | instant => exact absurd rfl timeless
  | _ =>
    obtain ⟨content, rfl⟩ := shape
    rfl

end LeafType

end LiveQuery
