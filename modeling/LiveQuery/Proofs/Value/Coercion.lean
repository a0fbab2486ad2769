import LiveQuery.Proofs.Number.Rounding
import LiveQuery.Proofs.Text.Uuid
import LiveQuery.Proofs.Value.Atom

set_option autoImplicit false

namespace LiveQuery

/-- A value in the form of a type stays as it is. -/
theorem LeafType.coerce?_idem {type : LeafType} {raw value : Value}
    (coerced : type.coerce? raw = some value) : type.coerce? value = some value := by
  cases type <;> cases raw <;> simp only [coerce?, reduceCtorEq] at coerced
  case boolean.int number =>
    split at coerced
    · cases coerced
      rfl
    · split at coerced
      · cases coerced
        rfl
      · cases coerced
  case int.float number =>
    obtain ⟨whole, -, rfl⟩ := Option.map_eq_some_iff.mp coerced
    rfl
  case float.int number =>
    cases coerced
    exact if_pos (Value.isFinite_floatOfInt number)
  case float.float number =>
    split at coerced
    · rename_i finite
      cases coerced
      exact if_pos finite
    · cases coerced
  case uuid.string text =>
    obtain ⟨spelled, read, rfl⟩ := Option.map_eq_some_iff.mp coerced
    simp only [coerce?, Text.Uuid.canonical?_of_canonical? read, Option.map_some]
  case instant.string text =>
    obtain ⟨moment, -, rfl⟩ := Option.map_eq_some_iff.mp coerced
    rfl
  all_goals
    cases coerced
    rfl

namespace Leaf

variable {field : Leaf} {raw value : Value}

/-- A leaf keeps what it made of a value. -/
theorem canonical_of_coerce? (coerced : field.coerce? raw = some value) :
    field.Canonical value := by
  unfold Canonical
  unfold coerce? at coerced ⊢
  by_cases null : (field.nullable && raw.isNull) = true
  · rw [if_pos null] at coerced
    cases coerced
    rw [Bool.and_eq_true] at null
    rw [null.1]
    rfl
  · rw [if_neg null] at coerced
    have kept := LeafType.coerce?_idem coerced
    have here : value.isNull = false := by
      cases value with
      | null => cases type : field.type <;> rw [type] at kept <;> cases kept
      | _ => rfl
    rw [here, Bool.and_false, if_neg Bool.false_ne_true]
    exact kept

theorem canonical_of_coerce (coerced : field.coerce raw = .ok value) : field.Canonical value := by
  unfold coerce at coerced
  split at coerced
  · rename_i kept
    cases coerced
    exact canonical_of_coerce? kept
  · cases coerced

end Leaf

end LiveQuery
