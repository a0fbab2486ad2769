import LiveQuery.Filter.Evaluation
import LiveQuery.SortOrder

set_option autoImplicit false

namespace LiveQuery

/-- A scalar of which only the number is kept where it is a float: both zeros are one atom. -/
inductive Atom where
  | null
  | boolean (value : Bool)
  | int (value : Int64)
  | float (units : Int)
  | string (value : String)
  | instant (value : Instant)
  deriving DecidableEq

namespace Binary64

variable {negative negative' : Bool} {m m' : Magnitude}

theorem compare?_left_of_units (units : signedUnits negative m = signedUnits negative' m')
    (other : Binary64) :
    (finite negative m).compare? other = (finite negative' m').compare? other := by
  cases other <;> simp only [compare?, units]

theorem compare?_right_of_units (units : signedUnits negative m = signedUnits negative' m')
    (other : Binary64) :
    other.compare? (finite negative m) = other.compare? (finite negative' m') := by
  cases other <;> simp only [compare?, units]

theorem beq_of_units (units : signedUnits negative m = signedUnits negative' m') :
    (finite negative m == finite negative' m') = true := by
  have equal : (finite negative m).compare? (finite negative' m') = some .eq := by
    simp only [compare?, units, Std.ReflCmp.compare_self]
  simp only [BEq.beq, equal]
  rfl

end Binary64

namespace Value

def atom? : Value → Option Atom
  | .null => some .null
  | .boolean value => some (.boolean value)
  | .int value => some (.int value)
  | .float (.finite negative magnitude) => some (.float (Binary64.signedUnits negative magnitude))
  | .string value => some (.string value)
  | .instant value => some (.instant value)
  | _ => none

theorem null_looselyEqual {value : Value} (scalar : value.atom?.isSome) :
    null.looselyEqual value = decide (null.atom? = value.atom?) := by
  cases value with
  | float number => cases number <;> simp [looselyEqual, atom?] at scalar ⊢
  | _ => simp [looselyEqual, atom?] at scalar ⊢

theorem looselyEqual_null {value : Value} (scalar : value.atom?.isSome) :
    value.looselyEqual null = decide (value.atom? = null.atom?) := by
  cases value with
  | float number => cases number <;> simp [looselyEqual, atom?] at scalar ⊢
  | _ => simp [looselyEqual, atom?] at scalar ⊢

/-- Two scalars that nothing in a filter or an order tells apart. -/
def Alike (a b : Value) : Prop := a.atom?.isSome ∧ a.atom? = b.atom?

namespace Alike

variable {a b c : Value}

theorem refl (scalar : a.atom?.isSome) : Alike a a := ⟨scalar, rfl⟩

/-- Scalars that are alike are equal, or finite floats of one number. -/
theorem eq_or_float (alike : Alike a b) :
    a = b ∨ ∃ negative m negative' m', a = .float (.finite negative m) ∧
      b = .float (.finite negative' m') ∧
      Binary64.signedUnits negative m = Binary64.signedUnits negative' m' := by
  obtain ⟨scalar, eq⟩ := alike
  have floats {u v : Binary64} (scalar : (Value.float u).atom?.isSome)
      (eq : (Value.float u).atom? = (Value.float v).atom?) :
      ∃ negative m negative' m', u = .finite negative m ∧ v = .finite negative' m' ∧
        Binary64.signedUnits negative m = Binary64.signedUnits negative' m' := by
    cases u with
    | finite negative m =>
      cases v with
      | finite negative' m' =>
        exact ⟨negative, m, negative', m', rfl, rfl, by simpa only [atom?, Option.some.injEq,
          Atom.float.injEq] using eq⟩
      | _ => simp only [atom?, reduceCtorEq] at eq
    | _ => simp only [atom?, Option.isSome_none, Bool.false_eq_true] at scalar
  cases a <;> cases b
  case float.float u v =>
    obtain ⟨negative, m, negative', m', rfl, rfl, units⟩ := floats scalar eq
    exact Or.inr ⟨negative, m, negative', m', rfl, rfl, units⟩
  case float.null u | float.boolean u _ | float.int u _ | float.string u _ | float.instant u _ |
      float.record u _ | float.list u _ =>
    cases u <;> simp [atom?] at scalar eq
  case null.float u | boolean.float _ u | int.float _ u | string.float _ u | instant.float _ u |
      record.float _ u | list.float _ u =>
    cases u <;> simp [atom?] at scalar eq
  all_goals simp [atom?] at scalar eq ⊢ <;> exact eq

theorem compare?_left (alike : Alike a b) (other : Value) :
    a.compare? other = b.compare? other := by
  rcases alike.eq_or_float with same | ⟨_, _, _, _, rfl, rfl, units⟩
  · rw [same]
  · cases other <;> simp only [compare?, Binary64.compare?_left_of_units units]

theorem compare?_right (alike : Alike a b) (other : Value) :
    other.compare? a = other.compare? b := by
  rcases alike.eq_or_float with same | ⟨_, _, _, _, rfl, rfl, units⟩
  · rw [same]
  · cases other <;> simp only [compare?, Binary64.compare?_right_of_units units]

theorem looselyEqual_left (alike : Alike a b) (other : Value) :
    a.looselyEqual other = b.looselyEqual other := by
  have order := alike.compare?_left other
  rcases alike.eq_or_float with same | ⟨negative, m, negative', m', rfl, rfl, units⟩
  · rw [same]
  · cases other <;> simp only [looselyEqual, order]

theorem looselyEqual_right (alike : Alike a b) (other : Value) :
    other.looselyEqual a = other.looselyEqual b := by
  have order := alike.compare?_right other
  rcases alike.eq_or_float with same | ⟨negative, m, negative', m', rfl, rfl, units⟩
  · rw [same]
  · cases other <;> simp only [looselyEqual, order]

theorem isNull_eq (alike : Alike a b) : a.isNull = b.isNull := by
  rcases alike.eq_or_float with same | ⟨_, _, _, _, rfl, rfl, _⟩
  · rw [same]
  · rfl

theorem ordered_left (alike : Alike a b) (comparison : Comparison) (other : Value) :
    a.ordered comparison other = b.ordered comparison other := by
  simp only [ordered, alike.compare?_left, alike.isNull_eq]

/-- Structural equality holds between scalars that are alike. -/
theorem same (alike : Alike a b) : a.same b = true := by
  have scalar := alike.1
  rcases alike.eq_or_float with rfl | ⟨_, _, _, _, rfl, rfl, units⟩
  · cases a with
    | float value =>
      cases value with
      | finite negative m => simp only [Value.same, Binary64.beq_of_units]
      | _ => simp only [atom?, Option.isSome_none, Bool.false_eq_true] at scalar
    | record | list => simp only [atom?, Option.isSome_none, Bool.false_eq_true] at scalar
    | _ => simp only [Value.same, decide_true]
  · simp only [Value.same, Binary64.beq_of_units units]

end Alike

end Value

theorem LeafOperator.holds_of_alike {a b : Value} (alike : a.Alike b) (operator : LeafOperator)
    (expected : Value) : operator.holds a expected = operator.holds b expected := by
  have listed : listHas expected a = listHas expected b := by
    cases expected <;> simp only [listHas, alike.looselyEqual_right]
  rcases operator with (_ | _ | _ | _ | _ | _) | _ | _ | _
  case fullText =>
    rcases alike.eq_or_float with same | ⟨_, _, _, _, rfl, rfl, _⟩
    · rw [same]
    · rfl
  all_goals simp only [holds, listed, alike.looselyEqual_left, alike.ordered_left]

theorem SortExpression.compareValues_of_alike {a a' b b' : Value} (first : a.Alike a')
    (second : b.Alike b') : compareValues a b = compareValues a' b' := by
  have order : a.compare? b = a'.compare? b' := by
    rw [first.compare?_left, second.compare?_right]
  rcases first.eq_or_float with rfl | ⟨_, _, _, _, rfl, rfl, _⟩ <;>
    rcases second.eq_or_float with rfl | ⟨_, _, _, _, rfl, rfl, _⟩
  · rfl
  · cases a <;> simp only [compareValues, order]
  · cases b <;> simp only [compareValues, order]
  · simp only [compareValues, order]

/-- What a value is that its type keeps as it is. -/
theorem LeafType.shape_of_coerce? {type : LeafType} {value : Value}
    (kept : type.coerce? value = some value) :
    match type with
    | .boolean => ∃ content, value = .boolean content
    | .int => ∃ content, value = .int content
    | .float => ∃ negative m, value = .float (.finite negative m)
    | .string | .uuid => ∃ content, value = .string content
    | .instant => ∃ content, value = .instant content := by
  cases type with
  | boolean =>
    cases value with
    | boolean content => exact ⟨content, rfl⟩
    | int number => simp only [coerce?] at kept; split at kept <;> simp_all
    | _ => simp [coerce?] at kept
  | float =>
    cases value with
    | float number =>
      cases number with
      | finite negative m => exact ⟨negative, m, rfl⟩
      | _ => simp [coerce?, Binary64.isFinite] at kept
    | _ => simp [coerce?] at kept
  | int | string | uuid | instant =>
    cases value <;> simp [coerce?] at kept ⊢

theorem compare_beq_eq {α : Type} [Ord α] [Std.LawfulEqOrd α] [DecidableEq α]
    (a b : α) : (some (compare a b) == some Ordering.eq) = decide (a = b) := by
  by_cases same : a = b
  · subst same
    simp [Std.ReflCmp.compare_self]
  · have differs : compare a b ≠ .eq := fun equal => same (Std.LawfulEqCmp.eq_of_compare equal)
    simp [same, differs]

theorem Instant.compare_eq_eq_iff {a b : Instant} : a.compare b = .eq ↔ a = b := by
  rw [Instant.compare, Ordering.then_eq_eq, Std.LawfulEqCmp.compare_eq_iff_eq,
    Std.LawfulEqCmp.compare_eq_iff_eq]
  cases a
  cases b
  simp

theorem Instant.compare_beq_eq (a b : Instant) :
    (some (a.compare b) == some Ordering.eq) = decide (a = b) := by
  by_cases same : a = b
  · have equal := compare_eq_eq_iff.mpr same
    rw [equal, decide_eq_true same]
    rfl
  · have differs : a.compare b ≠ .eq := fun equal => same (compare_eq_eq_iff.mp equal)
    simp [same, differs]

namespace LeafType

theorem atom?_isSome_of_coerce? {type : LeafType} {value : Value}
    (kept : type.coerce? value = some value) : value.atom?.isSome := by
  have shape := shape_of_coerce? kept
  cases type with
  | float =>
    obtain ⟨negative, m, rfl⟩ := shape
    rfl
  | _ =>
    obtain ⟨content, rfl⟩ := shape
    rfl

theorem atom?_ne_null_of_coerce? {type : LeafType} {value : Value}
    (kept : type.coerce? value = some value) : value.atom? ≠ some .null := by
  have shape := shape_of_coerce? kept
  cases type with
  | float =>
    obtain ⟨negative, m, rfl⟩ := shape
    simp only [Value.atom?, ne_eq, Option.some.injEq, reduceCtorEq, not_false_eq_true]
  | _ =>
    obtain ⟨content, rfl⟩ := shape
    simp only [Value.atom?, ne_eq, Option.some.injEq, reduceCtorEq, not_false_eq_true]

theorem looselyEqual_eq_of_coerce? {type : LeafType} {a b : Value}
    (kept : type.coerce? a = some a) (kept' : type.coerce? b = some b) :
    a.looselyEqual b = decide (a.atom? = b.atom?) := by
  have shape := shape_of_coerce? kept
  have shape' := shape_of_coerce? kept'
  cases type with
  | float =>
    obtain ⟨negative, m, rfl⟩ := shape
    obtain ⟨negative', m', rfl⟩ := shape'
    simp only [Value.looselyEqual, Value.compare?, Binary64.compare?, Value.atom?,
      compare_beq_eq, Option.some.injEq, Atom.float.injEq]
  | int =>
    obtain ⟨content, rfl⟩ := shape
    obtain ⟨content', rfl⟩ := shape'
    simp only [Value.looselyEqual, Value.compare?, Value.atom?, compare_beq_eq,
      Option.some.injEq, Atom.int.injEq, Int64.toInt_inj]
  | instant =>
    obtain ⟨content, rfl⟩ := shape
    obtain ⟨content', rfl⟩ := shape'
    simp only [Value.looselyEqual, Value.compare?, Value.atom?, Instant.compare_beq_eq,
      Option.some.injEq, Atom.instant.injEq]
  | _ =>
    obtain ⟨content, rfl⟩ := shape
    obtain ⟨content', rfl⟩ := shape'
    simp only [Value.looselyEqual, Value.compare?, Value.atom?, compare_beq_eq,
      Option.some.injEq, Atom.boolean.injEq, Atom.string.injEq]

end LeafType

namespace Leaf

/-- The form in which a leaf keeps its values: coercion leaves them as they are. -/
def Canonical (field : Leaf) (value : Value) : Prop := field.coerce? value = some value

variable {field : Leaf} {value other : Value}

theorem Canonical.coerce (canonical : field.Canonical value) : field.coerce value = .ok value := by
  unfold Leaf.coerce
  rw [show field.coerce? value = some value from canonical]

theorem Canonical.null_or_type (canonical : field.Canonical value) :
    (field.nullable = true ∧ value = .null) ∨ field.type.coerce? value = some value := by
  unfold Canonical coerce? at canonical
  by_cases missing : field.nullable && value.isNull
  · left
    rw [Bool.and_eq_true] at missing
    refine ⟨missing.1, ?_⟩
    cases value <;> simp_all [Value.isNull]
  · right
    rwa [if_neg missing] at canonical

theorem Canonical.atom?_isSome (canonical : field.Canonical value) : value.atom?.isSome := by
  rcases canonical.null_or_type with ⟨-, rfl⟩ | kept
  · rfl
  · exact LeafType.atom?_isSome_of_coerce? kept

theorem Canonical.atom?_ne_null (canonical : field.Canonical value)
    (required : field.nullable = false) : value.atom? ≠ some .null := by
  rcases canonical.null_or_type with ⟨nullable, -⟩ | kept
  · rw [required] at nullable
    cases nullable
  · exact LeafType.atom?_ne_null_of_coerce? kept

theorem Canonical.alike (canonical : field.Canonical value) : value.Alike value :=
  .refl canonical.atom?_isSome

theorem Canonical.looselyEqual_eq (canonical : field.Canonical value)
    (canonical' : field.Canonical other) :
    value.looselyEqual other = decide (value.atom? = other.atom?) := by
  rcases canonical.null_or_type with ⟨-, rfl⟩ | kept <;>
    rcases canonical'.null_or_type with ⟨-, rfl⟩ | kept'
  · rfl
  · exact Value.null_looselyEqual (LeafType.atom?_isSome_of_coerce? kept')
  · exact Value.looselyEqual_null (LeafType.atom?_isSome_of_coerce? kept)
  · exact LeafType.looselyEqual_eq_of_coerce? kept kept'

end Leaf

end LiveQuery
