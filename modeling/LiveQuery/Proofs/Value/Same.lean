import LiveQuery.Proofs.Value.Atom

set_option autoImplicit false

namespace LiveQuery

namespace Binary64

/-- Equal floats are one infinity, or finite of one number. -/
theorem beq_iff (a b : Binary64) : (a == b) = true ↔
    (∃ negative, a = .infinite negative ∧ b = .infinite negative) ∨
      ∃ negative m negative' m', a = .finite negative m ∧ b = .finite negative' m' ∧
        signedUnits negative m = signedUnits negative' m' := by
  constructor
  · intro equal
    have order : a.compare? b = some .eq := eq_of_beq equal
    cases a with
    | nan => cases order
    | infinite negative =>
      cases b with
      | nan => cases order
      | infinite negative' =>
        have same : negative' = negative :=
          Std.LawfulEqCmp.eq_of_compare (Option.some.inj order)
        exact Or.inl ⟨negative, rfl, by rw [same]⟩
      | finite negative' m' => cases negative <;> cases order
    | finite negative m =>
      cases b with
      | nan => cases order
      | infinite negative' => cases negative' <;> cases order
      | finite negative' m' =>
        exact Or.inr ⟨negative, m, negative', m', rfl, rfl,
          Std.LawfulEqCmp.eq_of_compare (Option.some.inj order)⟩
  · rintro (⟨negative, rfl, rfl⟩ | ⟨_, _, _, _, rfl, rfl, units⟩)
    · cases negative <;> rfl
    · exact beq_of_units units

theorem beq_symm {a b : Binary64} (equal : (a == b) = true) : (b == a) = true := by
  rcases (beq_iff a b).mp equal with ⟨negative, rfl, rfl⟩ | ⟨_, _, _, _, rfl, rfl, units⟩
  · exact equal
  · exact beq_of_units units.symm

theorem beq_comm (a b : Binary64) : (a == b) = (b == a) :=
  Bool.eq_iff_iff.mpr ⟨beq_symm, beq_symm⟩

theorem compare?_left_of_beq {a b : Binary64} (equal : (a == b) = true) (other : Binary64) :
    a.compare? other = b.compare? other := by
  rcases (beq_iff a b).mp equal with ⟨negative, rfl, rfl⟩ | ⟨_, _, _, _, rfl, rfl, units⟩
  · rfl
  · exact compare?_left_of_units units other

theorem compare?_right_of_beq {a b : Binary64} (equal : (a == b) = true) (other : Binary64) :
    other.compare? a = other.compare? b := by
  rcases (beq_iff a b).mp equal with ⟨negative, rfl, rfl⟩ | ⟨_, _, _, _, rfl, rfl, units⟩
  · rfl
  · exact compare?_right_of_units units other

theorem beq_trans {a b c : Binary64} (first : (a == b) = true) (second : (b == c) = true) :
    (a == c) = true := by
  have order : a.compare? c = some .eq :=
    (compare?_left_of_beq first c).trans (eq_of_beq second)
  show (a.compare? c == some .eq) = true
  rw [order]
  rfl

end Binary64

namespace Value

mutual

theorem same_comm : ∀ a b : Value, a.same b = b.same a
  | .null, b => by cases b <;> rfl
  | .boolean _, b => by cases b <;> simp only [same, eq_comm]
  | .int _, b => by cases b <;> simp only [same, eq_comm]
  | .float _, b => by cases b <;> simp only [same, Binary64.beq_comm]
  | .string _, b => by cases b <;> simp only [same, eq_comm]
  | .instant _, b => by cases b <;> simp only [same, eq_comm]
  | .record fields, b => by
    cases b with
    | record others => simpa only [same] using sameFields_comm fields others
    | _ => rfl
  | .list items, b => by
    cases b with
    | list others => simpa only [same] using sameItems_comm items others
    | _ => rfl

theorem sameItems_comm : ∀ as bs : List Value, sameItems as bs = sameItems bs as
  | [], bs => by cases bs <;> rfl
  | a :: as, bs => by
    cases bs with
    | nil => rfl
    | cons b bs => simp only [sameItems, same_comm a b, sameItems_comm as bs]

theorem sameFields_comm : ∀ as bs : List (String × Value), sameFields as bs = sameFields bs as
  | [], bs => by cases bs <;> rfl
  | (k, a) :: as, bs => by
    cases bs with
    | nil => rfl
    | cons b bs =>
      simp only [sameFields, same_comm a b.2, sameFields_comm as bs, eq_comm (a := k)]

end

mutual

theorem same_trans : ∀ {a b c : Value}, a.same b = true → b.same c = true → a.same c = true
  | .null, b, c, first, second => by cases b <;> cases c <;> simp_all [same]
  | .boolean _, b, c, first, second => by cases b <;> cases c <;> simp_all [same]
  | .int _, b, c, first, second => by cases b <;> cases c <;> simp_all [same]
  | .float _, b, c, first, second => by
    cases b with
    | float =>
      cases c with
      | float => exact Binary64.beq_trans first second
      | _ => cases second
    | _ => cases first
  | .string _, b, c, first, second => by cases b <;> cases c <;> simp_all [same]
  | .instant _, b, c, first, second => by cases b <;> cases c <;> simp_all [same]
  | .record fields, b, c, first, second => by
    cases b with
    | record middle =>
      cases c with
      | record others =>
        simp only [same] at first second ⊢
        exact sameFields_trans first second
      | _ => cases second
    | _ => cases first
  | .list items, b, c, first, second => by
    cases b with
    | list middle =>
      cases c with
      | list others =>
        simp only [same] at first second ⊢
        exact sameItems_trans first second
      | _ => cases second
    | _ => cases first

theorem sameItems_trans : ∀ {as bs cs : List Value}, sameItems as bs = true →
    sameItems bs cs = true → sameItems as cs = true
  | [], bs, cs, first, second => by cases bs <;> cases cs <;> simp_all [sameItems]
  | a :: as, bs, cs, first, second => by
    cases bs with
    | nil => cases first
    | cons b bs =>
      cases cs with
      | nil => cases second
      | cons c cs =>
        simp only [sameItems, Bool.and_eq_true] at first second ⊢
        exact ⟨same_trans first.1 second.1, sameItems_trans first.2 second.2⟩

theorem sameFields_trans : ∀ {as bs cs : List (String × Value)}, sameFields as bs = true →
    sameFields bs cs = true → sameFields as cs = true
  | [], bs, cs, first, second => by cases bs <;> cases cs <;> simp_all [sameFields]
  | (k, a) :: as, bs, cs, first, second => by
    cases bs with
    | nil => cases first
    | cons b bs =>
      cases cs with
      | nil => cases second
      | cons c cs =>
        simp only [sameFields, Bool.and_eq_true, decide_eq_true_eq] at first second ⊢
        exact ⟨⟨first.1.1.trans second.1.1, same_trans first.1.2 second.1.2⟩,
          sameFields_trans first.2 second.2⟩

end

theorem length_eq_of_sameItems {as bs : List Value} (equal : sameItems as bs = true) :
    as.length = bs.length := by
  induction as generalizing bs with
  | nil =>
    cases bs with
    | nil => rfl
    | cons => cases equal
  | cons a as ih =>
    cases bs with
    | nil => cases equal
    | cons b bs =>
      simp only [sameItems, Bool.and_eq_true] at equal
      rw [List.length_cons, List.length_cons, ih equal.2]

theorem same_right {a b : Value} (equal : a.same b = true) (other : Value) :
    other.same a = other.same b :=
  Bool.eq_iff_iff.mpr ⟨fun left => same_trans left equal,
    fun right => same_trans right (same_comm a b ▸ equal)⟩

theorem compare?_right_of_same {a b : Value} (equal : a.same b = true) (other : Value) :
    other.compare? a = other.compare? b := by
  cases a with
  | float =>
    cases b with
    | float => cases other <;> simp only [compare?, Binary64.compare?_right_of_beq equal]
    | _ => cases equal
  | record => cases b <;> first | cases equal | (cases other <;> rfl)
  | list => cases b <;> first | cases equal | (cases other <;> rfl)
  | _ => cases b <;> simp_all [same]

mutual

/-- Loose equality does not tell its right operand from an equal one. -/
theorem looselyEqual_right_of_same : ∀ {a b : Value}, a.same b = true → ∀ other : Value,
    other.looselyEqual a = other.looselyEqual b
  | .record fields, b, equal, other => by
    cases b with
    | record others =>
      cases other with
      | record known =>
        have right := same_right equal (.record known)
        simpa only [same, looselyEqual] using right
      | _ => rfl
    | _ => cases equal
  | .list items, b, equal, other => by
    cases b with
    | list others =>
      cases other with
      | list known =>
        simp only [looselyEqual]
        exact looselyEqualItems_right_of_same (by simpa only [same] using equal) known
      | _ => rfl
    | _ => cases equal
  | .float _, b, equal, other => by
    have order := compare?_right_of_same equal other
    cases b with
    | float => cases other <;> simp only [looselyEqual, order]
    | _ => cases equal
  | .null, b, equal, _ | .boolean _, b, equal, _ | .int _, b, equal, _ | .string _, b, equal, _
  | .instant _, b, equal, _ => by cases b <;> simp_all [same]

theorem looselyEqualItems_right_of_same : ∀ {as bs : List Value}, sameItems as bs = true →
    ∀ others : List Value, looselyEqualItems others as = looselyEqualItems others bs
  | [], bs, equal, others => by
    cases bs with
    | nil => rfl
    | cons => cases equal
  | a :: as, bs, equal, others => by
    cases bs with
    | nil => cases equal
    | cons b bs =>
      simp only [sameItems, Bool.and_eq_true] at equal
      cases others with
      | nil => rfl
      | cons other others =>
        simp only [looselyEqualItems, looselyEqual_right_of_same equal.1 other,
          looselyEqualItems_right_of_same equal.2 others]

end

private theorem compare?_eq_comm (a b : Value) :
    (a.compare? b == some .eq) = (b.compare? a == some .eq) := by
  cases a <;> cases b
  case boolean.boolean | int.int | string.string =>
    simp only [compare?, compare_beq_eq, eq_comm]
  case instant.instant => simp only [compare?, Instant.compare_beq_eq, eq_comm]
  case int.float | float.int | float.float => exact Binary64.beq_comm _ _
  all_goals rfl

mutual

theorem looselyEqual_comm : ∀ a b : Value, a.looselyEqual b = b.looselyEqual a
  | .record fields, b => by
    cases b with
    | record others => simpa only [looselyEqual] using sameFields_comm fields others
    | _ => rfl
  | .list items, b => by
    cases b with
    | list others => simpa only [looselyEqual] using looselyEqualItems_comm items others
    | _ => rfl
  | .null, b => by cases b <;> rfl
  | .boolean a, b => by cases b <;> first | rfl | exact compare?_eq_comm _ _
  | .int a, b => by cases b <;> first | rfl | exact compare?_eq_comm _ _
  | .float a, b => by cases b <;> first | rfl | exact compare?_eq_comm _ _
  | .string a, b => by cases b <;> first | rfl | exact compare?_eq_comm _ _
  | .instant a, b => by cases b <;> first | rfl | exact compare?_eq_comm _ _

theorem looselyEqualItems_comm : ∀ as bs : List Value,
    looselyEqualItems as bs = looselyEqualItems bs as
  | [], bs => by cases bs <;> rfl
  | a :: as, bs => by
    cases bs with
    | nil => rfl
    | cons b bs => simp only [looselyEqualItems, looselyEqual_comm a b, looselyEqualItems_comm as bs]

end

theorem looselyEqual_left_of_same {a b : Value} (equal : a.same b = true) (other : Value) :
    a.looselyEqual other = b.looselyEqual other := by
  rw [looselyEqual_comm a, looselyEqual_comm b, looselyEqual_right_of_same equal]

theorem atom?_eq_of_same {a b : Value} (equal : a.same b = true) : a.atom? = b.atom? := by
  cases a with
  | float =>
    cases b with
    | float =>
      rcases (Binary64.beq_iff _ _).mp equal with ⟨_, rfl, rfl⟩ | ⟨_, _, _, _, rfl, rfl, units⟩
      · rfl
      · simp only [atom?, units]
    | _ => cases equal
  | record | list => cases b <;> first | rfl | cases equal
  | _ => cases b <;> simp_all [same]

theorem get?_of_sameFields {as bs : Record} (equal : sameFields as bs = true) (key : String) :
    (as.get? key = none ∧ bs.get? key = none) ∨
      ∃ a b, as.get? key = some a ∧ bs.get? key = some b ∧ a.same b = true := by
  induction as generalizing bs with
  | nil =>
    cases bs with
    | nil => exact Or.inl ⟨rfl, rfl⟩
    | cons => cases equal
  | cons entry rest ih =>
    cases bs with
    | nil => cases equal
    | cons entry' rest' =>
      simp only [sameFields, Bool.and_eq_true, decide_eq_true_eq] at equal
      obtain ⟨⟨keys, values⟩, behind⟩ := equal
      by_cases found : entry.1 = key
      · exact Or.inr ⟨entry.2, entry'.2, by simp only [Entries.get?, found, ↓reduceIte],
          by simp only [Entries.get?, ← keys, found, ↓reduceIte], values⟩
      · simpa only [Entries.get?, ← keys, found, ↓reduceIte] using ih behind

end Value

end LiveQuery
