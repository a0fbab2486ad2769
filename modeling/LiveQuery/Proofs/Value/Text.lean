import LiveQuery.Value
import Mathlib.Data.List.Forall2
import Mathlib.Data.List.Infix

set_option autoImplicit false

namespace LiveQuery

namespace Text

variable {a b : Char} {front front' rest rest' : List Char}

theorem eq_nil_of_marked (apart : a ≠ b) (absent : ¬ [a, b] <:+: rest)
    (same : a :: b :: rest = front ++ a :: b :: rest') : front = [] := by
  match front with
  | [] => rfl
  | [first] =>
    rw [List.singleton_append, List.cons.injEq, List.cons.injEq] at same
    exact absurd same.2.1.symm apart
  | first :: second :: more =>
    simp only [List.cons_append, List.cons.injEq] at same
    exact absurd ⟨more, rest', by simp [same.2.2]⟩ absent

theorem eq_of_marked (apart : a ≠ b) (absent : ¬ [a, b] <:+: rest) (absent' : ¬ [a, b] <:+: rest')
    (same : front ++ a :: b :: rest = front' ++ a :: b :: rest') :
    front = front' ∧ rest = rest' := by
  have equal : front = front' := by
    rcases List.append_eq_append_iff.mp same with ⟨more, rfl, behind⟩ | ⟨more, rfl, behind⟩
    · rw [eq_nil_of_marked apart absent behind, List.append_nil]
    · rw [eq_nil_of_marked apart absent' behind, List.append_nil]
  subst equal
  simpa using same

theorem not_infix_of_not_mem (absent : b ∉ rest) : ¬ [a, b] <:+: rest :=
  fun inside => absent (inside.subset (by simp))

theorem blank_not_mem_int (number : Int) : ' ' ∉ (toString number).toList := by
  have digits (n : Nat) : ' ' ∉ Nat.toDigits 10 n := by
    intro inside
    have digit := Nat.isDigit_of_mem_toDigits (by decide) (by decide) inside
    exact absurd digit (by decide)
  rw [Int.toString_eq_repr, Int.repr_eq_if]
  split <;> simp [digits]

theorem nat_repr_inj {m n : Nat} (same : m.repr = n.repr) : m = n := by
  rw [← @Nat.ofDigitChars_ten_toDigits m, ← @Nat.ofDigitChars_ten_toDigits n,
    ← Nat.toList_repr, ← Nat.toList_repr, same]

theorem nat_repr_ne_negative (m n : Nat) : m.repr ≠ "-" ++ n.repr := by
  intro same
  have inside : '-' ∈ Nat.toDigits 10 m := by
    rw [← Nat.toList_repr, same]
    simp
  exact absurd (Nat.isDigit_of_mem_toDigits (by decide) (by decide) inside) (by decide)

theorem int_inj {m n : Int} (same : toString m = toString n) : m = n := by
  rw [Int.toString_eq_repr, Int.toString_eq_repr, Int.repr_eq_if, Int.repr_eq_if] at same
  split at same <;> split at same
  · have equal := nat_repr_inj same
    omega
  · exact absurd same (nat_repr_ne_negative _ _)
  · exact absurd same.symm (nat_repr_ne_negative _ _)
  · have equal := nat_repr_inj ((String.append_right_inj _).mp same)
    omega

/-- A character of a quoted string. -/
def escaped (c : Char) : List Char := if c = '\x27' then ['\\', '\x27'] else [c]

theorem escaped_cases (c : Char) :
    (c = '\x27' ∧ escaped c = ['\\', '\x27']) ∨ (c ≠ '\x27' ∧ escaped c = [c]) := by
  by_cases quote : c = '\x27'
  · exact Or.inl ⟨quote, if_pos quote⟩
  · exact Or.inr ⟨quote, if_neg quote⟩

theorem escaped_ne_quote_cons (text : List Char) : text.flatMap escaped ≠ '\x27' :: rest := by
  cases text with
  | nil => simp
  | cons c more =>
    rcases escaped_cases c with ⟨-, same⟩ | ⟨plain, same⟩ <;> simp [same]
    exact fun quote => absurd quote plain

theorem escaped_injective : Function.Injective (List.flatMap escaped) := by
  intro text
  induction text with
  | nil =>
    intro other same
    cases other with
    | nil => rfl
    | cons c more => rcases escaped_cases c with ⟨-, known⟩ | ⟨-, known⟩ <;> simp [known] at same
  | cons c rest ih =>
    intro other same
    cases other with
    | nil => rcases escaped_cases c with ⟨-, known⟩ | ⟨-, known⟩ <;> simp [known] at same
    | cons d rest' =>
      rw [List.flatMap_cons, List.flatMap_cons] at same
      rcases escaped_cases c with ⟨rfl, known⟩ | ⟨plain, known⟩ <;>
        rcases escaped_cases d with ⟨rfl, known'⟩ | ⟨plain', known'⟩ <;>
        simp only [known, known', List.cons_append, List.nil_append, List.cons.injEq,
          true_and] at same
      · rw [ih same]
      · exact absurd same.2.symm (escaped_ne_quote_cons rest')
      · exact absurd same.2 (escaped_ne_quote_cons rest)
      · rw [same.1, ih same.2]

theorem blank_quote_not_infix (text : List Char) : ¬ [' ', '\x27'] <:+: text.flatMap escaped := by
  induction text with
  | nil => simp
  | cons c rest ih =>
    rw [List.flatMap_cons]
    intro inside
    rcases escaped_cases c with ⟨-, known⟩ | ⟨-, known⟩ <;>
      simp only [known, List.cons_append, List.nil_append, List.infix_cons_iff] at inside
    · rcases inside with first | second | behind
      · simp at first
      · simp at second
      · exact ih behind
    · rcases inside with ⟨more, first⟩ | behind
      · rw [List.cons_append, List.cons_append, List.cons.injEq] at first
        exact escaped_ne_quote_cons rest first.2.symm
      · exact ih behind

end Text

namespace Value

/-- Two values whose texts are set off, behind the colon of a key, from whatever stands before them,
and that are related where they read alike. -/
def ReadsBehind (R : Value → Value → Prop) (a b : Value) : Prop :=
  ∀ front front' : List Char,
    front ++ ':' :: ' ' :: a.text.toList = front' ++ ':' :: ' ' :: b.text.toList →
      front = front' ∧ R a b

/-- Two values that their texts tell apart, whatever stands before them and the colon of a key. The
values differ in structure where they differ at all. -/
structure Legible (a b : Value) : Prop where
  behind : ∀ front front' : List Char,
    front ++ ':' :: ' ' :: a.text.toList = front' ++ ':' :: ' ' :: b.text.toList →
      front = front' ∧ a = b
  same_iff : a.same b = true ↔ a = b

/-- Two fields of one key with related values. -/
def RelatedField (R : Value → Value → Prop) (first second : String × Value) : Prop :=
  first.1 = second.1 ∧ R first.2 second.2

/-- Records whose fields are related one by one are related. -/
def RelatesRecords (R : Value → Value → Prop) : Prop :=
  ∀ fields fields' : Record, List.Forall₂ (RelatedField R) fields fields' →
    R (record fields) (record fields')

variable {R : Value → Value → Prop} {a b : Value}

theorem ReadsBehind.of_text_eq (reads : ReadsBehind R a b) (same : a.text = b.text) : R a b :=
  (reads [] [] (by rw [same])).2

theorem Legible.eq_of_text_eq (legible : a.Legible b) (same : a.text = b.text) : a = b :=
  ReadsBehind.of_text_eq legible.behind same

theorem readsBehind_of_blank_not_mem (blank : ' ' ∉ a.text.toList) (blank' : ' ' ∉ b.text.toList)
    (apart : a.text = b.text → R a b) : ReadsBehind R a b := by
  intro front front' same
  obtain ⟨equal, texts⟩ := Text.eq_of_marked (by decide) (Text.not_infix_of_not_mem blank)
    (Text.not_infix_of_not_mem blank') same
  exact ⟨equal, apart (String.toList_inj.mp texts)⟩

theorem legible_boolean (p q : Bool) : (boolean p).Legible (boolean q) := by
  have words (p : Bool) : ' ' ∉ (boolean p).text.toList := by cases p <;> decide
  refine ⟨readsBehind_of_blank_not_mem (words p) (words q) ?_, by simp [same]⟩
  cases p <;> cases q <;> simp [text]

theorem legible_int (m n : Int64) : (int m).Legible (int n) := by
  refine ⟨readsBehind_of_blank_not_mem (Text.blank_not_mem_int _) (Text.blank_not_mem_int _) ?_,
    by simp [same]⟩
  intro same
  rw [Int64.toInt_inj.mp (Text.int_inj same)]

theorem legible_string (s t : String) : (string s).Legible (string t) := by
  refine ⟨fun front front' same => ?_, by simp [same]⟩
  have texts (u : String) : (string u).text.toList =
      '\x27' :: (u.toList.flatMap Text.escaped ++ ['\x27']) := by
    rw [text, quoted, String.toList_ofList]
    rfl
  rw [texts, texts] at same
  have marked : (front ++ [':']) ++ ' ' :: '\x27' :: s.toList.flatMap Text.escaped =
      (front' ++ [':']) ++ ' ' :: '\x27' :: t.toList.flatMap Text.escaped := by
    refine @List.append_cancel_right _ _ ['\x27'] _ ?_
    simpa using same
  obtain ⟨equal, inner⟩ := Text.eq_of_marked (by decide) (Text.blank_quote_not_infix _)
    (Text.blank_quote_not_infix _) marked
  refine ⟨List.append_cancel_right equal, ?_⟩
  rw [String.toList_inj.mp (Text.escaped_injective inner)]

/-- Two fields of one key whose values are legible. -/
def LegibleField (first second : String × Value) : Prop :=
  first.1 = second.1 ∧ first.2.Legible second.2

/-- The texts of the fields behind the first one. -/
def laterTexts (fields : Record) : List Char :=
  (fieldTexts fields).flatMap fun field => ',' :: ' ' :: field.toList

variable {fields fields' : Record}

theorem laterTexts_inj (reads : List.Forall₂ (RelatedField (ReadsBehind R)) fields fields')
    {front front' : List Char} (same : front ++ laterTexts fields = front' ++ laterTexts fields') :
    front = front' ∧ List.Forall₂ (RelatedField R) fields fields' := by
  induction reads generalizing front front' with
  | nil => exact ⟨List.append_cancel_right same, .nil⟩
  | @cons field field' rest rest' related _ ih =>
    obtain ⟨key, value⟩ := field
    obtain ⟨key', value'⟩ := field'
    obtain ⟨named, reads⟩ := related
    obtain rfl : key = key' := named
    have later (key : String) (value : Value) (more : Record) : laterTexts ((key, value) :: more) =
        (',' :: ' ' :: key.toList ++ ':' :: ' ' :: value.text.toList) ++ laterTexts more := by
      simp [laterTexts, fieldTexts]
    rw [later, later] at same
    have last : (front ++ ',' :: ' ' :: key.toList ++ ':' :: ' ' :: value.text.toList) ++
        laterTexts rest = (front' ++ ',' :: ' ' :: key.toList ++
          ':' :: ' ' :: value'.text.toList) ++ laterTexts rest' := by simpa using same
    obtain ⟨before, others⟩ := ih last
    obtain ⟨equal, related⟩ := reads _ _ before
    exact ⟨List.append_cancel_right equal, .cons ⟨rfl, related⟩ others⟩

theorem text_record_cons (key : String) (value : Value) (rest : Record) :
    (record ((key, value) :: rest)).text.toList =
      '\x7b' :: key.toList ++ ':' :: ' ' :: value.text.toList ++ laterTexts rest ++ ['\x7d'] := by
  have joined (first : String) (others : List String) : (", ".intercalate (first :: others)).toList =
      first.toList ++ others.flatMap fun other => ',' :: ' ' :: other.toList := by
    induction others generalizing first with
    | nil => simp
    | cons second more ih => simp [String.intercalate_cons_cons, ih]
  rw [text, fieldTexts, String.toList_append, String.toList_append, joined]
  simp [laterTexts]

/-- Records are read field by field, from the last one on. -/
theorem RelatesRecords.readsBehind (relates : RelatesRecords R) :
    RelatesRecords (ReadsBehind R) := by
  intro fields fields' reads front front' same
  cases reads with
  | nil => exact ⟨List.append_cancel_right same, relates [] [] .nil⟩
  | @cons field field' rest rest' related behind =>
    obtain ⟨key, value⟩ := field
    obtain ⟨key', value'⟩ := field'
    obtain ⟨named, reads⟩ := related
    obtain rfl : key = key' := named
    rw [text_record_cons, text_record_cons] at same
    have inner : (front ++ ':' :: ' ' :: '\x7b' :: key.toList ++ ':' :: ' ' :: value.text.toList) ++
        laterTexts rest = (front' ++ ':' :: ' ' :: '\x7b' :: key.toList ++
          ':' :: ' ' :: value'.text.toList) ++ laterTexts rest' := by
      refine @List.append_cancel_right _ _ ['\x7d'] _ ?_
      simpa using same
    obtain ⟨before, others⟩ := laterTexts_inj behind inner
    obtain ⟨equal, related⟩ := reads _ _ before
    refine ⟨@List.append_cancel_right _ _ (':' :: ' ' :: '\x7b' :: key.toList) _ ?_,
      relates _ _ (.cons ⟨rfl, related⟩ others)⟩
    simpa using equal

theorem relatesRecords_eq : RelatesRecords Eq := by
  intro fields fields' related
  have equal : fields = fields' := by
    rw [← List.forall₂_eq_eq_eq]
    exact related.imp fun _ _ both => Prod.ext both.1 both.2
  rw [equal]

theorem sameFields_iff (legible : List.Forall₂ LegibleField fields fields') :
    sameFields fields fields' = true ↔ fields = fields' := by
  induction legible with
  | nil => simp [sameFields]
  | @cons field field' _ _ related _ ih =>
    obtain ⟨key, value⟩ := field
    obtain ⟨key', value'⟩ := field'
    simp only [sameFields, Bool.and_eq_true, decide_eq_true_eq, related.2.same_iff, ih,
      List.cons.injEq, Prod.mk.injEq]

theorem relatesRecords_legible : RelatesRecords Legible := by
  intro fields fields' legible
  have reads : List.Forall₂ (RelatedField (ReadsBehind Eq)) fields fields' :=
    legible.imp fun _ _ both => ⟨both.1, both.2.behind⟩
  exact ⟨relatesRecords_eq.readsBehind fields fields' reads, by
    rw [same, sameFields_iff legible, record.injEq]⟩

end Value

end LiveQuery
