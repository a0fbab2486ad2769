import LiveQuery.SortOrder

set_option autoImplicit false

namespace LiveQuery

/-- The place of a scalar among those of its type. -/
structure Rank where
  major : Int
  minor : Int
  text : String

namespace Rank

def order : Rank → Rank → Ordering :=
  compareLex (compareOn Rank.major) (compareLex (compareOn Rank.minor) (compareOn Rank.text))

instance : Ord Rank := ⟨order⟩

instance : Std.TransOrd Rank :=
  inferInstanceAs <| Std.TransCmp <|
    compareLex (compareOn Rank.major) (compareLex (compareOn Rank.minor) (compareOn Rank.text))

theorem compare_eq (a b : Rank) :
    compare a b = (compare a.major b.major).then
      ((compare a.minor b.minor).then (compare a.text b.text)) := rfl

end Rank

/-- The infinities are below and above all numbers. -/
def Binary64.rank : Binary64 → Rank
  | .nan => ⟨0, 0, ""⟩
  | .infinite negative => ⟨if negative then -1 else 1, 0, ""⟩
  | .finite negative magnitude => ⟨0, signedUnits negative magnitude, ""⟩

theorem Binary64.compare?_eq_rank {a b : Binary64} (first : a ≠ .nan) (second : b ≠ .nan) :
    a.compare? b = some (compare a.rank b.rank) := by
  cases a with
  | nan => exact absurd rfl first
  | infinite negative =>
    cases b with
    | nan => exact absurd rfl second
    | infinite negative' => cases negative <;> cases negative' <;> rfl
    | finite => cases negative <;> rfl
  | finite negative m =>
    cases b with
    | nan => exact absurd rfl second
    | infinite negative' => cases negative' <;> rfl
    | finite negative' m' =>
      simp only [compare?, rank, Rank.compare_eq, Std.ReflCmp.compare_self, Ordering.then_eq,
        Ordering.eq_then]

theorem Instant.compare_eq_rank (a b : Instant) :
    a.compare b = Ord.compare (⟨a.seconds, a.nanos, ""⟩ : Rank) ⟨b.seconds, b.nanos, ""⟩ := by
  have nanos : Ord.compare (a.nanos : Int) (b.nanos : Int) = Ord.compare a.nanos b.nanos := by
    simp only [Ord.compare, compareOfLessAndEq, Int.ofNat_lt, Int.ofNat_inj]
  simp only [Instant.compare, Rank.compare_eq, nanos, Std.ReflCmp.compare_self, Ordering.then_eq]

namespace Value

/-- Any scalar has a place among those of its type, except a NaN. -/
def isRanked : Value → Bool
  | .float .nan => false
  | .boolean _ | .int _ | .float _ | .string _ | .instant _ => true
  | .null | .record _ | .list _ => false

/-- The value is null, or a scalar of the type that is not a NaN. -/
def OfType (type : String) (value : Value) : Prop :=
  value.isNull ∨ value.isRanked ∧ value.typeName = type

instance (type : String) (value : Value) : Decidable (value.OfType type) :=
  inferInstanceAs (Decidable (_ ∨ _))

theorem eq_null_of_isNull {value : Value} (isNull : value.isNull) : value = .null := by
  cases value with
  | null => rfl
  | _ => cases isNull

/-- Null has no rank: it comes before all that have one. -/
def rank : Value → Option Rank
  | .boolean value => some ⟨if value then 1 else 0, 0, ""⟩
  | .int value => some ⟨value.toInt, 0, ""⟩
  | .float value => some value.rank
  | .string value => some ⟨0, 0, value⟩
  | .instant value => some ⟨value.seconds, value.nanos, ""⟩
  | .null | .record _ | .list _ => none

theorem isSome_rank {value : Value} (ranked : value.isRanked) : value.rank.isSome := by
  cases value <;> first | rfl | cases ranked

/-- Scalars of one type compare as their ranks. -/
theorem compare?_eq_rank {a b : Value} (first : a.isRanked) (second : b.isRanked)
    (types : a.typeName = b.typeName) : a.compare? b = some (compare a.rank b.rank) := by
  cases a with
  | null | record | list => cases first
  | boolean a =>
    cases b with
    | boolean b => cases a <;> cases b <;> rfl
    | _ => simp [typeName] at types
  | int a =>
    cases b with
    | int b =>
      show some (compare a.toInt b.toInt) = some (compare (_ : Rank) _)
      simp only [Rank.compare_eq, Std.ReflCmp.compare_self, Ordering.then_eq]
    | _ => simp [typeName] at types
  | float a =>
    cases b with
    | float b =>
      have numbers : ∀ {value : Binary64}, (float value).isRanked → value ≠ .nan := by
        rintro _ ranked rfl
        cases ranked
      exact Binary64.compare?_eq_rank (numbers first) (numbers second)
    | _ => simp [typeName] at types
  | string a =>
    cases b with
    | string b =>
      show some (compare a b) = some (compare (_ : Rank) _)
      simp only [Rank.compare_eq, Std.ReflCmp.compare_self, Ordering.eq_then]
    | _ => simp [typeName] at types
  | instant a =>
    cases b with
    | instant b => exact congrArg some (Instant.compare_eq_rank a b)
    | _ => simp [typeName] at types

end Value

namespace SortExpression

theorem compareValues_null {value : Value} (ranked : value.isRanked) :
    compareValues .null value = .lt ∧ compareValues value .null = .gt := by
  cases value with
  | null | record | list => cases ranked
  | _ => exact ⟨rfl, rfl⟩

theorem compareValues_scalars {a b : Value} (first : a.isRanked) (second : b.isRanked) :
    compareValues a b = (a.compare? b).getD .eq := by
  cases a with
  | null | record | list => cases first
  | _ =>
    cases b with
    | null => cases second
    | _ => rfl

theorem compareValues_eq_rank {type : String} {a b : Value} (first : a.OfType type)
    (second : b.OfType type) : compareValues a b = compare a.rank b.rank := by
  rcases first with empty | ⟨ranked, rfl⟩
  · cases Value.eq_null_of_isNull empty
    rcases second with empty | ⟨ranked, -⟩
    · cases Value.eq_null_of_isNull empty
      rfl
    · obtain ⟨rank, has⟩ := Option.isSome_iff_exists.mp (Value.isSome_rank ranked)
      rw [(compareValues_null ranked).1, has]
      rfl
  · rcases second with empty | ⟨ranked', types⟩
    · cases Value.eq_null_of_isNull empty
      obtain ⟨rank, has⟩ := Option.isSome_iff_exists.mp (Value.isSome_rank ranked)
      rw [(compareValues_null ranked).2, has]
      rfl
    · rw [compareValues_scalars ranked ranked', Value.compare?_eq_rank ranked ranked' types.symm,
        Option.getD_some]

/-- The value that a record is sorted by; where the record has none it is null. -/
def valueIn (expression : SortExpression) (record : Record) : Value :=
  (record.get? expression.key).getD .null

/-- The values that the records are sorted by are nulls and scalars of one type. -/
def Uniform (expression : SortExpression) (records : List Record) : Prop :=
  ∃ type, ∀ record ∈ records, (expression.valueIn record).OfType type

/-- No two of the records compare as equal by the expression. -/
def Separates (expression : SortExpression) (records : List Record) : Prop :=
  records.Pairwise fun a b => compareValues (expression.valueIn a) (expression.valueIn b) ≠ .eq

def rankOrder (expression : SortExpression) (a b : Record) : Ordering :=
  expression.direction.apply (compare (expression.valueIn a).rank (expression.valueIn b).rank)

instance (expression : SortExpression) : Std.TransCmp expression.rankOrder := by
  let ascending : Record → Record → Ordering :=
    compareOn fun record => (expression.valueIn record).rank
  have preorder : Std.TransCmp ascending := inferInstance
  obtain ⟨target, direction⟩ := expression
  cases direction with
  | ascending => exact preorder
  | descending =>
    have turned : rankOrder ⟨target, .descending⟩ = fun a b => ascending b a := by
      funext a b
      have swapped : ascending b a = (ascending a b).swap := Std.OrientedCmp.eq_swap
      exact swapped.symm
    rw [turned]
    exact Std.TransCmp.opposite

variable {records : List Record} {a b : Record}

theorem compareRecords_eq_rankOrder {expression : SortExpression}
    (uniform : expression.Uniform records) (first : a ∈ records) (second : b ∈ records) :
    expression.compareRecords a b = expression.rankOrder a b := by
  obtain ⟨type, typed⟩ := uniform
  exact congrArg expression.direction.apply
    (compareValues_eq_rank (typed a first) (typed b second))

end SortExpression

namespace SortOrder

def rankOrder : List SortExpression → Record → Record → Ordering
  | [] => fun _ _ => .eq
  | expression :: rest => compareLex expression.rankOrder (rankOrder rest)

instance : Std.TransCmp (fun _ _ : Record => Ordering.eq) where
  eq_swap := rfl
  isLE_trans _ _ := rfl

instance transCmp_rankOrder : ∀ expressions, Std.TransCmp (rankOrder expressions)
  | [] => inferInstanceAs (Std.TransCmp fun _ _ : Record => Ordering.eq)
  | expression :: rest =>
    have := transCmp_rankOrder rest
    inferInstanceAs (Std.TransCmp (compareLex expression.rankOrder (rankOrder rest)))

/-- Records of uniform values are compared by a total preorder. -/
theorem compareBy_eq_rankOrder {records : List Record} {a b : Record} (first : a ∈ records)
    (second : b ∈ records) {expressions : List SortExpression}
    (uniform : ∀ expression ∈ expressions, expression.Uniform records) :
    compareBy a b expressions = rankOrder expressions a b := by
  induction expressions with
  | nil => rfl
  | cons expression rest ih =>
    have here : expression.compareRecords a b = expression.rankOrder a b :=
      SortExpression.compareRecords_eq_rankOrder (uniform _ List.mem_cons_self) first second
    have later := ih fun expression member => uniform expression (List.mem_cons_of_mem _ member)
    simp only [compareBy, rankOrder, compareLex, here, later]

end SortOrder

end LiveQuery
