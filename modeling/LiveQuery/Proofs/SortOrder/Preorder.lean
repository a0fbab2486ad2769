import LiveQuery.Proofs.Number.Rounding
import LiveQuery.Proofs.SortOrder.Reduction

set_option autoImplicit false

namespace LiveQuery

theorem Binary64.compare?_swap (a b : Binary64) :
    b.compare? a = (a.compare? b).map Ordering.swap := by
  cases a with
  | nan => cases b <;> rfl
  | infinite negative =>
    cases b with
    | nan => rfl
    | infinite negative' => cases negative <;> cases negative' <;> rfl
    | finite => cases negative <;> rfl
  | finite negative m =>
    cases b with
    | nan => rfl
    | infinite negative' => cases negative' <;> rfl
    | finite negative' m' => exact congrArg some Std.OrientedCmp.eq_swap

theorem Value.floatOfInt_mono {a b : Int64} (le : a.toInt ≤ b.toInt) :
    (compare (Value.floatOfInt a).rank (Value.floatOfInt b).rank).isLE := by
  obtain ⟨m, float, units⟩ := Value.floatOfInt_eq a
  obtain ⟨m', float', units'⟩ := Value.floatOfInt_eq b
  have minor : Binary64.signedUnits (decide (a.toInt < 0)) m ≤
      Binary64.signedUnits (decide (b.toInt < 0)) m' := by
    unfold Binary64.signedUnits
    rw [units, units']
    by_cases below : a.toInt < 0
    · by_cases below' : b.toInt < 0
      · simp only [below, below', decide_true, ↓reduceIte, Int.neg_le_neg_iff, Int.ofNat_le]
        exact Nat.mul_le_mul_right _ (Binary64.nearest_mono (by omega))
      · simp only [below, below', decide_true, decide_false, Bool.false_eq_true, ↓reduceIte]
        exact Int.le_trans (Int.neg_nonpos_of_nonneg (Int.natCast_nonneg _)) (Int.natCast_nonneg _)
    · have below' : ¬b.toInt < 0 := by omega
      simp only [below, below', decide_false, Bool.false_eq_true, ↓reduceIte, Int.ofNat_le]
      exact Nat.mul_le_mul_right _ (Binary64.nearest_mono (by omega))
  rw [float, float']
  simpa only [Binary64.rank, Rank.compare_eq, Std.ReflCmp.compare_self, Ordering.then_eq,
    Ordering.eq_then, Int.isLE_compare] using minor

namespace Value

theorem compare?_swap (a b : Value) : b.compare? a = (a.compare? b).map Ordering.swap := by
  cases a with
  | null | record | list => cases b <;> rfl
  | boolean a =>
    cases b with
    | boolean b => cases a <;> cases b <;> rfl
    | _ => rfl
  | int a =>
    cases b with
    | int b => exact congrArg some Std.OrientedCmp.eq_swap
    | float b => exact Binary64.compare?_swap _ _
    | _ => rfl
  | float a =>
    cases b with
    | int b => exact Binary64.compare?_swap _ _
    | float b => exact Binary64.compare?_swap _ _
    | _ => rfl
  | string a =>
    cases b with
    | string b => exact congrArg some Std.OrientedCmp.eq_swap
    | _ => rfl
  | instant a =>
    cases b with
    | instant b =>
      simp only [compare?, Instant.compare_eq_rank, Option.map_some]
      exact congrArg some Std.OrientedCmp.eq_swap
    | _ => rfl

/-- What values are compared as. Integers and floats are compared with one another. -/
inductive Kind where
  | boolean
  | number
  | string
  | instant
  | list
  deriving DecidableEq

/-- Null comes before everything; a NaN and a node compare with nothing. -/
def kind? : Value → Option Kind
  | .boolean _ => some .boolean
  | .int _ | .float (.infinite _) | .float (.finite _ _) => some .number
  | .string _ => some .string
  | .instant _ => some .instant
  | .list _ => some .list
  | .null | .record _ | .float .nan => none

/-- The values of a kind. -/
theorem exists_of_kind {value : Value} {kind : Kind} (known : value.kind? = some kind) :
    match kind with
    | .boolean => ∃ truth, value = .boolean truth
    | .number => (∃ whole, value = .int whole) ∨ ∃ real, real ≠ .nan ∧ value = .float real
    | .string => ∃ text, value = .string text
    | .instant => ∃ time, value = .instant time
    | .list => ∃ items, value = .list items := by
  cases value with
  | null | record => cases known
  | float real =>
    cases real with
    | nan => cases known
    | _ =>
      cases known
      exact Or.inr ⟨_, by rintro ⟨⟩, rfl⟩
  | int whole =>
    cases known
    exact Or.inl ⟨whole, rfl⟩
  | _ =>
    cases known
    exact ⟨_, rfl⟩

/-- The place of a value among those of its kind, that of an integer beside floats. -/
def standing : Value → Rank
  | .int whole => (floatOfInt whole).rank
  | .list items => ⟨items.length, 0, ""⟩
  | value => value.rank.getD ⟨0, 0, ""⟩

theorem floatOfInt_ne_nan (whole : Int64) : floatOfInt whole ≠ .nan := by
  obtain ⟨m, float, -⟩ := floatOfInt_eq whole
  rw [float]
  rintro ⟨⟩

theorem compare?_eq_none {a b : Value} (single : a.list? = none ∨ b.list? = none)
    (apart : ∀ kind, a.kind? = some kind → b.kind? ≠ some kind) : a.compare? b = none := by
  cases a with
  | float real =>
    cases real with
    | nan => cases b <;> rfl
    | _ =>
      cases b with
      | int => exact absurd rfl (apart _ rfl)
      | float other =>
        cases other with
        | nan => rfl
        | _ => exact absurd rfl (apart _ rfl)
      | _ => rfl
  | int whole =>
    cases b with
    | int => exact absurd rfl (apart _ rfl)
    | float other =>
      cases other with
      | nan =>
        obtain ⟨m, float, -⟩ := floatOfInt_eq whole
        rw [compare?, float]
        rfl
      | _ => exact absurd rfl (apart _ rfl)
    | _ => rfl
  | _ => cases b <;> first | rfl | exact absurd rfl (apart _ rfl)

end Value

/-- Being equal or less is transitive among the records. -/
def TransitiveOn (compare : Record → Record → Ordering) (records : List Record) : Prop :=
  ∀ a ∈ records, ∀ b ∈ records, ∀ c ∈ records,
    compare a b ≠ .gt → compare b c ≠ .gt → compare a c ≠ .gt

namespace SortExpression

open Value

variable {a b c : Value}

theorem compareValues_single (set : a ≠ .null) (set' : b ≠ .null)
    (single : a.list? = none ∨ b.list? = none) : compareValues a b = (a.compare? b).getD .eq := by
  cases a with
  | null => exact absurd rfl set
  | list =>
    cases b with
    | null => exact absurd rfl set'
    | list => rcases single with many | many <;> cases many
    | _ => rfl
  | _ =>
    cases b with
    | null => exact absurd rfl set'
    | _ => rfl

theorem compareValues_list {as bs : List Value} :
    compareValues (.list as) (.list bs) = compare as.length bs.length := rfl

theorem compareValues_apart (set : a ≠ .null) (set' : b ≠ .null)
    (apart : ∀ kind, a.kind? = some kind → b.kind? ≠ some kind) : compareValues a b = .eq := by
  have single : a.list? = none ∨ b.list? = none := by
    cases a with
    | list =>
      cases b with
      | list => exact absurd rfl (apart _ rfl)
      | _ => exact Or.inr rfl
    | _ => exact Or.inl rfl
  rw [compareValues_single set set' single, compare?_eq_none single apart]
  rfl

theorem compareValues_swap (a b : Value) : compareValues b a = (compareValues a b).swap := by
  by_cases set : a = .null
  · subst set
    cases b <;> rfl
  · by_cases set' : b = .null
    · subst set'
      cases a with
      | null => rfl
      | _ => rfl
    · cases first : a.list? with
      | none =>
        rw [compareValues_single set set' (Or.inl first),
          compareValues_single set' set (Or.inr first), compare?_swap a b]
        cases a.compare? b <;> rfl
      | some as =>
        cases second : b.list? with
        | none =>
          rw [compareValues_single set set' (Or.inr second),
            compareValues_single set' set (Or.inl second), compare?_swap a b]
          cases a.compare? b <;> rfl
        | some bs =>
          cases a <;> cases first
          cases b <;> cases second
          rw [compareValues_list, compareValues_list]
          exact Std.OrientedCmp.eq_swap

theorem compareValues_ints {whole whole' : Int64} :
    compareValues (.int whole) (.int whole') = compare whole.toInt whole'.toInt := rfl

theorem compareValues_int_float {whole : Int64} {real : Binary64} :
    compareValues (.int whole) (.float real) = ((floatOfInt whole).compare? real).getD .eq := rfl

theorem compareValues_float_int {whole : Int64} {real : Binary64} :
    compareValues (.float real) (.int whole) = (real.compare? (floatOfInt whole)).getD .eq := rfl

theorem compareValues_floats {real real' : Binary64} :
    compareValues (.float real) (.float real') = (real.compare? real').getD .eq := rfl

theorem compareValues_numbers (number : a.kind? = some .number) (number' : b.kind? = some .number) :
    (∃ whole whole', a = .int whole ∧ b = .int whole') ∨
      compareValues a b = compare a.standing b.standing := by
  rcases exists_of_kind number with ⟨whole, rfl⟩ | ⟨real, known, rfl⟩
  · rcases exists_of_kind number' with ⟨whole', rfl⟩ | ⟨real', known', rfl⟩
    · exact Or.inl ⟨whole, whole', rfl, rfl⟩
    · rw [compareValues_int_float, Binary64.compare?_eq_rank (floatOfInt_ne_nan whole) known']
      exact Or.inr rfl
  · rcases exists_of_kind number' with ⟨whole', rfl⟩ | ⟨real', known', rfl⟩
    · rw [compareValues_float_int, Binary64.compare?_eq_rank known (floatOfInt_ne_nan whole')]
      exact Or.inr rfl
    · rw [compareValues_floats, Binary64.compare?_eq_rank known known']
      exact Or.inr rfl

theorem compareValues_alike {kind : Kind} (first : a.kind? = some kind)
    (second : b.kind? = some kind) : (∃ whole whole', a = .int whole ∧ b = .int whole') ∨
      compareValues a b = compare a.standing b.standing := by
  cases kind with
  | number => exact compareValues_numbers first second
  | list =>
    obtain ⟨as, rfl⟩ := exists_of_kind first
    obtain ⟨bs, rfl⟩ := exists_of_kind second
    refine Or.inr ?_
    simp only [compareValues_list, standing, Rank.compare_eq, Std.ReflCmp.compare_self,
      Ordering.then_eq, Nat.compare_eq_ite_lt, Int.compare_eq_ite_lt, Int.ofNat_lt]
  | _ =>
    obtain ⟨x, rfl⟩ := exists_of_kind first
    obtain ⟨y, rfl⟩ := exists_of_kind second
    exact Or.inr (compareValues_eq_rank (Or.inr ⟨rfl, rfl⟩) (Or.inr ⟨rfl, rfl⟩))

theorem isLE_standing {kind : Kind} (first : a.kind? = some kind) (second : b.kind? = some kind)
    (less : (compareValues a b).isLE) : (compare a.standing b.standing).isLE := by
  rcases compareValues_alike first second with ⟨whole, whole', rfl, rfl⟩ | places
  · rw [compareValues_ints, Int.isLE_compare] at less
    exact floatOfInt_mono less
  · rwa [places] at less

/-- A value that counts as equal with two that differ: one that is not of their kind, or a float
that both of two integers are rounded to. -/
inductive Blurs : Value → Value → Value → Prop
  | foreign {kind : Kind} {middle a b : Value} (first : a.kind? = some kind)
    (second : b.kind? = some kind) (differ : compareValues a b ≠ .eq) (set : middle ≠ .null)
    (apart : middle.kind? ≠ some kind) : Blurs middle a b
  | rounded {real : Binary64} {whole whole' : Int64} (differ : whole ≠ whole')
    (first : (floatOfInt whole).compare? real = some .eq)
    (second : (floatOfInt whole').compare? real = some .eq) :
    Blurs (.float real) (.int whole) (.int whole')

theorem Blurs.compareValues (blurs : Blurs b a c) : compareValues a b = .eq ∧
    compareValues b c = .eq ∧ compareValues a c ≠ .eq := by
  have present {value : Value} {kind : Kind} (known : value.kind? = some kind) : value ≠ .null := by
    rintro rfl
    cases known
  cases blurs with
  | @foreign kind _ _ _ first second differ set apart =>
    refine ⟨compareValues_apart (present first) set ?_, compareValues_apart set (present second) ?_,
      differ⟩
    · intro other same
      rwa [← Option.some.inj (first.symm.trans same)]
    · intro other same same'
      exact apart (same.trans (same'.symm.trans second))
  | @rounded real whole whole' differ first second =>
    refine ⟨?_, ?_, ?_⟩
    · rw [compareValues_int_float, first]
      rfl
    · rw [compareValues_float_int, Binary64.compare?_swap (floatOfInt whole') real, second]
      rfl
    · rw [compareValues_ints]
      exact fun same => differ (Int64.toInt_inj.mp (Std.LawfulEqCmp.eq_of_compare same))

/-- Of three values of one kind, only a float can keep two integers from their order. -/
theorem blurs_of_alike {kind : Kind} (first : a.kind? = some kind) (second : b.kind? = some kind)
    (third : c.kind? = some kind) (less : (compareValues a b).isLE)
    (less' : (compareValues b c).isLE) (greater : ¬(compareValues a c).isLE) : Blurs b a c := by
  have up := isLE_standing first second less
  have up' := isLE_standing second third less'
  rcases compareValues_alike first third with ⟨whole, whole', rfl, rfl⟩ | places
  · cases first
    rw [compareValues_ints, Int.isLE_compare] at greater
    -- The greater of the two integers is not rounded below the other, so all three are one float.
    have down : (compare (standing (.int whole')) (standing (.int whole))).isLE :=
      floatOfInt_mono (by omega)
    rcases exists_of_kind second with ⟨between, rfl⟩ | ⟨real, known, rfl⟩
    · rw [compareValues_ints, Int.isLE_compare] at less less'
      omega
    · refine .rounded (fun same => greater (Int.le_of_eq (congrArg Int64.toInt same))) ?_ ?_
      · rw [Binary64.compare?_eq_rank (floatOfInt_ne_nan whole) known]
        exact congrArg some (Std.OrientedCmp.isLE_antisymm up (Std.TransCmp.isLE_trans up' down))
      · rw [Binary64.compare?_eq_rank (floatOfInt_ne_nan whole') known]
        exact congrArg some (Std.OrientedCmp.isLE_antisymm (Std.TransCmp.isLE_trans down up) up')
  · rw [places] at greater
    exact absurd (Std.TransCmp.isLE_trans up up') greater

theorem isLE_null (value : Value) : (compareValues .null value).isLE := by
  cases value <;> rfl

theorem not_isLE_null (set : a ≠ .null) : ¬(compareValues a .null).isLE := by
  cases a with
  | null => exact absurd rfl set
  | _ => exact Bool.false_ne_true

/-- Wherever being equal or less is not transitive, the value between blurs the two others. -/
theorem blurs_of_not_isLE (less : (compareValues a b).isLE) (less' : (compareValues b c).isLE)
    (greater : ¬(compareValues a c).isLE) : Blurs b a c := by
  have set : a ≠ .null := by
    rintro rfl
    exact greater (isLE_null c)
  have set' : b ≠ .null := by
    rintro rfl
    exact not_isLE_null set less
  have set'' : c ≠ .null := by
    rintro rfl
    exact not_isLE_null set' less'
  by_cases alike : ∃ kind, a.kind? = some kind ∧ c.kind? = some kind
  · obtain ⟨kind, first, third⟩ := alike
    by_cases second : b.kind? = some kind
    · exact blurs_of_alike first second third less less' greater
    · refine .foreign first third (fun equal => greater ?_) set' second
      rw [equal]
      rfl
  · have equal := compareValues_apart set set'' fun kind first third => alike ⟨kind, first, third⟩
    rw [equal] at greater
    exact absurd rfl greater

/-- No value that the records are sorted by blurs two others. -/
def Sharp (expression : SortExpression) (records : List Record) : Prop :=
  ∀ a ∈ records, ∀ b ∈ records, ∀ c ∈ records,
    ¬Blurs (expression.valueIn b) (expression.valueIn a) (expression.valueIn c)

variable {expression : SortExpression} {records : List Record}

theorem Uniform.sharp (uniform : expression.Uniform records) : expression.Sharp records := by
  obtain ⟨type, typed⟩ := uniform
  intro a first b second c third blurs
  obtain ⟨equal, equal', differ⟩ := blurs.compareValues
  rw [compareValues_eq_rank (typed a first) (typed b second)] at equal
  rw [compareValues_eq_rank (typed b second) (typed c third)] at equal'
  rw [compareValues_eq_rank (typed a first) (typed c third)] at differ
  exact differ (Std.TransCmp.eq_trans equal equal')

theorem compareRecords_swap (expression : SortExpression) (a b : Record) :
    expression.compareRecords b a = (expression.compareRecords a b).swap := by
  unfold compareRecords
  rw [compareValues_swap]
  cases expression.direction <;> rfl

theorem Sharp.transCmp (sharp : expression.Sharp records) :
    Std.TransCmp fun a b : { record // record ∈ records } => expression.compareRecords a b where
  eq_swap := compareRecords_swap expression _ _
  isLE_trans {a b c} less less' := by
    refine Decidable.byContradiction fun greater => ?_
    obtain ⟨target, direction⟩ := expression
    cases direction with
    | ascending => exact sharp a a.2 b b.2 c c.2 (blurs_of_not_isLE less less' greater)
    | descending =>
      -- Descending, the values are compared the other way round.
      simp only [compareRecords, Direction.apply, ← compareValues_swap] at less less' greater
      exact sharp c c.2 b b.2 a a.2 (blurs_of_not_isLE less' less greater)

/-- Of a value that blurs two others, one comparison or the other is not transitive. -/
theorem Sharp.of_transitive (transitive : TransitiveOn expression.compareRecords records) :
    expression.Sharp records := by
  intro a first b second c third blurs
  obtain ⟨equal, equal', differ⟩ := blurs.compareValues
  have level {x y : Record}
      (even : compareValues (expression.valueIn x) (expression.valueIn y) = .eq) :
      expression.compareRecords x y = .eq ∧ expression.compareRecords y x = .eq := by
    have here : expression.compareRecords x y = .eq := compareRecords_eq_eq.mpr even
    exact ⟨here, by rw [compareRecords_swap, here]; rfl⟩
  have up := transitive a first b second c third (by simp [level equal]) (by simp [level equal'])
  have down := transitive c third b second a first (by simp [level equal']) (by simp [level equal])
  rw [compareRecords_swap expression a c] at down
  have apart : expression.compareRecords a c ≠ .eq := mt compareRecords_eq_eq.mp differ
  cases order : expression.compareRecords a c <;> simp_all

end SortExpression

namespace SortOrder

variable {records : List Record}

theorem compareBy_swap (expressions : List SortExpression) (a b : Record) :
    compareBy b a expressions = (compareBy a b expressions).swap := by
  induction expressions with
  | nil => rfl
  | cons expression rest ih =>
    rw [compareBy, compareBy, ih, SortExpression.compareRecords_swap, Ordering.swap_then]

theorem transCmp_compareBy {expressions : List SortExpression}
    (sharp : ∀ expression ∈ expressions, expression.Sharp records) :
    Std.TransCmp fun a b : { record // record ∈ records } => compareBy a b expressions := by
  induction expressions with
  | nil =>
    have : Std.OrientedCmp fun a b : { record // record ∈ records } => compareBy a b [] := ⟨rfl⟩
    exact ⟨fun _ _ => rfl⟩
  | cons expression rest ih =>
    have here := (sharp expression List.mem_cons_self).transCmp
    have later := ih fun other member => sharp other (List.mem_cons_of_mem _ member)
    exact inferInstanceAs (Std.TransCmp (compareLex
      (fun a b : { record // record ∈ records } => expression.compareRecords a b)
      fun a b => compareBy a b rest))

/-- The comparison of two records, turned round, is always the reverse. By any of the expressions it
is transitive among records if and only if no value that these are sorted by counts as equal with
two others that differ, as is never so where they are uniform. -/
theorem transitive_iff_sharp (node : Node) :
    (∀ (order : SortOrder) (a b : Record), order.compare b a = (order.compare a b).swap) ∧
      (∀ (expressions : List SortExpression) (records : List Record),
        (∀ part ⊆ expressions, TransitiveOn (SortOrder.compare ⟨node, part⟩) records) ↔
          ∀ expression ∈ expressions, expression.Sharp records) ∧
      ∀ (expression : SortExpression) (records : List Record),
        expression.Uniform records → expression.Sharp records := by
  refine ⟨fun order => compareBy_swap order.expressions, fun expressions records =>
    ⟨fun transitive expression member => ?_, fun sharp part inside => ?_⟩,
    fun expression records => SortExpression.Uniform.sharp⟩
  · have single : SortOrder.compare ⟨node, [expression]⟩ = expression.compareRecords := by
      funext a b
      exact Ordering.then_eq
    have inside : [expression] ⊆ expressions := List.cons_subset.mpr ⟨member, List.nil_subset _⟩
    exact SortExpression.Sharp.of_transitive (single ▸ transitive [expression] inside)
  · intro a first b second c third less less'
    have preorder := transCmp_compareBy fun expression member => sharp expression (inside member)
    rw [ne_eq, Ordering.ne_gt_iff_isLE] at less less' ⊢
    exact preorder.isLE_trans (a := ⟨a, first⟩) (b := ⟨b, second⟩) (c := ⟨c, third⟩) less less'

end SortOrder

namespace Samples

def byScore : SortOrder :=
  ⟨person, [⟨.leaf ⟨"Person", "score", "score", .float, true⟩, .ascending⟩]⟩

/-- The first and the last score differ by one, and both are rounded to the one between. -/
def scores : List Record :=
  [[("score", .int 9007199254740993)],
    [("score", .float (Value.floatOfInt 9007199254740992))],
    [("score", .int 9007199254740992)]]

example : scores.map (fun a => scores.map (byScore.compare a)) =
    [[.eq, .eq, .gt], [.eq, .eq, .eq], [.lt, .eq, .eq]] := by
  decide +kernel

end Samples

end LiveQuery
