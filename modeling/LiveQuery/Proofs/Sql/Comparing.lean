import LiveQuery.Proofs.Sql.Storing

set_option autoImplicit false

namespace LiveQuery

/-- A value of a type. Floats may be out of range. -/
def LeafType.Has : LeafType → Value → Prop
  | .boolean, .boolean _ | .int, .int _ | .float, .float _ | .string, .string _
  | .uuid, .string _ | .instant, .instant _ => True
  | _, _ => False

/-- Instants to the microsecond, and no leap seconds. -/
def Instant.Exact (instant : Instant) : Prop :=
  instant.nanos < nanosPerSecond ∧ instant.nanos % 1000 = 0

def Value.Exact : Value → Prop
  | .instant moment => moment.Exact
  | .list items => ∀ moment, .instant moment ∈ items → moment.Exact
  | _ => True

theorem Instant.Exact.toMicrosecond? {instant : Instant} (exact : instant.Exact) :
    instant.toMicrosecond? = some instant := by
  obtain ⟨seconds, nanos, bound⟩ := instant
  obtain ⟨inside, whole⟩ := exact
  have same : nanos / 1000 * 1000 = nanos := Nat.div_mul_cancel (Nat.dvd_of_mod_eq_zero whole)
  simp only [Instant.toMicrosecond?, inside, ↓reduceDIte, same]

namespace LeafType

variable {type : LeafType} {value other : Value}

theorem has_of_coerce? (kept : type.coerce? value = some other) : type.Has other := by
  cases type <;> cases value <;> simp only [coerce?, reduceCtorEq] at kept
  case boolean.int => split at kept <;> (try split at kept) <;> cases kept <;> trivial
  case float.float => split at kept <;> cases kept; trivial
  case int.float | uuid.string | instant.string =>
    obtain ⟨_, -, rfl⟩ := Option.map_eq_some_iff.mp kept
    trivial
  all_goals cases kept; trivial

theorem Has.ne_null (has : type.Has value) : value ≠ .null := by
  rintro rfl
  cases type <;> exact has

theorem Has.not_list {items : List Value} (has : type.Has (.list items)) : False := by
  cases type <;> exact has

theorem Has.isNull_eq (has : type.Has value) : value.isNull = false := by
  cases value <;> first | rfl | exact absurd rfl has.ne_null

theorem Has.looselyEqual_null (has : type.Has value) : value.looselyEqual .null = false := by
  cases value <;> first | rfl | exact absurd rfl has.ne_null

theorem Has.atom?_ne_null (has : type.Has value) : value.atom? ≠ some .null := by
  cases value with
  | null => exact absurd rfl has.ne_null
  | float number => cases number <;> simp [Value.atom?]
  | _ => simp [Value.atom?]

theorem Has.compare? (has : type.Has value) (has' : type.Has other) {a b : Atom}
    (atom : value.atom? = some a) (atom' : other.atom? = some b) :
    ∃ order, value.compare? other = some order ∧ a.compare? b = some order := by
  cases type
  case float =>
    cases value <;> simp only [Has] at has
    cases other <;> simp only [Has] at has'
    rename_i number number'
    cases number <;> simp only [Value.atom?, Option.some.injEq, reduceCtorEq] at atom
    cases number' <;> simp only [Value.atom?, Option.some.injEq, reduceCtorEq] at atom'
    subst atom atom'
    exact ⟨_, rfl, rfl⟩
  all_goals
    cases value <;> simp only [Has] at has
    cases other <;> simp only [Has] at has'
    cases atom
    cases atom'
    exact ⟨_, rfl, rfl⟩

theorem Has.looselyEqual (has : type.Has value) (has' : type.Has other) :
    value.looselyEqual other = (value.compare? other == some .eq) := by
  cases type <;> cases value <;> simp only [Has] at has <;>
    cases other <;> simp only [Has] at has' <;> rfl

theorem Has.looselyEqual_eq (has : type.Has value) (has' : type.Has other) {a b : Atom}
    (atom : value.atom? = some a) (atom' : other.atom? = some b) :
    value.looselyEqual other = decide (a = b) := by
  obtain ⟨order, compared, same⟩ := has.compare? has' atom atom'
  have set : a ≠ .null := fun null => has.atom?_ne_null (null ▸ atom)
  have equal : a = b ↔ order = .eq := by
    rw [← and_iff_left (a := a = b) set, ← Atom.compare?_eq_some_eq_iff, same, Option.some.injEq]
  rw [has.looselyEqual has', compared, decide_eq_decide.mpr equal]
  cases order <;> rfl

end LeafType

namespace Sql

theorem Literal.atom?_eq {type : LeafType} {value : Value} {literal : Literal}
    (made : Literal.ofValue type value = .ok literal) (has : type.Has value)
    (exact : value.Exact) : value.atom? = some literal.value := by
  cases type <;> cases value <;> simp only [LeafType.Has] at has
  case float.float number =>
    cases number <;> cases made
    rfl
  case instant.instant moment =>
    cases made
    have kept : moment.toMicrosecond? = some moment := Instant.Exact.toMicrosecond? exact
    simp only [Literal.value, kept, Value.atom?]
  all_goals cases made; rfl

namespace Condition

variable {database : Database} {scope : Scope} {field : Leaf} {column : Column}
  {value expected : Value}

section Comparisons

variable {literal : Literal} {comparison : Comparison}

theorem truth_compared_of_has (has : field.type.Has value)
    (held : value.atom? = some (scope.value column)) (has' : field.type.Has expected)
    (exact : expected.Exact) (made : Literal.ofValue field.type expected = .ok literal) :
    ∃ order, value.compare? expected = some order ∧ ∀ comparison : Comparison,
      truth database (.compared column (.compared comparison) literal) scope =
        some (comparison.holds order) := by
  obtain ⟨order, compared, same⟩ := has.compare? has' held (Literal.atom?_eq made has' exact)
  exact ⟨order, compared, fun comparison => by rw [truth_compared, Operator.truth, same]; rfl⟩

theorem truth_nullSafe (canonical : field.Canonical value)
    (held : value.atom? = some (scope.value column)) (has : field.type.Has expected)
    (exact : expected.Exact) (made : Literal.ofValue field.type expected = .ok literal) :
    truth database (.compared column .nullSafe literal) scope =
      some (value.looselyEqual expected) := by
  have atom := Literal.atom?_eq made has exact
  have set : literal.value ≠ .null := fun null => has.atom?_ne_null (null ▸ atom)
  rcases canonical.null_or_type with ⟨-, rfl⟩ | kept
  · have null : scope.value column = .null := (Option.some.inj held).symm
    rw [Value.null_looselyEqual (by rw [atom]; rfl), atom, truth_compared, Operator.truth,
      null,
      if_pos (Or.inl rfl), decide_eq_false set.symm]
    simp [Value.atom?, set.symm]
  · have typed := LeafType.has_of_coerce? kept
    have set' : scope.value column ≠ .null := fun null => typed.atom?_ne_null (null ▸ held)
    obtain ⟨order, compared, same⟩ := typed.compare? has held atom
    rw [typed.looselyEqual has, compared, truth_compared, Operator.truth,
      if_neg (by simp [set, set']), same]
    cases order <;> rfl

theorem truth_guarded {condition : Condition} {answer : Bool}
    (required : field.nullable = false → scope.value column ≠ .null)
    (set : scope.value column ≠ .null → truth database condition scope = some answer)
    (unset : scope.value column = .null → answer = false) :
    truth database (guarded field column condition) scope = some answer := by
  unfold guarded
  by_cases null : scope.value column = .null
  · have nullable : field.nullable = true := by
      rw [← Bool.not_eq_false]
      exact fun strict => required strict null
    rw [if_pos nullable, truth_junction, truths_eq_map, unset null]
    exact Truth.join_of_mem (by simp [null, Junction.unit])
  · by_cases nullable : field.nullable = true
    · rw [if_pos nullable, truth_junction, truths_eq_map, List.map_cons, List.map_singleton,
        truth_isSet, set null, decide_eq_true null, Truth.join_all_true, Truth.join_singleton]
    · rw [if_neg nullable, set null]

theorem held_ne_null (canonical : field.Canonical value)
    (held : value.atom? = some (scope.value column)) :
    field.nullable = false → scope.value column ≠ .null :=
  fun required null => canonical.atom?_ne_null required (null ▸ held)

theorem value_of_null (canonical : field.Canonical value)
    (held : value.atom? = some (scope.value column)) (null : scope.value column = .null) :
    value = .null := by
  rcases canonical.null_or_type with ⟨-, rfl⟩ | kept
  · rfl
  · exact absurd (null ▸ held) (LeafType.atom?_ne_null_of_coerce? kept)

theorem has_of_set (canonical : field.Canonical value)
    (held : value.atom? = some (scope.value column)) (set : scope.value column ≠ .null) :
    field.type.Has value := by
  rcases canonical.null_or_type with ⟨-, rfl⟩ | kept
  · exact absurd (Option.some.inj held).symm set
  · exact LeafType.has_of_coerce? kept

theorem truth_equal (canonical : field.Canonical value)
    (held : value.atom? = some (scope.value column)) (required : field.nullable ≠ true)
    (has : field.type.Has expected) (exact : expected.Exact)
    (made : Literal.ofValue field.type expected = .ok literal) :
    truth database (.compared column (.compared .eq) literal) scope =
        some (value.looselyEqual expected) ∧
      truth database (.compared column (.compared .ne) literal) scope =
        some (!value.looselyEqual expected) := by
  have set := held_ne_null canonical held (Bool.eq_false_iff.mpr required)
  have typed := has_of_set canonical held set
  obtain ⟨order, compared, same⟩ := truth_compared_of_has typed held has exact made
  rw [same, same, typed.looselyEqual has, compared]
  cases order <;> exact ⟨rfl, rfl⟩

theorem truth_ordered (canonical : field.Canonical value)
    (held : value.atom? = some (scope.value column)) (has : field.type.Has expected)
    (exact : expected.Exact) (made : Literal.ofValue field.type expected = .ok literal)
    (comparison : Comparison) :
    truth database (guarded field column (.compared column (.compared comparison) literal)) scope =
      some (value.ordered comparison expected) := by
  refine truth_guarded (held_ne_null canonical held) (fun set => ?_) fun unset => ?_
  · have typed := has_of_set canonical held set
    obtain ⟨order, compared, same⟩ := truth_compared_of_has typed held has exact made
    rw [same, Value.ordered, compared, typed.isNull_eq]
    rfl
  · rw [value_of_null canonical held unset]
    rfl

theorem truth_ofComparison_null {condition : Condition} (canonical : field.Canonical value)
    (held : value.atom? = some (scope.value column)) (unordered : comparison.isOrder = false)
    (made : ofComparison field column comparison .null = .ok condition) :
    truth database condition scope =
      some ((LeafOperator.compared comparison).holds value .null) := by
  have equal : value.looselyEqual .null = decide (scope.value column = .null) := by
    rw [Value.looselyEqual_null canonical.atom?_isSome, held]
    simp [Value.atom?]
  cases comparison with
  | eq =>
    cases made
    rw [truth_isNull, LeafOperator.holds, equal]
  | ne =>
    cases made
    rw [truth_isSet, LeafOperator.holds, equal, decide_not]
  | _ => cases unordered

end Comparisons

/-- What a comparison of a leaf may compare with. -/
def Comparable (field : Leaf) (comparison : Comparison) (expected : Value) : Prop :=
  (comparison.isOrder = false ∧ expected = .null) ∨ field.type.Has expected

theorem truth_ofComparison {comparison : Comparison} {condition : Condition}
    (canonical : field.Canonical value) (held : value.atom? = some (scope.value column))
    (comparable : Comparable field comparison expected) (exact : expected.Exact)
    (made : ofComparison field column comparison expected = .ok condition) :
    truth database condition scope =
      some ((LeafOperator.compared comparison).holds value expected) := by
  rcases comparable with ⟨unordered, rfl⟩ | has
  · exact truth_ofComparison_null canonical held unordered made
  cases comparison with
  | eq =>
    simp only [ofComparison, has.isNull_eq, Bool.false_eq_true, ↓reduceIte] at made
    obtain ⟨literal, written, made⟩ := Outcome.bind_eq_ok.mp made
    cases made
    by_cases nullable : field.nullable = true
    · rw [if_pos nullable, truth_nullSafe canonical held has exact written, LeafOperator.holds]
    · rw [if_neg nullable, (truth_equal canonical held nullable has exact written).1,
        LeafOperator.holds]
  | ne =>
    simp only [ofComparison, has.isNull_eq, Bool.false_eq_true, ↓reduceIte] at made
    by_cases nullable : field.nullable = true
    · rw [if_pos nullable] at made
      obtain ⟨literal, written, made⟩ := Outcome.bind_eq_ok.mp made
      cases made
      rw [truth_negation, truth_nullSafe canonical held has exact written]
      rfl
    · rw [if_neg nullable] at made
      obtain ⟨literal, written, made⟩ := Outcome.bind_eq_ok.mp made
      cases made
      rw [(truth_equal canonical held nullable has exact written).2, LeafOperator.holds]
  | gt | ge | lt | le =>
    obtain ⟨literal, written, made⟩ := Outcome.bind_eq_ok.mp made
    cases made
    exact truth_ordered canonical held has exact written _

/-- Nulls, and values of the leaf's type with exact literals. -/
def Listable (field : Leaf) (items : List Value) : Prop :=
  ∀ item ∈ items, (item = .null ∨ field.type.Has item) ∧ item.Exact

theorem truth_among_of_has (has : field.type.Has value)
    (held : value.atom? = some (scope.value column)) {items : List Value}
    (listable : ∀ item ∈ items, field.type.Has item ∧ item.Exact)
    {literals : List Literal} (made : items.mapM (Literal.ofValue field.type) = .ok literals) :
    truth database (.among column literals) scope =
      some (items.any fun item => item.looselyEqual value) := by
  rw [truth_among, ← Truth.join_any_map]
  congr 1
  have written := Outcome.mapM_eq_ok_iff.mp made
  clear made
  induction written with
  | nil => rfl
  | @cons item literal items literals first _ ih =>
    rw [List.forall_mem_cons] at listable
    have atom := Literal.atom?_eq first listable.1.1 listable.1.2
    obtain ⟨order, compared, same⟩ := has.compare? listable.1.1 held atom
    have equal := has.looselyEqual_eq listable.1.1 held atom
    rw [List.map_cons, List.map_cons, ih listable.2, listable.1.1.looselyEqual_eq has atom held,
      decide_eq_decide.mpr eq_comm, ← equal, has.looselyEqual listable.1.1, compared,
      Operator.truth, same]
    cases order <;> rfl

theorem truth_parts {parts : List Condition} {condition : Condition}
    (made : (match parts with
      | [] => return .constant false
      | [part] => return part
      | parts => return .junction .any parts : Except Error Condition) = .ok condition) :
    truth database condition scope = Truth.join .any (truths database parts scope) := by
  split at made
  · cases made
    rfl
  · cases made
    rw [truths_eq_map, List.map_singleton, Truth.join_singleton]
  · cases made
    rw [truth_junction]

theorem any_looselyEqual (canonical : field.Canonical value)
    (held : value.atom? = some (scope.value column)) (items : List Value) :
    (items.any fun item => item.looselyEqual value) =
      (((items.filter (!·.isNull)).any fun item => item.looselyEqual value) ||
        (items.any (·.isNull) && decide (scope.value column = .null))) := by
  induction items with
  | nil => rfl
  | cons item rest ih =>
    rw [List.any_cons, ih, List.any_cons]
    cases null : item.isNull with
    | false =>
      rw [List.filter_cons_of_pos (by rw [null]; rfl), List.any_cons, Bool.or_assoc, Bool.false_or]
    | true =>
      have same : item = .null := by
        cases item <;> first | rfl | cases null
      have equal : Value.null.looselyEqual value = decide (scope.value column = .null) := by
        rw [Value.null_looselyEqual canonical.atom?_isSome, held]
        simp [Value.atom?, eq_comm]
      rw [List.filter_cons_of_neg (by rw [null]; simp), same, equal]
      cases decide (scope.value column = .null) <;> simp

theorem Listable.not_null {items : List Value} (listable : Listable field items) :
    ∀ item ∈ items.filter (!·.isNull), field.type.Has item ∧ item.Exact := by
  intro item inside
  obtain ⟨member, set⟩ := List.mem_filter.mp inside
  obtain ⟨rfl | has, exact⟩ := listable item member
  · cases set
  · exact ⟨has, exact⟩

theorem truth_guarded_among {items : List Value} {literals : List Literal}
    (canonical : field.Canonical value) (held : value.atom? = some (scope.value column))
    (typed : ∀ item ∈ items, field.type.Has item ∧ item.Exact)
    (written : items.mapM (Literal.ofValue field.type) = .ok literals) :
    truth database (guarded field column (.among column literals)) scope =
      some (items.any fun item => item.looselyEqual value) := by
  refine truth_guarded (held_ne_null canonical held) (fun set => ?_) fun unset => ?_
  · exact truth_among_of_has (has_of_set canonical held set) held typed written
  · rw [value_of_null canonical held unset, List.any_eq_false]
    intro item inside
    rw [(typed item inside).1.looselyEqual_null]
    exact Bool.false_ne_true

theorem truth_ofItems {items : List Value} {condition : Condition}
    (canonical : field.Canonical value) (held : value.atom? = some (scope.value column))
    (listable : Listable field items) (made : ofItems field column items = .ok condition) :
    truth database condition scope = some (items.any fun item => item.looselyEqual value) := by
  obtain ⟨literals, written, made⟩ := Outcome.bind_eq_ok.mp made
  have listed : truth database (guarded field column (.among column literals)) scope =
      some ((items.filter (!·.isNull)).any fun item => item.looselyEqual value) :=
    truth_guarded_among canonical held listable.not_null written
  have null : Truth.join .any (truths database
      (if items.any (·.isNull) then [isNull column] else []) scope) =
      some (items.any (·.isNull) && decide (scope.value column = .null)) := by
    by_cases some_null : items.any (·.isNull) = true
    · rw [if_pos some_null, some_null, truths_eq_map, List.map_singleton, Truth.join_singleton,
        truth_isNull, Bool.true_and]
    · rw [if_neg some_null, Bool.eq_false_iff.mpr some_null]
      rfl
  rw [truth_parts made, any_looselyEqual canonical held, truths_eq_map, List.map_append,
    ← truths_eq_map, ← truths_eq_map]
  by_cases empty : literals.isEmpty = true
  · rw [List.isEmpty_iff] at empty
    subst empty
    have none_set := Outcome.eq_nil_of_mapM written
    rw [none_set, if_pos List.isEmpty_nil, truths_eq_map, List.map_nil, List.nil_append, null]
    rfl
  · rw [if_neg empty, truths_eq_map, List.map_singleton, listed, List.singleton_append,
      Truth.join_cons_some, null]
    cases (items.filter (!·.isNull)).any fun item => item.looselyEqual value <;> rfl

/-- What an operator may compare a leaf with so that a column of the leaf can be asked. -/
def Testable (field : Leaf) (operator : LeafOperator) (expected : Value) : Prop :=
  match operator with
  | .compared comparison => Comparable field comparison expected ∧ expected.Exact
  | .among | .notAmong => ∃ items, expected = .list items ∧ Listable field items
  | .fullText => False

theorem has_of_coerce {raw : Value} (set : raw.isNull = false)
    (made : field.coerce raw = .ok expected) : field.type.Has expected := by
  unfold Leaf.coerce at made
  cases coerced : field.coerce? raw with
  | none =>
    rw [coerced] at made
    cases made
  | some found =>
    rw [coerced] at made
    cases made
    rw [Leaf.coerce?, set, Bool.and_false] at coerced
    exact LeafType.has_of_coerce? coerced

theorem null_or_has_of_coerceOrNull {raw : Value}
    (made : Filter.coerceOrNull field raw = .ok expected) :
    expected = .null ∨ field.type.Has expected := by
  unfold Filter.coerceOrNull at made
  cases null : raw.isNull with
  | true =>
    rw [null] at made
    cases made
    exact Or.inl rfl
  | false =>
    rw [null] at made
    exact Or.inr (has_of_coerce null made)

/-- The list that a filter compares with has items that it can compare with. -/
theorem listable_of_operand {operator : LeafOperator} {raw : Value}
    (member : operator = .among ∨ operator = .notAmong)
    (made : Filter.operand field operator raw = .ok expected) (exact : expected.Exact) :
    ∃ items, expected = .list items ∧ Listable field items := by
  obtain ⟨coerced, each, rfl⟩ : ∃ coerced, (∀ item ∈ coerced, ∃ origin,
      Filter.coerceOrNull field origin = .ok item) ∧ expected = .list coerced := by
    rcases member with rfl | rfl <;> cases raw with
    | list items =>
      obtain ⟨coerced, mapped, made⟩ := Outcome.bind_eq_ok.mp made
      cases made
      refine ⟨coerced, fun item inside => ?_, rfl⟩
      obtain ⟨origin, -, made⟩ := Outcome.exists_of_mem_mapM mapped inside
      exact ⟨origin, made⟩
    | _ => cases made
  refine ⟨coerced, rfl, fun item inside => ?_⟩
  obtain ⟨origin, made⟩ := each item inside
  have typed := null_or_has_of_coerceOrNull made
  refine ⟨typed, ?_⟩
  cases item with
  | instant moment => exact exact moment inside
  | list =>
    rcases typed with same | has
    · cases same
    · exact has.not_list.elim
  | _ => trivial

/-- The operands of filters are such values, save for full-text searches. -/
theorem testable_of_operand {operator : LeafOperator} {raw : Value} (plain : operator ≠ .fullText)
    (made : Filter.operand field operator raw = .ok expected) (exact : expected.Exact) :
    Testable field operator expected := by
  cases operator with
  | compared comparison =>
    refine ⟨?_, exact⟩
    unfold Filter.operand at made
    cases ordered : comparison.isOrder with
    | false =>
      simp only [ordered, Bool.not_false, ↓reduceIte] at made
      exact (null_or_has_of_coerceOrNull made).imp_left fun null => ⟨ordered, null⟩
    | true =>
      simp only [ordered, Bool.not_true, Bool.false_eq_true, ↓reduceIte] at made
      split at made
      · cases made
      · rename_i set
        rw [Bool.or_eq_true, not_or] at set
        exact Or.inr (has_of_coerce (by simpa using set.2) made)
  | among => exact listable_of_operand (.inl rfl) made exact
  | notAmong => exact listable_of_operand (.inr rfl) made exact
  | fullText => exact absurd rfl plain

theorem truth_ofLeaf {table : Table} {operator : LeafOperator} {condition : Condition}
    (canonical : field.Canonical value)
    (held : value.atom? = some (scope table.label field.column))
    (testable : Testable field operator expected)
    (made : ofLeaf table field operator expected = .ok condition) :
    truth database condition scope = some (operator.holds value expected) := by
  obtain ⟨column, written, made⟩ := Outcome.bind_eq_ok.mp made
  obtain ⟨label, name⟩ := Table.column_eq_ok written
  have held : value.atom? = some (scope.value column) := by rw [Scope.value, label, name, held]
  cases operator with
  | compared comparison => exact truth_ofComparison canonical held testable.1 testable.2 made
  | among =>
    obtain ⟨items, rfl, listable⟩ := testable
    exact truth_ofItems canonical held listable made
  | notAmong =>
    obtain ⟨items, rfl, listable⟩ := testable
    obtain ⟨inner, within, made⟩ := Outcome.bind_eq_ok.mp made
    cases made
    rw [truth_negation, truth_ofItems canonical held listable within]
    rfl
  | fullText => exact testable.elim

end Condition

end Sql

end LiveQuery
