import LiveQuery.Filter.Dependencies
import LiveQuery.Proofs.Dependency.Agreement
import LiveQuery.Proofs.Filter.Evaluation
import LiveQuery.Proofs.Store.Basic

set_option autoImplicit false

namespace LiveQuery

namespace Outcome

variable {ε α β : Type}

theorem toOption_bind (first : Except ε α) (next : α → Except ε β) :
    (first >>= next).toOption = first.toOption.bind fun value => (next value).toOption := by
  cases first <;> rfl

theorem toOption_bind_congr {first first' : Except ε α} {next next' : α → Except ε β}
    (same : first.toOption = first'.toOption)
    (behind : ∀ value, (next value).toOption = (next' value).toOption) :
    (first >>= next).toOption = (first' >>= next').toOption := by
  rw [toOption_bind, toOption_bind, same]
  exact congrArg _ (funext behind)

end Outcome

namespace LeafOperator

theorem holds_left_of_equal {a b : Value} (equal : a.Equal b) (operator : LeafOperator)
    (expected : Value) : operator.holds a expected = operator.holds b expected := by
  rcases equal with rfl | same
  · rfl
  · have loose := Value.looselyEqual_left_of_same same expected
    have order := Value.compare?_left_of_same same expected
    have null := Value.isNull_eq_of_same same
    have items (item : Value) := Value.looselyEqual_right_of_same same item
    cases operator with
    | compared comparison => cases comparison <;> simp only [holds, Value.ordered, loose, order, null]
    | among | notAmong => cases expected <;> simp only [holds, listHas, items]
    | fullText => cases a <;> cases b <;> simp_all [Value.same, holds]

end LeafOperator

namespace Predicate

variable {a b : Record} {node : String}

theorem toOption_require_bind {α : Type} {R : Value → Value → Prop} {key : String}
    {next next' : Value → Except StatementError α}
    (entries : Option.Rel R (a.get? key) (b.get? key))
    (behind : ∀ value other, R value other → (next value).toOption = (next' other).toOption) :
    (a.require node key >>= next).toOption = (b.require node key >>= next').toOption := by
  unfold Record.require
  generalize a.get? key = entry, b.get? key = entry' at entries ⊢
  cases entries with
  | none => rfl
  | some related => exact behind _ _ related

section Heads

variable {Heads : Record → Record → Prop} {key : String}
  {test test' : Record → Except StatementError Bool}

theorem toOption_invalid {α : Type} (node key expected : String) (value : Value) :
    (invalid node key expected value : Except StatementError α).toOption = none := rfl

/-- Related values are nodes that are related in turn, or a test of either one as a head takes
neither for a node. -/
theorem related_head_cases {value other : Value} (related : Value.Related Heads value other)
    (equal : ∀ a b, Value.Equal (.record a) (.record b) → Heads a b) :
    (∃ a b, value = .record a ∧ other = .record b ∧ Heads a b) ∨
      (value = .null ∧ other = .null) ∨
        (value.record? = none ∧ value.isNull = false) ∧ other.record? = none ∧
          other.isNull = false := by
  cases related with
  | null => exact Or.inr (Or.inl ⟨rfl, rfl⟩)
  | record heads => exact Or.inl ⟨_, _, rfl, rfl, heads⟩
  | list items => exact Or.inr (Or.inr ⟨⟨rfl, rfl⟩, rfl, rfl⟩)
  | equal same =>
    cases value with
    | null =>
      cases other with
      | null => exact Or.inr (Or.inl ⟨rfl, rfl⟩)
      | _ => rcases same with same | same <;> cases same
    | record a =>
      cases other with
      | record b => exact Or.inl ⟨a, b, rfl, rfl, equal a b same⟩
      | _ => rcases same with same | same <;> cases same
    | _ =>
      cases other with
      | null | record => rcases same with same | same <;> cases same
      | _ => exact Or.inr (Or.inr ⟨⟨rfl, rfl⟩, rfl, rfl⟩)

/-- Related values are lists of items that are related in turn, or neither of them is a list. -/
theorem related_list_cases {value other : Value} (related : Value.Related Heads value other) :
    (∃ items others, value = .list items ∧ other = .list others ∧
      List.Forall₂ (Value.Related Heads) items others) ∨
        value.list? = none ∧ other.list? = none := by
  cases related with
  | null | record => exact Or.inr ⟨rfl, rfl⟩
  | list items => exact Or.inl ⟨_, _, rfl, rfl, items⟩
  | equal same =>
    cases value with
    | list items =>
      cases other with
      | list others =>
        refine Or.inl ⟨items, others, rfl, rfl, ?_⟩
        rcases same with same | same
        · rw [Value.list.inj same]
          exact List.forall₂_same.mpr fun item _ => .equal (Value.Equal.refl item)
        · simp only [Value.same] at same
          exact (Value.forall₂_of_sameItems same).imp fun _ _ => .equal
      | _ => rcases same with same | same <;> cases same
    | _ =>
      cases other with
      | list => rcases same with same | same <;> cases same
      | _ => exact Or.inr ⟨rfl, rfl⟩

theorem testHead_eq_invalid {value : Value} (scalar : value.record? = none)
    (set : value.isNull = false) :
    testHead node key test value = invalid node key "node" value := by
  cases value with
  | null => cases set
  | record => cases scalar
  | _ => rfl

theorem toOption_testHead {value other : Value} (related : Value.Related Heads value other)
    (equal : ∀ a b, Value.Equal (.record a) (.record b) → Heads a b)
    (tests : ∀ a b, Heads a b → (test a).toOption = (test' b).toOption) :
    (testHead node key test value).toOption = (testHead node key test' other).toOption := by
  rcases related_head_cases related equal with
    ⟨a, b, rfl, rfl, heads⟩ | ⟨rfl, rfl⟩ | ⟨⟨scalar, set⟩, scalar', set'⟩
  · exact tests a b heads
  · rfl
  · rw [testHead_eq_invalid scalar set, testHead_eq_invalid scalar' set', toOption_invalid,
      toOption_invalid]

theorem toOption_testSome {items others : List Value}
    (related : List.Forall₂ (Value.Related Heads) items others)
    (equal : ∀ a b, Value.Equal (.record a) (.record b) → Heads a b)
    (tests : ∀ a b, Heads a b → (test a).toOption = (test' b).toOption) :
    (testSome node key test items).toOption = (testSome node key test' others).toOption := by
  induction related with
  | nil => rfl
  | cons first _ ih =>
    refine Outcome.toOption_bind_congr (toOption_testHead first equal tests) fun found => ?_
    cases found with
    | true => rfl
    | false => exact ih

theorem testRelation_eq_invalid {relation : ReverseEdge} {value : Value}
    (multiple : relation.multiplicity = .multiple) (scalar : value.list? = none) :
    testRelation node relation test value = invalid node relation.name "list" value := by
  unfold testRelation
  rw [multiple]
  cases value with
  | list => cases scalar
  | _ => rfl

theorem toOption_testRelation {relation : ReverseEdge} {value other : Value}
    (related : Value.Related Heads value other)
    (equal : ∀ a b, Value.Equal (.record a) (.record b) → Heads a b)
    (tests : ∀ a b, Heads a b → (test a).toOption = (test' b).toOption) :
    (testRelation node relation test value).toOption =
      (testRelation node relation test' other).toOption := by
  cases multiplicity : relation.multiplicity with
  | unique =>
    unfold testRelation
    rw [multiplicity]
    exact toOption_testHead related equal tests
  | multiple =>
    rcases related_list_cases related with ⟨items, others, rfl, rfl, paired⟩ | ⟨scalar, scalar'⟩
    · unfold testRelation
      rw [multiplicity]
      exact toOption_testSome paired equal tests
    · rw [testRelation_eq_invalid multiplicity scalar, testRelation_eq_invalid multiplicity scalar',
        toOption_invalid, toOption_invalid]

/-- The number that a count key holds. -/
def countIn : Value → Option Nat
  | .int number => if 0 ≤ number.toInt then some number.toInt.toNat else none
  | _ => none

theorem toOption_countOf (relation : ReverseEdge) (record : Record) :
    (countOf node relation record).toOption =
      match record.get? relation.countKey with
      | some value => countIn value
      | none => (record.get? relation.name).bind fun value => value.list?.map List.length := by
  unfold countOf Record.require
  cases record.get? relation.countKey with
  | some value =>
    cases value with
    | int number => by_cases counts : 0 ≤ number.toInt <;> simp [countIn, counts, invalid, Except.toOption]
    | _ => rfl
  | none =>
    cases record.get? relation.name with
    | none => rfl
    | some value => cases value <;> rfl

theorem toOption_countOf_congr {relation : ReverseEdge}
    (heads : Option.Rel (Value.Related Heads) (a.get? relation.name) (b.get? relation.name))
    (counts : Option.Rel Value.Equal (a.get? relation.countKey) (b.get? relation.countKey)) :
    (countOf node relation a).toOption = (countOf node relation b).toOption := by
  rw [toOption_countOf, toOption_countOf]
  generalize a.get? relation.countKey = count, b.get? relation.countKey = count' at counts ⊢
  generalize a.get? relation.name = value, b.get? relation.name = value' at heads ⊢
  cases counts with
  | none =>
    cases heads with
    | none => rfl
    | some related =>
      rcases related_list_cases related with ⟨items, others, rfl, rfl, paired⟩ | ⟨scalar, scalar'⟩
      · exact congrArg some paired.length_eq
      · simp only [Option.bind_some, scalar, scalar']
  | @some count count' equal =>
    rcases equal with rfl | same
    · rfl
    · cases count with
      | int number =>
        cases count' with
        | int number' =>
          have same : number = number' := of_decide_eq_true same
          rw [same]
        | _ => cases same
      | _ =>
        cases count' with
        | int => cases same
        | _ => rfl

end Heads

theorem toOption_evaluateAll {kind : Junction} {operands : List Predicate}
    (each : ∀ operand ∈ operands,
      (evaluate node operand a).toOption = (evaluate node operand b).toOption) :
    (evaluateAll node kind operands a).toOption = (evaluateAll node kind operands b).toOption := by
  induction operands with
  | nil => rfl
  | cons operand rest ih =>
    rw [List.forall_mem_cons] at each
    rw [evaluateAll_cons, evaluateAll_cons]
    refine Outcome.toOption_bind_congr each.1 fun value => ?_
    by_cases unsettled : value = kind.unit
    · simp only [unsettled, ↓reduceIte, ih each.2]
    · simp only [unsettled, ↓reduceIte]

theorem mem_dependenciesAll {operands : List Predicate} {operand : Predicate}
    (inside : operand ∈ operands) :
    operand.dependencies node ∈ dependenciesAll node operands := by
  induction operands with
  | nil => cases inside
  | cons first rest ih =>
    rcases List.mem_cons.mp inside with rfl | inside
    · exact List.mem_cons_self ..
    · exact List.mem_cons_of_mem _ (ih inside)

theorem toOption_evaluateHead {head : Option Predicate} {graph : DependencyGraph}
    (each : ∀ inner, head = some inner → ∀ node a b, (inner.dependencies node).Agree a b →
      (evaluate node inner a).toOption = (evaluate node inner b).toOption)
    (agree : (graph.mergeHead (dependenciesHead node head)).Agree a b) :
    (evaluateHead node head a).toOption = (evaluateHead node head b).toOption := by
  cases head with
  | none => rfl
  | some inner => exact each inner rfl node a b (DependencyGraph.agree_of_mergeHead agree)

/-- Records that agree on what a predicate reads have one outcome, up to the error. -/
theorem toOption_evaluate {predicate : Predicate} (node : String) (a b : Record)
    (agree : (predicate.dependencies node).Agree a b) :
    (evaluate node predicate a).toOption = (evaluate node predicate b).toOption := by
  induction predicate generalizing node a b with
  | constant value => rfl
  | junction kind operands ih =>
    have parts := DependencyGraph.agree_of_mem_union agree
    exact toOption_evaluateAll fun operand inside =>
      ih operand inside node a b (parts _ (mem_dependenciesAll inside))
  | negation operand ih =>
    exact Outcome.toOption_bind_congr (ih node a b agree) fun value => rfl
  | leaf field operator expected =>
    have entries := agree.1 field.name (List.mem_singleton_self _)
    refine toOption_require_bind entries fun value other equal => ?_
    rw [LeafOperator.holds_left_of_equal equal]
  | edge link head ih =>
    obtain ⟨entries, -⟩ := agree.2.1
    refine toOption_require_bind entries fun value other related => ?_
    exact toOption_testHead related (fun a b equal => DependencyGraph.agree_of_equal equal _)
      fun a b behind => toOption_evaluateHead ih behind
  | reverse relation head ih =>
    obtain ⟨entries, -⟩ := agree.2.2.1
    refine toOption_require_bind entries fun value other related => ?_
    exact toOption_testRelation related (fun a b equal => DependencyGraph.agree_of_equal equal _)
      fun a b behind => toOption_evaluateHead ih behind
  | count relation comparison number =>
    obtain ⟨entries, -⟩ := agree.2.2.1
    have counts := agree.2.2.2 relation.name (List.mem_singleton_self _)
    refine Outcome.toOption_bind_congr (toOption_countOf_congr entries counts) fun value => rfl
  | raw sql => rfl

end Predicate

/-- A filter reads only its dependencies: on records that agree on them it gives one result, or
fails on both. -/
theorem Filter.execute_of_agree (filter : Filter) {a b : Record}
    (agree : filter.dependencies.Agree a b) :
    (∃ matched, filter.execute a = .ok matched ∧ filter.execute b = .ok matched) ∨
      (∃ error, filter.execute a = .error error) ∧ ∃ error, filter.execute b = .error error := by
  have outcomes : (filter.execute a).toOption = (filter.execute b).toOption :=
    Predicate.toOption_evaluate filter.node.name a b agree
  cases first : filter.execute a with
  | ok matched =>
    cases second : filter.execute b with
    | ok matched' =>
      rw [first, second] at outcomes
      rw [Option.some.inj outcomes]
      exact Or.inl ⟨matched', rfl, rfl⟩
    | error =>
      rw [first, second] at outcomes
      cases outcomes
  | error error =>
    cases second : filter.execute b with
    | ok =>
      rw [first, second] at outcomes
      cases outcomes
    | error error' => exact Or.inr ⟨⟨error, rfl⟩, error', rfl⟩

namespace Samples

/-- People with a task that refers to a person of the key one, and with tasks at all. -/
def working : Filter :=
  let first := Predicate.leaf ⟨"Person", "id", "id", .int, false⟩ (.compared .eq) (.int 1)
  ⟨person, .junction .all [.reverse tasks (some (.edge owner (some first))), .count tasks .gt 0]⟩

def workingAda : Record := [("id", .int 1), ("tasks", .list [.record chore])]

/-- Another person, with another task, but of one owner. -/
def workingBob : Record :=
  [("tasks", .list [.record [("owner", .record [("name", .string "Ada"), ("id", .int 1)])]]),
    ("id", .int 2)]

theorem dependencies_working : working.dependencies =
    ⟨"Person", false, [], [], [("tasks",
      ⟨"Task", false, [], [("owner", ⟨"Person", false, ["id"], [], []⟩)], []⟩)]⟩ := rfl

theorem agree_working : working.dependencies.Agree workingAda workingBob := by
  have owners : DependencyGraph.Agree ⟨"Person", false, ["id"], [], []⟩ ada
      [("name", .string "Ada"), ("id", .int 1)] := by
    refine ⟨fun leaf inside => ?_, trivial, trivial, by simp [Sorted.keys]⟩
    rw [List.mem_singleton.mp inside]
    exact .some (Value.Equal.refl _)
  rw [dependencies_working]
  refine ⟨by simp, trivial, ⟨?_, trivial⟩, fun name inside => ?_⟩
  · refine .some (.list (.cons (.record ?_) .nil))
    exact ⟨by simp, ⟨.some (.record owners), trivial⟩, trivial, by simp [Sorted.keys]⟩
  · rw [List.mem_singleton.mp inside]
    exact .none

theorem execute_working :
    working.dependencies.Agree workingAda workingBob ∧
      ((∃ matched, working.execute workingAda = .ok matched ∧
        working.execute workingBob = .ok matched) ∨
      (∃ error, working.execute workingAda = .error error) ∧
        ∃ error, working.execute workingBob = .error error) :=
  ⟨agree_working, Filter.execute_of_agree working agree_working⟩

end Samples

end LiveQuery
