import LiveQuery.Filter.Reduction
import LiveQuery.Proofs.Outcome
import LiveQuery.Proofs.Value.Same

set_option autoImplicit false

namespace LiveQuery

namespace Predicate

/-- Induction over predicates, in which the operands of a junction and the condition on a head are
predicates of their own. -/
@[induction_eliminator]
theorem induction {motive : Predicate → Prop} (constant : ∀ value, motive (.constant value))
    (junction : ∀ kind operands, (∀ operand ∈ operands, motive operand) →
      motive (.junction kind operands))
    (negation : ∀ operand, motive operand → motive (.negation operand))
    (leaf : ∀ field operator value, motive (.leaf field operator value))
    (edge : ∀ link head, (∀ inner, head = some inner → motive inner) → motive (.edge link head))
    (reverse : ∀ relation head, (∀ inner, head = some inner → motive inner) →
      motive (.reverse relation head))
    (count : ∀ relation comparison number, motive (.count relation comparison number))
    (raw : ∀ sql, motive (.raw sql)) (predicate : Predicate) : motive predicate := by
  refine @Predicate.rec motive (fun operands => ∀ operand ∈ operands, motive operand)
    (fun head => ∀ inner, head = some inner → motive inner)
    constant junction negation leaf edge reverse count raw ?_ ?_ ?_ ?_ predicate
  · simp
  · intro operand rest first behind other member
    rcases List.mem_cons.mp member with rfl | member
    · exact first
    · exact behind other member
  · intro inner impossible
    cases impossible
  · intro inner holds other same
    cases same
    exact holds

variable {node : String} {kind : Junction} {record : Record}

theorem evaluate_junction (operands : List Predicate) :
    evaluate node (.junction kind operands) record = evaluateAll node kind operands record := rfl

theorem evaluateAll_append (operands more : List Predicate) :
    evaluateAll node kind (operands ++ more) record =
      evaluateAll node kind operands record >>= fun value =>
        if value = kind.unit then evaluateAll node kind more record else .ok value := by
  induction operands with
  | nil => simp [evaluateAll]
  | cons operand rest ih =>
    simp only [List.cons_append, evaluateAll]
    cases first : evaluate node operand record with
    | error => rfl
    | ok value =>
      by_cases open_ : value = kind.unit
      · simp only [Outcome.ok_bind, open_, ↓reduceIte, ih]
      · simp [open_]

theorem evaluateAll_cons (operand : Predicate) (rest : List Predicate) :
    evaluateAll node kind (operand :: rest) record =
      evaluate node operand record >>= fun value =>
        if value = kind.unit then evaluateAll node kind rest record else .ok value := rfl

theorem evaluateAll_eq_unit_iff {operands : List Predicate} :
    evaluateAll node kind operands record = .ok kind.unit ↔
      ∀ operand ∈ operands, evaluate node operand record = .ok kind.unit := by
  induction operands with
  | nil => simp [evaluateAll]
  | cons operand rest ih =>
    rw [evaluateAll_cons, List.forall_mem_cons, ← ih]
    cases first : evaluate node operand record with
    | error => simp
    | ok value => by_cases open_ : value = kind.unit <;> simp [open_]

theorem evaluateAll_any {operands : List Predicate}
    (settled : ∀ operand ∈ operands, ∃ value, evaluate node operand record = .ok value) :
    ∃ value, evaluateAll node .any operands record = .ok value ∧
      (value = true ↔ ∃ operand ∈ operands, evaluate node operand record = .ok true) := by
  induction operands with
  | nil => exact ⟨false, rfl, by simp⟩
  | cons operand rest ih =>
    obtain ⟨first, known⟩ := settled operand (by simp)
    obtain ⟨value, behind, meaning⟩ := ih fun other member => settled other (by simp [member])
    rw [evaluateAll_cons, known]
    cases first with
    | true => exact ⟨true, rfl, by simp [known]⟩
    | false => exact ⟨value, behind, by simp [known, meaning]⟩

theorem evaluateAll_all {operands : List Predicate}
    (settled : ∀ operand ∈ operands, ∃ value, evaluate node operand record = .ok value) :
    ∃ value, evaluateAll node .all operands record = .ok value ∧
      (value = true ↔ ∀ operand ∈ operands, evaluate node operand record = .ok true) := by
  induction operands with
  | nil => exact ⟨true, rfl, by simp⟩
  | cons operand rest ih =>
    obtain ⟨first, known⟩ := settled operand (by simp)
    obtain ⟨value, behind, meaning⟩ := ih fun other member => settled other (by simp [member])
    rw [evaluateAll_cons, known]
    cases first with
    | true => exact ⟨value, behind, by simp [known, meaning]⟩
    | false => exact ⟨false, rfl, by simp [known]⟩

section Heads

variable {key : String} {test other : Record → Except StatementError Bool} {result : Bool}

theorem testHead_mono {value : Value} (tested : testHead node key test value = .ok result)
    (stronger : ∀ head answer, value = .record head → test head = .ok answer →
      other head = .ok answer) : testHead node key other value = .ok result := by
  cases value with
  | null => exact tested
  | record head => exact stronger head result rfl tested
  | _ => cases tested

theorem testSome_mono {items : List Value} (tested : testSome node key test items = .ok result)
    (stronger : ∀ head answer, .record head ∈ items → test head = .ok answer →
      other head = .ok answer) : testSome node key other items = .ok result := by
  induction items generalizing result with
  | nil => exact tested
  | cons item rest ih =>
    simp only [testSome] at tested ⊢
    obtain ⟨value, first, behind⟩ := Outcome.bind_eq_ok.mp tested
    have first' : testHead node key other item = .ok value :=
      testHead_mono first fun head answer same => stronger head answer (by simp [same])
    rw [first', Outcome.ok_bind]
    cases value with
    | true => exact behind
    | false =>
      exact ih behind fun head answer member => stronger head answer (by simp [member])

/-- The heads that a related value holds. -/
def HoldsHead (value : Value) (head : Record) : Prop :=
  value = .record head ∨ ∃ items, value = .list items ∧ .record head ∈ items

theorem testRelation_mono {relation : ReverseEdge} {value : Value}
    (tested : testRelation node relation test value = .ok result)
    (stronger : ∀ head answer, HoldsHead value head → test head = .ok answer →
      other head = .ok answer) : testRelation node relation other value = .ok result := by
  unfold testRelation at tested ⊢
  cases multiplicity : relation.multiplicity with
  | unique =>
    rw [multiplicity] at tested
    exact testHead_mono tested fun head answer same => stronger head answer (Or.inl same)
  | multiple =>
    rw [multiplicity] at tested
    cases value with
    | list items =>
      exact testSome_mono tested fun head answer member =>
        stronger head answer (Or.inr ⟨items, rfl, member⟩)
    | _ => cases tested

theorem testSome_eq_false {items : List Value} (tested : testSome node key test items = .ok result)
    (never : ∀ head, .record head ∈ items → test head ≠ .ok true) : result = false := by
  induction items with
  | nil => cases tested; rfl
  | cons item rest ih =>
    simp only [testSome] at tested
    obtain ⟨value, first, behind⟩ := Outcome.bind_eq_ok.mp tested
    cases value with
    | false => exact ih behind fun head member => never head (by simp [member])
    | true =>
      cases item with
      | record head => exact absurd first (never head (by simp))
      | _ => cases first

theorem testRelation_eq_false {relation : ReverseEdge} {value : Value}
    (tested : testRelation node relation test value = .ok result)
    (never : ∀ head, HoldsHead value head → test head ≠ .ok true) : result = false := by
  unfold testRelation at tested
  cases multiplicity : relation.multiplicity with
  | unique =>
    rw [multiplicity] at tested
    cases value with
    | null => cases tested; rfl
    | record head =>
      cases result with
      | false => rfl
      | true => exact absurd tested (never head (Or.inl rfl))
    | _ => cases tested
  | multiple =>
    rw [multiplicity] at tested
    cases value with
    | list items =>
      exact testSome_eq_false tested fun head member => never head (Or.inr ⟨items, rfl, member⟩)
    | _ => cases tested

end Heads

private theorem any_looselyEqual_of_same {items others : List Value}
    (equal : Value.sameItems items others = true) (value : Value) :
    (items.any fun item => item.looselyEqual value) =
      others.any fun item => item.looselyEqual value := by
  induction items generalizing others with
  | nil =>
    cases others with
    | nil => rfl
    | cons => cases equal
  | cons item rest ih =>
    cases others with
    | nil => cases equal
    | cons other others =>
      simp only [Value.sameItems, Bool.and_eq_true] at equal
      rw [List.any_cons, List.any_cons, Value.looselyEqual_left_of_same equal.1, ih equal.2]

private theorem holds_of_same {a b : Value} (equal : a.same b = true) (operator : LeafOperator)
    (value : Value) : operator.holds value a = operator.holds value b := by
  have loose := Value.looselyEqual_right_of_same equal value
  have order := Value.compare?_right_of_same equal value
  cases operator with
  | compared comparison =>
    cases comparison <;> simp only [LeafOperator.holds, Value.ordered, loose, order]
  | among | notAmong =>
    have listed : LeafOperator.listHas a value = LeafOperator.listHas b value := by
      cases a with
      | list items =>
        cases b with
        | list others =>
          simp only [LeafOperator.listHas]
          exact any_looselyEqual_of_same (by simpa only [Value.same] using equal) value
        | _ => cases equal
      | _ => cases b <;> first | rfl | cases equal
    simp only [LeafOperator.holds, listed]
  | fullText => cases a <;> cases b <;> simp_all [Value.same, LeafOperator.holds]

theorem sameHead_cases {head other : Option Predicate} (equal : sameHead head other = true) :
    (head = none ∧ other = none) ∨
      ∃ p q, head = some p ∧ other = some q ∧ same p q = true := by
  cases head with
  | none =>
    cases other with
    | none => exact Or.inl ⟨rfl, rfl⟩
    | some => cases equal
  | some p =>
    cases other with
    | none => cases equal
    | some q => exact Or.inr ⟨p, q, rfl, rfl, equal⟩

private theorem evaluateAll_of_sameAll {operands others : List Predicate}
    (equal : sameAll operands others = true) (node : String) (kind : Junction) (record : Record)
    (each : ∀ operand ∈ operands, ∀ other, same operand other = true →
      evaluate node operand record = evaluate node other record) :
    evaluateAll node kind operands record = evaluateAll node kind others record := by
  induction operands generalizing others with
  | nil =>
    cases others with
    | nil => rfl
    | cons => cases equal
  | cons operand rest ih =>
    cases others with
    | nil => cases equal
    | cons other others =>
      simp only [sameAll, Bool.and_eq_true] at equal
      rw [evaluateAll_cons, evaluateAll_cons, each operand (by simp) other equal.1,
        ih equal.2 fun later member => each later (by simp [member])]

private theorem evaluateHead_of_sameHead {head other : Option Predicate}
    (equal : sameHead head other = true) (node : String)
    (each : ∀ inner, head = some inner → ∀ other, same inner other = true → ∀ node record,
      evaluate node inner record = evaluate node other record) :
    evaluateHead node head = evaluateHead node other := by
  funext record
  rcases sameHead_cases equal with ⟨rfl, rfl⟩ | ⟨p, q, rfl, rfl, equal⟩
  · rfl
  · exact each p rfl q equal node record

/-- Predicates of one structure evaluate alike. -/
theorem evaluate_of_same {p q : Predicate} (equal : same p q = true) (node : String)
    (record : Record) : evaluate node p record = evaluate node q record := by
  induction p generalizing q node record with
  | constant value =>
    cases q <;> simp_all [same]
  | junction kind operands ih =>
    cases q with
    | junction other others =>
      simp only [same, Bool.and_eq_true, decide_eq_true_eq] at equal
      obtain ⟨rfl, all⟩ := equal
      exact evaluateAll_of_sameAll all node kind record fun operand member other equal =>
        ih operand member equal node record
    | _ => cases equal
  | negation operand ih =>
    cases q with
    | negation other =>
      simp only [evaluate]
      rw [ih equal]
    | _ => cases equal
  | leaf field operator value =>
    cases q with
    | leaf other operator' value' =>
      simp only [same, Bool.and_eq_true, decide_eq_true_eq] at equal
      obtain ⟨⟨rfl, rfl⟩, values⟩ := equal
      simp only [evaluate, holds_of_same values]
    | _ => cases equal
  | edge link head ih =>
    cases q with
    | edge other head' =>
      simp only [same, Bool.and_eq_true, decide_eq_true_eq] at equal
      obtain ⟨rfl, heads⟩ := equal
      simp only [evaluate]
      rw [evaluateHead_of_sameHead heads link.head fun inner found other equal node record =>
        ih inner found equal node record]
    | _ => cases equal
  | reverse relation head ih =>
    cases q with
    | reverse other head' =>
      simp only [same, Bool.and_eq_true, decide_eq_true_eq] at equal
      obtain ⟨rfl, heads⟩ := equal
      simp only [evaluate]
      rw [evaluateHead_of_sameHead heads relation.head fun inner found other equal node record =>
        ih inner found equal node record]
    | _ => cases equal
  | count relation comparison number => cases q <;> simp_all [same]
  | raw sql => cases q <;> simp_all [same]

end Predicate

end LiveQuery
