import LiveQuery.Proofs.Dependency.Reading
import LiveQuery.Proofs.Filter.Typed

set_option autoImplicit false

namespace LiveQuery

theorem Junction.unit_dual (kind : Junction) : kind.dual.unit = !kind.unit := by
  cases kind <;> rfl

theorem Comparison.holds_opposite (comparison : Comparison) (order : Ordering) :
    comparison.opposite.holds order = !comparison.holds order := by
  cases comparison <;> cases order <;> rfl

namespace Predicate

mutual

/-- Wherever an order on a leaf that must be set is turned around, the record's value can be
compared. Negations and conditions on heads are negated as a whole, so nothing is asked below. -/
def Comparable (record : Record) : Predicate → Prop
  | .junction _ operands => ComparableAll record operands
  | .leaf field (.compared comparison) expected =>
    comparison.isOrder = true → field.nullable = false → ∀ value,
      record.get? field.name = some value → (value.compare? expected).isSome = true
  | _ => True

def ComparableAll (record : Record) : List Predicate → Prop
  | [] => True
  | operand :: rest => Comparable record operand ∧ ComparableAll record rest

end

theorem comparableAll_iff {record : Record} {operands : List Predicate} :
    ComparableAll record operands ↔ ∀ operand ∈ operands, operand.Comparable record := by
  induction operands with
  | nil => simp [ComparableAll]
  | cons operand rest ih => rw [ComparableAll, ih, List.forall_mem_cons]

section Opposites

variable {field : Leaf} {value expected : Value}

theorem ordered_opposite {order : Ordering} (compared : value.compare? expected = some order)
    (comparison : Comparison) :
    value.ordered comparison.opposite expected = !value.ordered comparison expected := by
  have set : value.isNull = false := by
    cases value <;> first | rfl | cases compared
  simp only [Value.ordered, compared, set, Bool.not_false, Bool.true_and,
    Comparison.holds_opposite]

theorem holds_oppositeOperator? {operator opposite : LeafOperator}
    (turned : oppositeOperator? field operator = some opposite)
    (comparable : ∀ comparison, operator = .compared comparison → comparison.isOrder = true →
      field.nullable = false → (value.compare? expected).isSome = true) :
    opposite.holds value expected = !operator.holds value expected := by
  cases operator with
  | compared comparison =>
    simp only [oppositeOperator?] at turned
    split at turned
    · cases turned
    · rename_i kept
      cases turned
      cases ordered : comparison.isOrder with
      | false =>
        cases comparison with
        | eq => rfl
        | ne => exact (Bool.not_not _).symm
        | gt | ge | lt | le => cases ordered
      | true =>
        have required : field.nullable = false := by simpa [ordered] using kept
        obtain ⟨order, compared⟩ :=
          Option.isSome_iff_exists.mp (comparable comparison rfl ordered required)
        cases comparison with
        | eq | ne => cases ordered
        | gt | ge | lt | le => exact ordered_opposite compared _
  | among => cases turned; rfl
  | notAmong => cases turned; exact (Bool.not_not _).symm
  | fullText => cases turned

end Opposites

section Evaluating

variable {node : String} {record : Record}

theorem evaluate_negation (operand : Predicate) :
    evaluate node (.negation operand) record = (evaluate node operand record).map (!·) := by
  rw [evaluate]
  cases evaluate node operand record <;> rfl

theorem evaluateAll_dual {kind : Junction} {operands : List Predicate}
    (each : ∀ operand ∈ operands,
      evaluate node operand.complement record = (evaluate node operand record).map (!·)) :
    evaluateAll node kind.dual (operands.map complement) record =
      (evaluateAll node kind operands record).map (!·) := by
  induction operands with
  | nil => exact congrArg Except.ok kind.unit_dual
  | cons operand rest ih =>
    rw [List.forall_mem_cons] at each
    rw [List.map_cons, evaluateAll_cons, evaluateAll_cons, each.1, ih each.2, kind.unit_dual]
    cases evaluate node operand record with
    | error error => rfl
    | ok value => cases value <;> cases kind <;> rfl

theorem evaluate_complement_leaf {field : Leaf} {operator : LeafOperator} {expected : Value}
    (comparable : (Predicate.leaf field operator expected).Comparable record) :
    evaluate node (Predicate.leaf field operator expected).complement record =
      (evaluate node (.leaf field operator expected) record).map (!·) := by
  rw [complement]
  cases turned : oppositeOperator? field operator with
  | none => exact evaluate_negation _
  | some opposite =>
    simp only [evaluate, Record.require]
    cases known : record.get? field.name with
    | none => rfl
    | some value =>
      refine congrArg Except.ok (holds_oppositeOperator? turned ?_)
      rintro comparison rfl ordered required
      rw [Comparable] at comparable
      exact comparable ordered required value known

theorem evaluate_complement_count (relation : ReverseEdge) (comparison : Comparison)
    (number : Nat) :
    evaluate node (Predicate.count relation comparison number).complement record =
      (evaluate node (.count relation comparison number) record).map (!·) := by
  simp only [complement, evaluate]
  cases countOf node relation record with
  | error error => rfl
  | ok total => exact congrArg Except.ok (comparison.holds_opposite _)

theorem evaluate_complement {predicate : Predicate} (comparable : predicate.Comparable record) :
    evaluate node predicate.complement record = (evaluate node predicate record).map (!·) := by
  induction predicate with
  | constant value => rfl
  | junction kind operands ih =>
    rw [Comparable, comparableAll_iff] at comparable
    rw [complement, complementAll_eq_map, evaluate_junction, evaluate_junction]
    exact evaluateAll_dual fun operand inside => ih operand inside (comparable operand inside)
  | negation operand =>
    rw [complement, evaluate_negation]
    cases evaluate node operand record with
    | error error => rfl
    | ok value => exact congrArg Except.ok (Bool.not_not value).symm
  | leaf => exact evaluate_complement_leaf comparable
  | count => exact evaluate_complement_count _ _ _
  | edge | reverse | raw => exact evaluate_negation _

/-- A leaf is read by its name, whatever it is tested for. -/
theorem dependencies_complement (node : String) (predicate : Predicate) :
    predicate.complement.dependencies node = predicate.dependencies node := by
  induction predicate with
  | junction kind operands ih =>
    rw [complement, complementAll_eq_map, dependencies, dependencies, dependenciesAll_eq_map,
      dependenciesAll_eq_map, List.map_map]
    exact congrArg (DependencyGraph.union node) (List.map_congr_left ih)
  | leaf field operator value =>
    rw [complement]
    cases oppositeOperator? field operator <;> rfl
  | constant | negation | edge | reverse | count | raw => rfl

end Evaluating

end Predicate

/-- The complement reads what the filter reads. On every record whose values can be compared it
answers the opposite, and it fails with the same error where the filter fails. -/
theorem Filter.complement_negates (filter : Filter) :
    filter.complement.dependencies = filter.dependencies ∧
      ∀ record, filter.predicate.Comparable record →
        filter.complement.execute record = (filter.execute record).map (!·) :=
  ⟨filter.predicate.dependencies_complement filter.node.name,
    fun _ comparable => Predicate.evaluate_complement comparable⟩

/-- The people numbered from one who have tasks. -/
def Samples.owing : Filter :=
  ⟨person, .junction .all
    [.leaf ⟨"Person", "id", "id", .int, false⟩ (.compared .ge) (.int 1), .reverse tasks none]⟩

open Samples in
theorem Filter.complement_negates_owing :
    owing.complement.dependencies = owing.dependencies ∧
      owing.complement.execute ada = (owing.execute ada).map (!·) := by
  have comparable : owing.predicate.Comparable ada := by
    refine ⟨fun _ _ value known => ?_, trivial, trivial⟩
    cases known
    rfl
  have negates := Filter.complement_negates owing
  exact ⟨negates.1, negates.2 ada comparable⟩

/-- Of values that cannot be compared, neither the order holds nor its opposite. -/
example :
    let first : Predicate := .leaf ⟨"Person", "id", "id", .int, false⟩ (.compared .ge) (.int 1)
    first.evaluate "Person" [("id", .string "one")] = .ok false ∧
      first.complement.evaluate "Person" [("id", .string "one")] = .ok false := ⟨rfl, rfl⟩

end LiveQuery
