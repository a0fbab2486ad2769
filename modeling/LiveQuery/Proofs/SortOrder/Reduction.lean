import LiveQuery.Proofs.SortOrder.Ranks
import LiveQuery.Proofs.SortOrder.Sorting
import LiveQuery.Proofs.Store.Basic
import Mathlib.Data.List.Pairwise

set_option autoImplicit false

namespace LiveQuery

theorem Direction.apply_eq_eq {direction : Direction} {order : Ordering} :
    direction.apply order = .eq ↔ order = .eq := by
  cases direction <;> cases order <;> decide

namespace SortExpression

variable {expression other : SortExpression} {a b : Record}

theorem compareRecords_eq_eq :
    expression.compareRecords a b = .eq ↔
      compareValues (expression.valueIn a) (expression.valueIn b) = .eq :=
  Direction.apply_eq_eq

theorem compareRecords_of_key (same : other.key = expression.key)
    (equal : expression.compareRecords a b = .eq) : other.compareRecords a b = .eq := by
  rw [compareRecords_eq_eq] at equal ⊢
  simpa only [valueIn, same] using equal

end SortExpression

namespace SortOrder

variable {node : Node} {seen : List String} {expressions : List SortExpression} {a b : Record}

theorem compareBy_eq_eq (equal : ∀ expression ∈ expressions, expression.compareRecords a b = .eq) :
    compareBy a b expressions = .eq := by
  induction expressions with
  | nil => rfl
  | cons expression rest ih =>
    rw [List.forall_mem_cons] at equal
    rw [compareBy, equal.1, ih equal.2, Ordering.eq_then]

/-- What a reduction drops has a key that was compared before, or comes after a unique leaf that
compares as equal only where everything does. -/
theorem compareBy_decisive
    (compared : ∀ expression ∈ expressions, expression.key ∈ seen →
      expression.compareRecords a b = .eq)
    (settled : ∀ expression ∈ expressions, settles node expression.target →
      expression.compareRecords a b = .eq → ∀ later ∈ expressions, later.compareRecords a b = .eq) :
    compareBy a b (decisive node seen expressions) = compareBy a b expressions := by
  induction expressions generalizing seen with
  | nil => rfl
  | cons expression rest ih =>
    simp only [List.forall_mem_cons] at compared settled
    have settled_later := fun later member settles equal =>
      (settled.2 later member settles equal).2
    simp only [decisive, List.contains_iff_mem]
    split
    · rename_i known
      simp only [compareBy, compared.1 known, Ordering.eq_then]
      exact ih compared.2 settled_later
    · split
      · rename_i settling
        cases decided : expression.compareRecords a b with
        | lt | gt => simp only [compareBy, decided, Ordering.then]
        | eq =>
          simp only [compareBy, decided, compareBy_eq_eq (settled.1 settling decided).2,
            Ordering.then_eq]
      · cases decided : expression.compareRecords a b with
        | lt | gt => simp only [compareBy, decided, Ordering.then]
        | eq =>
          simp only [compareBy, decided, Ordering.eq_then]
          refine ih (fun later member known => ?_) settled_later
          rcases List.mem_cons.mp known with same | known
          · exact SortExpression.compareRecords_of_key same decided
          · exact compared.2 later member known

theorem decisive_decisive (node : Node) (seen : List String) (expressions : List SortExpression) :
    decisive node seen (decisive node seen expressions) = decisive node seen expressions := by
  induction expressions generalizing seen with
  | nil => rfl
  | cons expression rest ih =>
    simp only [decisive]
    split
    · exact ih seen
    · rename_i fresh
      split
      · rename_i settling
        simp only [decisive, if_neg fresh, if_pos settling]
      · rename_i loose
        simp only [decisive, if_neg fresh, if_neg loose, ih]

variable {order : SortOrder} {records : List Record}

theorem eq_of_separates {expression : SortExpression} (uniform : expression.Uniform records)
    (separates : expression.Separates records) (first : a ∈ records) (second : b ∈ records)
    (equal : expression.compareRecords a b = .eq) : a = b := by
  have apart : records.Pairwise fun a b => expression.rankOrder a b ≠ .eq := by
    refine separates.imp_of_mem fun first second different => ?_
    rwa [← SortExpression.compareRecords_eq_rankOrder uniform first second, ne_eq,
      SortExpression.compareRecords_eq_eq]
  have : Std.Symm fun a b => expression.rankOrder a b ≠ .eq :=
    ⟨fun _ _ => mt Std.OrientedCmp.eq_symm⟩
  rw [SortExpression.compareRecords_eq_rankOrder uniform first second] at equal
  by_contra different
  exact apart.forall first second different equal

theorem compare_reduced
    (uniform : ∀ expression ∈ order.expressions, expression.Uniform records)
    (unique : ∀ expression ∈ order.expressions, settles order.node expression.target →
      expression.Separates records)
    (first : a ∈ records) (second : b ∈ records) :
    order.reduced.compare a b = order.compare a b := by
  refine compareBy_decisive (fun _ _ known => by cases known) ?_
  intro expression member settling equal later inside
  have same := eq_of_separates (uniform expression member) (unique expression member settling)
    first second equal
  rw [← same, SortExpression.compareRecords_eq_rankOrder (uniform later inside) first first]
  exact Std.ReflCmp.compare_self

/-- A reduced order compares and sorts records of uniform values, which its unique leaves tell
apart, as the order itself does; the sorted records are the only arrangement of the records by the
order, and there is nothing left to reduce. -/
theorem sort_reduced (order : SortOrder) (records : List Record)
    (uniform : ∀ expression ∈ order.expressions, expression.Uniform records)
    (unique : ∀ expression ∈ order.expressions, settles order.node expression.target →
      expression.Separates records) :
    (∀ a ∈ records, ∀ b ∈ records, order.reduced.compare a b = order.compare a b) ∧
      order.reduced.sort records = order.sort records ∧
      (∀ sorted, Arranges order.compare records sorted ↔ sorted = order.sort records) ∧
      order.reduced.reduced = order.reduced := by
  have preorder : ∀ a ∈ records, ∀ b ∈ records,
      order.compare a b = rankOrder order.expressions a b := fun a first b second =>
    compareBy_eq_rankOrder first second uniform
  have reduction : ∀ a ∈ records, ∀ b ∈ records,
      order.reduced.compare a b = order.compare a b := fun a first b second =>
    compare_reduced uniform unique first second
  have arranged := arranges_sort preorder
  refine ⟨reduction, ?_, fun sorted => ⟨fun other => ?_, ?_⟩, ?_⟩
  · refine Arranges.unique (arranges_sort fun a first b second => ?_) arranged
    rw [reduction a first b second, preorder a first b second]
  · exact (other.congr preorder).unique arranged
  · rintro rfl
    exact arranged.congr fun a first b second => (preorder a first b second).symm
  · exact congrArg (SortOrder.mk order.node) (decisive_decisive order.node [] order.expressions)

end SortOrder

namespace Samples

/-- People by their tasks, twice and in opposite directions, then by their identifiers. -/
def byTasks : SortOrder :=
  ⟨person, [⟨.count tasks, .descending⟩, ⟨.count tasks, .ascending⟩,
    ⟨.leaf ⟨"Person", "id", "id", .int, false⟩, .descending⟩,
    ⟨.leaf ⟨"Person", "id", "id", .int, false⟩, .ascending⟩]⟩

def headcounts : List Record :=
  [[("id", .int 1), ("tasksCount", .int 2)], [("id", .int 2)],
    [("id", .int 3), ("tasksCount", .int 2)]]

theorem sort_reduced_headcounts :
    byTasks.reduced.sort headcounts = byTasks.sort headcounts ∧
      Arranges byTasks.compare headcounts (byTasks.sort headcounts) ∧
      byTasks.reduced.reduced = byTasks.reduced := by
  have uniform : ∀ expression ∈ byTasks.expressions, expression.Uniform headcounts :=
    fun expression member => ⟨"int", by revert expression; decide⟩
  have unique : ∀ expression ∈ byTasks.expressions,
      SortOrder.settles byTasks.node expression.target → expression.Separates headcounts := by
    unfold SortExpression.Separates
    decide
  obtain ⟨-, sorted, arranged, reduced⟩ :=
    SortOrder.sort_reduced byTasks headcounts uniform unique
  exact ⟨sorted, (arranged _).mpr rfl, reduced⟩

example : byTasks.reduced.sort headcounts =
    [[("id", .int 3), ("tasksCount", .int 2)], [("id", .int 1), ("tasksCount", .int 2)],
      [("id", .int 2)]] := by
  rfl

end Samples

end LiveQuery
