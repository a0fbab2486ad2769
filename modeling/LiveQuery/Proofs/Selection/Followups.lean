import LiveQuery.Proofs.Dependency.Selecting
import LiveQuery.Selection.Followup

set_option autoImplicit false

namespace LiveQuery

/-- What a selection leaves for later, and what that leaves in turn. -/
inductive Selection.Defers (selection : Selection) : Followup → Prop
  | first {followup : Followup} (inside : followup ∈ selection.followups) :
      selection.Defers followup
  | next {earlier followup : Followup} (deferred : selection.Defers earlier)
      (inside : followup ∈ earlier.next) : selection.Defers followup

/-- What is left for later goes on from a relation of the catalog and follows relations of the
catalog only. -/
structure Followup.Charted (catalog : Catalog) (followup : Followup) : Prop where
  related : ∃ owner, (catalog.node? owner).bind (·.reverseEdge? followup.relation.name) =
    some followup.relation
  window : followup.window.charted catalog followup.relation.head = true
  head : SelectionField.chartedAll catalog followup.relation.head followup.head = true
  next : followup.next = Followup.ofFields [] followup.head

namespace Followup

variable {catalog : Catalog} {node : String} {owner : List String} {followup : Followup}

theorem mem_ofFields {fields : List SelectionField} : followup ∈ ofFields owner fields ↔
    ∃ field ∈ fields, followup ∈ ofField owner field := by
  induction fields with
  | nil => simp [ofFields]
  | cons field rest ih => simp [ofFields, ih]

/-- What a field leaves is made by the fields of many heads that are reached from it through heads
that are read at once. -/
theorem of_mem_ofField {P : String → SelectionField → Prop} {Q : Followup → Prop}
    (edge : ∀ {node key link head}, P node (.edge key link head) → ∀ field ∈ head, P link.head field)
    (unique : ∀ {node key relation head}, P node (.unique key relation head) →
      ∀ field ∈ head, P relation.head field)
    (multiple : ∀ {node key relation window head} owner, P node (.multiple key relation window head) →
      Q (.make owner key relation window head (ofFields [] head)))
    {field : SelectionField} (holds : P node field) (left : followup ∈ ofField owner field) :
    Q followup := by
  induction field generalizing node owner with
  | leaf | count => cases left
  | edge key link head ih =>
    obtain ⟨field, inside, left⟩ := mem_ofFields.mp left
    exact ih field inside (edge holds field inside) left
  | unique key relation head ih =>
    obtain ⟨field, inside, left⟩ := mem_ofFields.mp left
    exact ih field inside (unique holds field inside) left
  | multiple key relation window head _ =>
    rw [List.mem_singleton.mp left]
    exact multiple owner holds

theorem charted_of_ofFields {fields : List SelectionField}
    (charted : SelectionField.chartedAll catalog node fields = true)
    (left : followup ∈ ofFields owner fields) : followup.Charted catalog := by
  obtain ⟨field, inside, left⟩ := mem_ofFields.mp left
  refine of_mem_ofField (P := fun node field => field.charted catalog node = true)
    (fun charted => ?_) (fun charted => ?_) (fun owner charted => ?_)
    (SelectionField.chartedAll_iff.mp charted field inside) left
  · rw [SelectionField.charted, Bool.and_eq_true] at charted
    exact SelectionField.chartedAll_iff.mp charted.2
  · rw [SelectionField.charted, Bool.and_eq_true] at charted
    exact SelectionField.chartedAll_iff.mp charted.2
  · rw [SelectionField.charted, Bool.and_eq_true, Bool.and_eq_true, decide_eq_true_iff] at charted
    exact ⟨⟨_, charted.1.1⟩, charted.1.2, charted.2, rfl⟩

theorem charted_of_defers {selection : Selection}
    (charted : SelectionField.chartedAll catalog selection.node.name selection.fields = true)
    (deferred : selection.Defers followup) : followup.Charted catalog := by
  induction deferred with
  | first inside => exact charted_of_ofFields charted inside
  | next _ inside ih => exact charted_of_ofFields ih.head (ih.next ▸ inside)

end Followup

end LiveQuery
