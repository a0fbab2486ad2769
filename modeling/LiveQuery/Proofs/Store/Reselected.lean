import LiveQuery.Proofs.Store.Selected

set_option autoImplicit false

namespace LiveQuery

namespace Lists

variable {α β : Type} {R : α → β → Prop} {left : List α} {right : List β}

section Sorting

variable {r : α → α → Prop} {s : β → β → Prop} [DecidableRel r] [DecidableRel s]

theorem forall₂_orderedInsert {a : α} {b : β} (related : R a b)
    (agree : ∀ a a' b b', R a b → R a' b' → (r a a' ↔ s b b')) (paired : List.Forall₂ R left right) :
    List.Forall₂ R (left.orderedInsert r a) (right.orderedInsert s b) := by
  induction paired with
  | nil => exact .cons related .nil
  | @cons a' b' _ _ first behind ih =>
    have same := agree a a' b b' related first
    rw [List.orderedInsert_cons, List.orderedInsert_cons]
    by_cases below : r a a'
    · rw [if_pos below, if_pos (same.mp below)]
      exact .cons related (.cons first behind)
    · rw [if_neg below, if_neg fun after => below (same.mpr after)]
      exact .cons first ih

theorem forall₂_insertionSort (paired : List.Forall₂ R left right)
    (agree : ∀ a a' b b', R a b → R a' b' → (r a a' ↔ s b b')) :
    List.Forall₂ R (left.insertionSort r) (right.insertionSort s) := by
  induction paired with
  | nil => exact .nil
  | cons related _ ih =>
    rw [List.insertionSort_cons, List.insertionSort_cons]
    exact forall₂_orderedInsert related agree ih

end Sorting

end Lists

theorem Value.sameItems_map_record {α β : Type} {f : α → Record} {g : β → Record} {left : List α}
    {right : List β}
    (paired : List.Forall₂ (fun a b => Value.sameFields (f a) (g b) = true) left right) :
    Value.sameItems (left.map fun a => .record (f a)) (right.map fun b => .record (g b)) = true := by
  induction paired with
  | nil => rfl
  | cons same _ ih =>
    rw [List.map_cons, List.map_cons, Value.sameItems, Value.same, same, ih]
    rfl

/-- What a sort key sorts on is the same for a row as before. -/
def SortExpression.Agrees (expression : SortExpression) (before after : Store)
    (row row' : Record) : Prop :=
  match expression.target with
  | .leaf field => (Component.leaf field).Agrees row row'
  | .count relation =>
    (before.children relation row).length = (after.children relation row').length

/-- A row keeps its place in the order, or is not the changed one where only that may be told to
move. -/
def Window.ordered (change : Change) (head : Node) (window : Window) : Kept :=
  fun before after row row' =>
    if window.recounted head.name change then head.key row ≠ head.key change.identifier
    else ∀ expression ∈ window.ordering.getD [], expression.Agrees before after row row'

namespace Kept

/-- The selected value of a field is as before, as long as the windows in it are steady. -/
def selected (catalog : Catalog) (change : Change) (field : SelectionField) : Kept :=
  fun before after row row' => field.steady catalog change before after row row' →
    (before.selected catalog field row).same (after.selected catalog field row') = true

def selectedAll (catalog : Catalog) (change : Change) (fields : List SelectionField) : Kept :=
  fun before after row row' => SelectionField.steadyAll catalog change fields before after row row' →
    Value.sameFields (before.selectedAll catalog fields row)
      (after.selectedAll catalog fields row') = true

end Kept

section Selecting

variable {catalog : Catalog} {change : Change} {before after : Store} {node head : Node}
  {relation : ReverseEdge} {row row' : Record} {fields : List SelectionField}

theorem Store.compareRows_eq {ordering : List SortExpression} {a a' b b' : Record}
    (first : ∀ expression ∈ ordering, expression.Agrees before after a a')
    (second : ∀ expression ∈ ordering, expression.Agrees before after b b') :
    before.compareRows ordering a b = after.compareRows ordering a' b' := by
  induction ordering with
  | nil => rfl
  | cons expression rest ih =>
    rw [List.forall_mem_cons] at first second
    have here : before.compareOn expression a b = after.compareOn expression a' b' := by
      have left := first.1
      have right := second.1
      unfold SortExpression.Agrees at left right
      unfold Store.compareOn
      cases target : expression.target with
      | leaf field =>
        rw [target] at left right
        obtain ⟨x, x', stored, stored', alike⟩ := left
        obtain ⟨y, y', known, known', alike'⟩ := right
        simp only [stored, stored', known, known', Option.getD_some,
          SortExpression.compareValues_of_alike alike alike']
      | count relation =>
        rw [target] at left right
        simp only [left, right]
    rw [Store.compareRows, Store.compareRows, here, ih first.2 second.2]

/-- The rows in a window are the same ones as before, in the same order. -/
theorem Store.windowed_forall₂ {window : Window} {kept : Kept}
    (steady : window.steady change relation head before after row row')
    (still : Kept.children relation head
      (fun before after child child' =>
        before.holdsHead window.filter child = after.holdsHead window.filter child' ∧
          window.ordered change head before after child child' ∧
            kept before after child child') before after row row') :
    List.Forall₂ (fun child child' => kept before after child child')
      (before.windowed head window (before.children relation row))
      (after.windowed head window (after.children relation row')) := by
  have filtered := Lists.forall₂_mem
    (Lists.forall₂_filter still fun _ _ both => both.2.1)
  unfold Store.windowed
  refine List.forall₂_take _ (List.forall₂_drop _ ((Lists.forall₂_insertionSort filtered ?_).imp
    fun _ _ both => both.1.2.2.2))
  rintro a b a' b' ⟨⟨persists, -, ordered, -⟩, inside, inside'⟩
    ⟨⟨persists', -, ordered', -⟩, member, member'⟩
  have rows : before.compareRows (window.ordering.getD []) a b =
      after.compareRows (window.ordering.getD []) a' b' := by
    unfold Window.ordered at ordered ordered'
    by_cases recounted : window.recounted head.name change = true
    · rw [if_pos recounted] at ordered ordered'
      rw [List.mem_filter] at inside inside' member member'
      exact steady recounted a a' b b' ⟨inside.1, inside'.1, inside.2, persists, ordered⟩
        ⟨member.1, member'.1, member.2, persists', ordered'⟩
    · rw [if_neg recounted] at ordered ordered'
      exact Store.compareRows_eq ordered ordered'
  unfold Store.precedes
  rw [rows, persists.key, persists'.key]

theorem Store.same_leaf {field : Leaf} {key : String}
    (agrees : (Component.leaf field).Agrees row row') :
    (before.selected catalog (.leaf key field) row).same
      (after.selected catalog (.leaf key field) row') = true := by
  obtain ⟨value, value', stored, stored', alike⟩ := agrees
  rw [Store.selected, Store.selected, stored, stored']
  exact alike.same

theorem Store.Consistent.find?_refers {store : Store} (consistent : store.Consistent catalog)
    {link : Edge} (leads : catalog.Leads link head) {other : Record}
    (inside : other ∈ store link.head) (refers : link.refers row other = true) :
    (store link.head).find? (link.refers row) = some other := by
  cases found : (store link.head).find? (link.refers row) with
  | none => exact absurd refers (by simpa using List.find?_eq_none.mp found other inside)
  | some first =>
    rw [consistent.eq_of_refers leads (List.mem_of_find?_eq_some found) inside
      (List.find?_some found) refers]

theorem Store.find?_refers_of_target_eq_none {store : Store} {link : Edge}
    (nowhere : link.target row = none) : (store link.head).find? (link.refers row) = none := by
  refine List.find?_eq_none.mpr fun other _ => ?_
  simp [Edge.refers, nowhere]

theorem Transit.same_edge (transit : Transit catalog change before after)
    (found : catalog.node? node.name = some node) (persists : Persists node before after row row')
    {key : String} {link : Edge} (inside : .edge link ∈ node.components)
    (leads : catalog.Leads link head) (agrees : link.target row = link.target row')
    (kept : Kept.edge link head (.selectedAll catalog change fields) before after row row') :
    Kept.selected catalog change (.edge key link fields) before after row row' := by
  have name := Catalog.name_of_node? leads.node
  intro steady
  rw [SelectionField.steady] at steady
  rw [Store.selected, Store.selected]
  rcases transit.heads_persist found persists inside leads agrees with
    ⟨none, none'⟩ | ⟨other, other', moved, refers, refers'⟩
  · rw [Store.find?_refers_of_target_eq_none none, Store.find?_refers_of_target_eq_none none']
    rfl
  · rw [transit.consistent.find?_refers leads (name ▸ moved.before) refers,
      transit.consistent'.find?_refers leads (name ▸ moved.after) refers']
    exact kept other other' moved refers refers' (steady head leads.node other other' moved refers
      refers')

theorem Kept.same_unique {key : String} (relates : catalog.Relates node relation head)
    (kept : Kept.children relation head (.selectedAll catalog change fields) before after row row') :
    Kept.selected catalog change (.unique key relation fields) before after row row' := by
  intro steady
  rw [SelectionField.steady] at steady
  have nested := steady head relates.holder
  unfold Kept.behind at nested
  unfold Kept.children at kept
  rw [Store.selected, Store.selected]
  generalize before.children relation row = children at kept nested
  generalize after.children relation row' = children' at kept nested
  cases kept with
  | nil => rfl
  | cons both _ =>
    exact both.2 (nested _ (List.mem_cons_self ..) _ (List.mem_cons_self ..) both.1)

theorem Kept.same_multiple {key : String} {window : Window}
    (relates : catalog.Relates node relation head)
    (kept : Kept.children relation head
      (fun before after child child' =>
        (before.holdsHead window.filter child = after.holdsHead window.filter child' ∧
          window.ordered change head before after child child') ∧
            Kept.selectedAll catalog change fields before after child child')
      before after row row') :
    Kept.selected catalog change (.multiple key relation window fields) before after row row' := by
  intro steady
  rw [SelectionField.steady] at steady
  obtain ⟨steady, nested⟩ := steady head relates.holder
  have still : Kept.children relation head
      (fun before after child child' =>
        before.holdsHead window.filter child = after.holdsHead window.filter child' ∧
          window.ordered change head before after child child' ∧
            Value.sameFields (before.selectedAll catalog fields child)
              (after.selectedAll catalog fields child') = true) before after row row' := by
    refine (Lists.forall₂_mem kept).imp fun child child' both => ?_
    obtain ⟨⟨persists, ⟨matching, ordered⟩, same⟩, inside, inside'⟩ := both
    exact ⟨persists, matching, ordered, same (nested child inside child' inside' persists)⟩
  rw [Store.selected, Store.selected, relates.holder]
  exact Value.sameItems_map_record (Store.windowed_forall₂ steady still)

theorem Kept.same_count {key : String} {filter : Option Predicate}
    (kept : Kept.children relation head
      (fun before after child child' =>
        before.holdsHead filter child = after.holdsHead filter child') before after row row') :
    Kept.selected catalog change (.count key relation filter) before after row row' := by
  intro _
  have matching := (Lists.forall₂_filter kept fun _ _ both => both.2).length_eq
  rw [Store.selected, Store.selected, matching]
  exact decide_eq_true rfl

end Selecting

end LiveQuery
