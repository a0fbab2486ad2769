import Mathlib.Data.List.Forall2
import Mathlib.Data.List.Nodup
import Mathlib.Data.List.Perm.Basic

set_option autoImplicit false

namespace LiveQuery.Lists

variable {α β γ : Type}

/-- An item is found by its name where no two items share one. -/
theorem find?_name_eq_some {name : α → String} {items : List α} {item : α}
    (apart : (items.map name).Nodup) (inside : item ∈ items) :
    items.find? (fun other => name other = name item) = some item := by
  induction items with
  | nil => cases inside
  | cons first rest ih =>
    rw [List.map_cons, List.nodup_cons] at apart
    rcases List.mem_cons.mp inside with rfl | behind
    · simp
    · have differs : name first ≠ name item := by
        intro same
        exact apart.1 (List.mem_map.mpr ⟨item, behind, same.symm⟩)
      rw [List.find?_cons_of_neg (by simpa using differs)]
      exact ih apart.2 behind

theorem name_ne_of_nodup {name : α → β} {front back : List α} {item : α}
    (apart : ((front ++ [item] ++ back).map name).Nodup) :
    ∀ other ∈ front ++ back, name other ≠ name item := by
  intro other inside same
  rw [List.append_assoc, List.singleton_append, List.map_append, List.map_cons, List.nodup_middle,
    List.nodup_cons, ← List.map_append] at apart
  exact apart.1 (same ▸ List.mem_map_of_mem inside)

theorem forall_mem_replaced {p : α → Prop} {front back : List α} {old new : α}
    (around : ∀ item ∈ front ++ old :: back, p item) (here : p new) :
    ∀ item ∈ front ++ new :: back, p item := by
  simp only [List.forall_mem_append, List.forall_mem_cons] at around ⊢
  exact ⟨around.1, here, around.2.2⟩

theorem exists_right_of_forall₂ {R : α → β → Prop} {left : List α} {right : List β} {a : α}
    (paired : List.Forall₂ R left right) (inside : a ∈ left) : ∃ b ∈ right, R a b := by
  induction paired with
  | nil => cases inside
  | cons related _ ih =>
    rcases List.mem_cons.mp inside with rfl | behind
    · exact ⟨_, List.mem_cons_self .., related⟩
    · obtain ⟨b, member, other⟩ := ih behind
      exact ⟨b, List.mem_cons_of_mem _ member, other⟩

theorem exists_left_of_forall₂ {R : α → β → Prop} {left : List α} {right : List β} {b : β}
    (paired : List.Forall₂ R left right) (inside : b ∈ right) : ∃ a ∈ left, R a b :=
  exists_right_of_forall₂ paired.flip inside

theorem exists_triples {R : α → β → Prop} {S : β × α → γ → Prop} {as : List α} {bs : List β}
    {cs : List γ} (first : List.Forall₂ R as bs) (second : List.Forall₂ S (bs.zip as) cs) :
    ∃ triples : List (α × β × γ), as = triples.map (·.1) ∧ bs = triples.map (·.2.1) ∧
      cs = triples.map (·.2.2) ∧
      ∀ triple ∈ triples, R triple.1 triple.2.1 ∧ S (triple.2.1, triple.1) triple.2.2 := by
  induction first generalizing cs with
  | nil =>
    cases second
    exact ⟨[], rfl, rfl, rfl, by simp⟩
  | cons related _ ih =>
    cases second with
    | cons connected behind =>
      obtain ⟨triples, rfl, rfl, rfl, each⟩ := ih behind
      refine ⟨(_, _, _) :: triples, rfl, rfl, rfl, ?_⟩
      rw [List.forall_mem_cons]
      exact ⟨⟨related, connected⟩, each⟩

theorem exists_map_of_perm {image : α → β} {items : List α} {values : List β}
    (same : values.Perm (items.map image)) :
    ∃ order : List α, order.Perm items ∧ values = order.map image := by
  have images : List.Forall₂ (fun value item => value = image item) (items.map image) items :=
    List.forall₂_map_left_iff.mpr (List.forall₂_same.mpr fun _ _ => rfl)
  obtain ⟨order, paired, ordered⟩ := List.perm_comp_forall₂ same images
  refine ⟨order, ordered, ?_⟩
  rw [← List.forall₂_eq_eq_eq]
  exact List.forall₂_map_right_iff.mpr paired

theorem not_isEmpty_eq_any {left : List α} {right : List β} {test : β → Bool}
    (same : left.length = (right.filter test).length) : (!left.isEmpty) = right.any test := by
  have none_passes : right.any test = false ↔ right.filter test = [] := by
    rw [List.any_eq_false, List.filter_eq_nil_iff]
  cases left with
  | nil =>
    rw [none_passes.mpr (List.eq_nil_of_length_eq_zero same.symm)]
    rfl
  | cons first rest =>
    cases passes : right.any test with
    | true => rfl
    | false =>
      rw [none_passes.mp passes] at same
      cases same

section Pairs

variable {R : α → β → Prop} {left : List α} {right : List β}

theorem any_eq_of_forall₂ {p : α → Bool} {q : β → Bool} (paired : List.Forall₂ R left right)
    (same : ∀ a b, R a b → p a = q b) : left.any p = right.any q := by
  induction paired with
  | nil => rfl
  | cons related _ ih => rw [List.any_cons, List.any_cons, same _ _ related, ih]

theorem forall₂_filter {p : α → Bool} {q : β → Bool} (paired : List.Forall₂ R left right)
    (same : ∀ a b, R a b → p a = q b) : List.Forall₂ R (left.filter p) (right.filter q) := by
  induction paired with
  | nil => exact .nil
  | @cons a b _ _ related _ ih =>
    by_cases passes : p a = true
    · rw [List.filter_cons_of_pos passes, List.filter_cons_of_pos (same a b related ▸ passes)]
      exact .cons related ih
    · rw [List.filter_cons_of_neg passes, List.filter_cons_of_neg (same a b related ▸ passes)]
      exact ih

theorem forall₂_mem (paired : List.Forall₂ R left right) :
    List.Forall₂ (fun a b => R a b ∧ a ∈ left ∧ b ∈ right) left right := by
  induction paired with
  | nil => exact .nil
  | cons related _ ih =>
    refine .cons ⟨related, List.mem_cons_self .., List.mem_cons_self ..⟩ (ih.imp ?_)
    exact fun _ _ both =>
      ⟨both.1, List.mem_cons_of_mem _ both.2.1, List.mem_cons_of_mem _ both.2.2⟩

theorem forall₂_replaced {front back : List β} {old new : β}
    (paired : List.Forall₂ R left (front ++ old :: back))
    (renewed : ∀ item, R item old → R item new) :
    List.Forall₂ R left (front ++ new :: back) := by
  induction front generalizing left with
  | nil =>
    cases paired with
    | cons related behind => exact .cons (renewed _ related) behind
  | cons first rest ih =>
    cases paired with
    | cons related behind => exact .cons related (ih behind)

/-- What two lists have in common with a third one relates them. -/
theorem forall₂_of_left {S : α → γ → Prop} {T : β → γ → Prop} {other : List γ}
    (each : ∀ a b c, R a b → S a c → T b c) (paired : List.Forall₂ R left right)
    (paired' : List.Forall₂ S left other) : List.Forall₂ T right other := by
  induction paired generalizing other with
  | nil =>
    cases paired'
    exact .nil
  | cons first _ ih =>
    cases paired' with
    | cons first' behind => exact .cons (each _ _ _ first first') (ih behind)

/-- Where every item stands for one thing, the list of these corresponds to whatever the items
correspond to. -/
theorem forall₂_flatMap {S : α → γ → Prop} {spread : β → List γ}
    (paired : List.Forall₂ R left right)
    (one : ∀ a b, R a b → ∃ c, spread b = [c] ∧ S a c) :
    List.Forall₂ S left (right.flatMap spread) := by
  induction paired with
  | nil => exact .nil
  | cons related _ ih =>
    obtain ⟨c, single, connected⟩ := one _ _ related
    rw [List.flatMap_cons, single, List.singleton_append]
    exact .cons connected ih

end Pairs

section Options

variable {step other : α → Option β} {items : List α}

theorem mapM_isSome (each : ∀ item ∈ items, (step item).isSome) : (items.mapM step).isSome := by
  induction items with
  | nil => rfl
  | cons item rest ih =>
    rw [List.forall_mem_cons] at each
    obtain ⟨value, found⟩ := Option.isSome_iff_exists.mp each.1
    obtain ⟨values, behind⟩ := Option.isSome_iff_exists.mp (ih each.2)
    rw [List.mapM_cons, found, behind]
    rfl

theorem mapM_congr (each : ∀ item ∈ items, step item = other item) :
    items.mapM step = items.mapM other := by
  induction items with
  | nil => rfl
  | cons item rest ih =>
    rw [List.forall_mem_cons] at each
    rw [List.mapM_cons, List.mapM_cons, each.1, ih each.2]

theorem mapM_eq_mapM_iff (each : ∀ item ∈ items, (step item).isSome)
    (each' : ∀ item ∈ items, (other item).isSome) :
    items.mapM step = items.mapM other ↔ ∀ item ∈ items, step item = other item := by
  induction items with
  | nil => simp
  | cons item rest ih =>
    rw [List.forall_mem_cons] at each each' ⊢
    rw [← ih each.2 each'.2]
    obtain ⟨value, found⟩ := Option.isSome_iff_exists.mp each.1
    obtain ⟨value', found'⟩ := Option.isSome_iff_exists.mp each'.1
    obtain ⟨values, behind⟩ := Option.isSome_iff_exists.mp (mapM_isSome each.2)
    obtain ⟨values', behind'⟩ := Option.isSome_iff_exists.mp (mapM_isSome each'.2)
    rw [List.mapM_cons, List.mapM_cons, found, found', behind, behind']
    simp

theorem mapM_map {wrap : β → γ} :
    (items.mapM fun item => (step item).map wrap) = (items.mapM step).map (List.map wrap) := by
  induction items with
  | nil => rfl
  | cons item rest ih =>
    rw [List.mapM_cons, List.mapM_cons, ih]
    cases step item <;> cases rest.mapM step <;> rfl

end Options

end LiveQuery.Lists
