import LiveQuery.Entries
import Mathlib.Data.List.Forall2
import Mathlib.Data.List.Nodup

set_option autoImplicit false

namespace LiveQuery.Entries

variable {α : Type}

theorem get?_foldl_insert_of_not_mem {pairs : List (String × α)} {known : Entries α} {key : String}
    (absent : ∀ pair ∈ pairs, pair.1 ≠ key) :
    (pairs.foldl (fun entries pair => insert entries pair.1 pair.2) known).get? key =
      known.get? key := by
  induction pairs generalizing known with
  | nil => rfl
  | cons pair rest ih =>
    rw [List.forall_mem_cons] at absent
    rw [List.foldl_cons, ih absent.2, get?_insert_of_ne _ _ _ _ (Ne.symm absent.1)]

theorem get?_foldl_insert {pairs : List (String × α)} {known : Entries α} {key : String} {value : α}
    (unique : (pairs.map (·.1)).Nodup) (inside : (key, value) ∈ pairs) :
    (pairs.foldl (fun entries pair => insert entries pair.1 pair.2) known).get? key =
      some value := by
  induction pairs generalizing known with
  | nil => cases inside
  | cons pair rest ih =>
    rw [List.map_cons, List.nodup_cons] at unique
    rw [List.foldl_cons]
    rcases List.mem_cons.mp inside with rfl | behind
    · have absent : ∀ other ∈ rest, other.1 ≠ key := fun other member same =>
        unique.1 (List.mem_map.mpr ⟨other, member, same⟩)
      rw [get?_foldl_insert_of_not_mem absent, get?_insert_self]
    · exact ih unique.2 behind

/-- A key that always comes with one value has that value in the end. -/
theorem get?_ofList {pairs : List (String × α)} {key : String} {value : α}
    (inside : (key, value) ∈ pairs) (only : ∀ pair ∈ pairs, pair.1 = key → pair.2 = value) :
    (ofList pairs).get? key = some value := by
  unfold ofList
  suffices ∀ known : Entries α,
      (pairs.foldl (fun entries pair => insert entries pair.1 pair.2) known).get? key =
        some value from this []
  induction pairs with
  | nil => cases inside
  | cons pair rest ih =>
    intro known
    rw [List.forall_mem_cons] at only
    rw [List.foldl_cons]
    by_cases later : ∃ other ∈ rest, other.1 = key
    · obtain ⟨other, member, rfl⟩ := later
      have same := only.2 other member rfl
      exact ih (by rw [← same]; exact member) only.2 _
    · have absent : ∀ other ∈ rest, other.1 ≠ key := fun other member same =>
        later ⟨other, member, same⟩
      have first : (key, value) = pair := by
        rcases List.mem_cons.mp inside with same | behind
        · exact same
        · exact absurd rfl (absent _ behind)
      rw [get?_foldl_insert_of_not_mem absent, ← first, get?_insert_self]

variable {entries : Entries α} {key : String} {value : α}

theorem keys_cons {entry : String × α} : keys (entry :: entries) = entry.1 :: keys entries := rfl

theorem mem_of_get? (found : entries.get? key = some value) : (key, value) ∈ entries := by
  induction entries with
  | nil => cases found
  | cons entry rest ih =>
    obtain ⟨present, old⟩ := entry
    by_cases same : present = key
    · simp only [get?, same, ↓reduceIte, Option.some.injEq] at found
      rw [same, found]
      exact List.mem_cons_self ..
    · simp only [get?, same, ↓reduceIte] at found
      exact List.mem_cons_of_mem _ (ih found)

theorem mem_keys_insert {other : String} :
    other ∈ (insert entries key value).keys ↔ other = key ∨ other ∈ entries.keys := by
  induction entries with
  | nil => simp [insert, keys]
  | cons entry rest ih =>
    by_cases same : entry.1 = key
    · simp [insert, same, keys_cons]
    · simp only [insert, same, ↓reduceIte, keys_cons, List.mem_cons, ih]
      exact or_left_comm

theorem nodup_insert (unique : entries.keys.Nodup) : (insert entries key value).keys.Nodup := by
  induction entries with
  | nil => simp [insert, keys]
  | cons entry rest ih =>
    rw [keys_cons, List.nodup_cons] at unique
    by_cases same : entry.1 = key
    · simpa only [insert, same, ↓reduceIte, keys_cons, List.nodup_cons] using same ▸ unique
    · simp only [insert, same, ↓reduceIte, keys_cons, List.nodup_cons]
      exact ⟨fun inside => (mem_keys_insert.mp inside).elim same unique.1, ih unique.2⟩

theorem nodup_foldl_insert (unique : entries.keys.Nodup) (pairs : List (String × α)) :
    (pairs.foldl (fun entries pair => insert entries pair.1 pair.2) entries).keys.Nodup := by
  induction pairs generalizing entries with
  | nil => exact unique
  | cons pair rest ih => exact ih (nodup_insert unique)

theorem mem_insert_cases (unique : entries.keys.Nodup) {entry : String × α}
    (inside : entry ∈ insert entries key value) :
    entry = (key, value) ∨ (entry.1 ≠ key ∧ entry ∈ entries) := by
  induction entries with
  | nil => exact Or.inl (List.mem_singleton.mp inside)
  | cons first rest ih =>
    rw [keys_cons, List.nodup_cons] at unique
    by_cases same : first.1 = key
    · simp only [insert, same, ↓reduceIte] at inside
      rcases List.mem_cons.mp inside with rfl | behind
      · exact Or.inl rfl
      · refine Or.inr ⟨fun equal => unique.1 ?_, List.mem_cons_of_mem _ behind⟩
        rw [same, ← equal]
        exact List.mem_map_of_mem behind
    · simp only [insert, same, ↓reduceIte] at inside
      rcases List.mem_cons.mp inside with rfl | behind
      · exact Or.inr ⟨same, List.mem_cons_self ..⟩
      · exact (ih unique.2 behind).imp_right fun other =>
          ⟨other.1, List.mem_cons_of_mem _ other.2⟩

theorem mem_of_mem_insert {entry : String × α} (inside : entry ∈ insert entries key value) :
    entry = (key, value) ∨ entry ∈ entries := by
  induction entries with
  | nil => exact Or.inl (List.mem_singleton.mp inside)
  | cons first rest ih =>
    obtain ⟨present, old⟩ := first
    rw [insert] at inside
    split at inside
    · rename_i same
      rcases List.mem_cons.mp inside with now | later
      · exact Or.inl (same ▸ now)
      · exact Or.inr (List.mem_cons_of_mem _ later)
    · rcases List.mem_cons.mp inside with now | later
      · exact Or.inr (now ▸ List.mem_cons_self ..)
      · exact (ih later).imp_right (List.mem_cons_of_mem _)

theorem erase_sublist : (erase entries key).Sublist entries := by
  induction entries with
  | nil => exact List.Sublist.refl _
  | cons entry rest ih =>
    by_cases same : entry.1 = key
    · simp only [erase, same, ↓reduceIte]
      exact List.sublist_cons_self ..
    · simp only [erase, same, ↓reduceIte]
      exact ih.cons_cons _

theorem ne_of_mem_erase (unique : entries.keys.Nodup) {entry : String × α}
    (inside : entry ∈ erase entries key) : entry.1 ≠ key := by
  induction entries with
  | nil => cases inside
  | cons first rest ih =>
    rw [keys_cons, List.nodup_cons] at unique
    by_cases same : first.1 = key
    · simp only [erase, same, ↓reduceIte] at inside
      intro equal
      exact unique.1 (same ▸ equal ▸ List.mem_map_of_mem inside)
    · simp only [erase, same, ↓reduceIte] at inside
      rcases List.mem_cons.mp inside with rfl | behind
      · exact same
      · exact ih unique.2 behind

theorem nodup_erase (unique : entries.keys.Nodup) : (erase entries key).keys.Nodup :=
  unique.sublist (erase_sublist.map _)

theorem foldl_erase_spec (unique : entries.keys.Nodup) {keys : List String} :
    (keys.foldl erase entries).keys.Nodup ∧
      ∀ entry ∈ keys.foldl erase entries, entry ∈ entries ∧ entry.1 ∉ keys := by
  induction keys generalizing entries with
  | nil => exact ⟨unique, fun entry inside => ⟨inside, List.not_mem_nil⟩⟩
  | cons key rest ih =>
    obtain ⟨unique', left⟩ := ih (nodup_erase unique)
    refine ⟨unique', fun entry inside => ?_⟩
    obtain ⟨inside, apart⟩ := left entry inside
    refine ⟨erase_sublist.subset inside, fun listed => ?_⟩
    rcases List.mem_cons.mp listed with same | behind
    · exact ne_of_mem_erase unique inside same
    · exact apart behind

section Pairs

variable {β : Type} {R : α → β → Prop} {others : Entries β} {value' : β}

theorem forall₂_insert
    (paired : List.Forall₂ (fun entry other => entry.1 = other.1 ∧ R entry.2 other.2) entries others)
    (related : R value value') :
    List.Forall₂ (fun entry other => entry.1 = other.1 ∧ R entry.2 other.2)
      (insert entries key value) (insert others key value') := by
  induction paired with
  | nil => exact .cons ⟨rfl, related⟩ .nil
  | @cons entry other rest rest' both behind ih =>
    by_cases same : entry.1 = key
    · have same' : other.1 = key := both.1.symm.trans same
      simp only [insert, same, same', ↓reduceIte]
      exact .cons ⟨rfl, related⟩ behind
    · have same' : other.1 ≠ key := fun equal => same (both.1.trans equal)
      simp only [insert, same, same', ↓reduceIte]
      exact .cons both ih

theorem forall₂_ofList {pairs : List (String × α)} {pairs' : List (String × β)}
    (paired : List.Forall₂ (fun pair pair' => pair.1 = pair'.1 ∧ R pair.2 pair'.2) pairs pairs') :
    List.Forall₂ (fun entry other => entry.1 = other.1 ∧ R entry.2 other.2)
      (ofList pairs) (ofList pairs') := by
  unfold ofList
  suffices ∀ known others, List.Forall₂ (fun entry other => entry.1 = other.1 ∧
      R entry.2 other.2) known others →
      List.Forall₂ (fun entry other => entry.1 = other.1 ∧ R entry.2 other.2)
        (pairs.foldl (fun entries pair => insert entries pair.1 pair.2) known)
        (pairs'.foldl (fun entries pair => insert entries pair.1 pair.2) others) from
    this [] [] .nil
  induction paired with
  | nil => exact fun _ _ known => known
  | @cons pair pair' _ _ both _ ih =>
    intro known others before
    rw [List.foldl_cons, List.foldl_cons, ← both.1]
    exact ih _ _ (forall₂_insert before both.2)

end Pairs

end LiveQuery.Entries
