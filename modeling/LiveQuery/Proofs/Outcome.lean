import LiveQuery.Proofs.Lists

set_option autoImplicit false

namespace LiveQuery.Outcome

variable {ε α β : Type}

@[simp] theorem ok_bind (value : α) (next : α → Except ε β) :
    ((Except.ok value : Except ε α) >>= next) = next value := rfl

@[simp] theorem error_bind (error : ε) (next : α → Except ε β) :
    ((Except.error error : Except ε α) >>= next) = .error error := rfl

@[simp] theorem pure_eq_ok (value : α) : (pure value : Except ε α) = .ok value := rfl

theorem bind_eq_ok {first : Except ε α} {next : α → Except ε β} {result : β} :
    first >>= next = .ok result ↔ ∃ value, first = .ok value ∧ next value = .ok result := by
  cases first with
  | error error =>
    constructor
    · intro impossible
      cases impossible
    · rintro ⟨_, impossible, -⟩
      cases impossible
  | ok value =>
    constructor
    · exact fun behind => ⟨value, rfl, behind⟩
    · rintro ⟨_, same, behind⟩
      cases same
      exact behind

theorem forM_eq_ok {check : α → Except ε Unit} {items : List α}
    (passes : ∀ item ∈ items, check item = .ok ()) : items.forM check = .ok () := by
  induction items with
  | nil => rfl
  | cons item rest ih =>
    rw [List.forall_mem_cons] at passes
    have step : (item :: rest).forM check = check item >>= fun _ => rest.forM check := rfl
    rw [step, passes.1, ok_bind, ih passes.2]

theorem passes_of_forM_eq_ok {check : α → Except ε Unit} {items : List α}
    (passed : items.forM check = .ok ()) : ∀ item ∈ items, check item = .ok () := by
  induction items with
  | nil => simp
  | cons item rest ih =>
    have step : (item :: rest).forM check = check item >>= fun _ => rest.forM check := rfl
    rw [step] at passed
    obtain ⟨⟨⟩, first, behind⟩ := bind_eq_ok.mp passed
    exact List.forall_mem_cons.mpr ⟨first, ih behind⟩

theorem mapM_eq_ok_iff {step : α → Except ε β} {items : List α} {results : List β} :
    items.mapM step = .ok results ↔
      List.Forall₂ (fun item result => step item = .ok result) items results := by
  induction items generalizing results with
  | nil =>
    rw [List.forall₂_nil_left_iff, List.mapM_nil, pure_eq_ok, Except.ok.injEq, eq_comm]
  | cons item rest ih =>
    rw [List.mapM_cons, List.forall₂_cons_left_iff]
    constructor
    · intro mapped
      obtain ⟨result, found, behind⟩ := bind_eq_ok.mp mapped
      obtain ⟨others, more, same⟩ := bind_eq_ok.mp behind
      exact ⟨result, others, found, ih.mp more, (Except.ok.inj same).symm⟩
    · rintro ⟨result, others, found, more, rfl⟩
      rw [found, ok_bind, ih.mpr more]
      rfl

theorem exists_mapM_iff {step : α → Except ε β} {items : List α} :
    (∃ results, items.mapM step = .ok results) ↔
      ∀ item ∈ items, ∃ result, step item = .ok result := by
  induction items with
  | nil => exact iff_of_true ⟨[], rfl⟩ (by simp)
  | cons item rest ih =>
    rw [List.forall_mem_cons, ← ih, List.mapM_cons]
    constructor
    · rintro ⟨_, mapped⟩
      obtain ⟨result, found, behind⟩ := bind_eq_ok.mp mapped
      obtain ⟨others, more, -⟩ := bind_eq_ok.mp behind
      exact ⟨⟨result, found⟩, others, more⟩
    · rintro ⟨⟨result, found⟩, others, more⟩
      exact ⟨result :: others, by rw [found, ok_bind, more]; rfl⟩

theorem exists_of_mem_mapM {step : α → Except ε β} {items : List α} {results : List β} {result : β}
    (mapped : items.mapM step = .ok results) (inside : result ∈ results) :
    ∃ item ∈ items, step item = .ok result := by
  obtain ⟨item, member, made⟩ := Lists.exists_left_of_forall₂ (mapM_eq_ok_iff.mp mapped) inside
  exact ⟨item, member, made⟩

theorem exists_mem_of_mapM {step : α → Except ε β} {items : List α} {results : List β} {item : α}
    (mapped : items.mapM step = .ok results) (inside : item ∈ items) :
    ∃ result ∈ results, step item = .ok result := by
  obtain ⟨result, member, made⟩ := Lists.exists_right_of_forall₂ (mapM_eq_ok_iff.mp mapped) inside
  exact ⟨result, member, made⟩

theorem eq_nil_of_mapM {step : α → Except ε β} {items : List α} (mapped : items.mapM step = .ok []) :
    items = [] :=
  List.forall₂_nil_right_iff.mp (mapM_eq_ok_iff.mp mapped)

theorem mapM_eq_ok {step : α → Except ε β} {items : List α}
    (steps : ∀ item ∈ items, ∃ result, step item = .ok result) :
    ∃ results, items.mapM step = .ok results ∧
      (∀ result ∈ results, ∃ item ∈ items, step item = .ok result) ∧
      ∀ item ∈ items, ∃ result ∈ results, step item = .ok result := by
  obtain ⟨results, mapped⟩ := exists_mapM_iff.mpr steps
  exact ⟨results, mapped, fun _ => exists_of_mem_mapM mapped, fun _ => exists_mem_of_mapM mapped⟩

theorem mapM_eq_of_forall₂ {γ : Type} {step : α → Except ε γ} {other : β → Except ε γ}
    {items : List α} {others : List β}
    (same : List.Forall₂ (fun item item' => step item = other item') items others) :
    items.mapM step = others.mapM other := by
  induction same with
  | nil => rfl
  | cons first _ ih => rw [List.mapM_cons, List.mapM_cons, first, ih]

theorem mapM_congr {step other : α → Except ε β} {items : List α}
    (same : ∀ item ∈ items, step item = other item) : items.mapM step = items.mapM other :=
  mapM_eq_of_forall₂ (List.forall₂_same.mpr same)

theorem mapM_eq_map {γ : Type} {step : α → Except ε γ} {other : α → Except ε β} {image : β → γ}
    {items : List α} (same : ∀ item ∈ items, step item = (other item).map image) :
    items.mapM step = (items.mapM other).map (List.map image) := by
  induction items with
  | nil => rfl
  | cons item rest ih =>
    rw [List.forall_mem_cons] at same
    rw [List.mapM_cons, List.mapM_cons, same.1, ih same.2]
    cases other item with
    | error => rfl
    | ok first => cases rest.mapM other <;> rfl

end LiveQuery.Outcome
