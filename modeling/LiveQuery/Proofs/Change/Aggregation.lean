import LiveQuery.Change
import LiveQuery.Proofs.Store.Basic

set_option autoImplicit false

namespace LiveQuery.Aggregation

variable {changes front back left : Aggregation} {change previous : Change} {key : String}
  {error : StatementError}

theorem splitAt?_eq_none_iff :
    splitAt? key changes = none ↔ ∀ change ∈ changes, change.instanceKey ≠ key := by
  induction changes with
  | nil => simp [splitAt?]
  | cons first rest ih =>
    rw [List.forall_mem_cons, ← ih]
    by_cases same : first.instanceKey = key <;> simp [splitAt?, same]

/-- The change that is found is the first one of its instance. -/
theorem splitAt?_eq_some_iff : splitAt? key changes = some (front, change, back) ↔
    changes = front ++ change :: back ∧ change.instanceKey = key ∧
      ∀ other ∈ front, other.instanceKey ≠ key := by
  induction changes generalizing front with
  | nil => simp [splitAt?]
  | cons first rest ih =>
    by_cases same : first.instanceKey = key
    · simp only [splitAt?, same, ↓reduceIte, Option.some.injEq, Prod.mk.injEq]
      constructor
      · rintro ⟨rfl, rfl, rfl⟩
        exact ⟨rfl, same, by simp⟩
      · rintro ⟨whole, -, apart⟩
        cases front with
        | nil => simpa using whole
        | cons other more =>
          rw [List.cons_append, List.cons.injEq] at whole
          exact absurd (whole.1 ▸ same) (apart other (List.mem_cons_self ..))
    · simp only [splitAt?, same, ↓reduceIte, Option.map_eq_some_iff, Prod.mk.injEq]
      constructor
      · rintro ⟨⟨before, found, after⟩, split, rfl, rfl, rfl⟩
        obtain ⟨rfl, named, apart⟩ := ih.mp split
        exact ⟨rfl, named, List.forall_mem_cons.mpr ⟨same, apart⟩⟩
      · rintro ⟨whole, named, apart⟩
        cases front with
        | nil =>
          rw [List.nil_append, List.cons.injEq] at whole
          exact absurd (whole.1 ▸ named) same
        | cons other more =>
          rw [List.cons_append, List.cons.injEq] at whole
          rw [List.forall_mem_cons] at apart
          exact ⟨⟨more, change, back⟩, ih.mpr ⟨whole.2, named, apart.2⟩, by rw [whole.1], rfl, rfl⟩

theorem append_of_isEmptyUpdate (empty : change.isEmptyUpdate = true) :
    (append change).run changes = .ok () changes := by
  simp [append, empty, EStateM.run, pure, EStateM.pure]

theorem append_of_proper (proper : change.isEmptyUpdate = false) :
    (append change).run changes =
      match splitAt? change.instanceKey changes with
      | none => .ok () (changes ++ [change])
      | some (front, previous, back) =>
        match previous.followedBy change with
        | .ok folded => .ok () (front ++ folded.toList ++ back)
        | .error error => .error error (front ++ back) := by
  have read (next : Aggregation → EStateM StatementError Aggregation Unit) :
      (get >>= next) changes = next changes changes := rfl
  rw [append, if_neg (by simp [proper]), EStateM.run, read]
  cases splitAt? change.instanceKey changes with
  | none => rfl
  | some parts =>
    obtain ⟨front, previous, back⟩ := parts
    simp only
    cases previous.followedBy change <;> rfl

/-- A change of an instance that has none so far goes to the end. -/
theorem append_of_fresh (proper : change.isEmptyUpdate = false)
    (fresh : ∀ other ∈ changes, other.instanceKey ≠ change.instanceKey) :
    (append change).run changes = .ok () (changes ++ [change]) := by
  rw [append_of_proper proper, splitAt?_eq_none_iff.mpr fresh]

/-- The earlier change of an instance stays in its place, with the later one folded in. -/
theorem append_of_followedBy (proper : change.isEmptyUpdate = false)
    (named : previous.instanceKey = change.instanceKey)
    (apart : ∀ other ∈ front, other.instanceKey ≠ change.instanceKey) {folded : Option Change}
    (follows : previous.followedBy change = .ok folded) :
    (append change).run (front ++ previous :: back) = .ok () (front ++ folded.toList ++ back) := by
  rw [append_of_proper proper, splitAt?_eq_some_iff.mpr ⟨rfl, named, apart⟩]
  simp only [follows]

theorem append_of_not_followedBy (proper : change.isEmptyUpdate = false)
    (named : previous.instanceKey = change.instanceKey)
    (apart : ∀ other ∈ front, other.instanceKey ≠ change.instanceKey)
    (fails : previous.followedBy change = .error error) :
    (append change).run (front ++ previous :: back) = .error error (front ++ back) := by
  rw [append_of_proper proper, splitAt?_eq_some_iff.mpr ⟨rfl, named, apart⟩]
  simp only [fails]

/-- A change that cannot follow the earlier one of its instance takes that one out of the list; all
other entries stay as they are, in their order. Nothing else makes an aggregation fail. -/
theorem append_eq_error_iff : (append change).run changes = .error error left ↔
    change.isEmptyUpdate = false ∧ ∃ front previous back, changes = front ++ previous :: back ∧
      (∀ other ∈ front, other.instanceKey ≠ change.instanceKey) ∧
      previous.instanceKey = change.instanceKey ∧ previous.followedBy change = .error error ∧
      left = front ++ back := by
  constructor
  · intro failed
    have proper : change.isEmptyUpdate = false := by
      rw [← Bool.not_eq_true]
      intro empty
      rw [append_of_isEmptyUpdate empty] at failed
      cases failed
    refine ⟨proper, ?_⟩
    cases split : splitAt? change.instanceKey changes with
    | none =>
      rw [append_of_fresh proper (splitAt?_eq_none_iff.mp split)] at failed
      cases failed
    | some parts =>
      obtain ⟨front, previous, back⟩ := parts
      obtain ⟨rfl, named, apart⟩ := splitAt?_eq_some_iff.mp split
      cases follows : previous.followedBy change with
      | ok folded =>
        rw [append_of_followedBy proper named apart follows] at failed
        cases failed
      | error reason =>
        rw [append_of_not_followedBy proper named apart follows] at failed
        cases failed
        exact ⟨front, previous, back, rfl, apart, named, follows, rfl⟩
  · rintro ⟨proper, front, previous, back, rfl, apart, named, fails, rfl⟩
    exact append_of_not_followedBy proper named apart fails

-- The second creation of a task leaves no trace of the first one.
open Samples in
example :
    (append ⟨task, [("id", .int 7)], .creation chore⟩).run
        [⟨task, [("id", .int 7)], .creation chore⟩] =
      .error (.inconsistentChange "Task" "\x7bid: 7\x7d" "creation") [] := rfl

theorem appendAll_of_append {rest : List Change} (taken : (append change).run changes = .ok () left) :
    (appendAll (change :: rest)).run changes = (appendAll rest).run left := by
  have taken : append change changes = .ok () left := taken
  simp only [appendAll, List.forM, EStateM.run, bind, EStateM.bind, taken]

end LiveQuery.Aggregation
