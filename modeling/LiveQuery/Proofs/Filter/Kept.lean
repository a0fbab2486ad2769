import LiveQuery.Proofs.Filter.NormalForm
import LiveQuery.Proofs.Store.Basic

/-!
Reductions that are kept. An instance of a filter keeps the answer it gave first, and it gives
itself where that answer came out equal to it, or where it came out of a reduction. The parts of a
filter are instances of their own, each with a history of its own. Whatever the histories are, the
answer is the one that a reduction of a fresh copy gives.
-/

set_option autoImplicit false

namespace LiveQuery

namespace Predicate

section Same

variable {p q r : Predicate} {operands middle others : List Predicate}
  {head head' head'' : Option Predicate}

theorem sameAll_iff :
    sameAll operands others = true ↔ List.Forall₂ (fun a b => same a b = true) operands others := by
  induction operands generalizing others with
  | nil => cases others <;> simp [sameAll]
  | cons operand rest ih => cases others <;> simp [sameAll, ih]

private theorem sameAll_symm (equal : sameAll operands others = true)
    (each : ∀ operand ∈ operands, ∀ other, same operand other = true → same other operand = true) :
    sameAll others operands = true := by
  rw [sameAll_iff] at equal ⊢
  induction equal with
  | nil => exact .nil
  | cons first _ ih =>
    rw [List.forall_mem_cons] at each
    exact .cons (each.1 _ first) (ih each.2)

private theorem sameHead_symm (equal : sameHead head head' = true)
    (each : ∀ inner, head = some inner → ∀ other, same inner other = true →
      same other inner = true) : sameHead head' head = true := by
  rcases sameHead_cases equal with ⟨rfl, rfl⟩ | ⟨p, q, rfl, rfl, inner⟩
  · rfl
  · exact each p rfl q inner

theorem same_symm (equal : same p q = true) : same q p = true := by
  induction p generalizing q with
  | junction kind operands ih =>
    cases q with
    | junction other others =>
      simp only [same, Bool.and_eq_true, decide_eq_true_eq] at equal ⊢
      exact ⟨equal.1.symm, sameAll_symm equal.2 fun operand inside _ => ih operand inside⟩
    | _ => cases equal
  | negation operand ih =>
    cases q with
    | negation other => exact ih equal
    | _ => cases equal
  | leaf field operator value =>
    cases q with
    | leaf field' operator' value' =>
      simp only [same, Bool.and_eq_true, decide_eq_true_eq] at equal ⊢
      exact ⟨⟨equal.1.1.symm, equal.1.2.symm⟩, (Value.same_comm value' value).trans equal.2⟩
    | _ => cases equal
  | edge link head ih =>
    cases q with
    | edge other head' =>
      simp only [same, Bool.and_eq_true, decide_eq_true_eq] at equal ⊢
      exact ⟨equal.1.symm, sameHead_symm equal.2 fun inner found _ => ih inner found⟩
    | _ => cases equal
  | reverse relation head ih =>
    cases q with
    | reverse other head' =>
      simp only [same, Bool.and_eq_true, decide_eq_true_eq] at equal ⊢
      exact ⟨equal.1.symm, sameHead_symm equal.2 fun inner found _ => ih inner found⟩
    | _ => cases equal
  | constant | count | raw => cases q <;> simp_all [same]

private theorem sameAll_trans (first : sameAll operands middle = true)
    (second : sameAll middle others = true)
    (each : ∀ operand ∈ operands, ∀ q r, same operand q = true → same q r = true →
      same operand r = true) : sameAll operands others = true := by
  rw [sameAll_iff] at first second ⊢
  induction first generalizing others with
  | nil => cases second; exact .nil
  | cons early _ ih =>
    rw [List.forall_mem_cons] at each
    cases second with
    | cons late rest => exact .cons (each.1 _ _ early late) (ih rest each.2)

private theorem sameHead_trans (first : sameHead head head' = true)
    (second : sameHead head' head'' = true)
    (each : ∀ inner, head = some inner → ∀ q r, same inner q = true → same q r = true →
      same inner r = true) : sameHead head head'' = true := by
  rcases sameHead_cases first with ⟨rfl, rfl⟩ | ⟨p, q, rfl, rfl, early⟩
  · exact second
  · cases head'' with
    | none => cases second
    | some r => exact each p rfl q r early second

theorem same_trans (first : same p q = true) (second : same q r = true) : same p r = true := by
  induction p generalizing q r with
  | junction kind operands ih =>
    cases q with
    | junction =>
      cases r with
      | junction =>
        simp only [same, Bool.and_eq_true, decide_eq_true_eq] at first second ⊢
        exact ⟨first.1.trans second.1,
          sameAll_trans first.2 second.2 fun operand inside _ _ => ih operand inside⟩
      | _ => cases second
    | _ => cases first
  | negation operand ih =>
    cases q with
    | negation =>
      cases r with
      | negation => exact ih first second
      | _ => cases second
    | _ => cases first
  | leaf field operator value =>
    cases q with
    | leaf =>
      cases r with
      | leaf =>
        simp only [same, Bool.and_eq_true, decide_eq_true_eq] at first second ⊢
        exact ⟨⟨first.1.1.trans second.1.1, first.1.2.trans second.1.2⟩,
          Value.same_trans first.2 second.2⟩
      | _ => cases second
    | _ => cases first
  | edge link head ih | reverse link head ih =>
    cases q with
    | edge | reverse =>
      cases r with
      | edge | reverse =>
        first
        | cases first
        | cases second
        | simp only [same, Bool.and_eq_true, decide_eq_true_eq] at first second ⊢
          exact ⟨first.1.trans second.1,
            sameHead_trans first.2 second.2 fun inner found _ _ => ih inner found⟩
      | _ => cases second
    | _ => cases first
  | constant | count | raw => cases q <;> cases r <;> simp_all [same]

end Same

section Shape

variable {p q : Predicate} {kind : Junction} {others : List Predicate} {link : Edge}
  {relation : ReverseEdge} {head : Option Predicate}

theorem junction_of_same (equal : same p (.junction kind others) = true) :
    ∃ operands, p = .junction kind operands ∧ sameAll operands others = true := by
  cases p with
  | junction other operands =>
    simp only [same, Bool.and_eq_true, decide_eq_true_eq] at equal
    exact ⟨operands, by rw [equal.1], equal.2⟩
  | _ => cases equal

theorem negation_of_same (equal : same p (.negation q) = true) :
    ∃ inner, p = .negation inner ∧ same inner q = true := by
  cases p with
  | negation inner => exact ⟨inner, rfl, equal⟩
  | _ => cases equal

theorem edge_of_same (equal : same p (.edge link head) = true) :
    ∃ head', p = .edge link head' ∧ sameHead head' head = true := by
  cases p with
  | edge other head' =>
    simp only [same, Bool.and_eq_true, decide_eq_true_eq] at equal
    exact ⟨head', by rw [equal.1], equal.2⟩
  | _ => cases equal

theorem reverse_of_same (equal : same p (.reverse relation head) = true) :
    ∃ head', p = .reverse relation head' ∧ sameHead head' head = true := by
  cases p with
  | reverse other head' =>
    simp only [same, Bool.and_eq_true, decide_eq_true_eq] at equal
    exact ⟨head', by rw [equal.1], equal.2⟩
  | _ => cases equal

theorem list_of_same {field : Leaf} {operator : LeafOperator} {items : List Value}
    (equal : same p (.leaf field operator (.list items)) = true) :
    ∃ items', p = .leaf field operator (.list items') ∧ items'.length = items.length := by
  cases p with
  | leaf field' operator' value =>
    simp only [same, Bool.and_eq_true, decide_eq_true_eq] at equal
    obtain ⟨⟨rfl, rfl⟩, values⟩ := equal
    cases value with
    | list items' => exact ⟨items', rfl, Value.length_eq_of_sameItems values⟩
    | _ => cases values
  | _ => cases equal

theorem some_of_same (equal : sameHead head (some q) = true) :
    ∃ inner, head = some inner ∧ same inner q = true := by
  rcases sameHead_cases equal with ⟨-, none⟩ | ⟨inner, _, rfl, found, equal⟩
  · cases none
  · cases found
    exact ⟨inner, rfl, equal⟩

theorem mem_of_same {operands : List Predicate} (equal : sameAll operands others = true)
    {other : Predicate} (inside : other ∈ others) :
    ∃ operand ∈ operands, same operand other = true := by
  rw [sameAll_iff] at equal
  induction equal with
  | nil => cases inside
  | cons first _ ih =>
    rcases List.mem_cons.mp inside with rfl | inside
    · exact ⟨_, by simp, first⟩
    · obtain ⟨operand, member, equal⟩ := ih inside
      exact ⟨operand, by simp [member], equal⟩

theorem pair_of_same {operands : List Predicate} (equal : sameAll operands others = true)
    {first second : Predicate} (both : [first, second].Sublist others) :
    ∃ first' second', [first', second'].Sublist operands ∧ same first' first = true ∧
      same second' second = true := by
  have all := sameAll_iff.mp equal
  induction all with
  | nil => cases both
  | cons head tail ih =>
    have behind := sameAll_iff.mpr tail
    cases both with
    | cons _ both =>
      obtain ⟨first', second', both', equal, equal'⟩ := ih behind both
      exact ⟨first', second', both'.cons _, equal, equal'⟩
    | cons_cons _ one =>
      obtain ⟨second', inside, equal'⟩ := mem_of_same behind (List.singleton_sublist.mp one)
      exact ⟨_, second', (List.singleton_sublist.mpr inside).cons_cons _, head, equal'⟩

end Shape

/-- Equal predicates are reducible alike. -/
theorem Reducible.of_same {p q : Predicate} (reducible : Reducible q)
    (equal : same p q = true) : Reducible p := by
  cases reducible with
  | nested inside =>
    obtain ⟨operands, rfl, all⟩ := junction_of_same equal
    obtain ⟨operand, member, shape⟩ := mem_of_same all inside
    obtain ⟨inner, rfl, -⟩ := junction_of_same shape
    exact .nested member
  | few short =>
    obtain ⟨operands, rfl, all⟩ := junction_of_same equal
    exact .few ((sameAll_iff.mp all).length_eq ▸ short)
  | decided inside =>
    obtain ⟨operands, rfl, all⟩ := junction_of_same equal
    obtain ⟨operand, member, shape⟩ := mem_of_same all inside
    exact .decided (eq_constant_of_beq shape ▸ member)
  | repeated both twice =>
    obtain ⟨operands, rfl, all⟩ := junction_of_same equal
    obtain ⟨first, second, both', equal', equal''⟩ := pair_of_same all both
    exact .repeated both' (same_trans (same_trans equal' twice) (same_symm equal''))
  | opposed inside negated opposite =>
    obtain ⟨operands, rfl, all⟩ := junction_of_same equal
    obtain ⟨operand, member, equal'⟩ := mem_of_same all inside
    obtain ⟨negation, member', shape⟩ := mem_of_same all negated
    obtain ⟨inner, rfl, equal''⟩ := negation_of_same shape
    exact .opposed member member' (same_trans (same_trans equal' opposite) (same_symm equal''))
  | negatedConstant =>
    obtain ⟨inner, rfl, shape⟩ := negation_of_same equal
    exact eq_constant_of_beq shape ▸ .negatedConstant
  | negatedNegation =>
    obtain ⟨inner, rfl, shape⟩ := negation_of_same equal
    obtain ⟨_, rfl, -⟩ := negation_of_same shape
    exact .negatedNegation
  | fewItems listed short =>
    obtain ⟨items, rfl, length⟩ := list_of_same equal
    exact .fewItems listed (length ▸ short)
  | decidedEdge =>
    obtain ⟨head, rfl, heads⟩ := edge_of_same equal
    obtain ⟨inner, rfl, shape⟩ := some_of_same heads
    exact eq_constant_of_beq shape ▸ .decidedEdge
  | decidedReverse =>
    obtain ⟨head, rfl, heads⟩ := reverse_of_same equal
    obtain ⟨inner, rfl, shape⟩ := some_of_same heads
    exact eq_constant_of_beq shape ▸ .decidedReverse
  | requiredEdge required =>
    obtain ⟨head, rfl, heads⟩ := edge_of_same equal
    cases head with
    | none => exact .requiredEdge required
    | some => cases heads
  | decidedCount settled =>
    cases p with
    | count =>
      simp only [same, Bool.and_eq_true, decide_eq_true_eq] at equal
      obtain ⟨⟨rfl, rfl⟩, rfl⟩ := equal
      exact .decidedCount settled
    | _ => cases equal

private theorem partsHead_of_same {head other : Option Predicate}
    (equal : sameHead head other = true)
    (each : ∀ inner, other = some inner → ∀ p, same p inner = true → ∀ part ∈ inner.parts,
      ∃ part' ∈ p.parts, same part' part = true) :
    ∀ part ∈ partsHead other, ∃ part' ∈ partsHead head, same part' part = true := by
  rcases sameHead_cases equal with ⟨rfl, rfl⟩ | ⟨p, q, rfl, rfl, inner⟩
  · nofun
  · exact each q rfl p inner

/-- Equal predicates are made of equal parts. -/
theorem parts_of_same {p q : Predicate} (equal : same p q = true) :
    ∀ part ∈ q.parts, ∃ part' ∈ p.parts, same part' part = true := by
  induction q generalizing p with
  | junction kind others ih =>
    obtain ⟨operands, rfl, all⟩ := junction_of_same equal
    rw [parts, parts, List.forall_mem_cons]
    refine ⟨⟨_, List.mem_cons_self .., equal⟩, fun part inside => ?_⟩
    obtain ⟨other, member, inside⟩ := mem_partsAll.mp inside
    obtain ⟨operand, member', equal⟩ := mem_of_same all member
    obtain ⟨part', inside', equal⟩ := ih other member equal part inside
    exact ⟨part', List.mem_cons_of_mem _ (mem_partsAll.mpr ⟨operand, member', inside'⟩), equal⟩
  | negation operand ih =>
    obtain ⟨inner, rfl, shape⟩ := negation_of_same equal
    rw [parts, parts, List.forall_mem_cons]
    refine ⟨⟨_, List.mem_cons_self .., equal⟩, fun part inside => ?_⟩
    obtain ⟨part', inside', equal⟩ := ih shape part inside
    exact ⟨part', List.mem_cons_of_mem _ inside', equal⟩
  | edge link other ih =>
    obtain ⟨head, rfl, heads⟩ := edge_of_same equal
    rw [parts, parts, List.forall_mem_cons]
    refine ⟨⟨_, List.mem_cons_self .., equal⟩, fun part inside => ?_⟩
    obtain ⟨part', inside', equal⟩ :=
      partsHead_of_same heads (fun inner found _ => ih inner found) part inside
    exact ⟨part', List.mem_cons_of_mem _ inside', equal⟩
  | reverse relation other ih =>
    obtain ⟨head, rfl, heads⟩ := reverse_of_same equal
    rw [parts, parts, List.forall_mem_cons]
    refine ⟨⟨_, List.mem_cons_self .., equal⟩, fun part inside => ?_⟩
    obtain ⟨part', inside', equal⟩ :=
      partsHead_of_same heads (fun inner found _ => ih inner found) part inside
    exact ⟨part', List.mem_cons_of_mem _ inside', equal⟩
  | constant | leaf | count | raw =>
    intro part inside
    rw [List.mem_singleton.mp inside]
    cases p with
    | constant | leaf | count | raw => exact ⟨_, List.mem_singleton_self _, equal⟩
    | _ => cases equal

theorem Normal.of_same {p q : Predicate} (normal : p.Normal) (equal : same p q = true) :
    q.Normal := by
  intro part inside reducible
  obtain ⟨part', inside', equal⟩ := parts_of_same equal part inside
  exact normal part' inside' (reducible.of_same equal)

section Answers

/-- What an instance of a predicate may answer when it is asked for its reduction: what follows
from the answers of its parts, or itself. -/
inductive Answers : Predicate → Predicate → Prop
  | constant (value : Bool) : Answers (.constant value) (.constant value)
  | junction {kind : Junction} {operands answers : List Predicate} :
      operands.length = answers.length →
        (∀ pair ∈ operands.zip answers, Answers pair.1 pair.2) →
          Answers (.junction kind operands) (joinReduced kind answers)
  | negation {operand answer : Predicate} :
      Answers operand answer → Answers (.negation operand) (negateReduced answer)
  | leaf (field : Leaf) (operator : LeafOperator) (value : Value) :
      Answers (.leaf field operator value) (reduceLeaf field operator value)
  | bareEdge (link : Edge) :
      Answers (.edge link none) (if link.nullable then .edge link none else .constant true)
  | edge {link : Edge} {head answer : Predicate} : Answers head answer →
      Answers (.edge link (some head)) (relateReduced (.edge link)
        (if link.nullable then .edge link none else .constant true) (some answer))
  | bareReverse (relation : ReverseEdge) :
      Answers (.reverse relation none) (.reverse relation none)
  | reverse {relation : ReverseEdge} {head answer : Predicate} : Answers head answer →
      Answers (.reverse relation (some head))
        (relateReduced (.reverse relation) (.reverse relation none) (some answer))
  | count (relation : ReverseEdge) (comparison : Comparison) (number : Nat) :
      Answers (.count relation comparison number) (reduceCount relation comparison number)
  | raw (sql : String) : Answers (.raw sql) (.raw sql)
  /-- An answer was equal to the instance, and the instance was kept in its place. -/
  | kept {predicate answer : Predicate} :
      Answers predicate answer → (answer == predicate) = true → Answers predicate predicate
  /-- The instance was an answer, and took itself for reduced. -/
  | answered {predicate answer : Predicate} : Answers predicate answer → Answers answer answer

variable {predicate answer : Predicate}

theorem Answers.eq_reduced (answers : predicate.Answers answer) : answer = predicate.reduced := by
  induction answers with
  | junction length _ ih =>
    rw [reduced, reducedAll_eq_map]
    congr 1
    refine List.ext_getElem (by simp [length]) fun i short _ => ?_
    rw [List.getElem_map]
    refine ih (_, _) (List.mem_iff_getElem.mpr ⟨i, by simp [length, short], List.getElem_zip⟩)
  | negation _ ih => rw [reduced, ih]
  | edge _ ih | reverse _ ih => rw [reduced, reducedHead, ih]
  | kept _ equal ih =>
    -- whatever equals a normal form is one
    rw [ih] at equal
    exact (reduced_of_normal ((normal_reduced _).of_same equal)).symm
  | answered _ ih =>
    rw [ih]
    exact (reduced_of_normal (normal_reduced _)).symm
  | constant | leaf | bareEdge | bareReverse | count | raw => rfl

theorem answers_reduced (predicate : Predicate) : predicate.Answers predicate.reduced := by
  induction predicate with
  | junction kind operands ih =>
    rw [reduced, reducedAll_eq_map]
    refine .junction (by simp) fun pair inside => ?_
    obtain ⟨i, short, rfl⟩ := List.mem_iff_getElem.mp inside
    simpa using ih _ (List.getElem_mem _)
  | negation operand ih => exact .negation ih
  | edge link head ih =>
    cases head with
    | none => exact .bareEdge link
    | some head => exact .edge (ih head rfl)
  | reverse relation head ih =>
    cases head with
    | none => exact .bareReverse relation
    | some head => exact .reverse (ih head rfl)
  | constant value => exact .constant value
  | leaf field operator value => exact .leaf field operator value
  | count relation comparison number => exact .count relation comparison number
  | raw sql => exact .raw sql

end Answers

end Predicate

/-- Reduction leaves nothing that could be settled or written shorter, at any depth. A copy of its
result, and whatever else is in that form, is its own reduction, so that nothing that was asked
before changes an answer. -/
theorem Filter.reduced_normal_form (filter : Filter) :
    filter.reduced.predicate.Normal ∧ filter.reduced.reduced = filter.reduced ∧
      (∀ other : Filter, other.predicate.Normal → other.reduced = other) ∧
        ∀ answer, filter.predicate.Answers answer ↔ answer = filter.reduced.predicate := by
  have fixed : ∀ other : Filter, other.predicate.Normal → other.reduced = other := by
    intro other normal
    unfold Filter.reduced
    rw [Predicate.reduced_of_normal normal]
  have normal : filter.reduced.predicate.Normal := Predicate.normal_reduced filter.predicate
  refine ⟨normal, fixed _ normal, fixed, fun answer => ⟨Predicate.Answers.eq_reduced, ?_⟩⟩
  rintro rfl
  exact Predicate.answers_reduced filter.predicate

namespace Samples

/-- The people who have a task, in many words: that any task is asked for, that nothing else would
do, and that it is not so that there is none. -/
def wordy : Filter :=
  ⟨person, .negation (.junction .any
    [.negation (.reverse tasks (some (.junction .all []))), .constant false])⟩

end Samples

open Samples

theorem Filter.reduced_normal_form_wordy :
    wordy.reduced.reduced = ⟨person, .reverse tasks none⟩ ∧
      (⟨person, .reverse tasks none⟩ : Filter).reduced = ⟨person, .reverse tasks none⟩ ∧
        wordy.predicate.Answers (.reverse tasks none) := by
  obtain ⟨normal, again, fixed, answers⟩ := Filter.reduced_normal_form wordy
  exact ⟨again, fixed ⟨person, .reverse tasks none⟩ normal, (answers _).mpr rfl⟩

end LiveQuery
