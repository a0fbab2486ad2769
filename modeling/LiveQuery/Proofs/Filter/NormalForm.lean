import LiveQuery.Proofs.Filter.Reduction

set_option autoImplicit false

namespace LiveQuery

namespace Predicate

mutual

/-- All that a predicate is made of, itself included, at every depth. -/
def parts : Predicate → List Predicate
  | .junction kind operands => .junction kind operands :: partsAll operands
  | .negation operand => .negation operand :: parts operand
  | .edge link head => .edge link head :: partsHead head
  | .reverse relation head => .reverse relation head :: partsHead head
  | single => [single]

def partsAll : List Predicate → List Predicate
  | [] => []
  | operand :: rest => parts operand ++ partsAll rest

def partsHead : Option Predicate → List Predicate
  | none => []
  | some head => parts head

end

/-- A predicate that can be settled or written shorter as it stands, whatever its parts are. -/
inductive Reducible : Predicate → Prop
  | nested {kind : Junction} {operands inner : List Predicate} :
      .junction kind inner ∈ operands → Reducible (.junction kind operands)
  | few {kind : Junction} {operands : List Predicate} :
      operands.length < 2 → Reducible (.junction kind operands)
  | decided {kind : Junction} {operands : List Predicate} {value : Bool} :
      .constant value ∈ operands → Reducible (.junction kind operands)
  | repeated {kind : Junction} {operands : List Predicate} {first second : Predicate} :
      [first, second].Sublist operands → (first == second) = true →
        Reducible (.junction kind operands)
  | opposed {kind : Junction} {operands : List Predicate} {operand inner : Predicate} :
      operand ∈ operands → .negation inner ∈ operands → (operand == inner) = true →
        Reducible (.junction kind operands)
  | negatedConstant {value : Bool} : Reducible (.negation (.constant value))
  | negatedNegation {operand : Predicate} : Reducible (.negation (.negation operand))
  | fewItems {field : Leaf} {operator : LeafOperator} {items : List Value} :
      operator = .among ∨ operator = .notAmong → items.length < 2 →
        Reducible (.leaf field operator (.list items))
  | decidedEdge {link : Edge} {value : Bool} : Reducible (.edge link (some (.constant value)))
  | decidedReverse {relation : ReverseEdge} {value : Bool} :
      Reducible (.reverse relation (some (.constant value)))
  | requiredEdge {link : Edge} : link.nullable = false → Reducible (.edge link none)
  | decidedCount {relation : ReverseEdge} {comparison : Comparison} :
      comparison = .ge ∨ comparison = .lt → Reducible (.count relation comparison 0)

/-- Nothing can be settled or written shorter, at any depth. -/
def Normal (predicate : Predicate) : Prop := ∀ part ∈ predicate.parts, ¬Reducible part

section Parts

variable {kind : Junction} {operands : List Predicate} {operand : Predicate}
  {head : Option Predicate} {link : Edge} {relation : ReverseEdge}

theorem mem_partsAll {part : Predicate} :
    part ∈ partsAll operands ↔ ∃ operand ∈ operands, part ∈ operand.parts := by
  induction operands with
  | nil => simp [partsAll]
  | cons operand rest ih => rw [partsAll, List.mem_append, ih, List.exists_mem_cons_iff]

theorem normal_junction_iff : Normal (.junction kind operands) ↔
    ¬Reducible (.junction kind operands) ∧ ∀ operand ∈ operands, operand.Normal := by
  unfold Normal
  rw [parts, List.forall_mem_cons]
  simp only [mem_partsAll]
  exact and_congr_right fun _ =>
    ⟨fun each operand inside part member => each part ⟨operand, inside, member⟩,
      fun each part ⟨operand, inside, member⟩ => each operand inside part member⟩

theorem normal_negation_iff :
    Normal (.negation operand) ↔ ¬Reducible (.negation operand) ∧ operand.Normal := by
  unfold Normal
  rw [parts, List.forall_mem_cons]

theorem forall_partsHead_iff : (∀ part ∈ partsHead head, ¬Reducible part) ↔
    ∀ inner, head = some inner → inner.Normal := by
  cases head <;> simp [partsHead, Normal]

theorem normal_edge_iff : Normal (.edge link head) ↔
    ¬Reducible (.edge link head) ∧ ∀ inner, head = some inner → inner.Normal := by
  unfold Normal
  rw [parts, List.forall_mem_cons, forall_partsHead_iff]
  rfl

theorem normal_reverse_iff : Normal (.reverse relation head) ↔
    ¬Reducible (.reverse relation head) ∧ ∀ inner, head = some inner → inner.Normal := by
  unfold Normal
  rw [parts, List.forall_mem_cons, forall_partsHead_iff]
  rfl

theorem normal_constant (value : Bool) : Normal (.constant value) := by
  intro part inside
  rw [List.mem_singleton.mp inside]
  nofun

end Parts

section Junctions

variable {kind : Junction} {operands : List Predicate} {operand : Predicate}

/-- An operand that stays in a junction of the kind as it is. -/
def Stays (kind : Junction) (operand : Predicate) : Prop :=
  (∀ value, operand ≠ .constant value) ∧ ∀ inner, operand ≠ .junction kind inner

theorem Stays.isConstant_eq (stays : operand.Stays kind) : operand.isConstant = false := by
  cases operand with
  | constant value => exact absurd rfl (stays.1 value)
  | _ => rfl

theorem Stays.spread_eq (stays : operand.Stays kind) : spread kind operand = [operand] := by
  cases operand with
  | junction inner operands =>
    have other : inner ≠ kind := fun same => stays.2 operands (same ▸ rfl)
    simp only [spread, other, ↓reduceIte]
  | _ => rfl

/-- Some operand decides the junction. -/
def absorbed (kind : Junction) (operands : List Predicate) : Bool :=
  (operands.flatMap (spread kind)).any (· == .constant (!kind.unit))

/-- The operands that can vary, without junctions of the kind. -/
def varying (kind : Junction) (operands : List Predicate) : List Predicate :=
  (operands.flatMap (spread kind)).filter (!·.isConstant)

/-- A junction of operands that need no further reduction. -/
def assemble (kind : Junction) : List Predicate → Predicate
  | [] => .constant kind.unit
  | [single] => single
  | several => .junction kind several

theorem joinReduced_eq (kind : Junction) (operands : List Predicate) :
    joinReduced kind operands =
      if absorbed kind operands then .constant (!kind.unit)
      else if contradicts (distinct (varying kind operands)) then .constant (!kind.unit)
      else assemble kind (distinct (varying kind operands)) := rfl

theorem flatMap_spread_of_stays (stay : ∀ operand ∈ operands, operand.Stays kind) :
    operands.flatMap (spread kind) = operands := by
  rw [List.flatMap_congr fun operand inside => (stay operand inside).spread_eq]
  exact List.flatMap_singleton' operands

theorem absorbed_of_stays (stay : ∀ operand ∈ operands, operand.Stays kind) :
    absorbed kind operands = false := by
  rw [absorbed, flatMap_spread_of_stays stay, List.any_eq_false]
  exact fun operand inside equal => (stay operand inside).1 _ (eq_constant_of_beq equal)

theorem varying_of_stays (stay : ∀ operand ∈ operands, operand.Stays kind) :
    varying kind operands = operands := by
  rw [varying, flatMap_spread_of_stays stay, List.filter_eq_self]
  intro operand inside
  rw [(stay operand inside).isConstant_eq]
  rfl

theorem contradicts_eq_true_iff : contradicts operands = true ↔
    ∃ inner, .negation inner ∈ operands ∧ ∃ operand ∈ operands, (operand == inner) = true := by
  unfold contradicts
  rw [List.any_eq_true]
  constructor
  · rintro ⟨operand, inside, negates⟩
    cases operand with
    | negation inner => exact ⟨inner, inside, List.any_eq_true.mp negates⟩
    | _ => cases negates
  · rintro ⟨inner, inside, found⟩
    exact ⟨_, inside, List.any_eq_true.mpr found⟩

/-- A junction that is irreducible in itself. -/
theorem not_reducible_junction_iff : ¬Reducible (.junction kind operands) ↔
    2 ≤ operands.length ∧ (∀ operand ∈ operands, operand.Stays kind) ∧
      operands.Pairwise (fun first second => (first == second) = false) ∧
        contradicts operands = false := by
  constructor
  · intro irreducible
    refine ⟨Nat.le_of_not_lt fun short => irreducible (.few short), ?_, ?_, ?_⟩
    · intro operand inside
      constructor
      · rintro value rfl
        exact irreducible (.decided inside)
      · rintro inner rfl
        exact irreducible (.nested inside)
    · rw [List.pairwise_iff_forall_sublist]
      intro first second both
      exact Bool.eq_false_iff.mpr fun equal => irreducible (.repeated both equal)
    · refine Bool.eq_false_iff.mpr fun found => ?_
      obtain ⟨inner, inside, operand, member, equal⟩ := contradicts_eq_true_iff.mp found
      exact irreducible (.opposed member inside equal)
  · rintro ⟨several, stay, apart, consistent⟩ reducible
    cases reducible with
    | nested inside => exact (stay _ inside).2 _ rfl
    | few short => omega
    | decided inside => exact (stay _ inside).1 _ rfl
    | repeated both equal =>
      rw [List.pairwise_iff_forall_sublist.mp apart both] at equal
      cases equal
    | opposed member inside equal =>
      have found := contradicts_eq_true_iff.mpr ⟨_, inside, _, member, equal⟩
      rw [consistent] at found
      cases found

/-- Of operands that are equal the first one is kept. -/
theorem pairwise_distinct (operands : List Predicate) :
    (distinct operands).Pairwise fun first second => (first == second) = false := by
  suffices ∀ kept : List Predicate,
      kept.Pairwise (fun first second => (first == second) = false) →
        (operands.foldl (fun kept operand =>
          if member operand kept then kept else kept ++ [operand]) kept).Pairwise
            fun first second => (first == second) = false from this [] .nil
  induction operands with
  | nil => exact fun kept apart => apart
  | cons operand rest ih =>
    intro kept apart
    rw [List.foldl_cons]
    by_cases known : member operand kept = true
    · rw [if_pos known]
      exact ih kept apart
    · rw [if_neg known]
      refine ih _ (List.pairwise_append.mpr ⟨apart, List.pairwise_singleton _ _, ?_⟩)
      intro first inside second same
      rw [List.mem_singleton.mp same]
      exact Bool.eq_false_iff.mpr fun equal =>
        known (List.any_eq_true.mpr ⟨first, inside, equal⟩)

theorem distinct_of_pairwise
    (apart : operands.Pairwise fun first second => (first == second) = false) :
    distinct operands = operands := by
  suffices ∀ kept : List Predicate,
      (kept ++ operands).Pairwise (fun first second => (first == second) = false) →
        operands.foldl (fun kept operand =>
          if member operand kept then kept else kept ++ [operand]) kept = kept ++ operands from
    this [] apart
  clear apart
  induction operands with
  | nil => exact fun kept _ => (List.append_nil kept).symm
  | cons operand rest ih =>
    intro kept apart
    have unknown : ¬member operand kept = true := by
      intro known
      obtain ⟨first, inside, equal⟩ := List.any_eq_true.mp known
      have differs := (List.pairwise_append.mp apart).2.2 first inside operand (by simp)
      rw [equal] at differs
      cases differs
    rw [List.foldl_cons, if_neg unknown, ih, List.append_assoc, List.singleton_append]
    rwa [List.append_assoc, List.singleton_append]

theorem normal_spread (normal : operand.Normal) :
    ∀ part ∈ spread kind operand, part.Normal ∧ ∀ inner, part ≠ .junction kind inner := by
  intro part inside
  cases operand with
  | junction inner operands =>
    by_cases same : inner = kind
    · subst same
      simp only [spread, ↓reduceIte] at inside
      obtain ⟨irreducible, each⟩ := normal_junction_iff.mp normal
      exact ⟨each part inside, ((not_reducible_junction_iff.mp irreducible).2.1 part inside).2⟩
    · simp only [spread, same, ↓reduceIte, List.mem_singleton] at inside
      subst inside
      exact ⟨normal, fun _ equal => same (by cases equal; rfl)⟩
  | _ =>
    simp only [spread, List.mem_singleton] at inside
    subst inside
    refine ⟨normal, fun inner equal => ?_⟩
    cases equal

theorem normal_of_mem_varying (each : ∀ operand ∈ operands, operand.Normal) :
    ∀ part ∈ varying kind operands, part.Normal ∧ part.Stays kind := by
  intro part inside
  obtain ⟨inside, varies⟩ := List.mem_filter.mp inside
  obtain ⟨operand, member, inside⟩ := List.mem_flatMap.mp inside
  obtain ⟨normal, loose⟩ := normal_spread (each operand member) part inside
  refine ⟨normal, ?_, loose⟩
  rintro value rfl
  cases varies

theorem normal_joinReduced (each : ∀ operand ∈ operands, operand.Normal) :
    (joinReduced kind operands).Normal := by
  rcases joinReduced_cases kind operands with absorbed | ⟨kept, rfl, consistent, shape⟩
  · rw [absorbed]
    exact normal_constant _
  · have left : ∀ part ∈ distinct (varying kind operands), part.Normal ∧ part.Stays kind :=
      fun part inside => normal_of_mem_varying each part (mem_of_mem_distinct inside)
    rcases shape with ⟨-, joined⟩ | ⟨single, alone, joined⟩ | ⟨several, joined⟩ <;> rw [joined]
    · exact normal_constant _
    · exact (left single (alone ▸ List.mem_singleton_self single)).1
    · refine normal_junction_iff.mpr ⟨not_reducible_junction_iff.mpr ⟨several, ?_, ?_, consistent⟩,
        fun part inside => (left part inside).1⟩
      · exact fun part inside => (left part inside).2
      · exact pairwise_distinct _

theorem joinReduced_of_normal (normal : Normal (.junction kind operands)) :
    joinReduced kind operands = .junction kind operands := by
  obtain ⟨several, stay, apart, consistent⟩ :=
    not_reducible_junction_iff.mp (normal_junction_iff.mp normal).1
  rw [joinReduced_eq, absorbed_of_stays stay, varying_of_stays stay, distinct_of_pairwise apart,
    consistent]
  match operands, several with
  | _ :: _ :: _, _ => rfl

end Junctions

section Others

variable {operand : Predicate} {head : Option Predicate} {link : Edge} {relation : ReverseEdge}

theorem normal_negateReduced (normal : operand.Normal) : (negateReduced operand).Normal := by
  cases operand with
  | constant value => exact normal_constant _
  | negation inner => exact (normal_negation_iff.mp normal).2
  | _ => exact normal_negation_iff.mpr ⟨nofun, normal⟩

theorem negateReduced_of_normal (normal : Normal (.negation operand)) :
    negateReduced operand = .negation operand := by
  have irreducible := (normal_negation_iff.mp normal).1
  cases operand with
  | constant value => exact absurd .negatedConstant irreducible
  | negation inner => exact absurd .negatedNegation irreducible
  | _ => rfl

theorem normal_leaf_iff {field : Leaf} {operator : LeafOperator} {value : Value} :
    Normal (.leaf field operator value) ↔ ∀ items, value = .list items →
      operator = .among ∨ operator = .notAmong → 2 ≤ items.length := by
  unfold Normal parts
  rw [List.forall_mem_singleton]
  constructor
  · rintro irreducible items rfl listed
    exact Nat.le_of_not_lt fun short => irreducible (.fewItems listed short)
  · rintro several (_ | _)
    rename_i items short listed
    exact Nat.not_lt.mpr (several items rfl listed) short

theorem normal_reduceLeaf (field : Leaf) (operator : LeafOperator) (value : Value) :
    (reduceLeaf field operator value).Normal := by
  unfold reduceLeaf
  split
  · exact normal_constant false
  · exact normal_constant true
  · exact normal_leaf_iff.mpr fun _ _ listed => absurd listed (by simp)
  · exact normal_leaf_iff.mpr fun _ _ listed => absurd listed (by simp)
  · rename_i none none' single single'
    refine normal_leaf_iff.mpr fun items list listed => ?_
    subst list
    match items with
    | [] => rcases listed with rfl | rfl <;> simp at none none'
    | [item] => rcases listed with rfl | rfl <;> simp at single single'
    | _ :: _ :: _ => simp

theorem reduceLeaf_of_normal {field : Leaf} {operator : LeafOperator} {value : Value}
    (normal : Normal (.leaf field operator value)) :
    reduceLeaf field operator value = .leaf field operator value := by
  have several := normal_leaf_iff.mp normal
  unfold reduceLeaf
  split
  · exact absurd (several [] rfl (Or.inl rfl)) (by simp)
  · exact absurd (several [] rfl (Or.inr rfl)) (by simp)
  · exact absurd (several [_] rfl (Or.inl rfl)) (by simp)
  · exact absurd (several [_] rfl (Or.inr rfl)) (by simp)
  · rfl

theorem normal_count_iff {comparison : Comparison} {number : Nat} :
    Normal (.count relation comparison number) ↔
      (comparison = .ge ∨ comparison = .lt → number ≠ 0) := by
  unfold Normal parts
  rw [List.forall_mem_singleton]
  constructor
  · rintro irreducible settled rfl
    exact irreducible (.decidedCount settled)
  · rintro some (_ | _)
    rename_i settled
    exact some settled rfl

theorem normal_reduceCount (relation : ReverseEdge) (comparison : Comparison) (number : Nat) :
    (reduceCount relation comparison number).Normal := by
  unfold reduceCount
  split
  · exact normal_constant true
  · exact normal_constant false
  · refine normal_count_iff.mpr ?_
    rintro (rfl | rfl) rfl <;> simp_all

theorem reduceCount_of_normal {comparison : Comparison} {number : Nat}
    (normal : Normal (.count relation comparison number)) :
    reduceCount relation comparison number = .count relation comparison number := by
  have some := normal_count_iff.mp normal
  unfold reduceCount
  split
  · exact absurd rfl (some (Or.inl rfl))
  · exact absurd rfl (some (Or.inr rfl))
  · rfl

/-- A relation to a reduced head is what is left of it without the head, or fails, or keeps a head
that varies. -/
theorem relateReduced_cases (relate : Option Predicate → Predicate) (bare : Predicate)
    (head : Option Predicate) :
    relateReduced relate bare head = bare ∨ relateReduced relate bare head = .constant false ∨
      ∃ inner, head = some inner ∧ (∀ value, inner ≠ .constant value) ∧
        relateReduced relate bare head = relate (some inner) := by
  match head with
  | none => exact Or.inl rfl
  | some (.constant true) => exact Or.inl rfl
  | some (.constant false) => exact Or.inr (Or.inl rfl)
  | some (.junction ..) | some (.negation ..) | some (.leaf ..) | some (.edge ..)
  | some (.reverse ..) | some (.count ..) | some (.raw ..) =>
    exact Or.inr (Or.inr ⟨_, rfl, nofun, rfl⟩)

theorem relateReduced_of_varies {relate : Option Predicate → Predicate} {bare inner : Predicate}
    (varies : ∀ value, inner ≠ .constant value) :
    relateReduced relate bare (some inner) = relate (some inner) := by
  cases inner with
  | constant value => exact absurd rfl (varies value)
  | _ => rfl

theorem normal_reducedEdge (normal : ∀ inner, head = some inner → inner.Normal) :
    (relateReduced (.edge link) (if link.nullable then .edge link none else .constant true)
      head).Normal := by
  rcases relateReduced_cases (.edge link)
    (if link.nullable then .edge link none else .constant true) head with
    bare | never | ⟨inner, rfl, varies, related⟩
  · rw [bare]
    by_cases nullable : link.nullable = true
    · rw [if_pos nullable]
      refine normal_edge_iff.mpr ⟨?_, nofun⟩
      rintro (_ | _)
      simp_all
    · rw [if_neg nullable]
      exact normal_constant true
  · rw [never]
    exact normal_constant false
  · rw [related]
    refine normal_edge_iff.mpr ⟨?_, normal⟩
    rintro (_ | _)
    exact varies _ rfl

theorem normal_reducedReverse (normal : ∀ inner, head = some inner → inner.Normal) :
    (relateReduced (.reverse relation) (.reverse relation none) head).Normal := by
  rcases relateReduced_cases (.reverse relation) (.reverse relation none) head with
    bare | never | ⟨inner, rfl, varies, related⟩
  · rw [bare]
    exact normal_reverse_iff.mpr ⟨nofun, nofun⟩
  · rw [never]
    exact normal_constant false
  · rw [related]
    refine normal_reverse_iff.mpr ⟨?_, normal⟩
    rintro (_ | _)
    exact varies _ rfl

end Others

/-- Reduction leaves nothing that it could settle. -/
theorem normal_reduced (predicate : Predicate) : predicate.reduced.Normal := by
  induction predicate with
  | constant value => exact normal_constant value
  | junction kind operands ih =>
    rw [reduced, reducedAll_eq_map]
    refine normal_joinReduced fun operand inside => ?_
    obtain ⟨origin, member, rfl⟩ := List.mem_map.mp inside
    exact ih origin member
  | negation operand ih =>
    rw [reduced]
    exact normal_negateReduced ih
  | leaf field operator value => exact normal_reduceLeaf field operator value
  | edge link head ih =>
    rw [reduced]
    refine normal_reducedEdge fun inner same => ?_
    cases head with
    | none => cases same
    | some head => cases same; exact ih head rfl
  | reverse relation head ih =>
    rw [reduced]
    refine normal_reducedReverse fun inner same => ?_
    cases head with
    | none => cases same
    | some head => cases same; exact ih head rfl
  | count relation comparison number => exact normal_reduceCount relation comparison number
  | raw sql =>
    intro part inside reducible
    rw [List.mem_singleton.mp inside] at reducible
    cases reducible

/-- A predicate in normal form is its own reduction. -/
theorem reduced_of_normal {predicate : Predicate} (normal : predicate.Normal) :
    predicate.reduced = predicate := by
  induction predicate with
  | constant value => rfl
  | junction kind operands ih =>
    have each := (normal_junction_iff.mp normal).2
    have fixed : operands.map reduced = operands := by
      conv_rhs => rw [← List.map_id operands]
      exact List.map_congr_left fun operand inside => ih operand inside (each operand inside)
    rw [reduced, reducedAll_eq_map, fixed]
    exact joinReduced_of_normal normal
  | negation operand ih =>
    rw [reduced, ih (normal_negation_iff.mp normal).2]
    exact negateReduced_of_normal normal
  | leaf field operator value => exact reduceLeaf_of_normal normal
  | edge link head ih =>
    obtain ⟨irreducible, below⟩ := normal_edge_iff.mp normal
    cases head with
    | none =>
      have nullable : link.nullable = true :=
        Bool.of_not_eq_false fun required => irreducible (.requiredEdge required)
      simp only [reduced, reducedHead, relateReduced, nullable, ↓reduceIte]
    | some inner =>
      rw [reduced, reducedHead, ih inner rfl (below inner rfl)]
      refine relateReduced_of_varies ?_
      rintro value rfl
      exact irreducible .decidedEdge
  | reverse relation head ih =>
    obtain ⟨irreducible, below⟩ := normal_reverse_iff.mp normal
    cases head with
    | none => rfl
    | some inner =>
      rw [reduced, reducedHead, ih inner rfl (below inner rfl)]
      refine relateReduced_of_varies ?_
      rintro value rfl
      exact irreducible .decidedReverse
  | count relation comparison number => exact reduceCount_of_normal normal
  | raw sql => rfl

end Predicate

end LiveQuery
