import LiveQuery.Proofs.Filter.Evaluation

set_option autoImplicit false

namespace LiveQuery

theorem Junction.eq_unit_or (kind : Junction) (value : Bool) :
    value = kind.unit ∨ value = !kind.unit := by
  cases kind <;> cases value <;> simp [unit]

namespace Predicate

mutual

/-- Every edge that the predicate reads is set in the record if it must be, at any depth. -/
def Respects : Predicate → Record → Prop
  | .junction _ operands, record => RespectsAll operands record
  | .negation operand, record => Respects operand record
  | .edge link head, record =>
    (link.nullable = false → record.get? link.name ≠ some .null) ∧
      ∀ inner, record.get? link.name = some (.record inner) → RespectsHead head inner
  | .reverse relation head, record =>
    ∀ value, record.get? relation.name = some value →
      ∀ inner, HoldsHead value inner → RespectsHead head inner
  | _, _ => True

def RespectsAll : List Predicate → Record → Prop
  | [], _ => True
  | operand :: rest, record => Respects operand record ∧ RespectsAll rest record

def RespectsHead : Option Predicate → Record → Prop
  | none, _ => True
  | some head, record => Respects head record

end

theorem respectsAll_iff {operands : List Predicate} {record : Record} :
    RespectsAll operands record ↔ ∀ operand ∈ operands, Respects operand record := by
  induction operands with
  | nil => simp [RespectsAll]
  | cons operand rest ih => rw [RespectsAll, ih, List.forall_mem_cons]

theorem reducedAll_eq_map (operands : List Predicate) :
    reducedAll operands = operands.map reduced := by
  induction operands with
  | nil => rfl
  | cons operand rest ih => rw [reducedAll, ih, List.map_cons]

section Junctions

variable {node : String} {kind : Junction} {record : Record} {value : Bool}

theorem eq_constant_of_beq {operand : Predicate} {settled : Bool}
    (equal : (operand == .constant settled) = true) : operand = .constant settled := by
  have same : same operand (.constant settled) = true := equal
  cases operand with
  | constant => simpa [Predicate.same] using same
  | _ => cases same

theorem evaluateAll_flatMap_spread (operands : List Predicate) :
    evaluateAll node kind (operands.flatMap (spread kind)) record =
      evaluateAll node kind operands record := by
  induction operands with
  | nil => rfl
  | cons operand rest ih =>
    have alone : evaluateAll node kind (spread kind operand) record =
        evaluate node operand record := by
      have single : evaluateAll node kind [operand] record = evaluate node operand record := by
        rw [evaluateAll_cons]
        cases evaluate node operand record with
        | error => rfl
        | ok settled => by_cases open_ : settled = kind.unit <;> simp [evaluateAll, open_]
      cases operand with
      | junction inner operands =>
        by_cases nested : inner = kind
        · subst nested
          simp only [spread, ↓reduceIte, evaluate_junction]
        · simpa only [spread, nested, ↓reduceIte] using single
      | _ => exact single
    rw [List.flatMap_cons, evaluateAll_append, ih, alone, evaluateAll_cons]

theorem evaluateAll_map {change : Predicate → Predicate} {operands : List Predicate}
    (evaluated : evaluateAll node kind operands record = .ok value)
    (each : ∀ operand ∈ operands, ∀ answer, evaluate node operand record = .ok answer →
      evaluate node (change operand) record = .ok answer) :
    evaluateAll node kind (operands.map change) record = .ok value := by
  induction operands with
  | nil => exact evaluated
  | cons operand rest ih =>
    rw [evaluateAll_cons] at evaluated
    obtain ⟨first, known, behind⟩ := Outcome.bind_eq_ok.mp evaluated
    rw [List.map_cons, evaluateAll_cons, each operand (by simp) first known, Outcome.ok_bind]
    by_cases open_ : first = kind.unit
    · rw [if_pos open_] at behind ⊢
      exact ih behind fun other member => each other (by simp [member])
    · rwa [if_neg open_] at behind ⊢

theorem evaluateAll_of_absorbing {operands : List Predicate}
    (evaluated : evaluateAll node kind operands record = .ok value)
    (absorbed : operands.any (· == .constant (!kind.unit)) = true) : value = !kind.unit := by
  obtain ⟨operand, inside, equal⟩ := List.any_eq_true.mp absorbed
  have absorbing := eq_constant_of_beq equal
  subst absorbing
  rcases kind.eq_unit_or value with rfl | settled
  · have each := evaluateAll_eq_unit_iff.mp evaluated _ inside
    simp [evaluate] at each
  · exact settled

theorem evaluateAll_filter_constant {operands : List Predicate}
    (neutral : ¬operands.any (· == .constant (!kind.unit)) = true) :
    evaluateAll node kind (operands.filter (!·.isConstant)) record =
      evaluateAll node kind operands record := by
  induction operands with
  | nil => rfl
  | cons operand rest ih =>
    simp only [List.any_cons, Bool.or_eq_true, not_or] at neutral
    have behind := ih neutral.2
    cases operand with
    | constant settled =>
      have unit : settled = kind.unit := by
        rcases kind.eq_unit_or settled with unit | absorbing
        · exact unit
        · exact absurd (by rw [absorbing]; exact decide_eq_true rfl) neutral.1
      rw [List.filter_cons_of_neg (by simp [isConstant]), behind, evaluateAll_cons, evaluate,
        Outcome.ok_bind, if_pos unit]
    | _ => rw [List.filter_cons_of_pos rfl, evaluateAll_cons, evaluateAll_cons, behind]

theorem member_iff {operand : Predicate} {operands : List Predicate} :
    member operand operands = true ↔ ∃ other ∈ operands, same other operand = true :=
  List.any_eq_true

theorem evaluateAll_skip {kept rest : List Predicate} {operand : Predicate}
    (known : member operand kept = true) :
    evaluateAll node kind (kept ++ operand :: rest) record =
      evaluateAll node kind (kept ++ rest) record := by
  rw [evaluateAll_append, evaluateAll_append]
  cases front : evaluateAll node kind kept record with
  | error => rfl
  | ok settled =>
    by_cases open_ : settled = kind.unit
    · subst open_
      obtain ⟨other, inside, equal⟩ := member_iff.mp known
      have unit := evaluateAll_eq_unit_iff.mp front other inside
      rw [evaluate_of_same equal] at unit
      rw [Outcome.ok_bind, Outcome.ok_bind, if_pos rfl, if_pos rfl, evaluateAll_cons, unit,
        Outcome.ok_bind, if_pos rfl]
    · rw [Outcome.ok_bind, Outcome.ok_bind, if_neg open_, if_neg open_]

theorem evaluateAll_distinct (operands : List Predicate) :
    evaluateAll node kind (distinct operands) record =
      evaluateAll node kind operands record := by
  suffices ∀ kept, evaluateAll node kind (operands.foldl (fun kept operand =>
      if member operand kept then kept else kept ++ [operand]) kept) record =
      evaluateAll node kind (kept ++ operands) record from this []
  induction operands with
  | nil => simp
  | cons operand rest ih =>
    intro kept
    rw [List.foldl_cons, ih]
    by_cases known : member operand kept = true
    · rw [if_pos known, evaluateAll_skip known]
    · rw [if_neg known, List.append_assoc, List.singleton_append]

theorem evaluateAll_of_contradicts {operands : List Predicate}
    (evaluated : evaluateAll node kind operands record = .ok value)
    (contradiction : contradicts operands = true) : value = !kind.unit := by
  rcases kind.eq_unit_or value with rfl | settled
  · have each := evaluateAll_eq_unit_iff.mp evaluated
    obtain ⟨operand, inside, negated⟩ := List.any_eq_true.mp contradiction
    cases operand with
    | negation inner =>
      obtain ⟨other, inside', equal⟩ := member_iff.mp negated
      have unit := each _ inside'
      have negation := each _ inside
      rw [evaluate_of_same equal] at unit
      rw [evaluate, unit] at negation
      simp at negation
    | _ => cases negated
  · exact settled

theorem evaluate_joinReduced {operands : List Predicate}
    (evaluated : evaluateAll node kind operands record = .ok value) :
    evaluate node (joinReduced kind operands) record = .ok value := by
  -- each of the steps that joining takes keeps the value: flattening, leaving out constants and
  -- repetitions, and deciding contradictions
  unfold joinReduced
  rw [← evaluateAll_flatMap_spread] at evaluated
  generalize operands.flatMap (spread kind) = flat at evaluated
  by_cases absorbed : flat.any (· == .constant (!kind.unit)) = true
  · simp only [absorbed, ↓reduceIte, evaluate, evaluateAll_of_absorbing evaluated absorbed]
  · simp only [absorbed, Bool.false_eq_true, ↓reduceIte]
    rw [← evaluateAll_filter_constant absorbed, ← evaluateAll_distinct] at evaluated
    generalize distinct (flat.filter (!·.isConstant)) = kept at evaluated
    by_cases contradiction : contradicts kept = true
    · simp only [contradiction, ↓reduceIte, evaluate,
        evaluateAll_of_contradicts evaluated contradiction]
    · simp only [contradiction, Bool.false_eq_true, ↓reduceIte]
      cases kept with
      | nil => exact evaluated
      | cons single rest =>
        cases rest with
        | cons => exact evaluated
        | nil =>
          rw [evaluateAll_cons] at evaluated
          obtain ⟨first, known, behind⟩ := Outcome.bind_eq_ok.mp evaluated
          rw [known]
          by_cases open_ : first = kind.unit
          · rw [if_pos open_] at behind
            rw [open_]
            exact behind
          · rwa [if_neg open_] at behind

end Junctions

section Relations

variable {node : String} {record : Record} {value : Bool}

theorem require_eq_ok {key : String} {related : Value} :
    record.require node key = .ok related ↔ record.get? key = some related := by
  unfold Record.require
  cases record.get? key <;> simp

theorem evaluate_edge_eq_ok {link : Edge} {head : Option Predicate} :
    evaluate node (.edge link head) record = .ok value ↔
      ∃ related, record.get? link.name = some related ∧
        testHead node link.name (evaluateHead link.head head) related = .ok value := by
  rw [evaluate, Outcome.bind_eq_ok]
  simp only [require_eq_ok]

theorem evaluate_reverse_eq_ok {relation : ReverseEdge} {head : Option Predicate} :
    evaluate node (.reverse relation head) record = .ok value ↔
      ∃ related, record.get? relation.name = some related ∧
        testRelation node relation (evaluateHead relation.head head) related = .ok value := by
  rw [evaluate, Outcome.bind_eq_ok]
  simp only [require_eq_ok]

theorem evaluate_bare_edge {link : Edge}
    (evaluated : evaluate node (.edge link none) record = .ok value)
    (required : link.nullable = false → record.get? link.name ≠ some .null) :
    evaluate node (if link.nullable then .edge link none else .constant true) record =
      .ok value := by
  by_cases nullable : link.nullable = true
  · rwa [if_pos nullable]
  · obtain ⟨related, found, tested⟩ := evaluate_edge_eq_ok.mp evaluated
    have set := required (by simpa using nullable)
    rw [if_neg nullable]
    cases related with
    | null => exact absurd found set
    | record head => exact tested
    | _ => cases tested

theorem evaluate_reduced_edge {link : Edge} {head : Option Predicate}
    (evaluated : evaluate node (.edge link head) record = .ok value)
    (required : link.nullable = false → record.get? link.name ≠ some .null) :
    evaluate node (relateReduced (.edge link)
      (if link.nullable then .edge link none else .constant true) head) record = .ok value := by
  match head with
  | none => exact evaluate_bare_edge evaluated required
  | some (.constant true) => exact evaluate_bare_edge evaluated required
  | some (.constant false) =>
    obtain ⟨related, found, tested⟩ := evaluate_edge_eq_ok.mp evaluated
    cases related <;> cases tested <;> rfl
  | some (.junction ..) | some (.negation ..) | some (.leaf ..) | some (.edge ..)
  | some (.reverse ..) | some (.count ..) | some (.raw ..) => exact evaluated

theorem evaluate_reduced_reverse {relation : ReverseEdge} {head : Option Predicate}
    (evaluated : evaluate node (.reverse relation head) record = .ok value) :
    evaluate node (relateReduced (.reverse relation) (.reverse relation none) head) record =
      .ok value := by
  match head with
  | none | some (.constant true) => exact evaluated
  | some (.constant false) =>
    obtain ⟨related, found, tested⟩ := evaluate_reverse_eq_ok.mp evaluated
    have never : value = false :=
      testRelation_eq_false tested fun _ _ impossible => by cases impossible
    rw [never]
    rfl
  | some (.junction ..) | some (.negation ..) | some (.leaf ..) | some (.edge ..)
  | some (.reverse ..) | some (.count ..) | some (.raw ..) => exact evaluated

theorem evaluate_negateReduced {operand : Predicate}
    (evaluated : evaluate node (.negation operand) record = .ok value) :
    evaluate node (negateReduced operand) record = .ok value := by
  cases operand with
  | negation inner =>
    simp only [evaluate] at evaluated
    cases known : evaluate node inner record <;> simp_all [negateReduced]
  | constant | _ => exact evaluated

theorem evaluate_reduceLeaf {field : Leaf} {operator : LeafOperator} {expected : Value}
    (evaluated : evaluate node (.leaf field operator expected) record = .ok value) :
    evaluate node (reduceLeaf field operator expected) record = .ok value := by
  simp only [evaluate] at evaluated
  obtain ⟨found, required, tested⟩ := Outcome.bind_eq_ok.mp evaluated
  have settled : operator.holds found expected = value := Except.ok.inj tested
  subst settled
  unfold reduceLeaf
  split
  · rfl
  · rfl
  · simp [evaluate, required, LeafOperator.holds, LeafOperator.listHas, Value.looselyEqual_comm]
  · simp [evaluate, required, LeafOperator.holds, LeafOperator.listHas, Value.looselyEqual_comm]
  · simp [evaluate, required]

theorem evaluate_reduceCount {relation : ReverseEdge} {comparison : Comparison} {number : Nat}
    (evaluated : evaluate node (.count relation comparison number) record = .ok value) :
    evaluate node (reduceCount relation comparison number) record = .ok value := by
  obtain ⟨heads, counted, compared⟩ := Outcome.bind_eq_ok.mp evaluated
  have settled : comparison.holds (compare heads number) = value := Except.ok.inj compared
  subst settled
  unfold reduceCount
  split
  · have order : (compare heads 0).isGE = true := by
      cases heads <;> rfl
    simp only [evaluate, Comparison.holds, order]
  · have order : (compare heads 0).isLT = false := by
      cases heads <;> rfl
    simp only [evaluate, Comparison.holds, order]
  · exact evaluated

end Relations

/-- Whatever a predicate evaluates to on a record, so does its reduction. -/
theorem evaluate_reduced {predicate : Predicate} {node : String} {record : Record} {value : Bool}
    (evaluated : evaluate node predicate record = .ok value)
    (respected : predicate.Respects record) :
    evaluate node predicate.reduced record = .ok value := by
  induction predicate generalizing node record value with
  | constant => exact evaluated
  | junction kind operands ih =>
    rw [reduced, reducedAll_eq_map]
    exact evaluate_joinReduced (evaluateAll_map evaluated fun operand inside answer known =>
      ih operand inside known (respectsAll_iff.mp respected operand inside))
  | negation operand ih =>
    rw [reduced]
    refine evaluate_negateReduced ?_
    obtain ⟨inner, known, negated⟩ := Outcome.bind_eq_ok.mp evaluated
    rw [evaluate, ih known respected]
    exact negated
  | leaf => exact evaluate_reduceLeaf evaluated
  | edge link head ih =>
    rw [reduced]
    refine evaluate_reduced_edge ?_ respected.1
    obtain ⟨related, found, tested⟩ := evaluate_edge_eq_ok.mp evaluated
    refine evaluate_edge_eq_ok.mpr ⟨related, found, testHead_mono tested ?_⟩
    intro inner answer same known
    cases head with
    | none => exact known
    | some head => exact ih head rfl known (respected.2 inner (by rw [found, same]))
  | reverse relation head ih =>
    rw [reduced]
    refine evaluate_reduced_reverse ?_
    obtain ⟨related, found, tested⟩ := evaluate_reverse_eq_ok.mp evaluated
    refine evaluate_reverse_eq_ok.mpr ⟨related, found, testRelation_mono tested ?_⟩
    intro inner answer held known
    cases head with
    | none => exact known
    | some head => exact ih head rfl known (respected related found inner held)
  | count relation comparison number => exact evaluate_reduceCount evaluated
  | raw => exact evaluated

theorem mem_of_mem_distinct {operand : Predicate} {operands : List Predicate}
    (inside : operand ∈ distinct operands) : operand ∈ operands := by
  suffices ∀ kept, operand ∈ operands.foldl (fun kept operand =>
      if member operand kept then kept else kept ++ [operand]) kept →
      operand ∈ kept ∨ operand ∈ operands by
    simpa using this [] inside
  clear inside
  induction operands with
  | nil => exact fun kept inside => Or.inl inside
  | cons first rest ih =>
    intro kept inside
    rcases ih _ inside with early | late
    · by_cases known : member first kept = true
      · simp only [known, ↓reduceIte] at early
        exact Or.inl early
      · simp only [known, Bool.false_eq_true, ↓reduceIte, List.mem_append,
          List.mem_singleton] at early
        rcases early with early | same
        · exact Or.inl early
        · exact Or.inr (by simp [same])
    · exact Or.inr (List.mem_cons_of_mem _ late)

/-- Joining comes to the absorbing constant, or to what is left of the operands. -/
theorem joinReduced_cases (kind : Junction) (operands : List Predicate) :
    joinReduced kind operands = .constant (!kind.unit) ∨
      ∃ kept, kept = distinct ((operands.flatMap (spread kind)).filter (!·.isConstant)) ∧
        contradicts kept = false ∧
          (kept = [] ∧ joinReduced kind operands = .constant kind.unit ∨
            (∃ single, kept = [single] ∧ joinReduced kind operands = single) ∨
              2 ≤ kept.length ∧ joinReduced kind operands = .junction kind kept) := by
  unfold joinReduced
  generalize operands.flatMap (spread kind) = flat
  by_cases absorbed : flat.any (· == .constant (!kind.unit)) = true
  · exact Or.inl (by simp only [absorbed, ↓reduceIte])
  · simp only [absorbed, Bool.false_eq_true, ↓reduceIte]
    generalize distinct (flat.filter (!·.isConstant)) = kept
    by_cases contradiction : contradicts kept = true
    · exact Or.inl (by simp only [contradiction, ↓reduceIte])
    · simp only [contradiction, Bool.false_eq_true, ↓reduceIte]
      refine Or.inr ⟨kept, rfl, Bool.eq_false_iff.mpr contradiction, ?_⟩
      match kept with
      | [] => exact Or.inl ⟨rfl, rfl⟩
      | [single] => exact Or.inr (Or.inl ⟨single, rfl, rfl⟩)
      | _ :: _ :: _ => exact Or.inr (Or.inr ⟨by simp, rfl⟩)

/-- Joining in normal form keeps what holds of a junction exactly if it holds of its operands. -/
theorem joinReduced_of_forall {P : Predicate → Prop} (constant : ∀ value, P (.constant value))
    (junction : ∀ kind operands, P (.junction kind operands) ↔ ∀ operand ∈ operands, P operand)
    {kind : Junction} {operands : List Predicate} (each : ∀ operand ∈ operands, P operand) :
    P (joinReduced kind operands) := by
  have flat : ∀ operand ∈ operands.flatMap (spread kind), P operand := by
    intro operand inside
    obtain ⟨origin, member, part⟩ := List.mem_flatMap.mp inside
    have whole := each origin member
    cases origin with
    | junction inner nested =>
      by_cases same : inner = kind
      · simp only [spread, same, ↓reduceIte] at part
        exact (junction inner nested).mp whole operand part
      · simp only [spread, same, ↓reduceIte, List.mem_singleton] at part
        exact part ▸ whole
    | _ =>
      simp only [spread, List.mem_singleton] at part
      exact part ▸ whole
  unfold joinReduced
  generalize operands.flatMap (spread kind) = flattened at flat ⊢
  have kept : ∀ operand ∈ distinct (flattened.filter (!·.isConstant)), P operand :=
    fun operand inside => flat operand (List.mem_filter.mp (mem_of_mem_distinct inside)).1
  by_cases absorbed : flattened.any (· == .constant (!kind.unit)) = true
  · simp only [absorbed, ↓reduceIte, constant]
  · simp only [absorbed, Bool.false_eq_true, ↓reduceIte]
    generalize distinct (flattened.filter (!·.isConstant)) = left at kept ⊢
    by_cases contradiction : contradicts left = true
    · simp only [contradiction, ↓reduceIte, constant]
    · simp only [contradiction, Bool.false_eq_true, ↓reduceIte]
      match left with
      | [] => exact constant _
      | [single] => exact kept single (by simp)
      | first :: second :: rest => exact (junction _ _).mpr kept

theorem relateReduced_of {P : Predicate → Prop} {relate : Option Predicate → Predicate}
    {bare : Predicate} {head : Option Predicate} (never : P (.constant false)) (alone : P bare)
    (related : P (relate head)) : P (relateReduced relate bare head) := by
  match head with
  | none => exact alone
  | some (.constant true) => exact alone
  | some (.constant false) => exact never
  | some (.junction ..) | some (.negation ..) | some (.leaf ..) | some (.edge ..)
  | some (.reverse ..) | some (.count ..) | some (.raw ..) => exact related

/-- A head in the place of another, of which it keeps a property, from wherever that is seen. -/
def Replaces {Place : Type} (P : Place → Predicate → Prop) (head head' : Option Predicate) : Prop :=
  ∀ inner', head' = some inner' → ∃ inner, head = some inner ∧
    ∀ place, P place inner → P place inner'

/-- A property of predicates, seen from some place, that connectives hand down to their operands
and that asks nothing of a relation's head but to have it, from the places where it matters. -/
structure Inherited {Place : Type} (P : Place → Predicate → Prop) : Prop where
  constant : ∀ {place} value, P place (.constant value)
  junction : ∀ {place kind operands},
    P place (.junction kind operands) ↔ ∀ operand ∈ operands, P place operand
  negation : ∀ {place operand}, P place (.negation operand) ↔ P place operand
  among : ∀ {place field value}, P place (.leaf field .among (.list [value])) →
    P place (.leaf field (.compared .eq) value)
  notAmong : ∀ {place field value}, P place (.leaf field .notAmong (.list [value])) →
    P place (.leaf field (.compared .ne) value)
  edge : ∀ {place link head head'}, P place (.edge link head) → Replaces P head head' →
    P place (.edge link head')
  reverse : ∀ {place relation head head'}, P place (.reverse relation head) →
    Replaces P head head' → P place (.reverse relation head')

section Inheritance

variable {Place : Type} {P : Place → Predicate → Prop} {head : Option Predicate}

theorem replaces_none : Replaces P head none := by
  intro inner' same
  cases same

theorem replaces_reduced
    (each : ∀ inner, head = some inner → ∀ place, P place inner → P place inner.reduced) :
    Replaces P head (reducedHead head) := by
  cases head with
  | none => exact replaces_none
  | some inner =>
    rintro _ ⟨⟩
    exact ⟨inner, rfl, each inner rfl⟩

/-- Reduction keeps what is inherited. -/
theorem Inherited.reduced (inherited : Inherited P) {predicate : Predicate} (place : Place)
    (held : P place predicate) : P place predicate.reduced := by
  induction predicate generalizing place with
  | constant value => exact held
  | junction kind operands ih =>
    rw [inherited.junction] at held
    rw [Predicate.reduced, reducedAll_eq_map]
    refine joinReduced_of_forall (P := P place) inherited.constant (fun _ _ => inherited.junction)
      fun operand inside => ?_
    obtain ⟨origin, member, rfl⟩ := List.mem_map.mp inside
    exact ih origin member place (held origin member)
  | negation operand ih =>
    have below := ih place (inherited.negation.mp held)
    rw [Predicate.reduced]
    cases shape : operand.reduced with
    | constant => exact inherited.constant _
    | negation inner =>
      rw [shape] at below
      exact inherited.negation.mp below
    | _ =>
      rw [shape] at below
      exact inherited.negation.mpr below
  | leaf field operator value =>
    rw [Predicate.reduced]
    unfold reduceLeaf
    split
    · exact inherited.constant _
    · exact inherited.constant _
    · exact inherited.among held
    · exact inherited.notAmong held
    · exact held
  | edge link head ih =>
    rw [Predicate.reduced]
    refine relateReduced_of (P := P place) (inherited.constant _) ?_
      (inherited.edge held (replaces_reduced ih))
    split
    · exact inherited.edge held replaces_none
    · exact inherited.constant _
  | reverse relation head ih =>
    rw [Predicate.reduced]
    refine relateReduced_of (P := P place) (inherited.constant _) ?_
      (inherited.reverse held (replaces_reduced ih))
    exact inherited.reverse held replaces_none
  | count relation comparison number =>
    rw [Predicate.reduced]
    unfold reduceCount
    split
    · exact inherited.constant _
    · exact inherited.constant _
    · exact held
  | raw sql => exact held

end Inheritance

theorem RespectsHead.replace {head head' : Option Predicate} {record : Record}
    (respected : RespectsHead head record)
    (kept : Replaces (fun record predicate => Respects predicate record) head head') :
    RespectsHead head' record := by
  cases head' with
  | none => trivial
  | some inner' =>
    obtain ⟨inner, rfl, keeps⟩ := kept inner' rfl
    exact keeps record respected

theorem inherited_respects : Inherited fun (record : Record) predicate =>
    Respects predicate record where
  constant _ := trivial
  junction := respectsAll_iff
  negation := Iff.rfl
  among _ := trivial
  notAmong _ := trivial
  edge respected kept := ⟨respected.1, fun inner found => (respected.2 inner found).replace kept⟩
  reverse respected kept := fun value found inner held =>
    (respected value found inner held).replace kept

/-- Reduction reads no edge that the predicate does not read. -/
theorem Respects.reduced {predicate : Predicate} {record : Record}
    (respected : predicate.Respects record) : predicate.reduced.Respects record :=
  inherited_respects.reduced record respected

/-- The predicate evaluates on the record, and reads no edge that is null against the catalog. -/
structure Settled (node : String) (predicate : Predicate) (record : Record) : Prop where
  evaluates : ∃ value, evaluate node predicate record = .ok value
  respected : predicate.Respects record

theorem Settled.reduced {node : String} {predicate : Predicate} {record : Record}
    (settled : Settled node predicate record) : Settled node predicate.reduced record := by
  obtain ⟨value, evaluated⟩ := settled.evaluates
  exact ⟨⟨value, evaluate_reduced evaluated settled.respected⟩, settled.respected.reduced⟩

theorem Settled.evaluate_reduced_eq {node : String} {predicate : Predicate} {record : Record}
    (settled : Settled node predicate record) :
    evaluate node predicate.reduced record = evaluate node predicate record := by
  obtain ⟨value, evaluated⟩ := settled.evaluates
  rw [evaluated, evaluate_reduced evaluated settled.respected]

theorem Settled.junction {node : String} {kind : Junction} {operands : List Predicate}
    {record : Record} (each : ∀ operand ∈ operands, Settled node operand record) :
    Settled node (.junction kind operands) record := by
  refine ⟨?_, respectsAll_iff.mpr fun operand inside => (each operand inside).respected⟩
  have evaluates := fun operand inside => (each operand inside).evaluates
  cases kind with
  | all =>
    obtain ⟨value, evaluated, -⟩ := evaluateAll_all evaluates
    exact ⟨value, evaluated⟩
  | any =>
    obtain ⟨value, evaluated, -⟩ := evaluateAll_any evaluates
    exact ⟨value, evaluated⟩

end Predicate

end LiveQuery
