import LiveQuery.Proofs.Catalog.Consistent
import LiveQuery.Proofs.Filter.Meaning
import LiveQuery.Proofs.Filter.Typed

set_option autoImplicit false

namespace LiveQuery

namespace Predicate

/-- A predicate evaluates on a record, to whether something is the case. -/
def Decides (node : String) (record : Record) (predicate : Predicate) (meaning : Prop) : Prop :=
  ∃ value, predicate.evaluate node record = .ok value ∧ (value = true ↔ meaning)

/-- A junction of predicates evaluates on a record, to whether something is the case. -/
def DecidesAll (node : String) (kind : Junction) (record : Record) (operands : List Predicate)
    (meaning : Prop) : Prop :=
  ∃ value, evaluateAll node kind operands record = .ok value ∧ (value = true ↔ meaning)

section

variable {name : String} {record : Record} {predicate : Predicate} {operands : List Predicate}
  {meaning more : Prop}

theorem Decides.congr (decides : Decides name record predicate meaning) (same : meaning ↔ more) :
    Decides name record predicate more := by
  obtain ⟨value, evaluated, tells⟩ := decides
  exact ⟨value, evaluated, tells.trans same⟩

theorem Decides.negation (decides : Decides name record predicate meaning) :
    Decides name record (.negation predicate) (¬meaning) := by
  obtain ⟨value, evaluated, tells⟩ := decides
  refine ⟨!value, ?_, ?_⟩
  · rw [evaluate, evaluated]
    rfl
  · rw [← tells, Bool.not_eq_true', Bool.not_eq_true]

theorem decidesAll_cons_all (first : Decides name record predicate meaning)
    (rest : DecidesAll name .all record operands more) :
    DecidesAll name .all record (predicate :: operands) (meaning ∧ more) := by
  obtain ⟨value, evaluated, tells⟩ := first
  obtain ⟨others, evaluated', tells'⟩ := rest
  rw [DecidesAll, evaluateAll_cons, evaluated, ← tells, ← tells']
  cases value with
  | true => exact ⟨others, evaluated', by simp⟩
  | false => exact ⟨false, rfl, by simp⟩

theorem decidesAll_cons_any (first : Decides name record predicate meaning)
    (rest : DecidesAll name .any record operands more) :
    DecidesAll name .any record (predicate :: operands) (meaning ∨ more) := by
  obtain ⟨value, evaluated, tells⟩ := first
  obtain ⟨others, evaluated', tells'⟩ := rest
  rw [DecidesAll, evaluateAll_cons, evaluated, ← tells, ← tells']
  cases value with
  | true => exact ⟨true, rfl, by simp⟩
  | false => exact ⟨others, evaluated', by simp⟩

theorem decidesAll_singleton {kind : Junction} (decides : Decides name record predicate meaning) :
    DecidesAll name kind record [predicate] meaning := by
  obtain ⟨value, evaluated, tells⟩ := decides
  refine ⟨value, ?_, tells⟩
  rw [evaluateAll_cons, evaluated]
  cases kind <;> cases value <;> rfl

theorem decides_leaf {field : Leaf} {operator : LeafOperator} {stored given : Value}
    (known : record.get? field.name = some stored) :
    Decides name record (.leaf field operator given) (operator.Passes stored given) := by
  refine ⟨operator.holds stored given, ?_, LeafOperator.holds_iff⟩
  rw [evaluate, require_eq_ok.mpr known]
  rfl

end

section Relations

open WhereInput (Listed HoldsOne AsksHead)

variable {catalog : Catalog} {below : Node → Record → Prop} {owner : String} {record : Record}
  {relation : ReverseEdge} {heads : List Record} {predicate condition : Predicate}
  {meets : Record → Prop}

/-- A predicate that looks for the head of a relation to at most one. -/
def LooksFor (owner : String) (record : Record) (name headName : String) (head : Option Predicate)
    (predicate : Predicate) : Prop :=
  predicate.evaluate owner record =
    record.require owner name >>= testHead owner name (evaluateHead headName head)

theorem looksFor_edge (link : Edge) (head : Option Predicate) :
    LooksFor owner record link.name link.head head (.edge link head) := rfl

theorem looksFor_unique (single : relation.multiplicity = .unique) (head : Option Predicate) :
    LooksFor owner record relation.name relation.head head (.reverse relation head) := by
  rw [LooksFor, evaluate]
  refine congrArg (record.require owner relation.name >>= ·) (funext fun value => ?_)
  unfold testRelation
  simp only [single]

theorem LooksFor.decides {name headName : String} {node : Node} {value : Json}
    {meets : Node → Record → Prop}
    (looks : LooksFor owner record name headName (some condition) predicate)
    (holds : HoldsOne catalog below record name headName)
    (looked : catalog.node? headName = some node) (set : ¬value.isNull = true)
    (each : ∀ head, below node head → Decides headName head condition (meets node head)) :
    Decides owner record predicate (AsksHead catalog record name headName value meets) := by
  rw [Decides, looks, AsksHead, if_neg set]
  rcases holds with null | ⟨head, known, populated⟩
  · rw [require_eq_ok.mpr null]
    exact ⟨false, rfl, by simp [null]⟩
  · obtain ⟨answer, evaluated, tells⟩ := each head (populated node looked)
    rw [require_eq_ok.mpr known]
    exact ⟨answer, evaluated, by simp [known, looked, tells]⟩

theorem LooksFor.decides_null {name headName : String} {value : Json}
    {meets : Node → Record → Prop}
    (looks : LooksFor owner record name headName none predicate)
    (holds : HoldsOne catalog below record name headName) (null : value.isNull = true) :
    Decides owner record (.negation predicate)
      (AsksHead catalog record name headName value meets) := by
  rw [Decides, evaluate, looks, AsksHead, if_pos null]
  rcases holds with none | ⟨head, known, -⟩
  · rw [require_eq_ok.mpr none]
    exact ⟨true, rfl, by simp [none]⟩
  · rw [require_eq_ok.mpr known]
    exact ⟨false, rfl, by simp [known]⟩

open Classical in
theorem decides_some (many : relation.multiplicity = .multiple)
    (listed : Listed record relation heads)
    (each : ∀ head ∈ heads, Decides relation.head head condition (meets head)) :
    Decides owner record (.reverse relation (some condition)) (∃ head ∈ heads, meets head) := by
  have lists : relation.Lists (.list (heads.map .record)) heads := by
    rw [ReverseEdge.Lists, many]
  have tested : List.Forall₂ (fun row head =>
      evaluateHead relation.head (some condition) head = .ok (decide (meets row))) heads heads := by
    refine List.forall₂_same.mpr fun head inside => ?_
    obtain ⟨value, evaluated, tells⟩ := each head inside
    rw [evaluateHead, evaluated, Bool.eq_iff_iff.mpr (tells.trans decide_eq_true_iff.symm)]
  refine ⟨heads.any fun head => decide (meets head), ?_, by simp⟩
  exact evaluate_reverse_eq_ok.mpr ⟨_, listed, lists.testRelation_eq tested⟩

theorem decides_quantify (many : relation.multiplicity = .multiple)
    (listed : Listed record relation heads)
    (each : ∀ head ∈ heads, Decides relation.head head condition (meets head))
    (quantifier : Quantifier) :
    Decides owner record (quantify relation quantifier condition) (quantifier.Over heads meets) := by
  cases quantifier with
  | some => exact decides_some many listed each
  | none => exact (decides_some many listed each).negation
  | every =>
    have failing : Decides owner record (.reverse relation (some (.negation condition)))
        (∃ head ∈ heads, ¬meets head) :=
      decides_some many listed fun head inside => (each head inside).negation
    exact failing.negation.congr (by simp [Quantifier.Over])

theorem decides_count (listed : Listed record relation heads)
    (uncounted : record.get? relation.countKey = none) (comparison : Comparison) (number : Nat) :
    Decides owner record (.count relation comparison number)
      (comparison.Between heads.length number) := by
  refine ⟨comparison.holds (compare heads.length number), ?_, Comparison.holds_iff⟩
  have counted : countOf owner relation record = .ok heads.length := by
    rw [countOf, uncounted]
    simp only [require_eq_ok.mpr listed, Outcome.ok_bind, List.length_map]
    rfl
  rw [evaluate, counted]
  rfl

end Relations

section Entries

open WhereInput

variable {catalog : Catalog} {node : Node} {record : Record} {levels : Nat} {path : String}
  {predicate : Predicate} {value : Json} {meets : Node → Record → Prop} {joins : Junction → Prop}

theorem Decides.negatedIf {link : Edge} (negated : Bool)
    (decides : Decides node.name record predicate
      (AsksHead catalog record link.name link.head value meets)) :
    Decides node.name record (predicate.negatedIf negated)
      (Asks catalog node record value meets joins (.edge link negated)) := by
  cases negated with
  | true => exact decides.negation
  | false => exact decides

theorem decides_of_leaf {field : Leaf} {operator : LeafOperator} {filter : Filter}
    (populated : Populated catalog (Conforms catalog levels) node record)
    (part : node.component? field.name = some (.leaf field))
    (read : Filter.leaf node field.name operator (.ofJson value) = .ok filter) :
    Decides node.name record filter.predicate
      (Asks catalog node record value meets joins (.leaf field operator)) := by
  obtain ⟨_, named, read⟩ := Outcome.bind_eq_ok.mp read
  cases (Node.leaf_of_component? part).symm.trans (SelectionField.lift_eq_ok named)
  obtain ⟨given, operand, same⟩ := Outcome.bind_eq_ok.mp read
  cases same
  obtain ⟨stored, known⟩ := populated.leaf field (Node.mem_of_component? part)
  refine (decides_leaf known).congr ⟨fun passes => ⟨stored, given, known, operand, passes⟩, ?_⟩
  rintro ⟨stored', given', known', operand', passes⟩
  cases known.symm.trans known'
  cases operand.symm.trans operand'
  exact passes

theorem integer_of_count? {number : Nat} (counts : value.count? = some number) :
    value = .integer number := by
  unfold Json.count? at counts
  split at counts
  · rename_i written
    split at counts
    · rename_i ranged
      cases counts
      rw [Int.toNat_of_nonneg ranged.1]
    · cases counts
  · cases counts

theorem decides_of_count {relation : ReverseEdge} {comparison : Comparison}
    (populated : Populated catalog (Conforms catalog levels) node record)
    (part : node.reverseEdge? relation.name = some relation)
    (read : countInput node relation comparison path value = .ok predicate) :
    Decides node.name record predicate
      (Asks catalog node record value meets joins (.count relation comparison)) := by
  unfold countInput at read
  split at read
  · rename_i number counts
    obtain ⟨filter, counted, same⟩ := Outcome.bind_eq_ok.mp read
    cases same
    obtain ⟨_, named, counted⟩ := Outcome.bind_eq_ok.mp counted
    have found : node.reverseEdge relation.name = .ok relation := by rw [Node.reverseEdge, part]
    cases found.symm.trans (SelectionField.lift_eq_ok named)
    split at counted
    · rename_i many
      cases counted
      obtain ⟨uncounted, heads, listed, -⟩ :=
        populated.multiple relation (Catalog.WellFormed.mem_of_reverseEdge? part).1 many
      refine (decides_count listed uncounted comparison number).congr ⟨fun between =>
        ⟨heads, number, listed, integer_of_count? counts, between⟩, ?_⟩
      rintro ⟨heads', number', listed', same, between⟩
      cases listed.unique listed'
      have same := (integer_of_count? counts).symm.trans same
      rw [Json.integer.injEq, Int.natCast_inj] at same
      exact same ▸ between
    · cases counted
  · cases read

/-- The condition of an entry tells what the entry asks if what is read of its value tells whether
the value is met. -/
theorem OfEntry.decides {reading : FilterKey}
    (entry : OfEntry catalog node path value reading predicate)
    (populated : Populated catalog (Conforms catalog levels) node record)
    (part : reading.PartOf node)
    (here : ∀ {condition : Predicate}, parse catalog node path value = .ok condition →
      Decides node.name record condition (Met catalog node record value))
    (joined : ∀ {kind : Junction} {operands : List Predicate},
      parseOperands catalog node path value = .ok operands →
        DecidesAll node.name kind record operands (MetOperands catalog node record kind value))
    (below : ∀ {head : Node} {found : Record} {condition : Predicate},
      Conforms catalog levels head found → parse catalog head path value = .ok condition →
        Decides head.name found condition (Met catalog head found value)) :
    Decides node.name record predicate (Asks catalog node record value
      (fun head found => Met catalog head found value)
      (fun kind => MetOperands catalog node record kind value) reading) := by
  cases entry with
  | junction inner => exact joined inner
  | negation inner => exact (here inner).negation
  | leaf inner => exact decides_of_leaf populated part inner
  | @noEdge link negated null =>
    have holds := populated.edge link (Node.mem_of_component? part)
    exact .negatedIf negated ((looksFor_edge link none).decides_null holds null)
  | @edge link negated head condition set leads inner =>
    have holds := populated.edge link (Node.mem_of_component? part)
    refine .negatedIf negated ((looksFor_edge link _).decides holds leads set ?_)
    exact fun found conforms => Catalog.name_of_node? leads ▸ below conforms inner
  | @noReverse relation null =>
    have inside := (Catalog.WellFormed.mem_of_reverseEdge? part.1).1
    have holds := populated.unique relation inside part.2
    exact (looksFor_unique part.2 none).decides_null holds null
  | @reverse relation head condition set leads inner =>
    have inside := (Catalog.WellFormed.mem_of_reverseEdge? part.1).1
    have holds := populated.unique relation inside part.2
    refine (looksFor_unique part.2 _).decides holds leads set fun found conforms => ?_
    exact Catalog.name_of_node? leads ▸ below conforms inner
  | @quantified relation quantifier head condition leads inner =>
    have inside := (Catalog.WellFormed.mem_of_reverseEdge? part.1).1
    obtain ⟨-, heads, listed, each⟩ := populated.multiple relation inside part.2
    refine (decides_quantify part.2 listed (fun found among => ?_) quantifier).congr
      ⟨fun enough => ⟨head, heads, leads, listed, enough⟩, ?_⟩
    · exact Catalog.name_of_node? leads ▸ below (each head leads found among) inner
    · rintro ⟨head', heads', leads', listed', enough⟩
      cases leads.symm.trans leads'
      cases listed.unique listed'
      exact enough
  | count inner => exact decides_of_count populated part inner

mutual

/-- What is read of an input tells, of every record that is populated as deep as the input goes,
whether it meets the input. -/
theorem decides_of_parse {node : Node} {path : String} {predicate : Predicate} {record : Record}
    {levels : Nat} (conforms : Conforms catalog levels node record) :
    ∀ {input : Json}, depth input ≤ levels → parse catalog node path input = .ok predicate →
      Decides node.name record predicate (Met catalog node record input)
  | .null, _, read => by
    rw [parse] at read
    cases read
    exact ⟨true, rfl, by simp [Met]⟩
  | .object entries, deep, read => by
    rw [parse] at read
    obtain ⟨operands, below, read⟩ := Outcome.bind_eq_ok.mp read
    cases read
    rw [Met]
    exact decides_of_parseEntries conforms deep below
  | .boolean _, _, read | .integer _, _, read | .float _, _, read | .string _, _, read
  | .array _, _, read => by
    rw [parse] at read
    cases read
    all_goals simp

theorem decides_of_parseEntries {node : Node} {path : String} {operands : List Predicate}
    {record : Record} {levels : Nat} (conforms : Conforms catalog levels node record) :
    ∀ {entries : List (String × Json)}, depthEntries entries + 1 ≤ levels →
      parseEntries catalog node path entries = .ok operands →
        DecidesAll node.name .all record operands (MetEntries catalog node record entries)
  | [], _, read => by
    rw [parseEntries] at read
    cases read
    exact ⟨true, rfl, by simp [MetEntries]⟩
  | (key, value) :: rest, deep, read => by
    rw [depthEntries, Nat.add_one_le_iff, Nat.max_lt] at deep
    obtain ⟨reading, condition, others, resolved, entry, behind, rfl⟩ :=
      ofEntry_of_parseEntries read
    obtain ⟨further, rfl⟩ : ∃ further, levels = further + 1 :=
      Nat.exists_eq_add_one.mpr (Nat.zero_lt_of_lt deep.1)
    have shallow : depth value ≤ further := Nat.le_of_lt_succ deep.1
    have decides := entry.decides conforms (FilterKey.partOf_of_resolve? resolved)
      (fun inner => decides_of_parse conforms deep.1.le inner)
      (fun inner => decides_of_parseOperands conforms deep.1.le inner)
      fun conforms' inner => decides_of_parse conforms' shallow inner
    rw [metEntries_cons (FilterKey.means_of_resolve? resolved)]
    exact decidesAll_cons_all decides (decides_of_parseEntries conforms deep.2 behind)

theorem decides_of_parseOperands {node : Node} {path : String} {operands : List Predicate}
    {record : Record} {levels : Nat} (conforms : Conforms catalog levels node record)
    {kind : Junction} :
    ∀ {input : Json}, depth input ≤ levels →
      parseOperands catalog node path input = .ok operands →
        DecidesAll node.name kind record operands (MetOperands catalog node record kind input)
  | .array items, deep, read => by
    rw [parseOperands] at read
    rw [MetOperands]
    exact decides_of_parseItems conforms deep read
  | .object entries, deep, read => by
    rw [parseOperands] at read
    obtain ⟨conditions, below, read⟩ := Outcome.bind_eq_ok.mp read
    cases read
    rw [MetOperands]
    exact decidesAll_singleton (decides_of_parseEntries conforms deep below)
  | .null, _, read | .boolean _, _, read | .integer _, _, read | .float _, _, read
  | .string _, _, read => by
    rw [parseOperands] at read
    cases read
    all_goals simp

theorem decides_of_parseItems {node : Node} {path : String} {operands : List Predicate}
    {record : Record} {levels : Nat} (conforms : Conforms catalog levels node record)
    {kind : Junction} :
    ∀ {index : Nat} {items : List Json}, depthItems items ≤ levels →
      parseItems catalog node path index items = .ok operands →
        DecidesAll node.name kind record operands (MetItems catalog node record kind items)
  | _, [], _, read => by
    rw [parseItems] at read
    cases read
    exact ⟨kind.unit, rfl, by cases kind <;> simp [MetItems, Junction.unit]⟩
  | _, item :: rest, deep, read => by
    rw [parseItems] at read
    obtain ⟨operand, first, read⟩ := Outcome.bind_eq_ok.mp read
    obtain ⟨others, below, read⟩ := Outcome.bind_eq_ok.mp read
    cases read
    rw [depthItems, Nat.max_le] at deep
    have decides := decides_of_parse conforms deep.1 first
    cases kind with
    | all => exact decidesAll_cons_all decides (decides_of_parseItems conforms deep.2 below)
    | any => exact decidesAll_cons_any decides (decides_of_parseItems conforms deep.2 below)

end

end Entries

end Predicate

end LiveQuery
