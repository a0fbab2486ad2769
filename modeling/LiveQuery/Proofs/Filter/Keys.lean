import LiveQuery.Filter.Input
import LiveQuery.Proofs.Catalog.WellFormed

set_option autoImplicit false

namespace LiveQuery

theorem Text.before?_eq_some_iff {ending text name : String} :
    before? ending text = some name ↔ text = name ++ ending := by
  unfold before?
  simp only [List.isSuffixOf_iff_suffix]
  constructor
  · intro cut
    split at cut
    · rename_i suffix
      obtain ⟨front, same⟩ := suffix
      cases cut
      rw [← String.toList_inj, String.toList_append, String.toList_ofList, ← same,
        List.length_append, ← String.length_toList, Nat.add_sub_cancel, List.take_left]
    · cases cut
  · rintro rfl
    rw [String.toList_append, if_pos (List.suffix_append ..), List.length_append,
      ← String.length_toList, Nat.add_sub_cancel, List.take_left, String.ofList_toList]

namespace FilterKey

/-- A way to read a key on a node: its kind, the length of the ending that it takes off the key, and
what the key stands for then. -/
inductive Reads (node : Node) (key : String) : Nat → Nat → FilterKey → Prop
  | and (word : key = "AND") : Reads node key 0 0 (.junction .all)
  | or (word : key = "OR") : Reads node key 0 0 (.junction .any)
  | not (word : key = "NOT") : Reads node key 0 0 .negation
  | leaf {field : Leaf} (found : node.component? key = some (.leaf field)) :
    Reads node key 1 0 (.leaf field (.compared .eq))
  | edge {link : Edge} (found : node.component? key = some (.edge link)) :
    Reads node key 1 0 (.edge link false)
  | uniqueReverse {relation : ReverseEdge} (found : node.reverseEdge? key = some relation)
    (single : relation.multiplicity = .unique) : Reads node key 2 0 (.uniqueReverse relation)
  | negatedEdge {name : String} {link : Edge} (split : key = name ++ "_not")
    (found : node.component? name = some (.edge link)) : Reads node key 3 0 (.edge link true)
  | quantified {name ending : String} {quantifier : Quantifier} {relation : ReverseEdge}
    (listed : (ending, quantifier) ∈ quantifierEndings) (split : key = name ++ ending)
    (found : node.reverseEdge? name = some relation) (many : relation.multiplicity = .multiple) :
    Reads node key 4 0 (.quantified relation quantifier)
  | count {name ending : String} {comparison : Comparison} {relation : ReverseEdge}
    (listed : (ending, comparison) ∈ countEndings) (split : key = name ++ "Count" ++ ending)
    (found : node.reverseEdge? name = some relation) :
    Reads node key 5 ending.length (.count relation comparison)
  | comparedLeaf {name ending : String} {operator : LeafOperator} {field : Leaf}
    (listed : (ending, operator) ∈ leafEndings) (split : key = name ++ ending)
    (found : node.component? name = some (.leaf field)) :
    Reads node key 6 ending.length (.leaf field operator)

/-- What a key stands for: the reading of the first kind there is, with the longest ending. -/
def Means (node : Node) (key : String) (reading : FilterKey) : Prop :=
  ∃ kind length, Reads node key kind length reading ∧
    ∀ kind' length' other, Reads node key kind' length' other →
      kind < kind' ∨ kind = kind' ∧ length' ≤ length

/-- Components and relations of a node, as a key stands for them. -/
def PartOf (node : Node) : FilterKey → Prop
  | .junction _ | .negation => True
  | .leaf field _ => node.component? field.name = some (.leaf field)
  | .edge link _ => node.component? link.name = some (.edge link)
  | .uniqueReverse relation =>
    node.reverseEdge? relation.name = some relation ∧ relation.multiplicity = .unique
  | .quantified relation _ =>
    node.reverseEdge? relation.name = some relation ∧ relation.multiplicity = .multiple
  | .count relation _ => node.reverseEdge? relation.name = some relation

variable {node : Node} {key : String} {reading : FilterKey}

theorem Reads.partOf {kind length : Nat} (reads : Reads node key kind length reading) :
    reading.PartOf node := by
  have component {name : String} {component : Component}
      (found : node.component? name = some component) :
      node.component? component.name = some component := by
    rwa [Node.name_of_component? found]
  have relation {name : String} {relation : ReverseEdge}
      (found : node.reverseEdge? name = some relation) :
      node.reverseEdge? relation.name = some relation := by
    rwa [show relation.name = name by simpa using List.find?_some found]
  cases reads with
  | and | or | not => trivial
  | leaf found | edge found | negatedEdge _ found | comparedLeaf _ _ found => exact component found
  | uniqueReverse found single => exact ⟨relation found, single⟩
  | quantified _ _ found many => exact ⟨relation found, many⟩
  | count _ _ found => exact relation found

/-- The reading of each kind, in the order of the kinds. -/
def readers (node : Node) (key : String) : List (Option FilterKey) :=
  [junction? key, component? node key, uniqueReverse? node key, negatedEdge? node key,
    quantified? node key, count? node key, comparedLeaf? node key]

theorem resolve?_eq_findSome? : resolve? node key = (readers node key).findSome? id := by
  unfold resolve? readers
  cases junction? key <;> cases component? node key <;> cases uniqueReverse? node key <;>
    cases negatedEdge? node key <;> cases quantified? node key <;> cases count? node key <;>
    cases comparedLeaf? node key <;> rfl

/-- A reading that takes off as long an ending as any of its kind. -/
def Longest (node : Node) (key : String) (kind : Nat) (reading : FilterKey) : Prop :=
  ∃ length, Reads node key kind length reading ∧
    ∀ length' other, Reads node key kind length' other → length' ≤ length

section Endings

variable {α β : Type} {endings : List (String × α)} {read : String × α → Option β} {result : β}

/-- Where longer endings come first, the first one that can be read is the longest. -/
theorem longest_of_findSome? (sorted : endings.Pairwise fun a b => b.1.length ≤ a.1.length)
    (found : endings.findSome? read = some result) :
    ∃ ending ∈ endings, read ending = some result ∧
      ∀ other ∈ endings, (read other).isSome → other.1.length ≤ ending.1.length := by
  induction endings with
  | nil => cases found
  | cons first rest ih =>
    rw [List.pairwise_cons] at sorted
    rw [List.findSome?_cons] at found
    cases here : read first with
    | some value =>
      rw [here] at found
      cases found
      refine ⟨first, List.mem_cons_self .., here, ?_⟩
      intro other inside _
      rcases List.mem_cons.mp inside with rfl | later
      · exact Nat.le_refl _
      · exact sorted.1 other later
    | none =>
      rw [here] at found
      obtain ⟨ending, inside, reads, longest⟩ := ih sorted.2 found
      refine ⟨ending, List.mem_cons_of_mem _ inside, reads, ?_⟩
      intro other member readable
      rcases List.mem_cons.mp member with rfl | later
      · rw [here] at readable
        cases readable
      · exact longest other later readable

theorem isSome_findSome? {ending : String × α} (inside : ending ∈ endings)
    (readable : (read ending).isSome) : (endings.findSome? read).isSome := by
  rw [List.findSome?_isSome_iff]
  exact ⟨ending, inside, readable⟩

end Endings

theorem longest_of_junction? (found : junction? key = some reading) :
    Longest node key 0 reading := by
  have none_longer : ∀ length other, Reads node key 0 length other → length ≤ 0 := by
    intro length other reads
    cases reads <;> exact Nat.le_refl 0
  unfold junction? at found
  split at found
  · cases found
    exact ⟨0, .and rfl, none_longer⟩
  · cases found
    exact ⟨0, .or rfl, none_longer⟩
  · cases found
    exact ⟨0, .not rfl, none_longer⟩
  · cases found

theorem longest_of_component? (found : component? node key = some reading) :
    Longest node key 1 reading := by
  have none_longer : ∀ length other, Reads node key 1 length other → length ≤ 0 := by
    intro length other reads
    cases reads <;> exact Nat.le_refl 0
  unfold component? at found
  split at found
  · rename_i known
    cases found
    exact ⟨0, .leaf known, none_longer⟩
  · rename_i known
    cases found
    exact ⟨0, .edge known, none_longer⟩
  · cases found

theorem longest_of_uniqueReverse? (found : uniqueReverse? node key = some reading) :
    Longest node key 2 reading := by
  unfold uniqueReverse? at found
  obtain ⟨relation, known, found⟩ := Option.bind_eq_some_iff.mp found
  obtain ⟨_, single, found⟩ := Option.bind_eq_some_iff.mp found
  cases found
  refine ⟨0, .uniqueReverse known (by simpa [guard] using single), ?_⟩
  intro length other reads
  cases reads
  exact Nat.le_refl 0

theorem longest_of_negatedEdge? (found : negatedEdge? node key = some reading) :
    Longest node key 3 reading := by
  unfold negatedEdge? at found
  obtain ⟨name, cut, found⟩ := Option.bind_eq_some_iff.mp found
  obtain ⟨component, known, found⟩ := Option.bind_eq_some_iff.mp found
  cases component with
  | leaf => cases found
  | edge link =>
    cases found
    refine ⟨0, .negatedEdge (Text.before?_eq_some_iff.mp cut) known, ?_⟩
    intro length other reads
    cases reads
    exact Nat.le_refl 0

theorem longest_of_quantified? (found : quantified? node key = some reading) :
    Longest node key 4 reading := by
  unfold quantified? at found
  obtain ⟨⟨ending, quantifier⟩, listed, found⟩ := List.exists_of_findSome?_eq_some found
  obtain ⟨name, cut, found⟩ := Option.bind_eq_some_iff.mp found
  obtain ⟨relation, known, found⟩ := Option.bind_eq_some_iff.mp found
  obtain ⟨_, many, found⟩ := Option.bind_eq_some_iff.mp found
  cases found
  refine ⟨0, .quantified listed (Text.before?_eq_some_iff.mp cut) known
    (by simpa [guard] using many), ?_⟩
  intro length other reads
  cases reads
  exact Nat.le_refl 0

theorem cut_count_iff {ending name : String} :
    (Text.before? ending key).bind (Text.before? "Count") = some name ↔
      key = name ++ "Count" ++ ending := by
  rw [Option.bind_eq_some_iff]
  constructor
  · rintro ⟨front, cut, cut'⟩
    rw [Text.before?_eq_some_iff.mp cut, Text.before?_eq_some_iff.mp cut']
  · intro same
    exact ⟨name ++ "Count", Text.before?_eq_some_iff.mpr same, Text.before?_eq_some_iff.mpr rfl⟩

theorem longest_of_count? (found : count? node key = some reading) :
    Longest node key 5 reading := by
  unfold count? at found
  obtain ⟨⟨ending, comparison⟩, listed, found, longest⟩ :=
    longest_of_findSome? (by decide) found
  obtain ⟨front, cut, found⟩ := Option.bind_eq_some_iff.mp found
  obtain ⟨name, cut', found⟩ := Option.bind_eq_some_iff.mp found
  obtain ⟨relation, known, found⟩ := Option.bind_eq_some_iff.mp found
  cases found
  have split : key = name ++ "Count" ++ ending :=
    cut_count_iff.mp (Option.bind_eq_some_iff.mpr ⟨front, cut, cut'⟩)
  refine ⟨ending.length, .count listed split known, ?_⟩
  intro length other reads
  cases reads with
  | @count name' ending' comparison' relation' listed' split' found' =>
    apply longest (ending', comparison') listed'
    have outer := Text.before?_eq_some_iff.mpr split'
    have inner := Text.before?_eq_some_iff.mpr (rfl : name' ++ "Count" = name' ++ "Count")
    simp only [outer, inner, found', Option.bind_eq_bind, Option.bind_some, Option.pure_def,
      Option.isSome_some]

theorem longest_of_comparedLeaf? (found : comparedLeaf? node key = some reading) :
    Longest node key 6 reading := by
  unfold comparedLeaf? at found
  obtain ⟨⟨ending, operator⟩, listed, found, longest⟩ := longest_of_findSome? (by decide) found
  obtain ⟨name, cut, found⟩ := Option.bind_eq_some_iff.mp found
  obtain ⟨component, known, found⟩ := Option.bind_eq_some_iff.mp found
  cases component with
  | edge => cases found
  | leaf field =>
    cases found
    refine ⟨ending.length, .comparedLeaf listed (Text.before?_eq_some_iff.mp cut) known, ?_⟩
    intro length other reads
    cases reads with
    | @comparedLeaf name' ending' operator' field' listed' split' found' =>
      apply longest (ending', operator') listed'
      have outer := Text.before?_eq_some_iff.mpr split'
      simp only [outer, found', Option.bind_eq_bind, Option.bind_some, Option.pure_def,
        Option.isSome_some]

/-- Whatever kind a reading is of, something is read in that way. -/
theorem Reads.exists_reader {kind length : Nat} (reads : Reads node key kind length reading) :
    ∃ other, (readers node key)[kind]? = some (some other) := by
  have readable {reader : Option FilterKey} (set : reader.isSome) :
      ∃ other, some reader = some (some other) := by
    obtain ⟨other, same⟩ := Option.isSome_iff_exists.mp set
    exact ⟨other, congrArg some same⟩
  cases reads with
  | and word | or word | not word => subst word; exact ⟨_, rfl⟩
  | leaf found | edge found =>
    apply readable
    unfold component?
    rw [found]
    rfl
  | uniqueReverse found single =>
    apply readable
    simp [uniqueReverse?, found, single, guard]
  | negatedEdge split found =>
    apply readable
    simp [negatedEdge?, Text.before?_eq_some_iff.mpr split, found]
  | quantified listed split found many =>
    apply readable
    apply isSome_findSome? listed
    simp [Text.before?_eq_some_iff.mpr split, found, many, guard]
  | @count name ending comparison relation listed split found =>
    apply readable
    apply isSome_findSome? listed
    have inner := Text.before?_eq_some_iff.mpr (rfl : name ++ "Count" = name ++ "Count")
    simp [Text.before?_eq_some_iff.mpr split, inner, found]
  | comparedLeaf listed split found =>
    apply readable
    apply isSome_findSome? listed
    simp [Text.before?_eq_some_iff.mpr split, found]

theorem longest_of_reader {kind : Nat}
    (found : (readers node key)[kind]? = some (some reading)) : Longest node key kind reading := by
  match kind with
  | 0 => exact longest_of_junction? (Option.some.inj found)
  | 1 => exact longest_of_component? (Option.some.inj found)
  | 2 => exact longest_of_uniqueReverse? (Option.some.inj found)
  | 3 => exact longest_of_negatedEdge? (Option.some.inj found)
  | 4 => exact longest_of_quantified? (Option.some.inj found)
  | 5 => exact longest_of_count? (Option.some.inj found)
  | 6 => exact longest_of_comparedLeaf? (Option.some.inj found)
  | _ + 7 => cases found

/-- A key that is resolved is taken for what it means. -/
theorem means_of_resolve? (resolved : resolve? node key = some reading) :
    Means node key reading := by
  rw [resolve?_eq_findSome?, List.findSome?_eq_some_iff] at resolved
  obtain ⟨before, _, after, split, same, none_before⟩ := resolved
  cases same
  have here : (readers node key)[before.length]? = some (some reading) := by
    rw [split]
    simp
  obtain ⟨length, reads, longest⟩ := longest_of_reader here
  refine ⟨before.length, length, reads, ?_⟩
  intro kind' length' other reads'
  obtain ⟨found, read⟩ := reads'.exists_reader
  rcases Nat.lt_trichotomy before.length kind' with later | same | earlier
  · exact Or.inl later
  · exact Or.inr ⟨same, longest length' other (same ▸ reads')⟩
  · rw [split, List.getElem?_append_left earlier] at read
    cases none_before _ (List.mem_of_getElem? read)

theorem not_reads_of_resolve? (resolved : resolve? node key = none) {kind length : Nat} :
    ¬Reads node key kind length reading := by
  intro reads
  obtain ⟨other, read⟩ := reads.exists_reader
  rw [resolve?_eq_findSome?, List.findSome?_eq_none_iff] at resolved
  cases resolved _ (List.mem_of_getElem? read)

theorem append_inj_of_length {name name' ending ending' : String}
    (same : name ++ ending = name' ++ ending') (length : ending.length = ending'.length) :
    name = name' ∧ ending = ending' := by
  have lists := congrArg String.toList same
  rw [String.toList_append, String.toList_append] at lists
  obtain ⟨front, back⟩ := List.append_inj' lists (by
    rw [String.length_toList, String.length_toList, length])
  exact ⟨String.toList_inj.mp front, String.toList_inj.mp back⟩

theorem quantifierEnding_unique {name name' ending ending' : String} {a b : Quantifier}
    (listed : (ending, a) ∈ quantifierEndings) (listed' : (ending', b) ∈ quantifierEndings)
    (same : name ++ ending = name' ++ ending') : name = name' ∧ a = b := by
  have apart : ∀ first ∈ quantifierEndings, ∀ second ∈ quantifierEndings,
      first.1.toList <:+ second.1.toList → first = second := by decide
  have lists : name.toList ++ ending.toList = name'.toList ++ ending'.toList := by
    rw [← String.toList_append, same, String.toList_append]
  have together : (ending, a) = (ending', b) := by
    rcases List.suffix_or_suffix_of_suffix ⟨_, lists⟩ (List.suffix_append ..) with
      inside | inside
    · exact apart _ listed _ listed' inside
    · exact (apart _ listed' _ listed inside).symm
  cases together
  exact ⟨(append_inj_of_length same rfl).1, rfl⟩

/-- One kind and one length of the ending leave one reading. -/
theorem Reads.unique {kind length : Nat} {other : FilterKey}
    (reads : Reads node key kind length reading) (reads' : Reads node key kind length other) :
    reading = other := by
  have listed_once {α : Type} {endings : List (String × α)} {ending ending' : String} {a b : α}
      (apart : (endings.map Prod.fst).Nodup) (inside : (ending, a) ∈ endings)
      (inside' : (ending', b) ∈ endings) (same : ending = ending') : a = b :=
    congrArg Prod.snd (List.inj_on_of_nodup_map apart inside inside' same)
  generalize taken : length = length' at reads'
  cases reads with
  | and word | or word | not word =>
    subst word
    cases reads' with
    | and word | or word | not word => first | rfl | exact absurd word (by decide)
  | leaf found | edge found =>
    cases reads' with
    | leaf found' | edge found' => cases found.symm.trans found' <;> rfl
  | uniqueReverse found _ =>
    cases reads' with
    | uniqueReverse found' _ => cases found.symm.trans found'; rfl
  | negatedEdge split found =>
    cases reads' with
    | negatedEdge split' found' =>
      obtain ⟨rfl, -⟩ := append_inj_of_length (split.symm.trans split') rfl
      cases found.symm.trans found'
      rfl
  | quantified listed split found _ =>
    cases reads' with
    | quantified listed' split' found' _ =>
      obtain ⟨rfl, rfl⟩ := quantifierEnding_unique listed listed' (split.symm.trans split')
      cases found.symm.trans found'
      rfl
  | count listed split found =>
    cases reads' with
    | count listed' split' found' =>
      obtain ⟨front, same⟩ := append_inj_of_length (split.symm.trans split') taken
      obtain ⟨rfl, -⟩ := append_inj_of_length front rfl
      cases found.symm.trans found'
      cases listed_once (by decide) listed listed' same
      rfl
  | comparedLeaf listed split found =>
    cases reads' with
    | comparedLeaf listed' split' found' =>
      obtain ⟨rfl, same⟩ := append_inj_of_length (split.symm.trans split') taken
      cases found.symm.trans found'
      cases listed_once (by decide) listed listed' same
      rfl

theorem Means.unique {other : FilterKey} (means : Means node key reading)
    (means' : Means node key other) : reading = other := by
  obtain ⟨kind, length, reads, first⟩ := means
  obtain ⟨kind', length', reads', first'⟩ := means'
  have above := first kind' length' other reads'
  have below := first' kind length reading reads
  obtain rfl : kind = kind' := by omega
  obtain rfl : length = length' := by omega
  exact reads.unique reads'

/-- A key is taken for what it means, and refused if it cannot be read at all. -/
theorem resolve?_eq_some_iff : resolve? node key = some reading ↔ Means node key reading := by
  constructor
  · exact means_of_resolve?
  · intro means
    cases resolved : resolve? node key with
    | none =>
      obtain ⟨_, _, reads, -⟩ := means
      exact absurd reads (not_reads_of_resolve? resolved)
    | some other => rw [means.unique (means_of_resolve? resolved)]

theorem partOf_of_resolve? (resolved : resolve? node key = some reading) :
    reading.PartOf node := by
  obtain ⟨_, _, reads, -⟩ := means_of_resolve? resolved
  exact reads.partOf

end FilterKey

end LiveQuery
