import LiveQuery.Proofs.Dependency.Reading
import LiveQuery.Proofs.Filter.Keys
import LiveQuery.Selection.Input

set_option autoImplicit false

namespace LiveQuery

/-- What a key of a node's records stands for. -/
inductive KeyPart where
  | component (component : Component)
  | relation (relation : ReverseEdge)
  | count (relation : ReverseEdge)
  deriving DecidableEq

def KeyPart.key : KeyPart → String
  | .component part => part.name
  | .relation whole => whole.name
  | .count whole => whole.countKey

namespace Node

/-- The reverse edges that may have many heads, and so a number of them. -/
def manifold (node : Node) : List ReverseEdge :=
  node.reverseEdges.filter (·.multiplicity = .multiple)

/-- All that records of a node have a key for. -/
def parts (node : Node) : List KeyPart :=
  (node.components.map .component ++ node.reverseEdges.map .relation) ++ node.manifold.map .count

/-- No component and no reverse edge has the name. -/
def Undeclared (node : Node) (name : String) : Prop :=
  node.component? name = none ∧ node.reverseEdge? name = none

variable {node : Node}

theorem undeclared_iff {name : String} : node.Undeclared name ↔
    name ∉ node.components.map (·.name) ++ node.reverseEdges.map (·.name) := by
  simp only [Undeclared, component?, reverseEdge?, List.find?_eq_none, List.mem_append,
    List.mem_map, decide_eq_true_eq, not_or, not_exists, not_and]

theorem exists_reverseEdge? {relation : ReverseEdge} (inside : relation ∈ node.reverseEdges) :
    ∃ other, node.reverseEdge? relation.name = some other := by
  rw [← Option.isSome_iff_exists, reverseEdge?, List.find?_isSome]
  exact ⟨relation, inside, by simp⟩

theorem mem_manifold {relation : ReverseEdge} : relation ∈ node.manifold ↔
    relation ∈ node.reverseEdges ∧ relation.multiplicity = .multiple := by
  rw [manifold, List.mem_filter, decide_eq_true_eq]

theorem component_mem_parts {component : Component}
    (known : node.component? component.name = some component) :
    KeyPart.component component ∈ node.parts :=
  List.mem_append_left _ (List.mem_append_left _ (List.mem_map_of_mem (mem_of_component? known)))

theorem relation_mem_parts {relation : ReverseEdge}
    (known : node.reverseEdge? relation.name = some relation) :
    KeyPart.relation relation ∈ node.parts :=
  List.mem_append_left _ (List.mem_append_right _
    (List.mem_map_of_mem (Catalog.WellFormed.mem_of_reverseEdge? known).1))

theorem count_mem_parts {relation : ReverseEdge}
    (known : node.reverseEdge? relation.name = some relation)
    (many : relation.multiplicity = .multiple) : KeyPart.count relation ∈ node.parts :=
  List.mem_append_right _ (List.mem_map_of_mem (mem_manifold.mpr
    ⟨(Catalog.WellFormed.mem_of_reverseEdge? known).1, many⟩))

theorem map_key_parts (node : Node) : node.parts.map KeyPart.key =
    (node.components.map (·.name) ++ node.reverseEdges.map (·.name)) ++
      node.manifold.map (·.countKey) := by
  simp only [parts, List.map_append, List.map_map]
  rfl

theorem countKey_injective {relation other : ReverseEdge}
    (same : relation.countKey = other.countKey) : relation.name = other.name :=
  (FilterKey.append_inj_of_length same rfl).1

/-- The keys of a node are told apart exactly if nothing has the name of a count. -/
theorem nodup_keys_iff (distinct :
      (node.components.map (·.name) ++ node.reverseEdges.map (·.name)).Nodup) :
    (node.parts.map KeyPart.key).Nodup ↔
      ∀ relation ∈ node.manifold, node.Undeclared relation.countKey := by
  have counts : (node.manifold.map (·.countKey)).Nodup := by
    have names := ((List.nodup_append.mp distinct).2.1.sublist (List.filter_sublist.map _) :
      (node.manifold.map (·.name)).Nodup)
    refine List.Nodup.map_on ?_ names.of_map
    intro relation inside other inside' same
    exact List.inj_on_of_nodup_map names inside inside' (countKey_injective same)
  rw [map_key_parts, List.nodup_append]
  constructor
  · rintro ⟨-, -, apart⟩ relation inside
    rw [undeclared_iff]
    exact fun declared => apart _ declared _ (List.mem_map_of_mem inside) rfl
  · refine fun undeclared => ⟨distinct, counts, ?_⟩
    rintro name declared key count rfl
    obtain ⟨relation, inside, rfl⟩ := List.mem_map.mp count
    exact undeclared_iff.mp (undeclared relation inside) declared

/-- Keys are told apart exactly if each of them stands for one thing. -/
theorem nodup_keys_iff_unique (distinct :
      (node.components.map (·.name) ++ node.reverseEdges.map (·.name)).Nodup) :
    (node.parts.map KeyPart.key).Nodup ↔
      ∀ part ∈ node.parts, ∀ other ∈ node.parts, part.key = other.key → part = other := by
  constructor
  · exact fun apart part inside other inside' => List.inj_on_of_nodup_map apart inside inside'
  · intro unique
    rw [nodup_keys_iff distinct]
    intro relation inside
    rw [undeclared_iff, List.mem_append, not_or]
    have count : KeyPart.count relation ∈ node.parts :=
      List.mem_append_right _ (List.mem_map_of_mem inside)
    constructor
    · intro declared
      obtain ⟨component, member, same⟩ := List.mem_map.mp declared
      cases unique (.component component) (List.mem_append_left _
        (List.mem_append_left _ (List.mem_map_of_mem member))) _ count same
    · intro declared
      obtain ⟨other, member, same⟩ := List.mem_map.mp declared
      cases unique (.relation other) (List.mem_append_left _
        (List.mem_append_right _ (List.mem_map_of_mem member))) _ count same

end Node

namespace FilterKey

/-- The words of where-inputs, which go before all names. -/
def words : List String := ["AND", "OR", "NOT"]

theorem suffix_or_suffix {name name' ending ending' : String}
    (same : name ++ ending = name' ++ ending') :
    ending.toList <:+ ending'.toList ∨ ending'.toList <:+ ending.toList := by
  have lists : name.toList ++ ending.toList = name'.toList ++ ending'.toList := by
    rw [← String.toList_append, same, String.toList_append]
  exact List.suffix_or_suffix_of_suffix ⟨_, lists⟩ (List.suffix_append ..)

variable {node : Node} {key name ending : String} {comparison : Comparison} {reading : FilterKey}

theorem countEnding_unique {name' ending' : String} {comparison' : Comparison}
    (listed : (ending, comparison) ∈ countEndings) (listed' : (ending', comparison') ∈ countEndings)
    (same : name ++ "Count" ++ ending = name' ++ "Count" ++ ending') : ending = ending' := by
  have apart : ∀ first ∈ countEndings, ∀ second ∈ countEndings,
      ("Count" ++ first.1).toList <:+ ("Count" ++ second.1).toList → first.1 = second.1 := by decide
  rw [String.append_assoc, String.append_assoc] at same
  rcases suffix_or_suffix same with inside | inside
  · exact apart _ listed _ listed' inside
  · exact (apart _ listed' _ listed inside).symm

theorem not_mem_words (alone : ∀ word ∈ words, ¬ending.toList <:+ word.toList) :
    name ++ ending ∉ words := by
  intro inside
  apply alone _ inside
  rw [String.toList_append]
  exact List.suffix_append ..

/-- The key of a count, bare or with an ending, means the count unless it is declared. -/
theorem resolve?_countKey {relation : ReverseEdge} (found : node.reverseEdge? name = some relation)
    (listed : (ending, comparison) ∈ countEndings) (bare : node.component? (name ++ "Count") = none)
    (undeclared : node.Undeclared (name ++ "Count" ++ ending)) :
    resolve? node (name ++ "Count" ++ ending) = some (.count relation comparison) := by
  have word : ∀ first ∈ countEndings, ∀ word ∈ words,
      ¬("Count" ++ first.1).toList <:+ word.toList := by decide
  have negated : ∀ first ∈ countEndings, ("Count" ++ first.1).toList <:+ "_not".toList ∨
      "_not".toList <:+ ("Count" ++ first.1).toList → first.1 = "_not" := by decide
  have quantified : ∀ second ∈ quantifierEndings, ∀ first ∈ countEndings,
      ¬("Count" ++ first.1).toList <:+ second.1.toList ∧
        ¬second.1.toList <:+ ("Count" ++ first.1).toList := by decide
  refine resolve?_eq_some_iff.mpr ⟨5, ending.length, .count listed rfl found, ?_⟩
  intro kind length other reads
  have split : name ++ "Count" ++ ending = name ++ ("Count" ++ ending) := String.append_assoc ..
  have plain : name ++ ("Count" ++ ending) ∉ words := not_mem_words (word (ending, comparison) listed)
  cases reads with
  | and same | or same | not same => exact absurd (by rw [← split, same]; decide) plain
  | leaf declared | edge declared => exact absurd (undeclared.1.symm.trans declared) nofun
  | uniqueReverse declared _ => exact absurd (undeclared.2.symm.trans declared) nofun
  | @negatedEdge other link split' declared =>
    obtain rfl := negated _ listed (suffix_or_suffix (split.symm.trans split'))
    obtain ⟨rfl, -⟩ := append_inj_of_length split' rfl
    exact absurd (bare.symm.trans declared) nofun
  | @quantified other word quantifier relation' listed' split' _ _ =>
    have apart := quantified _ listed' _ listed
    exact absurd (suffix_or_suffix (split.symm.trans split')) (not_or.mpr apart)
  | count listed' split' _ =>
    exact Or.inr ⟨rfl, Nat.le_of_eq (by rw [countEnding_unique listed listed' split'])⟩
  | comparedLeaf => exact Or.inl (by decide)

/-- The key of a leaf with the ending of a comparison means the comparison, unless it is declared or
the leaf has the name of a count. -/
theorem resolve?_compared_iff {field : Leaf} (found : node.component? name = some (.leaf field))
    (listed : (ending, comparison) ∈ countEndings) (ended : ending ≠ "")
    (undeclared : node.Undeclared (name ++ ending)) :
    resolve? node (name ++ ending) = some (.leaf field (.compared comparison)) ↔
      ∀ relation ∈ node.reverseEdges, relation.countKey ≠ name := by
  have word : ∀ first ∈ countEndings, first.1 ≠ "" → ∀ word ∈ words,
      ¬first.1.toList <:+ word.toList := by decide
  have negated : ∀ first ∈ countEndings, first.1 ≠ "" → first.1.toList <:+ "_not".toList ∨
      "_not".toList <:+ first.1.toList → first.1 = "_not" := by decide
  have quantified : ∀ second ∈ quantifierEndings, ∀ first ∈ countEndings, first.1 ≠ "" →
      ¬first.1.toList <:+ second.1.toList ∧ ¬second.1.toList <:+ first.1.toList := by decide
  have counted : ∀ second ∈ countEndings, ∀ first ∈ countEndings, first.1 ≠ "" →
      first.1.toList <:+ ("Count" ++ second.1).toList ∨
        ("Count" ++ second.1).toList <:+ first.1.toList → first.1 = second.1 := by decide
  have compared : ∀ second ∈ leafEndings, ∀ first ∈ countEndings, first.1 ≠ "" →
      first.1.toList <:+ second.1.toList ∨ second.1.toList <:+ first.1.toList →
        first.1 = second.1 := by decide
  have known : ∀ first ∈ countEndings, first.1 ≠ "" →
      (first.1, LeafOperator.compared first.2) ∈ leafEndings := by decide
  have reading := Reads.comparedLeaf (known _ listed ended) rfl found
  have plain : name ++ ending ∉ words := not_mem_words (word (ending, comparison) listed ended)
  constructor
  · rintro resolved relation inside rfl
    obtain ⟨other, related⟩ := Node.exists_reverseEdge? inside
    have counts : Reads node (relation.countKey ++ ending) 5 ending.length
        (.count other comparison) := .count listed rfl related
    obtain ⟨kind, length, reads, first⟩ := resolve?_eq_some_iff.mp resolved
    have before := first _ _ _ counts
    cases reads with
    | leaf declared => exact absurd (undeclared.1.symm.trans declared) nofun
    | comparedLeaf => omega
  · intro uncounted
    refine resolve?_eq_some_iff.mpr ⟨6, ending.length, reading, ?_⟩
    intro kind length other reads
    cases reads with
    | and same | or same | not same => exact absurd (by rw [same]; decide) plain
    | leaf declared | edge declared => exact absurd (undeclared.1.symm.trans declared) nofun
    | uniqueReverse declared _ => exact absurd (undeclared.2.symm.trans declared) nofun
    | @negatedEdge other link split declared =>
      obtain rfl := negated _ listed ended (suffix_or_suffix split)
      obtain ⟨rfl, -⟩ := append_inj_of_length split rfl
      exact absurd (found.symm.trans declared) nofun
    | quantified listed' split _ _ =>
      have apart := quantified _ listed' _ listed ended
      exact absurd (suffix_or_suffix split) (not_or.mpr apart)
    | @count other word comparison' relation listed' split related =>
      have split' := split.trans (String.append_assoc ..)
      obtain rfl := counted _ listed' _ listed ended (suffix_or_suffix split')
      obtain ⟨same, -⟩ := append_inj_of_length split rfl
      obtain ⟨inside, named⟩ := Catalog.WellFormed.mem_of_reverseEdge? related
      exact absurd (by rw [same, ← named]; rfl) (uncounted relation inside)
    | @comparedLeaf other word operator field' listed' split _ =>
      obtain rfl := compared _ listed' _ listed ended (suffix_or_suffix split)
      exact Or.inr ⟨rfl, Nat.le_refl _⟩

def ofComponent : Component → FilterKey
  | .leaf field => .leaf field (.compared .eq)
  | .edge link => .edge link false

theorem resolve?_component {component : Component} (found : node.component? name = some component)
    (plain : name ∉ words) : resolve? node name = some (ofComponent component) := by
  have named : component? node name = some (ofComponent component) := by
    unfold component?
    rw [found]
    cases component <;> rfl
  have other : junction? name = none := by
    unfold junction?
    split
    · exact absurd (.head _) plain
    · exact absurd (.tail _ (.head _)) plain
    · exact absurd (.tail _ (.tail _ (.head _))) plain
    · rfl
  unfold resolve?
  rw [other, named]
  rfl

theorem resolve?_negated {link : Edge} (found : node.component? name = some (.edge link))
    (undeclared : node.Undeclared (name ++ "_not")) :
    resolve? node (name ++ "_not") = some (.edge link true) := by
  have plain : name ++ "_not" ∉ words := not_mem_words (by decide)
  refine resolve?_eq_some_iff.mpr ⟨3, 0, .negatedEdge rfl found, ?_⟩
  intro kind length other reads
  cases reads with
  | and same | or same | not same => exact absurd (by rw [same]; decide) plain
  | leaf declared | edge declared => exact absurd (undeclared.1.symm.trans declared) nofun
  | uniqueReverse declared _ => exact absurd (undeclared.2.symm.trans declared) nofun
  | negatedEdge => exact Or.inr ⟨rfl, Nat.le_refl _⟩
  | quantified | count | comparedLeaf => exact Or.inl (by decide)

end FilterKey

namespace SortExpression

variable {node : Node} {name : String} {target : SortTarget}

theorem parse_of_target? (found : target? node name = some target) (direction : Direction) :
    parse node (name ++ "_" ++ direction.text) = .ok ⟨target, direction⟩ := by
  have cut : direction? (name ++ "_" ++ direction.text) = some (name, direction) := by
    unfold direction?
    cases direction with
    | ascending =>
      have ends : Text.before? "_ASC" (name ++ "_" ++ Direction.ascending.text) = some name :=
        Text.before?_eq_some_iff.mpr (String.append_assoc ..)
      rw [ends]
      rfl
    | descending =>
      have other : Text.before? "_ASC" (name ++ "_" ++ Direction.descending.text) = none := by
        rw [Option.eq_none_iff_forall_ne_some]
        intro front same
        rw [Text.before?_eq_some_iff, String.append_assoc] at same
        rcases FilterKey.suffix_or_suffix same with inside | inside
        · exact absurd inside (by decide)
        · exact absurd inside (by decide)
      have ends : Text.before? "_DESC" (name ++ "_" ++ Direction.descending.text) = some name :=
        Text.before?_eq_some_iff.mpr (String.append_assoc ..)
      rw [other, ends]
      rfl
  unfold parse
  simp only [cut, found]

theorem target?_countKey {relation : ReverseEdge} (found : node.reverseEdge? name = some relation)
    (many : relation.multiplicity = .multiple) (bare : node.component? (name ++ "Count") = none) :
    target? node (name ++ "Count") = some (.count relation) := by
  unfold target?
  rw [bare, Text.before?_eq_some_iff.mpr rfl]
  simp [found, many, guard]

end SortExpression

namespace SelectionTarget

variable {node : Node} {name : String}

theorem resolve?_component {component : Component} (found : node.component? name = some component) :
    resolve? node name = some (ofComponent component) := by
  unfold resolve?
  rw [found]
  rfl

theorem resolve?_countKey_iff {relation : ReverseEdge}
    (found : node.reverseEdge? name = some relation) (many : relation.multiplicity = .multiple) :
    resolve? node (name ++ "Count") = some (.count relation) ↔
      node.Undeclared (name ++ "Count") := by
  have counts : count? node (name ++ "Count") = some (.count relation) := by
    unfold count?
    rw [Text.before?_eq_some_iff.mpr rfl]
    simp [found, many, guard]
  unfold resolve? Node.Undeclared
  cases component : node.component? (name ++ "Count") with
  | some other => cases other <;> simp [ofComponent]
  | none =>
    cases related : node.reverseEdge? (name ++ "Count") with
    | some other => cases kind : other.multiplicity <;> simp [ofReverseEdge, kind]
    | none => simp [counts]

end SelectionTarget

namespace Node

/-- The count of a reverse edge is meant by its key, and by its key with an ending unless that is
the name of something else. -/
structure MeansCount (node : Node) (relation : ReverseEdge) : Prop where
  selected : SelectionTarget.resolve? node relation.countKey = some (.count relation)
  sorted : ∀ direction : Direction,
    SortExpression.parse node (relation.countKey ++ "_" ++ direction.text) =
      .ok ⟨.count relation, direction⟩
  filtered : FilterKey.resolve? node relation.countKey = some (.count relation .eq)
  compared : ∀ {ending comparison}, (ending, comparison) ∈ FilterKey.countEndings →
    node.Undeclared (relation.countKey ++ ending) →
      FilterKey.resolve? node (relation.countKey ++ ending) = some (.count relation comparison)

/-- A leaf is meant by its name, and by its name with an ending unless that is the name of something
else or the leaf has the name of a count. -/
structure MeansLeaf (node : Node) (field : Leaf) : Prop where
  selected : SelectionTarget.resolve? node field.name = some (.leaf field)
  sorted : ∀ direction : Direction,
    SortExpression.parse node (field.name ++ "_" ++ direction.text) = .ok ⟨.leaf field, direction⟩
  filtered : field.name ∉ FilterKey.words →
    FilterKey.resolve? node field.name = some (.leaf field (.compared .eq))
  compared : ∀ {ending comparison}, (ending, comparison) ∈ FilterKey.countEndings → ending ≠ "" →
    node.Undeclared (field.name ++ ending) →
      (FilterKey.resolve? node (field.name ++ ending) =
          some (.leaf field (.compared comparison)) ↔
        ∀ relation ∈ node.reverseEdges, relation.countKey ≠ field.name)

/-- An edge is meant by its name, and by its name with the ending of a negation unless that is the
name of something else. -/
structure MeansEdge (node : Node) (link : Edge) : Prop where
  selected : SelectionTarget.resolve? node link.name = some (.edge link)
  filtered : link.name ∉ FilterKey.words →
    FilterKey.resolve? node link.name = some (.edge link false)
  negated : node.Undeclared (link.name ++ "_not") →
    FilterKey.resolve? node (link.name ++ "_not") = some (.edge link true)

variable {catalog : Catalog} {node : Node}

theorem meansCount_iff {relation : ReverseEdge} (found : node.reverseEdge? relation.name = some relation)
    (many : relation.multiplicity = .multiple) :
    node.MeansCount relation ↔ node.Undeclared relation.countKey := by
  constructor
  · exact fun means => (SelectionTarget.resolve?_countKey_iff found many).mp means.selected
  · intro undeclared
    have bare := undeclared.1
    have counted {ending : String} {comparison : Comparison}
        (listed : (ending, comparison) ∈ FilterKey.countEndings) :=
      FilterKey.resolve?_countKey found listed bare
    refine ⟨(SelectionTarget.resolve?_countKey_iff found many).mpr undeclared,
      SortExpression.parse_of_target? (SortExpression.target?_countKey found many bare), ?_, counted⟩
    have whole := counted (show ("", Comparison.eq) ∈ FilterKey.countEndings by decide)
    rw [String.append_empty] at whole
    exact whole undeclared

theorem meansLeaf {field : Leaf} (found : node.component? field.name = some (.leaf field)) :
    node.MeansLeaf field where
  selected := SelectionTarget.resolve?_component found
  sorted := SortExpression.parse_of_target? (by unfold SortExpression.target?; rw [found])
  filtered := FilterKey.resolve?_component found
  compared := FilterKey.resolve?_compared_iff found

theorem meansEdge {link : Edge} (found : node.component? link.name = some (.edge link)) :
    node.MeansEdge link where
  selected := SelectionTarget.resolve?_component found
  filtered := FilterKey.resolve?_component found
  negated := FilterKey.resolve?_negated found

end Node

end LiveQuery
