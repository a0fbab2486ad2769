import LiveQuery.Proofs.Dependency.Agreement
import LiveQuery.Proofs.Impact.Pruning
import LiveQuery.Proofs.Impact.Reordering
import Mathlib.Order.Lattice

set_option autoImplicit false

namespace LiveQuery

namespace Sorted

variable {α : Type} {name : String}

theorem pairwise_insert {names : List String} (increasing : names.Pairwise (· < ·)) :
    (insert name names).Pairwise (· < ·) := by
  induction names with
  | nil => simp [insert]
  | cons first rest ih =>
    obtain ⟨least, behind⟩ := List.pairwise_cons.mp increasing
    unfold insert
    split
    · rename_i less
      refine List.pairwise_cons.mpr ⟨List.forall_mem_cons.mpr ⟨less, fun other inside => ?_⟩,
        increasing⟩
      exact String.lt_trans less (least other inside)
    · rename_i notLess
      split
      · exact increasing
      · rename_i different
        refine List.pairwise_cons.mpr ⟨fun other inside => ?_, ih behind⟩
        rcases mem_insert.mp inside with rfl | inside
        · exact Std.lt_of_le_of_ne (String.not_lt.mp notLess) (Ne.symm different)
        · exact least other inside

theorem pairwise_union {names more : List String} (increasing : names.Pairwise (· < ·)) :
    (union names more).Pairwise (· < ·) := by
  unfold union
  induction more generalizing names with
  | nil => exact increasing
  | cons first rest ih => exact ih (pairwise_insert increasing)

theorem keys_alter (entries : List (String × α)) (change : Option α → α) :
    keys (alter entries name change) = insert name (keys entries) := by
  induction entries with
  | nil => rfl
  | cons entry rest ih =>
    obtain ⟨first, value⟩ := entry
    simp only [alter, keys, List.map_cons, insert] at ih ⊢
    split
    · rfl
    · split
      · rfl
      · rw [List.map_cons, ih]

theorem eq_of_mem_iff {items others : List α} (key : α → String)
    (first : (items.map key).Pairwise (· < ·)) (second : (others.map key).Pairwise (· < ·))
    (same : ∀ item, item ∈ items ↔ item ∈ others) : items = others := by
  rw [List.pairwise_map] at first second
  have apart {listed : List α} (increasing : listed.Pairwise fun a b => key a < key b) :
      listed.Nodup := by
    refine List.Pairwise.imp ?_ increasing
    rintro item _ less rfl
    exact String.lt_irrefl _ less
  refine List.Perm.eq_of_pairwise (fun a b _ _ less more => ?_) first second
    ((List.perm_ext_iff_of_nodup (apart first) (apart second)).mpr same)
  exact absurd (String.lt_trans less more) (String.lt_irrefl _)

theorem eq_of_mem {entries : List (String × α)} (increasing : (keys entries).Pairwise (· < ·))
    {value other : α} (inside : (name, value) ∈ entries) (inside' : (name, other) ∈ entries) :
    value = other := by
  have distinct : (entries.map (·.1)).Nodup := by
    refine List.Pairwise.imp ?_ increasing
    rintro key _ less rfl
    exact String.lt_irrefl _ less
  exact congrArg Prod.snd (List.inj_on_of_nodup_map distinct inside inside' rfl)

end Sorted

namespace DependencyGraph

@[induction_eliminator]
theorem induction {motive : DependencyGraph → Prop}
    (mk : ∀ node hidden leaves edges reverseEdges, (∀ entry ∈ edges, motive entry.2) →
      (∀ entry ∈ reverseEdges, motive entry.2) →
        motive ⟨node, hidden, leaves, edges, reverseEdges⟩) (graph : DependencyGraph) :
    motive graph := by
  refine @DependencyGraph.rec motive (fun relations => ∀ entry ∈ relations, motive entry.2)
    (fun entry => motive entry.2) mk ?_ ?_ ?_ graph
  · simp
  · exact fun entry rest here behind => List.forall_mem_cons.mpr ⟨here, behind⟩
  · exact fun _ _ here => here

mutual

/-- Names increase along every list of the graph. -/
def Ordered : DependencyGraph → Prop
  | ⟨_, _, leaves, edges, reverseEdges⟩ =>
    leaves.Pairwise (· < ·) ∧ ((Sorted.keys edges).Pairwise (· < ·) ∧ OrderedAll edges) ∧
      (Sorted.keys reverseEdges).Pairwise (· < ·) ∧ OrderedAll reverseEdges

def OrderedAll : List (String × DependencyGraph) → Prop
  | [] => True
  | (_, graph) :: rest => Ordered graph ∧ OrderedAll rest

end

/-- Relations whose names increase, with such graphs behind them. -/
def OrderedBehind (relations : List (String × DependencyGraph)) : Prop :=
  (Sorted.keys relations).Pairwise (· < ·) ∧ OrderedAll relations

theorem orderedAll_iff {relations : List (String × DependencyGraph)} :
    OrderedAll relations ↔ ∀ entry ∈ relations, entry.2.Ordered := by
  induction relations with
  | nil => simp [OrderedAll]
  | cons entry rest ih => rw [OrderedAll, ih, List.forall_mem_cons]

theorem ordered_empty (node : String) : (empty node).Ordered :=
  ⟨.nil, ⟨.nil, trivial⟩, .nil, trivial⟩

theorem ordered_unknown (node : String) : (unknown node).Ordered :=
  ⟨.nil, ⟨.nil, trivial⟩, .nil, trivial⟩

theorem ordered_nothing : ∀ more : DependencyGraph, none = some more → more.Ordered := by
  rintro _ ⟨⟩

theorem empty_within {node : String} {graph : DependencyGraph} (named : graph.node = node) :
    Within (empty node) graph :=
  ⟨named.symm, (absurd · Bool.false_ne_true), List.forall_mem_nil _, trivial, trivial⟩

theorem orderedBehind_alter {relations : List (String × DependencyGraph)} {name : String}
    {change : Option DependencyGraph → DependencyGraph} (ordered : OrderedBehind relations)
    (fresh : (change none).Ordered)
    (changed : ∀ present, present.Ordered → (change (some present)).Ordered) :
    OrderedBehind (Sorted.alter relations name change) := by
  refine ⟨Sorted.keys_alter relations change ▸ Sorted.pairwise_insert ordered.1, ?_⟩
  obtain ⟨front, back, old, whole, altered⟩ := Sorted.alter_spec relations name change
  have each := orderedAll_iff.mp ordered.2
  rw [whole] at each
  rw [orderedAll_iff, altered]
  intro entry inside
  rcases List.mem_append.mp inside with before | behind
  · exact each entry (by simp [before])
  · rcases List.mem_cons.mp behind with rfl | behind
    · cases old with
      | none => exact fresh
      | some present => exact changed present (each (name, present) (by simp))
    · exact each entry (by simp [behind])

theorem orderedBehind_mergeRelations {known more : List (String × DependencyGraph)}
    (ordered : OrderedBehind known) (each : ∀ entry ∈ more, entry.2.Ordered ∧
      ∀ graph : DependencyGraph, graph.Ordered → (graph.merge entry.2).Ordered) :
    OrderedBehind (mergeRelations known more) := by
  induction more generalizing known with
  | nil => exact ordered
  | cons entry rest ih =>
    rw [List.forall_mem_cons] at each
    exact ih (orderedBehind_alter ordered each.1.1 each.1.2) each.2

theorem ordered_merge {graph more : DependencyGraph} (first : graph.Ordered)
    (second : more.Ordered) : (graph.merge more).Ordered := by
  induction more generalizing graph with
  | mk node hidden leaves edges reverseEdges behind behind' =>
    cases graph with
    | mk node' hidden' leaves' edges' reverseEdges' =>
      have nested {relations : List (String × DependencyGraph)} (ordered : OrderedAll relations)
          (each : ∀ entry ∈ relations, ∀ {graph : DependencyGraph}, graph.Ordered →
            entry.2.Ordered → (graph.merge entry.2).Ordered) :
          ∀ entry ∈ relations, entry.2.Ordered ∧
            ∀ graph : DependencyGraph, graph.Ordered → (graph.merge entry.2).Ordered :=
        fun entry inside => ⟨orderedAll_iff.mp ordered entry inside, fun _ present =>
          each entry inside present (orderedAll_iff.mp ordered entry inside)⟩
      rw [merge]
      exact ⟨Sorted.pairwise_union first.1,
        orderedBehind_mergeRelations first.2.1 (nested second.2.1.2 behind),
        orderedBehind_mergeRelations first.2.2 (nested second.2.2.2 behind')⟩

theorem ordered_union {node : String} {graphs : List DependencyGraph}
    (each : ∀ graph ∈ graphs, graph.Ordered) : (union node graphs).Ordered := by
  have general : ∀ {start : DependencyGraph}, start.Ordered →
      (graphs.foldl merge start).Ordered := by
    induction graphs with
    | nil => exact id
    | cons graph rest ih =>
      rw [List.forall_mem_cons] at each
      exact fun start => ih each.2 (ordered_merge start each.1)
  exact general (ordered_empty node)

theorem ordered_mergeHead {graph : DependencyGraph} {head : Option DependencyGraph}
    (first : graph.Ordered) (second : ∀ more, head = some more → more.Ordered) :
    (graph.mergeHead head).Ordered := by
  cases head with
  | none => exact first
  | some more => exact ordered_merge first (second more rfl)

theorem ordered_addLeaf {graph : DependencyGraph} (ordered : graph.Ordered) (leaf : String) :
    (graph.addLeaf leaf).Ordered := by
  cases graph with
  | mk => exact ⟨Sorted.pairwise_insert ordered.1, ordered.2⟩

theorem ordered_addEdge {graph : DependencyGraph} (ordered : graph.Ordered) (link : Edge)
    {head : Option DependencyGraph} (below : ∀ more, head = some more → more.Ordered) :
    (graph.addEdge link head).Ordered := by
  cases graph with
  | mk =>
    exact ⟨ordered.1, orderedBehind_alter ordered.2.1 (ordered_mergeHead (ordered_empty _) below)
      fun _ present => ordered_mergeHead present below, ordered.2.2⟩

theorem ordered_addReverseEdge {graph : DependencyGraph} (ordered : graph.Ordered)
    (relation : ReverseEdge) {head : Option DependencyGraph}
    (below : ∀ more, head = some more → more.Ordered) :
    (graph.addReverseEdge relation head).Ordered := by
  have entered {present : DependencyGraph} (ordered : present.Ordered) :
      ((present.addEdge relation.edge none).mergeHead head).Ordered :=
    ordered_mergeHead (ordered_addEdge ordered relation.edge ordered_nothing) below
  cases graph with
  | mk =>
    exact ⟨ordered.1, ordered.2.1, orderedBehind_alter ordered.2.2 (entered (ordered_empty _))
      fun _ => entered⟩

end DependencyGraph

section Expressions

open DependencyGraph

namespace Predicate

theorem ordered_dependencies (predicate : Predicate) (node : String) :
    (predicate.dependencies node).Ordered := by
  have headed {node : String} {head : Option Predicate}
      (each : ∀ inner, head = some inner → ∀ node, (inner.dependencies node).Ordered) :
      ∀ more, dependenciesHead node head = some more → more.Ordered := by
    intro more same
    cases head with
    | none => cases same
    | some inner =>
      cases same
      exact each inner rfl node
  induction predicate generalizing node with
  | constant value => exact ordered_empty node
  | junction kind operands ih =>
    rw [dependencies, dependenciesAll_eq_map]
    exact ordered_union (List.forall_mem_map.mpr fun operand inside => ih operand inside node)
  | negation operand ih => exact ih node
  | leaf field operator expected => exact ordered_addLeaf (ordered_empty node) field.name
  | edge link head ih => exact ordered_addEdge (ordered_empty node) link (headed ih)
  | reverse relation head ih =>
    exact ordered_addReverseEdge (ordered_empty node) relation (headed ih)
  | count relation comparison number =>
    exact ordered_addReverseEdge (ordered_empty node) relation ordered_nothing
  | raw sql => exact ordered_unknown node

theorem ordered_dependenciesHead {node : String} {head : Option Predicate} :
    ∀ more, dependenciesHead node head = some more → more.Ordered := by
  intro more same
  cases head with
  | none => cases same
  | some inner =>
    cases same
    exact ordered_dependencies inner node

end Predicate

theorem SortOrder.ordered_dependenciesOf (node : String) (expressions : List SortExpression) :
    (dependenciesOf node expressions).Ordered := by
  have general : ∀ {start : DependencyGraph}, start.Ordered →
      (expressions.foldl readTarget start).Ordered := by
    induction expressions with
    | nil => exact id
    | cons expression rest ih =>
      intro start ordered
      refine ih ?_
      unfold readTarget
      split
      · exact ordered_addLeaf ordered _
      · exact ordered_addReverseEdge ordered _ ordered_nothing
  exact general (ordered_empty node)

theorem Window.ordered_dependencies (window : Window) (node : String) :
    (window.dependencies node).Ordered := by
  refine ordered_mergeHead
    (ordered_mergeHead (ordered_empty node) Predicate.ordered_dependenciesHead) ?_
  intro more same
  obtain ⟨expressions, -, rfl⟩ := Option.map_eq_some_iff.mp same
  exact SortOrder.ordered_dependenciesOf node expressions

namespace SelectionField

theorem ordered_readAll_of {fields : List SelectionField}
    (each : ∀ field ∈ fields, ∀ {graph : DependencyGraph}, graph.Ordered →
      (read graph field).Ordered) {graph : DependencyGraph} (ordered : graph.Ordered) :
    (readAll graph fields).Ordered := by
  induction fields generalizing graph with
  | nil => exact ordered
  | cons field rest ih =>
    rw [List.forall_mem_cons] at each
    exact ih each.2 (each.1 ordered)

theorem ordered_read {field : SelectionField} {graph : DependencyGraph} (ordered : graph.Ordered) :
    (read graph field).Ordered := by
  induction field generalizing graph with
  | leaf key field => exact ordered_addLeaf ordered field.name
  | edge key link head ih =>
    refine ordered_addEdge ordered link ?_
    rintro _ ⟨⟩
    exact ordered_readAll_of ih (ordered_empty _)
  | unique key relation head ih =>
    refine ordered_addReverseEdge ordered relation ?_
    rintro _ ⟨⟩
    exact ordered_readAll_of ih (ordered_empty _)
  | multiple key relation window head ih =>
    refine ordered_addReverseEdge ordered relation ?_
    rintro _ ⟨⟩
    exact ordered_merge (ordered_readAll_of ih (ordered_empty _)) (window.ordered_dependencies _)
  | count key relation filter =>
    exact ordered_addReverseEdge ordered relation Predicate.ordered_dependenciesHead

theorem ordered_readAll {fields : List SelectionField} {graph : DependencyGraph}
    (ordered : graph.Ordered) : (readAll graph fields).Ordered :=
  ordered_readAll_of (fun _ _ _ => ordered_read) ordered

end SelectionField

end Expressions

namespace DependencyGraph

/-- An entry after a merge was there before, or is merged from two entries of its name. -/
theorem mem_mergeRelations {known more : List (String × DependencyGraph)}
    (ordered : OrderedBehind more) {name : String} {graph : DependencyGraph}
    (inside : (name, graph) ∈ mergeRelations known more) :
    (name, graph) ∈ known ∨ (name, graph) ∈ more ∨ ∃ mine theirs, (name, mine) ∈ known ∧
      (name, theirs) ∈ more ∧ graph = mine.merge theirs := by
  induction more generalizing known with
  | nil => exact Or.inl inside
  | cons entry rest ih =>
    obtain ⟨first, nested⟩ := entry
    obtain ⟨least, behind⟩ := List.pairwise_cons.mp ordered.1
    have apart : ∀ {other : DependencyGraph}, (name, other) ∈ rest → name ≠ first := by
      rintro other member rfl
      exact String.lt_irrefl _ (least name (List.mem_map_of_mem member))
    obtain ⟨front, back, old, whole, altered⟩ := Sorted.alter_spec known first (mergeInto nested)
    -- Below the one entry that is altered stands what was there.
    have entered : ∀ {other : DependencyGraph},
        (name, other) ∈ Sorted.alter known first (mergeInto nested) →
          (name, other) ∈ known ∨ name = first ∧ other = mergeInto nested old := by
      intro other member
      rw [altered] at member
      rw [whole]
      rcases List.mem_append.mp member with before | later
      · exact Or.inl (by simp [before])
      · rcases List.mem_cons.mp later with same | later
        · exact Or.inr (Prod.mk.inj same)
        · exact Or.inl (by simp [later])
    rw [mergeRelations_cons] at inside
    rcases ih ⟨behind, ordered.2.2⟩ inside with here | later | ⟨mine, theirs, here, later, merged⟩
    · rcases entered here with before | ⟨rfl, rfl⟩
      · exact Or.inl before
      · cases old with
        | none => exact Or.inr (Or.inl (List.mem_cons_self ..))
        | some present =>
          exact Or.inr (Or.inr ⟨present, nested, by rw [whole]; simp, List.mem_cons_self .., rfl⟩)
    · exact Or.inr (Or.inl (List.mem_cons_of_mem _ later))
    · rcases entered here with before | ⟨same, -⟩
      · exact Or.inr (Or.inr ⟨mine, theirs, before, List.mem_cons_of_mem _ later, merged⟩)
      · exact absurd same (apart later)

theorem eq_of_withinRelations {relations others : List (String × DependencyGraph)}
    (ordered : OrderedBehind relations) (ordered' : OrderedBehind others)
    (within : WithinRelations relations others) (within' : WithinRelations others relations)
    (each : ∀ entry ∈ relations, ∀ {other : DependencyGraph}, other.Ordered →
      Within entry.2 other → Within other entry.2 → entry.2 = other) : relations = others := by
  rw [withinRelations_iff] at within within'
  refine Sorted.eq_of_mem_iff Prod.fst ordered.1 ordered'.1 fun ⟨name, graph⟩ => ⟨fun inside => ?_,
    fun inside => ?_⟩
  · obtain ⟨other, member, below⟩ := within _ inside
    obtain ⟨back, member', above⟩ := within' _ member
    cases Sorted.eq_of_mem ordered.1 inside member'
    have same : graph = other :=
      each _ inside (orderedAll_iff.mp ordered'.2 _ member) below above
    exact same ▸ member
  · obtain ⟨other, member, above⟩ := within' _ inside
    obtain ⟨back, member', below⟩ := within _ member
    cases Sorted.eq_of_mem ordered'.1 inside member'
    have same : other = graph :=
      each _ member (orderedAll_iff.mp ordered'.2 _ inside) below above
    exact same ▸ member

theorem Within.antisymm {graph other : DependencyGraph} (ordered : graph.Ordered)
    (ordered' : other.Ordered) (within : Within graph other) (within' : Within other graph) :
    graph = other := by
  induction graph generalizing other with
  | mk node hidden leaves edges reverseEdges behind behind' =>
    cases other with
    | mk node' hidden' leaves' edges' reverseEdges' =>
      obtain ⟨named, known, listed, followed, followed'⟩ := within
      obtain ⟨-, known', listed', back, back'⟩ := within'
      have leavesEq : leaves = leaves' := by
        refine Sorted.eq_of_mem_iff id ?_ ?_ fun leaf => ⟨listed leaf, listed' leaf⟩
        · simpa using ordered.1
        · simpa using ordered'.1
      have edgesEq : edges = edges' :=
        eq_of_withinRelations ordered.2.1 ordered'.2.1 followed back
          fun entry inside _ => behind entry inside (orderedAll_iff.mp ordered.2.1.2 entry inside)
      have reverseEdgesEq : reverseEdges = reverseEdges' :=
        eq_of_withinRelations ordered.2.2 ordered'.2.2 followed' back'
          fun entry inside _ => behind' entry inside (orderedAll_iff.mp ordered.2.2.2 entry inside)
      have hiddenEq : hidden = hidden' := Bool.eq_iff_iff.mpr ⟨known, known'⟩
      rw [show node = node' from named, hiddenEq, leavesEq, edgesEq, reverseEdgesEq]

theorem withinRelations_mergeRelations {known more others : List (String × DependencyGraph)}
    (ordered : OrderedBehind more) (ordered' : OrderedBehind others)
    (first : WithinRelations known others) (second : WithinRelations more others)
    (each : ∀ entry ∈ more, ∀ {graph other : DependencyGraph}, other.Ordered →
      Within graph other → Within entry.2 other → Within (graph.merge entry.2) other) :
    WithinRelations (mergeRelations known more) others := by
  rw [withinRelations_iff] at first second ⊢
  rintro ⟨name, graph⟩ inside
  rcases mem_mergeRelations ordered inside with mine | theirs | ⟨mine, theirs, here, there, rfl⟩
  · exact first _ mine
  · exact second _ theirs
  · obtain ⟨other, member, below⟩ := first _ here
    obtain ⟨other', member', below'⟩ := second _ there
    cases Sorted.eq_of_mem ordered'.1 member member'
    exact ⟨other, member, each _ there (orderedAll_iff.mp ordered'.2 _ member) below below'⟩

theorem merge_within {graph more other : DependencyGraph} (ordered : more.Ordered)
    (ordered' : other.Ordered) (first : Within graph other) (second : Within more other) :
    Within (graph.merge more) other := by
  induction more generalizing graph other with
  | mk node hidden leaves edges reverseEdges behind behind' =>
    cases graph with
    | mk node' hidden' leaves' edges' reverseEdges' =>
      cases other with
      | mk =>
        rw [merge]
        refine ⟨first.1, fun known => ?_, fun leaf inside => ?_, ?_, ?_⟩
        · exact (Bool.or_eq_true _ _ ▸ known).elim first.2.1 second.2.1
        · exact (Sorted.mem_union.mp inside).elim (first.2.2.1 leaf) (second.2.2.1 leaf)
        · exact withinRelations_mergeRelations ordered.2.1 ordered'.2.1 first.2.2.2.1
            second.2.2.2.1 fun entry inside _ _ =>
              behind entry inside (orderedAll_iff.mp ordered.2.1.2 entry inside)
        · exact withinRelations_mergeRelations ordered.2.2 ordered'.2.2 first.2.2.2.2
            second.2.2.2.2 fun entry inside _ _ =>
              behind' entry inside (orderedAll_iff.mp ordered.2.2.2 entry inside)

end DependencyGraph

section Lattice

variable {catalog : Catalog} {node : String}

/-- What is read at one node of a catalog, as a graph that lists it in the one way there is. -/
@[ext]
structure Extent (catalog : Catalog) (node : String) where
  graph : DependencyGraph
  here : DependencyGraph.At catalog node graph
  ordered : graph.Ordered

namespace Extent

instance : SemilatticeSup (Extent catalog node) where
  le a b := DependencyGraph.Within a.graph b.graph
  le_refl a := .refl a.graph
  le_trans _ _ _ first second := first.trans second
  le_antisymm a b below above := Extent.ext (below.antisymm a.ordered b.ordered above)
  sup a b := ⟨a.graph.merge b.graph, a.here.grow (a.here.merge b.here).1,
    DependencyGraph.ordered_merge a.ordered b.ordered⟩
  le_sup_left a b := (a.here.merge b.here).1.within
  le_sup_right a b := (a.here.merge b.here).2
  sup_le _ b c := DependencyGraph.merge_within b.ordered c.ordered

instance : OrderBot (Extent catalog node) where
  bot := ⟨.empty node, DependencyGraph.at_empty node, DependencyGraph.ordered_empty node⟩
  bot_le a := DependencyGraph.empty_within a.here.node

end Extent

namespace DependencyGraph

theorem Reads.merge_iff {graph more : DependencyGraph} {name : String} :
    (graph.merge more).Reads name ↔ graph.Reads name ∨ more.Reads name := by
  have listed (relations : List (String × DependencyGraph)) :
      (∃ nested, (name, nested) ∈ relations) ↔ name ∈ Sorted.keys relations := by
    simp [Sorted.keys]
  cases graph
  cases more
  simp only [Reads, merge, listed, Sorted.mem_union, mem_keys_mergeRelations]
  exact or_or_or_comm

/-- A test of a graph for reads of some components of a node, or for reads that cannot be told. -/
def LooksFor (node : String) (wanted : String → Prop) (test : DependencyGraph → Bool) : Prop :=
  ∀ graph, test graph = true ↔
    graph.hidden = true ∨ graph.node = node ∧ ∃ name, wanted name ∧ graph.Reads name

theorem looksFor_touchedHere (change : Change) :
    LooksFor change.node.name (fun name => change.isExistence = true ∨ change.touches name = true)
      (touchedHere change) := by
  intro graph
  rw [touchedHere_iff]
  by_cases existence : change.isExistence = true
  · simp only [existence, ↓reduceIte, true_or, true_and]
    tauto
  · simp only [existence, ↓reduceIte, Bool.false_eq_true, false_or]

theorem looksFor_mentions (node : String) : LooksFor node (fun _ => True) fun nested =>
    nested.hidden || (nested.node = node && nested.readsDirectly) := by
  intro graph
  rw [Bool.or_eq_true, Bool.and_eq_true, decide_eq_true_iff, readsDirectly_iff]
  simp only [true_and]
  tauto

namespace LooksFor

variable {wanted : String → Prop} {test : DependencyGraph → Bool} {seen : String}

theorem of_within (looks : LooksFor seen wanted test) {graph other : DependencyGraph}
    (within : Within graph other) (passed : test graph = true) : test other = true := by
  have known : graph.node = other.node ∧ (graph.hidden = true → other.hidden = true) := by
    cases graph
    exact ⟨within.1, within.2.1⟩
  rw [looks] at passed ⊢
  refine passed.imp known.2 fun ⟨same, name, sought, reads⟩ => ?_
  exact ⟨known.1 ▸ same, name, sought, reads.of_within within⟩

theorem of_merge (looks : LooksFor seen wanted test) {graph more : DependencyGraph}
    (same : graph.node = more.node) (passed : test (graph.merge more) = true) :
    test graph = true ∨ test more = true := by
  simp only [looks _, merge_node, Reads.merge_iff, ← same] at passed ⊢
  rcases passed with hidden | ⟨here, name, sought, mine | theirs⟩
  · cases more
    exact (Bool.or_eq_true _ _ ▸ hidden).imp Or.inl Or.inl
  · exact Or.inl (Or.inr ⟨here, name, sought, mine⟩)
  · exact Or.inr (Or.inr ⟨here, name, sought, theirs⟩)

/-- Relations of one name lead to one node, whichever of two graphs lists them. -/
theorem anywhere_of_mergeRelations {known more : List (String × DependencyGraph)}
    {leads : String → Option String} (rooted : RootedAt catalog leads known)
    (rooted' : RootedAt catalog leads more) (ordered : OrderedBehind more)
    (each : ∀ entry ∈ more, ∀ {node : String} {graph : DependencyGraph},
      At catalog node graph → At catalog node entry.2 → entry.2.Ordered →
        (graph.merge entry.2).anywhere test = true →
          graph.anywhere test = true ∨ entry.2.anywhere test = true)
    (found : ∃ entry ∈ mergeRelations known more, anywhere test entry.2 = true) :
    (∃ entry ∈ known, anywhere test entry.2 = true) ∨
      ∃ entry ∈ more, anywhere test entry.2 = true := by
  obtain ⟨⟨name, merged⟩, inside, passed⟩ := found
  rcases mem_mergeRelations ordered inside with mine | theirs | ⟨mine, theirs, there, there', rfl⟩
  · exact Or.inl ⟨_, mine, passed⟩
  · exact Or.inr ⟨_, theirs, passed⟩
  · obtain ⟨leadsTo, below⟩ := rootedAt_iff.mp rooted _ there
    obtain ⟨leadsTo', below'⟩ := rootedAt_iff.mp rooted' _ there'
    have one : mine.node = theirs.node := Option.some.inj (leadsTo.symm.trans leadsTo')
    refine (each _ there' ⟨one, below⟩ ⟨rfl, below'⟩
      (orderedAll_iff.mp ordered.2 _ there') passed).imp ?_ ?_
    · exact fun passed => ⟨_, there, passed⟩
    · exact fun passed => ⟨_, there', passed⟩

theorem anywhere_of_merge (looks : LooksFor seen wanted test) {graph more : DependencyGraph}
    (here : At catalog node graph) (here' : At catalog node more) (ordered : more.Ordered)
    (passed : (graph.merge more).anywhere test = true) :
    graph.anywhere test = true ∨ more.anywhere test = true := by
  induction more generalizing node graph with
  | mk root hidden leaves edges reverseEdges behind behind' =>
    cases graph with
    | mk root' =>
      have same : root' = root := here.node.trans here'.node.symm
      subst same
      rw [anywhere_iff] at passed
      simp only [@anywhere_iff test ⟨root', _, _, _, _⟩]
      rcases passed with found | found | found
      · refine Or.imp Or.inl Or.inl ?_
        exact looks.of_merge rfl found
      · exact (anywhere_of_mergeRelations here.rooted.1 here'.rooted.1 ordered.2.1 behind
          found).imp (Or.inr ∘ Or.inl) (Or.inr ∘ Or.inl)
      · exact (anywhere_of_mergeRelations here.rooted.2 here'.rooted.2 ordered.2.2 behind'
          found).imp (Or.inr ∘ Or.inr) (Or.inr ∘ Or.inr)

/-- Such a test is passed somewhere in a merged graph exactly if it is in one of the two. -/
theorem anywhere_sup (looks : LooksFor seen wanted test) (a b : Extent catalog node) :
    (a.graph.merge b.graph).anywhere test = (a.graph.anywhere test || b.graph.anywhere test) := by
  rw [Bool.eq_iff_iff, Bool.or_eq_true]
  constructor
  · exact looks.anywhere_of_merge a.here b.here b.ordered
  · rintro (mine | theirs)
    · exact anywhere_mono looks.of_within (a.here.merge b.here).1.within mine
    · exact anywhere_mono looks.of_within (a.here.merge b.here).2 theirs

end LooksFor

/-- The graphs that are computed from the expressions on a node of a catalog. -/
inductive Computed (catalog : Catalog) : String → DependencyGraph → Prop
  | filter {filter : Filter} (charted : filter.charted catalog = true) :
    Computed catalog filter.node.name filter.dependencies
  | sortOrder {order : SortOrder} (charted : ∀ expression ∈ order.expressions,
      expression.charted catalog order.node.name = true) :
    Computed catalog order.node.name order.dependencies
  | selection {selection : Selection} (charted : selection.charted catalog = true) :
    Computed catalog selection.node.name selection.dependencies
  | union {node : String} {graphs : List DependencyGraph}
    (each : ∀ graph ∈ graphs, Computed catalog node graph) :
    Computed catalog node (union node graphs)

theorem Computed.extent (wellFormed : catalog.WellFormed) {graph : DependencyGraph}
    (computed : Computed catalog node graph) :
    ∃ extent : Extent catalog node, extent.graph = graph := by
  have both : At catalog node graph ∧ graph.Ordered := by
    induction computed with
    | filter charted =>
      exact ⟨Predicate.at_dependencies wellFormed charted, Predicate.ordered_dependencies _ _⟩
    | sortOrder charted =>
      exact ⟨(SortOrder.dependenciesOf_spec wellFormed charted).1,
        SortOrder.ordered_dependenciesOf _ _⟩
    | selection charted =>
      exact ⟨(at_empty _).grow (SelectionField.readAll_grows wellFormed charted (at_empty _)),
        SelectionField.ordered_readAll (ordered_empty _)⟩
    | union each ih =>
      exact ⟨(at_union fun graph inside => (ih graph inside).1).1,
        ordered_union fun graph inside => (ih graph inside).2⟩
  exact ⟨⟨graph, both.1, both.2⟩, rfl⟩

/-- Graphs of expressions on one node of a catalog form a semilattice: they can be merged in any
order and repeatedly, and reading nothing adds nothing. A change touches merged graphs, and a node
is mentioned in them, exactly if that is so of one of them. -/
theorem merge_semilattice {definitions : CatalogDefinition} {catalog : Catalog}
    (built : definitions.build = .ok catalog) {node : String} {a b c : DependencyGraph}
    (first : Computed catalog node a) (second : Computed catalog node b)
    (third : Computed catalog node c) :
    (a.merge b).merge c = a.merge (b.merge c) ∧ a.merge b = b.merge a ∧ a.merge a = a ∧
      a.merge (.empty node) = a ∧ (empty node).merge a = a ∧
      (∀ change, (a.merge b).touchedBy change = (a.touchedBy change || b.touchedBy change)) ∧
      ∀ name, (a.merge b).mentions name = (a.mentions name || b.mentions name) := by
  have wellFormed := CatalogDefinition.build_wellFormed built
  obtain ⟨a, rfl⟩ := first.extent wellFormed
  obtain ⟨b, rfl⟩ := second.extent wellFormed
  obtain ⟨c, rfl⟩ := third.extent wellFormed
  refine ⟨?_, ?_, ?_, ?_, ?_, fun change => ?_, fun name => ?_⟩
  · exact congrArg Extent.graph (sup_assoc a b c)
  · exact congrArg Extent.graph (sup_comm a b)
  · exact congrArg Extent.graph (sup_idem a)
  · exact congrArg Extent.graph (sup_bot_eq a)
  · exact congrArg Extent.graph (bot_sup_eq a)
  · simp only [touchedBy_eq_anywhere]
    exact (looksFor_touchedHere change).anywhere_sup a b
  · exact (looksFor_mentions name).anywhere_sup a b

end DependencyGraph

end Lattice

namespace Samples

open DependencyGraph

/-- What is read of people by a filter with some plain SQL in it, by a selection of their tasks, and
by sorting on the number of them. -/
theorem merged_people :
    Computed boardCatalog "Person" busyOrPicked.dependencies ∧
      Computed boardCatalog "Person" duties.dependencies ∧
      Computed boardCatalog "Person" workload.dependencies ∧
      busyOrPicked.dependencies.merge duties.dependencies =
        duties.dependencies.merge busyOrPicked.dependencies ∧
      ((duties.dependencies.merge workload.dependencies).touchedBy assignment =
        (duties.dependencies.touchedBy assignment || workload.dependencies.touchedBy assignment)) := by
  have picked : Computed boardCatalog "Person" busyOrPicked.dependencies :=
    @Computed.filter boardCatalog busyOrPicked rfl
  have shown : Computed boardCatalog "Person" duties.dependencies :=
    @Computed.selection boardCatalog duties rfl
  have sorted : Computed boardCatalog "Person" workload.dependencies :=
    @Computed.sortOrder boardCatalog workload (List.forall_mem_singleton.mpr rfl)
  exact ⟨picked, shown, sorted, (merge_semilattice build_board picked shown sorted).2.1,
    (merge_semilattice build_board shown sorted picked).2.2.2.2.2.1 assignment⟩

end Samples

end LiveQuery
