import LiveQuery.Impact.Affected
import LiveQuery.Proofs.Dependency.Within

set_option autoImplicit false

namespace LiveQuery

theorem Sorted.get?_isSome_iff {α : Type} {entries : List (String × α)} {name : String} :
    (Sorted.get? entries name).isSome = true ↔ ∃ value, (name, value) ∈ entries := by
  induction entries with
  | nil => simp [get?]
  | cons entry rest ih =>
    obtain ⟨first, value⟩ := entry
    by_cases same : name = first
    · subst same
      simp only [get?, ↓reduceIte, Option.isSome_some, true_iff]
      exact ⟨value, List.mem_cons_self ..⟩
    · simp only [get?, same, ↓reduceIte, ih, List.mem_cons, Prod.mk.injEq, false_and, false_or]

namespace DependencyGraph

theorem anywhereIn_iff {test : DependencyGraph → Bool}
    {relations : List (String × DependencyGraph)} :
    anywhereIn test relations = true ↔ ∃ entry ∈ relations, anywhere test entry.2 = true := by
  induction relations with
  | nil => simp [anywhereIn]
  | cons entry rest ih =>
    rw [anywhereIn, Bool.or_eq_true, ih, List.exists_mem_cons_iff]

theorem anywhere_iff {test : DependencyGraph → Bool} {graph : DependencyGraph} :
    graph.anywhere test = true ↔ test graph = true ∨
      (∃ entry ∈ graph.edges, anywhere test entry.2 = true) ∨
        ∃ entry ∈ graph.reverseEdges, anywhere test entry.2 = true := by
  cases graph
  rw [anywhere, Bool.or_eq_true, Bool.or_eq_true, anywhereIn_iff, anywhereIn_iff, or_assoc]

mutual

theorem anywhere_mono {test : DependencyGraph → Bool}
    (grows : ∀ {a b : DependencyGraph}, Within a b → test a = true → test b = true) :
    ∀ {graph other : DependencyGraph}, Within graph other → graph.anywhere test = true →
      other.anywhere test = true
  | ⟨node, hidden, leaves, edges, reverseEdges⟩, other, within, passed => by
    rw [anywhere, Bool.or_eq_true, Bool.or_eq_true] at passed
    rw [anywhere_iff]
    rcases passed with (here | below) | behind
    · exact Or.inl (grows within here)
    · exact Or.inr (Or.inl (anywhereIn_mono grows within.2.2.2.1 below))
    · exact Or.inr (Or.inr (anywhereIn_mono grows within.2.2.2.2 behind))

theorem anywhereIn_mono {test : DependencyGraph → Bool}
    (grows : ∀ {a b : DependencyGraph}, Within a b → test a = true → test b = true) :
    ∀ {relations others : List (String × DependencyGraph)}, WithinRelations relations others →
      anywhereIn test relations = true → ∃ entry ∈ others, anywhere test entry.2 = true
  | [], _, _, passed => by
    rw [anywhereIn] at passed
    exact absurd passed Bool.false_ne_true
  | (name, graph) :: rest, others, ⟨⟨other, inside, within⟩, behind⟩, passed => by
    rw [anywhereIn, Bool.or_eq_true] at passed
    rcases passed with here | later
    · exact ⟨(name, other), inside, anywhere_mono grows within here⟩
    · exact anywhereIn_mono grows behind later

end

/-- A component that the graph reads at its own node. -/
def Reads (graph : DependencyGraph) (name : String) : Prop :=
  name ∈ graph.leaves ∨ ∃ nested, (name, nested) ∈ graph.edges

theorem Reads.of_within {graph other : DependencyGraph} {name : String} (reads : graph.Reads name)
    (within : Within graph other) : other.Reads name := by
  cases graph with
  | mk node hidden leaves edges reverseEdges =>
    rcases reads with leaf | ⟨nested, inside⟩
    · exact Or.inl (within.2.2.1 name leaf)
    · obtain ⟨larger, inside', _⟩ := withinRelations_iff.mp within.2.2.2.1 _ inside
      exact Or.inr ⟨larger, inside'⟩

theorem readsDirectly_iff {graph : DependencyGraph} :
    graph.readsDirectly = true ↔ graph.hidden = true ∨ ∃ name, graph.Reads name := by
  unfold readsDirectly
  rw [Bool.or_eq_true, Bool.or_eq_true, Bool.not_eq_true', Bool.not_eq_true',
    List.isEmpty_eq_false_iff_exists_mem, List.isEmpty_eq_false_iff_exists_mem, or_assoc]
  refine or_congr Iff.rfl ⟨?_, ?_⟩
  · rintro (⟨leaf, inside⟩ | ⟨entry, inside⟩)
    · exact ⟨leaf, Or.inl inside⟩
    · exact ⟨entry.1, Or.inr ⟨entry.2, inside⟩⟩
  · rintro ⟨name, leaf | ⟨nested, inside⟩⟩
    · exact Or.inl ⟨name, leaf⟩
    · exact Or.inr ⟨(name, nested), inside⟩

/-- Whether a change touches what a graph reads of its own node. -/
def touchedHere (change : Change) (graph : DependencyGraph) : Bool :=
  graph.hidden || (graph.node = change.node.name &&
    if change.isExistence then graph.readsDirectly
    else change.updated.any fun name =>
      graph.leaves.contains name || (Sorted.get? graph.edges name).isSome)

theorem touchedBy_eq_anywhere (graph : DependencyGraph) (change : Change) :
    graph.touchedBy change = graph.anywhere (touchedHere change) := by
  unfold touchedBy mentions readsAny
  by_cases existence : change.isExistence = true
  · rw [if_pos existence]
    congr 1
    funext nested
    rw [touchedHere, if_pos existence]
  · rw [if_neg existence]
    congr 1
    funext nested
    rw [touchedHere, if_neg existence]

theorem touchedHere_iff {change : Change} {graph : DependencyGraph} :
    touchedHere change graph = true ↔ graph.hidden = true ∨ (graph.node = change.node.name ∧
      if change.isExistence then graph.hidden = true ∨ ∃ name, graph.Reads name
      else ∃ name, change.touches name = true ∧ graph.Reads name) := by
  unfold touchedHere
  rw [Bool.or_eq_true, Bool.and_eq_true, decide_eq_true_iff]
  by_cases existence : change.isExistence = true
  · rw [if_pos existence, if_pos existence, readsDirectly_iff]
  · simp only [if_neg existence]
    simp only [List.any_eq_true, Bool.or_eq_true, List.contains_iff_mem, Sorted.get?_isSome_iff,
      Change.touches, Reads]

theorem touchedHere_of_within {change : Change} {graph other : DependencyGraph}
    (within : Within graph other) (touched : touchedHere change graph = true) :
    touchedHere change other = true := by
  have node : graph.node = other.node := by
    cases graph
    exact within.1
  have hidden : graph.hidden = true → other.hidden = true := by
    cases graph
    exact within.2.1
  rw [touchedHere_iff] at touched ⊢
  refine touched.imp hidden fun ⟨here, reads⟩ => ⟨node ▸ here, ?_⟩
  by_cases existence : change.isExistence = true
  · rw [if_pos existence] at reads ⊢
    exact reads.imp hidden fun ⟨name, read⟩ => ⟨name, read.of_within within⟩
  · rw [if_neg existence] at reads ⊢
    exact reads.imp fun name read => ⟨read.1, read.2.of_within within⟩

/-- A change that touches a graph touches every graph that contains it. -/
theorem touchedBy_of_within {change : Change} {graph other : DependencyGraph}
    (within : Within graph other) (touched : graph.touchedBy change = true) :
    other.touchedBy change = true := by
  rw [touchedBy_eq_anywhere] at touched ⊢
  exact anywhere_mono touchedHere_of_within within touched

theorem touchedBy_of_edge {change : Change} {graph nested : DependencyGraph} {name : String}
    (inside : (name, nested) ∈ graph.edges) (touched : nested.touchedBy change = true) :
    graph.touchedBy change = true := by
  rw [touchedBy_eq_anywhere] at touched ⊢
  exact anywhere_iff.mpr (Or.inr (Or.inl ⟨_, inside, touched⟩))

theorem touchedBy_of_reverseEdge {change : Change} {graph nested : DependencyGraph} {name : String}
    (inside : (name, nested) ∈ graph.reverseEdges) (touched : nested.touchedBy change = true) :
    graph.touchedBy change = true := by
  rw [touchedBy_eq_anywhere] at touched ⊢
  exact anywhere_iff.mpr (Or.inr (Or.inr ⟨_, inside, touched⟩))

theorem touchedBy_of_reads {change : Change} {graph : DependencyGraph} {name : String}
    (reads : graph.Reads name)
    (changed : Predicate.changesComponent graph.node name change = true) :
    graph.touchedBy change = true := by
  unfold Predicate.changesComponent at changed
  rw [Bool.and_eq_true, Bool.or_eq_true, decide_eq_true_iff] at changed
  rw [touchedBy_eq_anywhere]
  refine anywhere_iff.mpr (Or.inl (touchedHere_iff.mpr (Or.inr ⟨changed.1.symm, ?_⟩)))
  by_cases existence : change.isExistence = true
  · rw [if_pos existence]
    exact Or.inr ⟨name, reads⟩
  · rw [if_neg existence]
    exact ⟨name, changed.2.resolve_left existence, reads⟩

end DependencyGraph

end LiveQuery
