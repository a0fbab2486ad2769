import LiveQuery.Change
import LiveQuery.Dependency
import LiveQuery.Proofs.Catalog.WellFormed

set_option autoImplicit false

namespace LiveQuery

namespace Sorted

variable {α : Type}

theorem alter_spec (entries : List (String × α)) (name : String) (change : Option α → α) :
    ∃ front back old, entries = front ++ (Option.map (name, ·) old).toList ++ back ∧
      alter entries name change = front ++ (name, change old) :: back := by
  induction entries with
  | nil => exact ⟨[], [], none, rfl, rfl⟩
  | cons entry rest ih =>
    by_cases less : name < entry.1
    · exact ⟨[], entry :: rest, none, rfl, by simp [alter, less]⟩
    · by_cases same : name = entry.1
      · subst same
        exact ⟨[], rest, some entry.2, rfl, by simp only [alter, less, ↓reduceIte, List.nil_append]⟩
      · obtain ⟨front, back, old, whole, altered⟩ := ih
        refine ⟨entry :: front, back, old, ?_, ?_⟩
        · rw [whole]
          rfl
        · simp [alter, less, same, altered]

theorem mem_insert {name other : String} {names : List String} :
    other ∈ insert name names ↔ other = name ∨ other ∈ names := by
  induction names with
  | nil => simp [insert]
  | cons first rest ih =>
    unfold insert
    by_cases less : name < first
    · simp [less]
    · by_cases same : name = first
      · simp [same]
      · simp only [less, same, ↓reduceIte, List.mem_cons, ih]
        exact or_left_comm

theorem mem_union {other : String} {names more : List String} :
    other ∈ union names more ↔ other ∈ names ∨ other ∈ more := by
  unfold union
  induction more generalizing names with
  | nil => simp
  | cons first rest ih =>
    rw [List.foldl_cons, ih, mem_insert, List.mem_cons, or_assoc, or_left_comm]

end Sorted

namespace Catalog

/-- The node that an edge leads to, by the names of its node and of the edge. -/
def edgeNode? (catalog : Catalog) (node name : String) : Option String :=
  ((catalog.node? node).bind (·.component? name)).bind fun component =>
    component.edge?.map (·.head)

/-- The node of the heads of a reverse edge. -/
def reverseNode? (catalog : Catalog) (node name : String) : Option String :=
  ((catalog.node? node).bind (·.reverseEdge? name)).map (·.head)

end Catalog

namespace DependencyGraph

mutual

/-- What the first graph lists the second one lists too. -/
def Within : DependencyGraph → DependencyGraph → Prop
  | ⟨node, hidden, leaves, edges, reverseEdges⟩, other =>
    node = other.node ∧ (hidden = true → other.hidden = true) ∧
      (∀ leaf ∈ leaves, leaf ∈ other.leaves) ∧ WithinRelations edges other.edges ∧
        WithinRelations reverseEdges other.reverseEdges

def WithinRelations :
    List (String × DependencyGraph) → List (String × DependencyGraph) → Prop
  | [], _ => True
  | (name, graph) :: rest, others =>
    (∃ other, (name, other) ∈ others ∧ Within graph other) ∧ WithinRelations rest others

end

theorem withinRelations_iff {relations others : List (String × DependencyGraph)} :
    WithinRelations relations others ↔
      ∀ entry ∈ relations, ∃ other, (entry.1, other) ∈ others ∧ Within entry.2 other := by
  induction relations with
  | nil => simp [WithinRelations]
  | cons entry rest ih => rw [WithinRelations, ih, List.forall_mem_cons]

mutual

theorem Within.refl : ∀ graph : DependencyGraph, Within graph graph
  | ⟨_, _, _, edges, reverseEdges⟩ =>
    ⟨rfl, id, fun _ => id, WithinRelations.of_subset edges edges fun _ => id,
      WithinRelations.of_subset reverseEdges reverseEdges fun _ => id⟩

theorem WithinRelations.of_subset : ∀ relations others : List (String × DependencyGraph),
    (∀ entry ∈ relations, entry ∈ others) → WithinRelations relations others
  | [], _, _ => trivial
  | (_, graph) :: rest, others, included =>
    ⟨⟨graph, included _ (List.mem_cons_self ..), Within.refl graph⟩,
      WithinRelations.of_subset rest others fun entry inside =>
        included entry (List.mem_cons_of_mem _ inside)⟩

end

mutual

theorem Within.trans : ∀ {a b c : DependencyGraph}, Within a b → Within b c → Within a c
  | ⟨_, _, _, _, _⟩, ⟨_, _, _, _, _⟩, ⟨_, _, _, _, _⟩,
      ⟨node, hidden, leaves, first, first'⟩, ⟨node', hidden', leaves', second, second'⟩ =>
    ⟨node.trans node', hidden' ∘ hidden, fun leaf inside => leaves' leaf (leaves leaf inside),
      WithinRelations.trans first second, WithinRelations.trans first' second'⟩

theorem WithinRelations.trans : ∀ {as bs cs : List (String × DependencyGraph)},
    WithinRelations as bs → WithinRelations bs cs → WithinRelations as cs
  | [], _, _, _, _ => trivial
  | (name, graph) :: rest, bs, cs, ⟨⟨other, inside, within⟩, behind⟩, second => by
    obtain ⟨last, inside', within'⟩ := withinRelations_iff.mp second _ inside
    exact ⟨⟨last, inside', Within.trans within within'⟩, WithinRelations.trans behind second⟩

end

theorem withinRelations_alter {relations : List (String × DependencyGraph)} {name : String}
    {change : Option DependencyGraph → DependencyGraph}
    (grows : ∀ present, (name, present) ∈ relations → Within present (change (some present))) :
    WithinRelations relations (Sorted.alter relations name change) := by
  obtain ⟨front, back, old, whole, altered⟩ := Sorted.alter_spec relations name change
  rw [withinRelations_iff, altered]
  intro entry inside
  have parts := inside
  rw [whole, List.mem_append, List.mem_append, Option.mem_toList,
    Option.map_eq_some_iff] at parts
  rcases parts with (before | ⟨present, rfl, rfl⟩) | behind
  · exact ⟨entry.2, List.mem_append_left _ before, Within.refl _⟩
  · exact ⟨_, List.mem_append_right _ (List.mem_cons_self ..), grows present inside⟩
  · exact ⟨entry.2, List.mem_append_right _ (List.mem_cons_of_mem _ behind), Within.refl _⟩

/-- What becomes of an entry when a graph is merged into it. -/
def mergeInto (graph : DependencyGraph) : Option DependencyGraph → DependencyGraph
  | some present => present.merge graph
  | none => graph

theorem mergeRelations_cons (known : List (String × DependencyGraph)) (name : String)
    (graph : DependencyGraph) (rest : List (String × DependencyGraph)) :
    mergeRelations known ((name, graph) :: rest) =
      mergeRelations (Sorted.alter known name (mergeInto graph)) rest := rfl

@[simp] theorem merge_node (graph more : DependencyGraph) :
    (graph.merge more).node = graph.node := by
  cases more
  rfl

mutual

theorem within_merge_left : ∀ more graph : DependencyGraph, Within graph (graph.merge more)
  | ⟨_, hidden, leaves, edges, reverseEdges⟩, graph => by
    cases graph with
    | mk node hidden' leaves' edges' reverseEdges' =>
      rw [merge]
      exact ⟨rfl, fun known => by simp only [known, Bool.true_or],
        fun leaf inside => Sorted.mem_union.mpr (Or.inl inside),
        within_mergeRelations_left edges edges',
        within_mergeRelations_left reverseEdges reverseEdges'⟩

theorem within_mergeRelations_left : ∀ more known : List (String × DependencyGraph),
    WithinRelations known (mergeRelations known more)
  | [], known => WithinRelations.of_subset _ _ fun _ => id
  | (name, graph) :: rest, known => by
    rw [mergeRelations_cons]
    refine WithinRelations.trans (withinRelations_alter fun present _ => ?_)
      (within_mergeRelations_left rest _)
    exact within_merge_left graph present

end

mutual

/-- Every relation of the graph leads to the node that it leads to in the catalog. -/
def Rooted (catalog : Catalog) : DependencyGraph → Prop
  | ⟨node, _, _, edges, reverseEdges⟩ =>
    RootedAt catalog (catalog.edgeNode? node) edges ∧
      RootedAt catalog (catalog.reverseNode? node) reverseEdges

def RootedAt (catalog : Catalog) (leads : String → Option String) :
    List (String × DependencyGraph) → Prop
  | [] => True
  | (name, graph) :: rest =>
    (leads name = some graph.node ∧ Rooted catalog graph) ∧ RootedAt catalog leads rest

end

variable {catalog : Catalog}

theorem rootedAt_iff {leads : String → Option String}
    {relations : List (String × DependencyGraph)} :
    RootedAt catalog leads relations ↔
      ∀ entry ∈ relations, leads entry.1 = some entry.2.node ∧ Rooted catalog entry.2 := by
  induction relations with
  | nil => simp [RootedAt]
  | cons entry rest ih => rw [RootedAt, ih, List.forall_mem_cons]

theorem rootedAt_alter {leads : String → Option String}
    {relations : List (String × DependencyGraph)} {name : String}
    {change : Option DependencyGraph → DependencyGraph}
    (rooted : RootedAt catalog leads relations)
    (fresh : leads name = some (change none).node ∧ Rooted catalog (change none))
    (changed : ∀ present, leads name = some present.node → Rooted catalog present →
      leads name = some (change (some present)).node ∧ Rooted catalog (change (some present))) :
    RootedAt catalog leads (Sorted.alter relations name change) := by
  obtain ⟨front, back, old, whole, altered⟩ := Sorted.alter_spec relations name change
  rw [rootedAt_iff] at rooted ⊢
  rw [altered]
  rw [whole] at rooted
  intro entry inside
  rcases List.mem_append.mp inside with before | behind
  · exact rooted entry (by simp [before])
  · rcases List.mem_cons.mp behind with rfl | behind
    · cases old with
      | none => exact fresh
      | some present =>
        have known := rooted (name, present) (by simp)
        exact changed present known.1 known.2
    · exact rooted entry (by simp [behind])

mutual

theorem rooted_merge : ∀ {more graph : DependencyGraph}, Rooted catalog graph →
    Rooted catalog more → graph.node = more.node → Rooted catalog (graph.merge more)
  | ⟨node, _, _, edges, reverseEdges⟩, graph, first, second, same => by
    cases graph with
    | mk node' hidden leaves edges' reverseEdges' =>
      have same : node' = node := same
      subst same
      rw [merge]
      exact ⟨rootedAt_mergeRelations first.1 second.1, rootedAt_mergeRelations first.2 second.2⟩

theorem rootedAt_mergeRelations : ∀ {more known : List (String × DependencyGraph)}
    {leads : String → Option String}, RootedAt catalog leads known →
    RootedAt catalog leads more → RootedAt catalog leads (mergeRelations known more)
  | [], _, _, first, _ => first
  | (name, graph) :: rest, known, leads, first, second => by
    rw [mergeRelations_cons]
    exact rootedAt_mergeRelations (rootedAt_mergeInto first second.1.1 second.1.2) second.2

theorem rootedAt_mergeInto : ∀ {graph : DependencyGraph} {known : List (String × DependencyGraph)}
    {name : String} {leads : String → Option String}, RootedAt catalog leads known →
    leads name = some graph.node → Rooted catalog graph →
    RootedAt catalog leads (Sorted.alter known name (mergeInto graph))
  | graph, known, name, leads, first, named, second =>
    rootedAt_alter first ⟨named, second⟩ fun present named' rooted =>
      ⟨by rw [mergeInto, merge_node, named'],
        rooted_merge rooted second (Option.some.inj (named'.symm.trans named))⟩

end

mutual

theorem within_merge_right : ∀ {more graph : DependencyGraph}, Rooted catalog graph →
    Rooted catalog more → graph.node = more.node → Within more (graph.merge more)
  | ⟨node, _, _, edges, reverseEdges⟩, graph, first, second, same => by
    cases graph with
    | mk node' hidden leaves edges' reverseEdges' =>
      have same : node' = node := same
      subst same
      rw [merge]
      exact ⟨rfl, fun known => by simp only [known, Bool.or_true],
        fun leaf inside => Sorted.mem_union.mpr (Or.inr inside),
        within_mergeRelations_right first.1 second.1, within_mergeRelations_right first.2 second.2⟩

theorem within_mergeRelations_right : ∀ {more known : List (String × DependencyGraph)}
    {leads : String → Option String}, RootedAt catalog leads known →
    RootedAt catalog leads more → WithinRelations more (mergeRelations known more)
  | [], _, _, _, _ => trivial
  | (name, graph) :: rest, known, leads, first, second => by
    rw [mergeRelations_cons]
    refine ⟨?_, within_mergeRelations_right
      (rootedAt_mergeInto first second.1.1 second.1.2) second.2⟩
    obtain ⟨front, back, old, whole, altered⟩ := Sorted.alter_spec known name (mergeInto graph)
    have grown := within_mergeRelations_left rest (Sorted.alter known name (mergeInto graph))
    have inside : (name, mergeInto graph old) ∈ Sorted.alter known name (mergeInto graph) := by
      rw [altered]
      exact List.mem_append_right _ (List.mem_cons_self ..)
    obtain ⟨last, member, within⟩ := withinRelations_iff.mp grown _ inside
    refine ⟨last, member, Within.trans ?_ within⟩
    cases old with
    | none => exact Within.refl graph
    | some present =>
      have known' := rootedAt_iff.mp first (name, present) (by rw [whole]; simp)
      exact within_merge_right known'.2 second.1.2
        (Option.some.inj (known'.1.symm.trans second.1.1))

end

end DependencyGraph

end LiveQuery
