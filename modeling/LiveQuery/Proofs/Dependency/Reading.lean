import LiveQuery.Proofs.Dependency.Touch
import LiveQuery.Proofs.Filter.Evaluation
import LiveQuery.Proofs.Store.Basic

set_option autoImplicit false

namespace LiveQuery

namespace Catalog.WellFormed

variable {catalog : Catalog} {name : String} {node : Node}

theorem edgeNode?_of_mem (wellFormed : catalog.WellFormed)
    (found : catalog.node? name = some node) {link : Edge} (inside : .edge link ∈ node.components) :
    catalog.edgeNode? name link.name = some link.head := by
  have component := wellFormed.components found _ inside
  rw [edgeNode?, found, Option.bind_some, show node.component? link.name = _ from component]
  rfl

theorem mem_of_reverseEdge? {relation : ReverseEdge} {key : String}
    (related : node.reverseEdge? key = some relation) :
    relation ∈ node.reverseEdges ∧ relation.name = key :=
  ⟨List.mem_of_find?_eq_some related, by simpa using List.find?_some related⟩

theorem edgeNode?_of_reverseEdge (wellFormed : catalog.WellFormed)
    (found : catalog.node? name = some node) {relation : ReverseEdge} {key : String}
    (related : node.reverseEdge? key = some relation) :
    catalog.edgeNode? relation.head relation.edge.name = some relation.edge.head := by
  obtain ⟨-, head, found', inside⟩ :=
    wellFormed.relations found relation (mem_of_reverseEdge? related).1
  exact wellFormed.edgeNode?_of_mem found' inside

end Catalog.WellFormed

namespace DependencyGraph

variable {catalog : Catalog}

/-- The second graph has all of the first one, at the same node, and is as well rooted. -/
structure Grows (catalog : Catalog) (graph more : DependencyGraph) : Prop where
  node : more.node = graph.node
  within : Within graph more
  rooted : Rooted catalog graph → Rooted catalog more

theorem Grows.refl (graph : DependencyGraph) : Grows catalog graph graph :=
  ⟨rfl, Within.refl graph, id⟩

theorem Grows.trans {a b c : DependencyGraph} (first : Grows catalog a b)
    (second : Grows catalog b c) : Grows catalog a c :=
  ⟨second.node.trans first.node, first.within.trans second.within, second.rooted ∘ first.rooted⟩

/-- A graph at a node whose relations are all those of the catalog. -/
structure At (catalog : Catalog) (node : String) (graph : DependencyGraph) : Prop where
  node : graph.node = node
  rooted : Rooted catalog graph

theorem at_empty (node : String) : At catalog node (.empty node) := ⟨rfl, trivial, trivial⟩

theorem at_unknown (node : String) : At catalog node (.unknown node) := ⟨rfl, trivial, trivial⟩

theorem at_nothing {node : String} : ∀ more, none = some more → At catalog node more := nofun

theorem At.grow {node : String} {graph more : DependencyGraph} (rooted : At catalog node graph)
    (grows : Grows catalog graph more) : At catalog node more :=
  ⟨grows.node.trans rooted.node, grows.rooted rooted.rooted⟩

theorem At.merge {node : String} {graph more : DependencyGraph} (first : At catalog node graph)
    (second : At catalog node more) :
    Grows catalog graph (graph.merge more) ∧ Within more (graph.merge more) :=
  ⟨⟨merge_node graph more, within_merge_left more graph, fun _ =>
      rooted_merge first.rooted second.rooted (first.node.trans second.node.symm)⟩,
    within_merge_right first.rooted second.rooted (first.node.trans second.node.symm)⟩

theorem At.mergeHead {node : String} {graph : DependencyGraph} {head : Option DependencyGraph}
    (first : At catalog node graph) (second : ∀ more, head = some more → At catalog node more) :
    Grows catalog graph (graph.mergeHead head) ∧
      ∀ more, head = some more → Within more (graph.mergeHead head) := by
  cases head with
  | none => exact ⟨Grows.refl graph, fun more same => by cases same⟩
  | some more =>
    obtain ⟨grows, within⟩ := first.merge (second more rfl)
    exact ⟨grows, fun more' same => by cases same; exact within⟩

theorem at_union {node : String} {graphs : List DependencyGraph}
    (each : ∀ graph ∈ graphs, At catalog node graph) :
    At catalog node (union node graphs) ∧ ∀ graph ∈ graphs, Within graph (union node graphs) := by
  have general : ∀ {start : DependencyGraph}, At catalog node start →
      Grows catalog start (graphs.foldl merge start) ∧
        ∀ graph ∈ graphs, Within graph (graphs.foldl merge start) := by
    induction graphs with
    | nil => exact fun {start} _ => ⟨Grows.refl start, fun _ inside => by cases inside⟩
    | cons graph rest ih =>
      intro start rooted
      rw [List.forall_mem_cons] at each
      obtain ⟨grows, within⟩ := rooted.merge each.1
      obtain ⟨later, behind⟩ := ih each.2 (rooted.grow grows)
      exact ⟨grows.trans later,
        List.forall_mem_cons.mpr ⟨within.trans later.within, behind⟩⟩
  obtain ⟨grows, within⟩ := general (at_empty node)
  exact ⟨(at_empty node).grow grows, within⟩

theorem grows_addLeaf (graph : DependencyGraph) (leaf : String) :
    Grows catalog graph (graph.addLeaf leaf) := by
  cases graph with
  | mk node hidden leaves edges reverseEdges =>
    exact ⟨rfl, ⟨rfl, id, fun name inside => Sorted.mem_insert.mpr (Or.inr inside),
      WithinRelations.of_subset _ _ fun _ => id, WithinRelations.of_subset _ _ fun _ => id⟩, id⟩

theorem reads_addLeaf (graph : DependencyGraph) (leaf : String) :
    (graph.addLeaf leaf).Reads leaf := Or.inl (Sorted.mem_insert.mpr (Or.inl rfl))

section Entries

variable {relations : List (String × DependencyGraph)} {leads : String → Option String}
  {name node : String} {prepare : DependencyGraph → DependencyGraph}
  {head : Option DependencyGraph}

/-- The entry of a relation once the relation has been read. -/
def entry (node : String) (prepare : DependencyGraph → DependencyGraph)
    (head : Option DependencyGraph) (present : Option DependencyGraph) : DependencyGraph :=
  (prepare (present.getD (.empty node))).mergeHead head

theorem at_entry (prepared : ∀ graph, At catalog node graph → Grows catalog graph (prepare graph))
    (below : ∀ more, head = some more → At catalog node more) {present : DependencyGraph}
    (rooted : At catalog node present) :
    Grows catalog present (entry node prepare head (some present)) :=
  have first := prepared present rooted
  first.trans ((rooted.grow first).mergeHead below).1

/-- Reading a relation adds an entry with all that is read behind it. -/
theorem alter_entry (rooted : RootedAt catalog leads relations) (known : leads name = some node)
    (prepared : ∀ graph, At catalog node graph → Grows catalog graph (prepare graph))
    (below : ∀ more, head = some more → At catalog node more) :
    RootedAt catalog leads (Sorted.alter relations name (entry node prepare head)) ∧
      WithinRelations relations (Sorted.alter relations name (entry node prepare head)) ∧
        ∃ start, At catalog node start ∧ (name, entry node prepare head (some start)) ∈
          Sorted.alter relations name (entry node prepare head) := by
  have here : ∀ present, (name, present) ∈ relations → At catalog node present := by
    intro present inside
    have both := rootedAt_iff.mp rooted _ inside
    exact ⟨Option.some.inj (both.1.symm.trans known), both.2⟩
  refine ⟨?_, ?_, ?_⟩
  · refine rootedAt_alter rooted ?_ fun present named rooted => ?_
    · have fresh := (at_empty node).grow (at_entry prepared below (at_empty node))
      exact ⟨known.trans (congrArg some fresh.node.symm), fresh.rooted⟩
    · have start : At catalog node present := ⟨Option.some.inj (named.symm.trans known), rooted⟩
      have grown := start.grow (at_entry prepared below start)
      exact ⟨known.trans (congrArg some grown.node.symm), grown.rooted⟩
  · exact withinRelations_alter fun present inside =>
      (at_entry prepared below (here present inside)).within
  · obtain ⟨front, back, old, whole, altered⟩ :=
      Sorted.alter_spec relations name (entry node prepare head)
    rw [altered]
    cases old with
    | none => exact ⟨_, at_empty node, List.mem_append_right _ (List.mem_cons_self ..)⟩
    | some present =>
      exact ⟨present, here present (by rw [whole]; simp),
        List.mem_append_right _ (List.mem_cons_self ..)⟩

end Entries

theorem addEdge_eq (graph : DependencyGraph) (link : Edge) (head : Option DependencyGraph) :
    graph.addEdge link head = { graph with
      edges := Sorted.alter graph.edges link.name (entry link.head id head) } := rfl

theorem addReverseEdge_eq (graph : DependencyGraph) (relation : ReverseEdge)
    (head : Option DependencyGraph) : graph.addReverseEdge relation head = { graph with
      reverseEdges := Sorted.alter graph.reverseEdges relation.name
        (entry relation.head (addEdge · relation.edge none) head) } := rfl

theorem addEdge_spec {graph : DependencyGraph} {link : Edge} {head : Option DependencyGraph}
    (rooted : Rooted catalog graph) (known : catalog.edgeNode? graph.node link.name = some link.head)
    (below : ∀ more, head = some more → At catalog link.head more) :
    Grows catalog graph (graph.addEdge link head) ∧
      ∃ nested, (link.name, nested) ∈ (graph.addEdge link head).edges ∧
        ∀ more, head = some more → Within more nested := by
  cases graph with
  | mk node hidden leaves edges reverseEdges =>
    have prepared : ∀ graph, At catalog link.head graph → Grows catalog graph (id graph) :=
      fun graph _ => Grows.refl graph
    obtain ⟨rooted', within, start, here, inside⟩ :=
      alter_entry rooted.1 known prepared below
    rw [addEdge_eq]
    exact ⟨⟨rfl, ⟨rfl, id, fun _ => id, within, WithinRelations.of_subset _ _ fun _ => id⟩,
      fun _ => ⟨rooted', rooted.2⟩⟩, _, inside, (here.mergeHead below).2⟩

/-- Reading a reverse edge of the graph's node. The edge behind it is always read. -/
theorem addReverseEdge_spec {graph : DependencyGraph} {relation : ReverseEdge}
    {head : Option DependencyGraph} (rooted : Rooted catalog graph)
    (known : catalog.reverseNode? graph.node relation.name = some relation.head)
    (known' : catalog.edgeNode? relation.head relation.edge.name = some relation.edge.head)
    (below : ∀ more, head = some more → At catalog relation.head more) :
    Grows catalog graph (graph.addReverseEdge relation head) ∧
      ∃ nested, (relation.name, nested) ∈ (graph.addReverseEdge relation head).reverseEdges ∧
        nested.node = relation.head ∧ nested.Reads relation.edge.name ∧
          ∀ more, head = some more → Within more nested := by
  cases graph with
  | mk node hidden leaves edges reverseEdges =>
    have step : ∀ graph, At catalog relation.head graph →
        Grows catalog graph (graph.addEdge relation.edge none) ∧
          (graph.addEdge relation.edge none).Reads relation.edge.name := by
      intro graph here
      obtain ⟨grows, nested, inside, -⟩ := addEdge_spec here.rooted (here.node ▸ known') at_nothing
      exact ⟨grows, Or.inr ⟨nested, inside⟩⟩
    have prepared := fun graph here => (step graph here).1
    obtain ⟨rooted', within, start, here, inside⟩ :=
      alter_entry rooted.2 known prepared below
    have grown := here.grow (prepared start here)
    obtain ⟨last, heads⟩ := grown.mergeHead below
    rw [addReverseEdge_eq]
    exact ⟨⟨rfl, ⟨rfl, id, fun _ => id, WithinRelations.of_subset _ _ fun _ => id, within⟩,
      fun _ => ⟨rooted.1, rooted'⟩⟩, _, inside, (grown.grow last).node,
      (step start here).2.of_within last.within, heads⟩

section Touching

variable {node : String} {graph : DependencyGraph} {change : Change}

theorem touchedBy_addLeaf {leaf : String}
    (changes : Predicate.changesComponent graph.node leaf change = true) :
    (graph.addLeaf leaf).touchedBy change = true :=
  touchedBy_of_reads (reads_addLeaf graph leaf) changes

theorem At.touchedBy_addEdge (here : At catalog node graph) {link : Edge}
    (known : catalog.edgeNode? node link.name = some link.head) {head : Option DependencyGraph}
    (below : ∀ more, head = some more → At catalog link.head more)
    (touched : Predicate.changesComponent node link.name change = true ∨
      ∃ more, head = some more ∧ more.touchedBy change = true) :
    (graph.addEdge link head).touchedBy change = true := by
  obtain ⟨grows, nested, inside, within⟩ :=
    addEdge_spec here.rooted (here.node ▸ known) below
  rcases touched with changes | ⟨more, same, touches⟩
  · refine touchedBy_of_reads (Or.inr ⟨nested, inside⟩) ?_
    rw [grows.node, here.node]
    exact changes
  · exact touchedBy_of_edge inside (touchedBy_of_within (within more same) touches)

/-- A change of the edge behind a relation, or of what is read of its heads, touches every graph
that reads the relation. -/
theorem At.touchedBy_addReverseEdge (here : At catalog node graph) {relation : ReverseEdge}
    (known : catalog.reverseNode? node relation.name = some relation.head)
    (known' : catalog.edgeNode? relation.head relation.edge.name = some relation.edge.head)
    {head : Option DependencyGraph}
    (below : ∀ more, head = some more → At catalog relation.head more)
    (touched : Predicate.changesComponent relation.head relation.edge.name change = true ∨
      ∃ more, head = some more ∧ more.touchedBy change = true) :
    (graph.addReverseEdge relation head).touchedBy change = true := by
  obtain ⟨-, nested, inside, at_, reads, within⟩ :=
    addReverseEdge_spec here.rooted (here.node ▸ known) known' below
  refine touchedBy_of_reverseEdge inside ?_
  rcases touched with changes | ⟨more, same, touches⟩
  · exact touchedBy_of_reads reads (at_ ▸ changes)
  · exact touchedBy_of_within (within more same) touches

end Touching

end DependencyGraph

namespace Predicate

open DependencyGraph

variable {catalog : Catalog}

theorem dependenciesAll_eq_map (node : String) (operands : List Predicate) :
    dependenciesAll node operands = operands.map (·.dependencies node) := by
  induction operands with
  | nil => rfl
  | cons operand rest ih => rw [dependenciesAll, ih, List.map_cons]

mutual

/-- Whether every relation that a predicate follows is the catalog's own. Leaves and plain SQL may
be anything. -/
def charted (catalog : Catalog) (node : String) : Predicate → Bool
  | .constant _ | .leaf _ _ _ | .raw _ => true
  | .junction _ operands => chartedAll catalog node operands
  | .negation operand => charted catalog node operand
  | .edge link head =>
    (catalog.node? node).bind (·.component? link.name) = some (.edge link) &&
      chartedHead catalog link.head head
  | .reverse relation head =>
    (catalog.node? node).bind (·.reverseEdge? relation.name) = some relation &&
      chartedHead catalog relation.head head
  | .count relation _ _ =>
    (catalog.node? node).bind (·.reverseEdge? relation.name) = some relation

def chartedAll (catalog : Catalog) (node : String) : List Predicate → Bool
  | [] => true
  | operand :: rest => charted catalog node operand && chartedAll catalog node rest

def chartedHead (catalog : Catalog) (node : String) : Option Predicate → Bool
  | none => true
  | some head => charted catalog node head

end

theorem chartedAll_iff {node : String} {operands : List Predicate} :
    chartedAll catalog node operands = true ↔
      ∀ operand ∈ operands, operand.charted catalog node = true := by
  induction operands with
  | nil => simp [chartedAll]
  | cons operand rest ih => rw [chartedAll, Bool.and_eq_true, ih, List.forall_mem_cons]

theorem charted_of_fits {predicate : Predicate} {node : String}
    (fits : predicate.fits catalog node = true) : predicate.charted catalog node = true := by
  induction predicate generalizing node with
  | constant | leaf | raw => rfl
  | junction kind operands ih =>
    rw [Predicate.fits, fitsAll_iff] at fits
    rw [charted, chartedAll_iff]
    exact fun operand inside => ih operand inside (fits operand inside)
  | negation operand ih => exact ih fits
  | edge link head ih =>
    rw [Predicate.fits, Bool.and_eq_true] at fits
    rw [charted, Bool.and_eq_true]
    refine ⟨fits.1, ?_⟩
    cases head with
    | none => rfl
    | some head => exact ih head rfl fits.2
  | reverse relation head ih =>
    rw [Predicate.fits, Bool.and_eq_true] at fits
    rw [charted, Bool.and_eq_true]
    refine ⟨fits.1, ?_⟩
    cases head with
    | none => rfl
    | some head => exact ih head rfl fits.2
  | count relation comparison number =>
    rw [Predicate.fits, Bool.and_eq_true] at fits
    exact fits.1

theorem chartedHead_of_fits {head : Option Predicate} {node : String}
    (fits : fitsHead catalog node head = true) : chartedHead catalog node head = true := by
  cases head with
  | none => rfl
  | some head => exact charted_of_fits fits

theorem edgeNode?_of_charted {node : String} {link : Edge} {head : Option Predicate}
    (charted : (Predicate.edge link head).charted catalog node = true) :
    catalog.edgeNode? node link.name = some link.head := by
  rw [Predicate.charted, Bool.and_eq_true, decide_eq_true_iff] at charted
  rw [Catalog.edgeNode?, charted.1]
  rfl

theorem reverseNode?_of_known {node : String} {relation : ReverseEdge}
    (known : (catalog.node? node).bind (·.reverseEdge? relation.name) = some relation) :
    catalog.reverseNode? node relation.name = some relation.head := by
  rw [Catalog.reverseNode?, known]
  rfl

theorem edgeNode?_of_known (wellFormed : catalog.WellFormed) {node : String}
    {relation : ReverseEdge}
    (known : (catalog.node? node).bind (·.reverseEdge? relation.name) = some relation) :
    catalog.edgeNode? relation.head relation.edge.name = some relation.edge.head := by
  obtain ⟨definition, found, related⟩ := Option.bind_eq_some_iff.mp known
  exact wellFormed.edgeNode?_of_reverseEdge found related

/-- A predicate reads relations at the nodes that have them. -/
theorem at_dependencies (wellFormed : catalog.WellFormed) {predicate : Predicate} {node : String}
    (charted : predicate.charted catalog node = true) : At catalog node (predicate.dependencies node) := by
  induction predicate generalizing node with
  | constant value => exact at_empty node
  | junction kind operands ih =>
    rw [Predicate.charted, chartedAll_iff] at charted
    rw [dependencies, dependenciesAll_eq_map]
    exact (at_union (List.forall_mem_map.mpr fun operand inside =>
      ih operand inside (charted operand inside))).1
  | negation operand ih => exact ih charted
  | leaf field operator expected => exact (at_empty node).grow (grows_addLeaf _ _)
  | edge link head ih =>
    refine (at_empty node).grow (addEdge_spec (at_empty node).rooted (edgeNode?_of_charted charted) ?_).1
    intro more same
    rw [Predicate.charted, Bool.and_eq_true] at charted
    cases head with
    | none => cases same
    | some head =>
      cases same
      exact ih head rfl charted.2
  | reverse relation head ih =>
    rw [Predicate.charted, Bool.and_eq_true, decide_eq_true_iff] at charted
    refine (at_empty node).grow (addReverseEdge_spec (at_empty node).rooted
      (reverseNode?_of_known charted.1) (edgeNode?_of_known wellFormed charted.1) ?_).1
    intro more same
    cases head with
    | none => cases same
    | some head =>
      cases same
      exact ih head rfl charted.2
  | count relation comparison number =>
    have known := of_decide_eq_true charted
    exact (at_empty node).grow (addReverseEdge_spec (at_empty node).rooted
      (reverseNode?_of_known known) (edgeNode?_of_known wellFormed known) at_nothing).1
  | raw sql => exact at_unknown node

theorem at_dependenciesHead (wellFormed : catalog.WellFormed) {head : Option Predicate}
    {node : String} (charted : chartedHead catalog node head = true) :
    ∀ more, dependenciesHead node head = some more → At catalog node more := by
  intro more same
  cases head with
  | none => cases same
  | some head =>
    cases same
    exact at_dependencies wellFormed charted

end Predicate

end LiveQuery
