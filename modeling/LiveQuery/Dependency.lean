import LiveQuery.Catalog.Basic
import LiveQuery.Sorted

set_option autoImplicit false

namespace LiveQuery

/-- `hidden` marks reads that cannot be told, as those of plain SQL. -/
structure DependencyGraph where
  node : String
  hidden : Bool
  leaves : List String
  edges : List (String × DependencyGraph)
  reverseEdges : List (String × DependencyGraph)

namespace DependencyGraph

/-- Nothing of the node is read. -/
def empty (node : String) : DependencyGraph := ⟨node, false, [], [], []⟩

def unknown (node : String) : DependencyGraph := ⟨node, true, [], [], []⟩

mutual

/-- Whatever is read by either of two graphs with one root. -/
def merge (graph : DependencyGraph) : DependencyGraph → DependencyGraph
  | ⟨_, hidden, leaves, edges, reverseEdges⟩ =>
    { node := graph.node
      hidden := graph.hidden || hidden
      leaves := Sorted.union graph.leaves leaves
      edges := mergeRelations graph.edges edges
      reverseEdges := mergeRelations graph.reverseEdges reverseEdges }

def mergeRelations (known : List (String × DependencyGraph)) :
    List (String × DependencyGraph) → List (String × DependencyGraph)
  | [] => known
  | (name, graph) :: rest =>
    let merged := Sorted.alter known name fun
      | some present => merge present graph
      | none => graph
    mergeRelations merged rest

end

def union (node : String) (graphs : List DependencyGraph) : DependencyGraph :=
  graphs.foldl merge (.empty node)

def addLeaf (graph : DependencyGraph) (leaf : String) : DependencyGraph :=
  { graph with leaves := Sorted.insert leaf graph.leaves }

def mergeHead (graph : DependencyGraph) : Option DependencyGraph → DependencyGraph
  | some head => graph.merge head
  | none => graph

/-- Reading an edge, and with it what is read of its head. -/
def addEdge (graph : DependencyGraph) (edge : Edge) (head : Option DependencyGraph) :
    DependencyGraph :=
  { graph with
    edges := Sorted.alter graph.edges edge.name fun present =>
      mergeHead (present.getD (.empty edge.head)) head }

/-- Following a reverse edge always reads the edge itself, since a change of parent changes where
it leads. -/
def addReverseEdge (graph : DependencyGraph) (relation : ReverseEdge)
    (head : Option DependencyGraph) : DependencyGraph :=
  { graph with
    reverseEdges := Sorted.alter graph.reverseEdges relation.name fun present =>
      let nested := present.getD (.empty relation.head)
      mergeHead (nested.addEdge relation.edge none) head }

def isEmpty (graph : DependencyGraph) : Bool :=
  !graph.hidden && graph.leaves.isEmpty && graph.edges.isEmpty && graph.reverseEdges.isEmpty

def readsDirectly (graph : DependencyGraph) : Bool :=
  graph.hidden || !graph.leaves.isEmpty || !graph.edges.isEmpty

mutual

/-- Whether a test holds for the graph or for one nested in it. -/
def anywhere (test : DependencyGraph → Bool) (graph : DependencyGraph) : Bool :=
  match graph with
  | ⟨node, hidden, leaves, edges, reverseEdges⟩ =>
    test ⟨node, hidden, leaves, edges, reverseEdges⟩ || anywhereIn test edges ||
      anywhereIn test reverseEdges

def anywhereIn (test : DependencyGraph → Bool) (relations : List (String × DependencyGraph)) :
    Bool :=
  match relations with
  | [] => false
  | (_, graph) :: rest => anywhere test graph || anywhereIn test rest

end

/-- Whether anything of the node is read anywhere. -/
def mentions (graph : DependencyGraph) (node : String) : Bool :=
  graph.anywhere fun nested => nested.hidden || (nested.node = node && nested.readsDirectly)

/-- Whether any of those components of the node is read anywhere. -/
def readsAny (graph : DependencyGraph) (node : String) (components : List String) : Bool :=
  graph.anywhere fun nested =>
    nested.hidden || (nested.node = node &&
      components.any fun name =>
        nested.leaves.contains name || (Sorted.get? nested.edges name).isSome)

mutual

/-- One line for each read, indented by its depth. -/
def lines (indent : String) (graph : DependencyGraph) : List String :=
  match graph with
  | ⟨_, hidden, leaves, edges, reverseEdges⟩ =>
    (if hidden then [indent ++ "<opaque>"] else []) ++ leaves.map (indent ++ ·) ++
      relationLines indent " -> " edges ++ relationLines indent " <- " reverseEdges

def relationLines (indent arrow : String) (relations : List (String × DependencyGraph)) :
    List String :=
  match relations with
  | [] => []
  | (name, head) :: rest =>
    (indent ++ name ++ arrow ++ head.node) :: lines (indent ++ "  ") head ++
      relationLines indent arrow rest

end

/-- The root and its reads, every line ended. -/
def text (graph : DependencyGraph) : String :=
  String.join ((graph.node :: graph.lines "  ").map (· ++ "\n"))

end DependencyGraph

end LiveQuery
