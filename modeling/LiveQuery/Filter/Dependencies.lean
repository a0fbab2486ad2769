import LiveQuery.Dependency
import LiveQuery.Filter

set_option autoImplicit false

namespace LiveQuery

namespace Predicate

mutual

def dependencies (node : String) : Predicate → DependencyGraph
  | .constant _ => .empty node
  | .junction _ operands => .union node (dependenciesAll node operands)
  | .negation operand => dependencies node operand
  | .leaf field _ _ => (DependencyGraph.empty node).addLeaf field.name
  | .edge link head => (DependencyGraph.empty node).addEdge link (dependenciesHead link.head head)
  | .reverse relation head =>
    (DependencyGraph.empty node).addReverseEdge relation (dependenciesHead relation.head head)
  | .count relation _ _ => (DependencyGraph.empty node).addReverseEdge relation none
  | .raw _ => .unknown node

def dependenciesAll (node : String) : List Predicate → List DependencyGraph
  | [] => []
  | operand :: rest => dependencies node operand :: dependenciesAll node rest

def dependenciesHead (node : String) : Option Predicate → Option DependencyGraph
  | none => none
  | some head => some (dependencies node head)

end

end Predicate

def Filter.dependencies (filter : Filter) : DependencyGraph :=
  filter.predicate.dependencies filter.node.name

end LiveQuery
