import LiveQuery.Proofs.Dependency.Reading

set_option autoImplicit false

namespace LiveQuery

/-- A filter whose relations are the catalog's own. -/
def Filter.charted (catalog : Catalog) (filter : Filter) : Bool :=
  filter.predicate.charted catalog filter.node.name

namespace Filter

variable {catalog : Catalog}

/-- The filters that can be made over the nodes of a catalog. -/
inductive Made (catalog : Catalog) : Filter → Prop
  | constant {node : Node} (value : Bool) : Made catalog (.constant node value)
  | raw {node : Node} (sql : String) : Made catalog (.raw node sql)
  | leaf {node : Node} {name : String} {operator : LeafOperator} {value : Value} {filter : Filter}
    (made : Filter.leaf node name operator value = .ok filter) : Made catalog filter
  | negation {operand : Filter} (below : Made catalog operand) : Made catalog operand.negation
  | junction {node : Node} {kind : Junction} {operands : List Filter} {filter : Filter}
    (made : Filter.junction node kind operands = .ok filter)
    (below : ∀ operand ∈ operands, Made catalog operand) : Made catalog filter
  | edge {node : Node} {name : String} {head : Option Filter} {filter : Filter}
    (found : catalog.node? node.name = some node) (made : Filter.edge node name head = .ok filter)
    (below : ∀ inner, head = some inner → Made catalog inner) : Made catalog filter
  | reverse {node : Node} {name : String} {head : Option Filter} {filter : Filter}
    (found : catalog.node? node.name = some node)
    (made : Filter.reverse node name head = .ok filter)
    (below : ∀ inner, head = some inner → Made catalog inner) : Made catalog filter
  | count {node : Node} {name : String} {comparison : Comparison} {number : Nat} {filter : Filter}
    (found : catalog.node? node.name = some node)
    (made : Filter.count node name comparison number = .ok filter) : Made catalog filter

private theorem lift_eq_ok {α : Type} {first : Except CatalogError α} {value : α}
    (succeeds : (liftM first : Except StatementError α) = .ok value) : first = .ok value := by
  cases first with
  | error => cases succeeds
  | ok => exact congrArg Except.ok (Except.ok.inj succeeds)

theorem node_of_checkNode {expected : String} {filter : Filter}
    (checked : checkNode expected filter = .ok ()) : filter.node.name = expected := by
  unfold checkNode at checked
  by_cases same : filter.node.name = expected
  · exact same
  · rw [if_neg same] at checked
    cases checked

theorem chartedHead_of_headPredicate {expected : String} {head : Option Filter}
    {condition : Option Predicate} (read : headPredicate expected head = .ok condition)
    (below : ∀ inner, head = some inner → inner.charted catalog = true) :
    Predicate.chartedHead catalog expected condition = true := by
  cases head with
  | none =>
    cases read
    rfl
  | some inner =>
    obtain ⟨⟨⟩, checked, same⟩ := Outcome.bind_eq_ok.mp read
    cases same
    rw [← node_of_checkNode checked]
    exact below inner rfl

theorem component?_of_edge {node : Node} {name : String} {link : Edge}
    (named : node.edge name = .ok link) : node.component? link.name = some (.edge link) := by
  unfold Node.edge at named
  cases found : node.component? name with
  | none =>
    rw [found] at named
    cases named
  | some component =>
    rw [found] at named
    cases component with
    | leaf => cases named
    | edge other =>
      cases named
      have same : link.name = name := Node.name_of_component? found
      rw [same, found]

theorem reverseEdge?_of_reverseEdge {node : Node} {name : String} {relation : ReverseEdge}
    (named : node.reverseEdge name = .ok relation) :
    node.reverseEdge? relation.name = some relation := by
  unfold Node.reverseEdge at named
  cases found : node.reverseEdge? name with
  | none =>
    rw [found] at named
    cases named
  | some other =>
    rw [found] at named
    cases named
    rw [(Catalog.WellFormed.mem_of_reverseEdge? found).2, found]

/-- A filter that is made over a catalog follows relations of the catalog only. -/
theorem charted_of_made {filter : Filter} (made : Made catalog filter) :
    filter.charted catalog = true := by
  induction made with
  | constant | raw => rfl
  | leaf made =>
    obtain ⟨field, -, behind⟩ := Outcome.bind_eq_ok.mp made
    obtain ⟨operand, -, same⟩ := Outcome.bind_eq_ok.mp behind
    cases same
    rfl
  | negation _ ih => exact ih
  | @junction node kind operands filter made _ ih =>
    obtain ⟨⟨⟩, checked, same⟩ := Outcome.bind_eq_ok.mp made
    cases same
    have checked := Outcome.passes_of_forM_eq_ok checked
    refine Predicate.chartedAll_iff.mpr (List.forall_mem_map.mpr fun operand inside => ?_)
    have here : operand.node.name = node.name := node_of_checkNode (checked operand inside)
    exact here ▸ ih operand inside
  | @edge node name head filter found made _ ih =>
    obtain ⟨link, named, behind⟩ := Outcome.bind_eq_ok.mp made
    obtain ⟨condition, read, same⟩ := Outcome.bind_eq_ok.mp behind
    cases same
    have component := component?_of_edge (lift_eq_ok named)
    unfold Filter.charted
    rw [Predicate.charted, Bool.and_eq_true, decide_eq_true_iff, found]
    exact ⟨component, chartedHead_of_headPredicate read ih⟩
  | @reverse node name head filter found made _ ih =>
    obtain ⟨relation, named, behind⟩ := Outcome.bind_eq_ok.mp made
    obtain ⟨condition, read, same⟩ := Outcome.bind_eq_ok.mp behind
    cases same
    have related := reverseEdge?_of_reverseEdge (lift_eq_ok named)
    unfold Filter.charted
    rw [Predicate.charted, Bool.and_eq_true, decide_eq_true_iff, found]
    exact ⟨related, chartedHead_of_headPredicate read ih⟩
  | @count node name comparison number filter found made =>
    obtain ⟨relation, named, behind⟩ := Outcome.bind_eq_ok.mp made
    have related := reverseEdge?_of_reverseEdge (lift_eq_ok named)
    cases multiplicity : relation.multiplicity with
    | unique =>
      rw [multiplicity] at behind
      cases behind
    | multiple =>
      rw [multiplicity] at behind
      cases behind
      unfold Filter.charted
      rw [Predicate.charted, decide_eq_true_iff, found]
      exact related

end Filter

end LiveQuery
