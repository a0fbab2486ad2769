import LiveQuery.Proofs.Dependency.Reading
import LiveQuery.Proofs.Store.Selected

set_option autoImplicit false

namespace LiveQuery

open DependencyGraph

variable {catalog : Catalog}

/-- Whether a relation whose heads are counted is the catalog's own. -/
def SortExpression.charted (catalog : Catalog) (node : String) (expression : SortExpression) : Bool :=
  match expression.target with
  | .leaf _ => true
  | .count relation =>
    (catalog.node? node).bind (·.reverseEdge? relation.name) = some relation

theorem SortExpression.charted_of_fits {node : String} {expression : SortExpression}
    (fits : expression.fits catalog node = true) : expression.charted catalog node = true := by
  obtain ⟨target, direction⟩ := expression
  cases target with
  | leaf => rfl
  | count relation => exact fits

namespace SortOrder

/-- What one sort key reads. -/
def readTarget (graph : DependencyGraph) (expression : SortExpression) : DependencyGraph :=
  match expression.target with
  | .leaf field => graph.addLeaf field.name
  | .count relation => graph.addReverseEdge relation none

theorem dependenciesOf_eq (node : String) (expressions : List SortExpression) :
    dependenciesOf node expressions = expressions.foldl readTarget (.empty node) := rfl

/-- A sort key adds to a graph, and a change that alters what it sorts on touches the graph. -/
theorem readTarget_spec (wellFormed : catalog.WellFormed) {node : String}
    {graph : DependencyGraph} {expression : SortExpression} (here : At catalog node graph)
    (charted : expression.charted catalog node = true) :
    Grows catalog graph (readTarget graph expression) ∧
      ∀ change, expression.affectedBy node change = true →
        (readTarget graph expression).touchedBy change = true := by
  obtain ⟨target, direction⟩ := expression
  cases target with
  | leaf field =>
    refine ⟨grows_addLeaf graph field.name, fun change affected => touchedBy_addLeaf ?_⟩
    unfold SortExpression.affectedBy at affected
    unfold Predicate.changesComponent
    rw [here.node]
    simp only [Bool.and_eq_true, Bool.or_eq_true] at affected ⊢
    exact ⟨affected.1.2, Or.inr affected.2⟩
  | count relation =>
    have known : (catalog.node? node).bind (·.reverseEdge? relation.name) = some relation :=
      of_decide_eq_true charted
    have known' := Predicate.edgeNode?_of_known wellFormed known
    have grows := (addReverseEdge_spec here.rooted
      (here.node ▸ Predicate.reverseNode?_of_known known) known' at_nothing).1
    exact ⟨grows, fun change affected => here.touchedBy_addReverseEdge
      (Predicate.reverseNode?_of_known known) known' at_nothing (Or.inl affected)⟩

/-- What an ordering reads is touched by every change that may alter its order. -/
theorem dependenciesOf_spec (wellFormed : catalog.WellFormed) {node : String}
    {expressions : List SortExpression}
    (charted : ∀ expression ∈ expressions, expression.charted catalog node = true) :
    At catalog node (dependenciesOf node expressions) ∧
      ∀ change, ∀ expression ∈ expressions, expression.affectedBy node change = true →
        (dependenciesOf node expressions).touchedBy change = true := by
  have general : ∀ {start : DependencyGraph}, At catalog node start →
      Grows catalog start (expressions.foldl readTarget start) ∧
        ∀ change, ∀ expression ∈ expressions, expression.affectedBy node change = true →
          (expressions.foldl readTarget start).touchedBy change = true := by
    induction expressions with
    | nil => exact fun {start} _ => ⟨Grows.refl start, by simp⟩
    | cons expression rest ih =>
      intro start here
      rw [List.forall_mem_cons] at charted
      obtain ⟨grows, touched⟩ := readTarget_spec wellFormed here charted.1
      obtain ⟨later, behind⟩ := ih charted.2 (here.grow grows)
      refine ⟨grows.trans later, fun change => List.forall_mem_cons.mpr ⟨fun affected => ?_, ?_⟩⟩
      · exact touchedBy_of_within later.within (touched change affected)
      · exact behind change
  rw [dependenciesOf_eq]
  exact ⟨(at_empty node).grow (general (at_empty node)).1, (general (at_empty node)).2⟩

end SortOrder

def Window.charted (catalog : Catalog) (node : String) (window : Window) : Bool :=
  Predicate.chartedHead catalog node window.filter &&
    (window.ordering.getD []).all (·.charted catalog node)

theorem Window.charted_of_fits {node : String} {window : Window}
    (fits : window.fits catalog node = true) : window.charted catalog node = true := by
  unfold Window.fits at fits
  unfold Window.charted
  rw [Bool.and_eq_true, List.all_eq_true] at fits ⊢
  exact ⟨Predicate.chartedHead_of_fits fits.1, fun expression inside =>
    SortExpression.charted_of_fits (fits.2 expression inside)⟩

/-- What a window reads: its filter, and all that it is sorted on. -/
theorem Window.dependencies_spec (wellFormed : catalog.WellFormed) {node : String}
    {window : Window} (charted : window.charted catalog node = true) :
    At catalog node (window.dependencies node) ∧
      (∀ graph, Predicate.dependenciesHead node window.filter = some graph →
        Within graph (window.dependencies node)) ∧
      ∀ change, ∀ expression ∈ window.ordering.getD [],
        expression.affectedBy node change = true →
          (window.dependencies node).touchedBy change = true := by
  unfold Window.charted at charted
  rw [Bool.and_eq_true, List.all_eq_true] at charted
  obtain ⟨grows, within⟩ :=
    (at_empty node).mergeHead (Predicate.at_dependenciesHead wellFormed charted.1)
  have here := (at_empty node).grow grows
  obtain ⟨sorted, touched⟩ := SortOrder.dependenciesOf_spec wellFormed charted.2
  have ordered : ∀ more, window.ordering.map (SortOrder.dependenciesOf node) = some more →
      At catalog node more := by
    intro more same
    cases ordering : window.ordering with
    | none => simp [ordering] at same
    | some expressions =>
      rw [ordering] at same sorted
      cases same
      exact sorted
  obtain ⟨later, behind⟩ := here.mergeHead ordered
  refine ⟨here.grow later, fun graph same => (within graph same).trans later.within,
    fun change expression inside affected => ?_⟩
  cases ordering : window.ordering with
  | none => simp [ordering] at inside
  | some expressions =>
    rw [ordering] at inside touched
    exact touchedBy_of_within (behind _ (by rw [ordering]; rfl))
      (touched change expression inside affected)

namespace SelectionField

theorem fitsAll_iff {node : String} {fields : List SelectionField} :
    fitsAll catalog node fields = true ↔ ∀ field ∈ fields, field.fits catalog node = true := by
  induction fields with
  | nil => simp [fitsAll]
  | cons field rest ih => rw [fitsAll, Bool.and_eq_true, ih, List.forall_mem_cons]

mutual

/-- Whether every relation that a field follows is the catalog's own. -/
def charted (catalog : Catalog) (node : String) : SelectionField → Bool
  | .leaf _ _ => true
  | .edge _ link head =>
    (catalog.node? node).bind (·.component? link.name) = some (.edge link) &&
      chartedAll catalog link.head head
  | .unique _ relation head =>
    (catalog.node? node).bind (·.reverseEdge? relation.name) = some relation &&
      chartedAll catalog relation.head head
  | .multiple _ relation window head =>
    (catalog.node? node).bind (·.reverseEdge? relation.name) = some relation &&
      window.charted catalog relation.head && chartedAll catalog relation.head head
  | .count _ relation filter =>
    (catalog.node? node).bind (·.reverseEdge? relation.name) = some relation &&
      Predicate.chartedHead catalog relation.head filter

def chartedAll (catalog : Catalog) (node : String) : List SelectionField → Bool
  | [] => true
  | field :: rest => charted catalog node field && chartedAll catalog node rest

end

theorem chartedAll_iff {node : String} {fields : List SelectionField} :
    chartedAll catalog node fields = true ↔ ∀ field ∈ fields, field.charted catalog node = true := by
  induction fields with
  | nil => simp [chartedAll]
  | cons field rest ih => rw [chartedAll, Bool.and_eq_true, ih, List.forall_mem_cons]

mutual

theorem charted_of_fits : ∀ {field : SelectionField} {node : String},
    field.fits catalog node = true → field.charted catalog node = true
  | .leaf _ _, _, _ => rfl
  | .edge _ _ _, _, fits | .unique _ _ _, _, fits => by
    rw [SelectionField.fits, Bool.and_eq_true] at fits
    rw [charted, Bool.and_eq_true]
    exact ⟨fits.1, chartedAll_of_fits fits.2⟩
  | .multiple _ _ _ _, _, fits => by
    rw [SelectionField.fits, Bool.and_eq_true, Bool.and_eq_true] at fits
    rw [charted, Bool.and_eq_true, Bool.and_eq_true]
    exact ⟨⟨fits.1.1, Window.charted_of_fits fits.1.2⟩, chartedAll_of_fits fits.2⟩
  | .count _ _ _, _, fits => by
    rw [SelectionField.fits, Bool.and_eq_true] at fits
    rw [charted, Bool.and_eq_true]
    exact ⟨fits.1, Predicate.chartedHead_of_fits fits.2⟩

theorem chartedAll_of_fits : ∀ {fields : List SelectionField} {node : String},
    fitsAll catalog node fields = true → chartedAll catalog node fields = true
  | [], _, _ => rfl
  | _ :: _, _, fits => by
    rw [fitsAll, Bool.and_eq_true] at fits
    rw [chartedAll, Bool.and_eq_true]
    exact ⟨charted_of_fits fits.1, chartedAll_of_fits fits.2⟩

end

theorem readAll_grows_of {node : String} {fields : List SelectionField}
    (each : ∀ field ∈ fields, ∀ graph, At catalog node graph →
      Grows catalog graph (read graph field)) {graph : DependencyGraph}
    (here : At catalog node graph) : Grows catalog graph (readAll graph fields) := by
  induction fields generalizing graph with
  | nil => exact Grows.refl graph
  | cons field rest ih =>
    rw [List.forall_mem_cons] at each
    have first := each.1 graph here
    rw [readAll]
    exact first.trans (ih each.2 (here.grow first))

/-- What a field of many heads reads of them. -/
def readMany (node : String) (window : Window) (head : List SelectionField) : DependencyGraph :=
  (readAll (.empty node) head).merge (window.dependencies node)

theorem at_readMany (wellFormed : catalog.WellFormed) {node : String} {window : Window}
    {head : List SelectionField} (charted : window.charted catalog node = true)
    (below : At catalog node (readAll (.empty node) head)) :
    At catalog node (readMany node window head) ∧
      Within (readAll (.empty node) head) (readMany node window head) ∧
        Within (window.dependencies node) (readMany node window head) := by
  obtain ⟨grows, within⟩ := below.merge (Window.dependencies_spec wellFormed charted).1
  exact ⟨below.grow grows, grows.within, within⟩

theorem at_of_some {node : String} {graph : DependencyGraph} (here : At catalog node graph) :
    ∀ more, some graph = some more → At catalog node more := by
  rintro more ⟨rfl⟩
  exact here

theorem grows_reverse (wellFormed : catalog.WellFormed) {node : String} {graph : DependencyGraph}
    (here : At catalog node graph) {relation : ReverseEdge} {head : Option DependencyGraph}
    (known : (catalog.node? node).bind (·.reverseEdge? relation.name) = some relation)
    (below : ∀ more, head = some more → At catalog relation.head more) :
    Grows catalog graph (graph.addReverseEdge relation head) :=
  (addReverseEdge_spec here.rooted (here.node ▸ Predicate.reverseNode?_of_known known)
    (Predicate.edgeNode?_of_known wellFormed known) below).1

/-- A field adds to the graph. -/
theorem read_grows (wellFormed : catalog.WellFormed) {field : SelectionField} {node : String}
    (charted : field.charted catalog node = true) {graph : DependencyGraph}
    (here : At catalog node graph) : Grows catalog graph (read graph field) := by
  induction field generalizing node graph with
  | leaf key field => exact grows_addLeaf graph field.name
  | edge key link head ih =>
    rw [SelectionField.charted, Bool.and_eq_true, decide_eq_true_iff, chartedAll_iff] at charted
    have below := (at_empty link.head).grow (readAll_grows_of (fun field inside graph here =>
      ih field inside (charted.2 field inside) here) (at_empty link.head))
    have known : catalog.edgeNode? graph.node link.name = some link.head := by
      rw [here.node, Catalog.edgeNode?, charted.1]
      rfl
    exact (addEdge_spec here.rooted known (at_of_some below)).1
  | unique key relation head ih =>
    rw [SelectionField.charted, Bool.and_eq_true, decide_eq_true_iff, chartedAll_iff] at charted
    have below := (at_empty relation.head).grow (readAll_grows_of (fun field inside graph here =>
      ih field inside (charted.2 field inside) here) (at_empty relation.head))
    exact grows_reverse wellFormed here charted.1 (at_of_some below)
  | multiple key relation window head ih =>
    rw [SelectionField.charted, Bool.and_eq_true, Bool.and_eq_true, decide_eq_true_iff,
      chartedAll_iff] at charted
    have below := (at_empty relation.head).grow (readAll_grows_of (fun field inside graph here =>
      ih field inside (charted.2 field inside) here) (at_empty relation.head))
    exact grows_reverse wellFormed here charted.1.1 (at_of_some (at_readMany wellFormed charted.1.2 below).1)
  | count key relation filter =>
    rw [SelectionField.charted, Bool.and_eq_true, decide_eq_true_iff] at charted
    exact grows_reverse wellFormed here charted.1 (Predicate.at_dependenciesHead wellFormed charted.2)

theorem readAll_grows (wellFormed : catalog.WellFormed) {fields : List SelectionField}
    {node : String} (charted : chartedAll catalog node fields = true) {graph : DependencyGraph}
    (here : At catalog node graph) : Grows catalog graph (readAll graph fields) :=
  readAll_grows_of (fun field inside _ here =>
    read_grows wellFormed (chartedAll_iff.mp charted field inside) here) here

theorem touchedBy_readAll (wellFormed : catalog.WellFormed) {fields : List SelectionField}
    {node : String} (charted : chartedAll catalog node fields = true) {graph : DependencyGraph}
    (here : At catalog node graph) {change : Change} {field : SelectionField}
    (inside : field ∈ fields)
    (touched : ∀ graph, At catalog node graph → (read graph field).touchedBy change = true) :
    (readAll graph fields).touchedBy change = true := by
  induction fields generalizing graph with
  | nil => cases inside
  | cons first rest ih =>
    rw [chartedAll, Bool.and_eq_true] at charted
    have grown := here.grow (read_grows wellFormed charted.1 here)
    rw [readAll]
    rcases List.mem_cons.mp inside with rfl | behind
    · exact touchedBy_of_within (readAll_grows wellFormed charted.2 grown).within (touched graph here)
    · exact ih charted.2 grown behind

end SelectionField

end LiveQuery
