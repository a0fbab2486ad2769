import LiveQuery.Proofs.Filter.Made
import LiveQuery.Proofs.Impact.Staleness

set_option autoImplicit false

namespace LiveQuery

open DependencyGraph

namespace Predicate

mutual

/-- Instances of the node whose membership may have changed, without regard to dependencies. -/
def traced (catalog : Catalog) (change : Change) (node : Node) :
    Predicate → Except StatementError (Option Predicate)
  | .constant _ => .ok none
  | .raw _ => .ok (some (.constant true))
  | .junction _ operands => return union (← tracedAll catalog change node operands)
  | .negation operand => traced catalog change node operand
  | .leaf field _ _ => do
    let condition := changesComponent node.name field.name change
    return union (← instanceIf condition catalog node change)
  | .edge link head => do
    let condition := changesComponent node.name link.name change
    let own ← instanceIf condition catalog node change
    let below ← tracedHead catalog change (catalog.edgeHead link) head
    return union (own ++ below.map fun result => .edge link (some result))
  | .reverse relation head => do
    let below ← tracedHead catalog change (catalog.reverseEdgeHead relation) head
    return union (← throughReverse catalog node relation below change)
  | .count relation _ _ => return union (← throughReverse catalog node relation [] change)

def tracedAll (catalog : Catalog) (change : Change) (node : Node) :
    List Predicate → Except StatementError (List Predicate)
  | [] => .ok []
  | operand :: rest => do
    let result ← traced catalog change node operand
    return result.toList ++ (← tracedAll catalog change node rest)

def tracedHead (catalog : Catalog) (change : Change) (head : Except CatalogError Node) :
    Option Predicate → Except StatementError (List Predicate)
  | none => .ok []
  | some predicate => return (← traced catalog change (← head) predicate).toList

end

end Predicate

namespace SelectionField

/-- Heads that may enter or leave the window, or move in it, without regard to dependencies. -/
def tracedInWindow (catalog : Catalog) (change : Change) (head : Node) (window : Window) :
    Except StatementError (List Predicate) := do
  let matching ← Predicate.tracedHead catalog change (.ok head) window.filter
  let reordered :=
    (window.ordering.getD []).any fun expression => expression.affectedBy head.name change
  if !reordered then return matching
  else if change.node.name = head.name then
    return matching ++ [← Predicate.changedInstance catalog head change]
  else return matching ++ [.constant true]

mutual

/-- Instances of the node whose value for one field may be stale, without regard to
dependencies. -/
def traced (catalog : Catalog) (change : Change) (node : Node) :
    SelectionField → Except StatementError (List Predicate)
  | .leaf _ field =>
    Predicate.instanceIf (updatesComponent node.name field.name change) catalog node change
  | .edge _ link head => do
    let condition := updatesComponent node.name link.name change
    let own ← Predicate.instanceIf condition catalog node change
    let below ← tracedAny catalog change (← catalog.edgeHead link) head
    return own ++ below.toList.map fun result => .edge link (some result)
  | .unique _ relation head => do
    let below ← tracedAny catalog change (← catalog.reverseEdgeHead relation) head
    Predicate.throughReverse catalog node relation below.toList change
  | .multiple _ relation window head => do
    let headNode ← catalog.reverseEdgeHead relation
    let moved ← tracedInWindow catalog change headNode window
    let below ← tracedAny catalog change headNode head
    Predicate.throughReverse catalog node relation (moved ++ below.toList) change
  | .count _ relation filter => do
    let below ← Predicate.tracedHead catalog change (catalog.reverseEdgeHead relation) filter
    Predicate.throughReverse catalog node relation below change

def tracedAll (catalog : Catalog) (change : Change) (node : Node) :
    List SelectionField → Except StatementError (List Predicate)
  | [] => .ok []
  | field :: rest => do
    let results ← traced catalog change node field
    return results ++ (← tracedAll catalog change node rest)

/-- Instances of the node whose value for any field may be stale. -/
def tracedAny (catalog : Catalog) (change : Change) (node : Node) (fields : List SelectionField) :
    Except StatementError (Option Predicate) :=
  match fields with
  | [] => .ok none
  | field :: rest => do
    let results ← traced catalog change node field
    return Predicate.union (results ++ (← tracedAll catalog change node rest))

end

end SelectionField

/-- The analysis of a filter that leaves nothing out. -/
def Filter.traced (catalog : Catalog) (filter : Filter) (change : Change) :
    Except StatementError (Option Filter) :=
  return (← filter.predicate.traced catalog change filter.node).map (⟨filter.node, ·⟩)

/-- The analysis of a selection that leaves nothing out. -/
def Selection.traced (catalog : Catalog) (selection : Selection) (change : Change) :
    Except StatementError (Option Filter) :=
  return (← SelectionField.tracedAny catalog change selection.node selection.fields).map
    (⟨selection.node, ·⟩)

variable {catalog : Catalog} {node : Node} {change : Change}

theorem DependencyGraph.touchedBy_unknown (name : String) (change : Change) :
    (unknown name).touchedBy change = true := by
  rw [touchedBy_eq_anywhere]
  exact anywhere_iff.mpr (Or.inl (touchedHere_iff.mpr (Or.inl rfl)))

theorem DependencyGraph.untouched_of_within {graph other : DependencyGraph}
    (within : Within graph other) (untouched : ¬ other.touchedBy change = true) :
    ¬ graph.touchedBy change = true := fun touched =>
  untouched (touchedBy_of_within within touched)

namespace Catalog.WellFormed

theorem edgeHead_of_known (wellFormed : catalog.WellFormed) {name : String} {link : Edge}
    (known : (catalog.node? name).bind (·.component? link.name) = some (.edge link)) :
    ∃ head, catalog.edgeHead link = .ok head ∧ head.name = link.head := by
  obtain ⟨definition, found, component⟩ := Option.bind_eq_some_iff.mp known
  obtain ⟨head, leads⟩ := wellFormed.heads found link (Node.mem_of_component? component)
  exact ⟨head, leads.edgeHead_eq, Catalog.name_of_node? leads.node⟩

theorem reverseEdgeHead_of_known (wellFormed : catalog.WellFormed) {name : String}
    {relation : ReverseEdge}
    (known : (catalog.node? name).bind (·.reverseEdge? relation.name) = some relation) :
    ∃ head, catalog.reverseEdgeHead relation = .ok head ∧ head.name = relation.head := by
  obtain ⟨definition, found, related⟩ := Option.bind_eq_some_iff.mp known
  have found : catalog.node? definition.name = some definition := by
    rw [Catalog.name_of_node? found, found]
  obtain ⟨head, relates⟩ := wellFormed.relates found related
  exact ⟨head, relates.reverseEdgeHead_eq, relates.name⟩

end Catalog.WellFormed

private theorem lift_ok (head : Node) :
    (liftM (Except.ok head : Except CatalogError Node) : Except StatementError Node) = .ok head :=
  rfl

namespace Predicate

/-- Where neither the edge behind a relation changes nor anything below it, nothing comes through
the relation. -/
theorem throughReverse_nil {relation : ReverseEdge} {head : Node}
    (headed : catalog.reverseEdgeHead relation = .ok head)
    (unchanged : ¬ changesComponent head.name relation.edge.name change = true) :
    throughReverse catalog node relation [] change = .ok [] := by
  unfold throughReverse
  rw [headed]
  exact if_neg unchanged

theorem instanceIf_of_not {condition : Bool} (not : ¬ condition = true) :
    instanceIf condition catalog node change = .ok [] := if_neg not

theorem tracedAll_nil {operands : List Predicate}
    (each : ∀ operand ∈ operands, traced catalog change node operand = .ok none) :
    tracedAll catalog change node operands = .ok [] := by
  induction operands with
  | nil => rfl
  | cons operand rest ih =>
    rw [List.forall_mem_cons] at each
    rw [tracedAll, each.1, Outcome.ok_bind, ih each.2]
    rfl

theorem tracedHead_nil {head : Option Predicate} {looked : Except CatalogError Node}
    (headed : looked = .ok node)
    (each : ∀ inner, head = some inner → traced catalog change node inner = .ok none) :
    tracedHead catalog change looked head = .ok [] := by
  rw [headed]
  cases head with
  | none => rfl
  | some inner =>
    show (traced catalog change node inner >>= fun result => pure result.toList) = .ok []
    rw [each inner rfl]
    rfl

/-- Nothing comes of a change that touches nothing of what a predicate reads. -/
theorem traced_of_untouched (wellFormed : catalog.WellFormed) {predicate : Predicate} {node : Node}
    (charted : predicate.charted catalog node.name = true)
    (untouched : ¬ (predicate.dependencies node.name).touchedBy change = true) :
    traced catalog change node predicate = .ok none := by
  induction predicate generalizing node with
  | constant value => rfl
  | junction kind operands ih =>
    rw [Predicate.charted, chartedAll_iff] at charted
    rw [dependencies, dependenciesAll_eq_map] at untouched
    have rooted : ∀ graph ∈ operands.map (·.dependencies node.name), At catalog node.name graph :=
      List.forall_mem_map.mpr fun operand inside =>
        at_dependencies wellFormed (charted operand inside)
    have within := (at_union rooted).2
    have each : ∀ operand ∈ operands, traced catalog change node operand = .ok none := by
      intro operand inside
      exact ih operand inside (charted operand inside)
        (untouched_of_within (within _ (List.mem_map_of_mem inside)) untouched)
    rw [traced, tracedAll_nil each]
    rfl
  | negation operand ih => exact ih charted untouched
  | leaf field operator value =>
    have unchanged : ¬ changesComponent node.name field.name change = true :=
      fun changes => untouched (touchedBy_addLeaf changes)
    rw [traced, instanceIf_of_not unchanged]
    rfl
  | edge link head ih =>
    have known := edgeNode?_of_charted charted
    rw [Predicate.charted, Bool.and_eq_true, decide_eq_true_iff] at charted
    obtain ⟨headNode, headed, name⟩ := wellFormed.edgeHead_of_known charted.1
    have silent (touched) := untouched ((at_empty node.name).touchedBy_addEdge known
      (at_dependenciesHead wellFormed charted.2) touched)
    have each : ∀ inner, head = some inner → traced catalog change headNode inner = .ok none := by
      rintro inner rfl
      refine ih inner rfl (name ▸ charted.2) fun touches => silent (Or.inr ⟨_, rfl, name ▸ touches⟩)
    rw [traced, instanceIf_of_not fun changes => silent (Or.inl changes), Outcome.ok_bind,
      tracedHead_nil headed each]
    rfl
  | reverse relation head ih =>
    rw [Predicate.charted, Bool.and_eq_true, decide_eq_true_iff] at charted
    obtain ⟨headNode, headed, name⟩ := wellFormed.reverseEdgeHead_of_known charted.1
    have silent (touched) := untouched ((at_empty node.name).touchedBy_addReverseEdge
      (reverseNode?_of_known charted.1) (edgeNode?_of_known wellFormed charted.1)
      (at_dependenciesHead wellFormed charted.2) touched)
    have each : ∀ inner, head = some inner → traced catalog change headNode inner = .ok none := by
      rintro inner rfl
      refine ih inner rfl (name ▸ charted.2) fun touches => silent (Or.inr ⟨_, rfl, name ▸ touches⟩)
    rw [traced, tracedHead_nil headed each, Outcome.ok_bind,
      throughReverse_nil headed fun changes => silent (Or.inl (name ▸ changes))]
    rfl
  | count relation comparison number =>
    have known := of_decide_eq_true charted
    obtain ⟨headNode, headed, name⟩ := wellFormed.reverseEdgeHead_of_known known
    have silent (touched) := untouched ((at_empty node.name).touchedBy_addReverseEdge
      (reverseNode?_of_known known) (edgeNode?_of_known wellFormed known) at_nothing touched)
    rw [traced, throughReverse_nil headed fun changes => silent (Or.inl (name ▸ changes))]
    rfl
  | raw sql => exact absurd (touchedBy_unknown node.name change) untouched

theorem unlessUntouched_traced (wellFormed : catalog.WellFormed) {predicate : Predicate}
    (charted : predicate.charted catalog node.name = true) :
    unlessUntouched (predicate.dependencies node.name) change
      (traced catalog change node predicate) = traced catalog change node predicate := by
  unfold unlessUntouched
  by_cases touched : (predicate.dependencies node.name).touchedBy change = true
  · rw [if_pos touched]
  · rw [if_neg touched, traced_of_untouched wellFormed charted touched]

theorem affectedAll_eq_traced {operands : List Predicate}
    (each : ∀ operand ∈ operands,
      affected catalog change node operand = traced catalog change node operand) :
    affectedAll catalog change node operands = tracedAll catalog change node operands := by
  induction operands with
  | nil => rfl
  | cons operand rest ih =>
    rw [List.forall_mem_cons] at each
    rw [affectedAll, tracedAll, each.1, ih each.2]

theorem affectedHead_eq_traced {head : Option Predicate} {looked : Except CatalogError Node}
    (headed : looked = .ok node)
    (each : ∀ inner, head = some inner →
      affected catalog change node inner = traced catalog change node inner) :
    affectedHead catalog change looked head = tracedHead catalog change looked head := by
  rw [headed]
  cases head with
  | none => rfl
  | some inner =>
    show (affected catalog change node inner >>= fun result => pure result.toList) =
      traced catalog change node inner >>= fun result => pure result.toList
    rw [each inner rfl]

/-- Pruning takes nothing away from the analysis of a predicate. -/
theorem affected_eq_traced (wellFormed : catalog.WellFormed) {predicate : Predicate} {node : Node}
    (charted : predicate.charted catalog node.name = true) :
    affected catalog change node predicate = traced catalog change node predicate := by
  induction predicate generalizing node with
  | constant | leaf | count | raw => exact unlessUntouched_traced wellFormed charted
  | junction kind operands ih =>
    rw [← unlessUntouched_traced wellFormed charted]
    rw [Predicate.charted, chartedAll_iff] at charted
    rw [affected, traced,
      affectedAll_eq_traced fun operand inside => ih operand inside (charted operand inside)]
  | negation operand ih =>
    rw [← unlessUntouched_traced wellFormed charted, affected, traced, ih charted]
  | edge link head ih =>
    rw [← unlessUntouched_traced wellFormed charted]
    rw [Predicate.charted, Bool.and_eq_true, decide_eq_true_iff] at charted
    obtain ⟨headNode, headed, name⟩ := wellFormed.edgeHead_of_known charted.1
    have below : affectedHead catalog change (catalog.edgeHead link) head =
        tracedHead catalog change (catalog.edgeHead link) head := by
      refine affectedHead_eq_traced headed ?_
      rintro inner rfl
      exact ih inner rfl (name ▸ charted.2)
    rw [affected, traced, below]
  | reverse relation head ih =>
    rw [← unlessUntouched_traced wellFormed charted]
    rw [Predicate.charted, Bool.and_eq_true, decide_eq_true_iff] at charted
    obtain ⟨headNode, headed, name⟩ := wellFormed.reverseEdgeHead_of_known charted.1
    have below : affectedHead catalog change (catalog.reverseEdgeHead relation) head =
        tracedHead catalog change (catalog.reverseEdgeHead relation) head := by
      refine affectedHead_eq_traced headed ?_
      rintro inner rfl
      exact ih inner rfl (name ▸ charted.2)
    rw [affected, traced, below]

theorem affectedHead_eq_traced_of_charted (wellFormed : catalog.WellFormed) {head : Option Predicate}
    {looked : Except CatalogError Node} (headed : looked = .ok node)
    (charted : chartedHead catalog node.name head = true) :
    affectedHead catalog change looked head = tracedHead catalog change looked head := by
  refine affectedHead_eq_traced headed ?_
  rintro inner rfl
  exact affected_eq_traced wellFormed charted

theorem tracedHead_of_untouched (wellFormed : catalog.WellFormed) {head : Option Predicate}
    {looked : Except CatalogError Node} (headed : looked = .ok node)
    (charted : chartedHead catalog node.name head = true)
    (untouched : ∀ graph, dependenciesHead node.name head = some graph →
      ¬ graph.touchedBy change = true) :
    tracedHead catalog change looked head = .ok [] := by
  refine tracedHead_nil headed ?_
  rintro inner rfl
  exact traced_of_untouched wellFormed charted (untouched _ rfl)

end Predicate

namespace SelectionField

theorem updatesComponent_of_not {name component : String}
    (unchanged : ¬ Predicate.changesComponent name component change = true) :
    ¬ updatesComponent name component change = true := by
  unfold updatesComponent
  rw [Bool.and_eq_true]
  exact fun updates => unchanged updates.2

theorem tracedInWindow_of_untouched (wellFormed : catalog.WellFormed) {window : Window}
    (charted : window.charted catalog node.name = true)
    (untouched : ¬ (window.dependencies node.name).touchedBy change = true) :
    tracedInWindow catalog change node window = .ok [] := by
  obtain ⟨-, within, ordered⟩ := Window.dependencies_spec wellFormed charted
  unfold Window.charted at charted
  rw [Bool.and_eq_true] at charted
  have matching : Predicate.tracedHead catalog change (.ok node) window.filter = .ok [] :=
    Predicate.tracedHead_of_untouched wellFormed rfl charted.1 fun graph same =>
      untouched_of_within (within graph same) untouched
  have still : ((window.ordering.getD []).any fun expression =>
      expression.affectedBy node.name change) = false := by
    rw [List.any_eq_false]
    exact fun expression inside affected => untouched (ordered change expression inside affected)
  unfold tracedInWindow
  rw [matching, still]
  rfl

theorem movedInWindow_eq_traced (wellFormed : catalog.WellFormed) {window : Window}
    (charted : window.charted catalog node.name = true) :
    movedInWindow catalog change node window = tracedInWindow catalog change node window := by
  unfold Window.charted at charted
  rw [Bool.and_eq_true] at charted
  unfold movedInWindow tracedInWindow
  rw [Predicate.affectedHead_eq_traced_of_charted wellFormed rfl charted.1]

theorem tracedAny_eq (fields : List SelectionField) : tracedAny catalog change node fields =
    tracedAll catalog change node fields >>= fun results => pure (Predicate.union results) := by
  cases fields with
  | nil => rfl
  | cons field rest =>
    rw [tracedAny, tracedAll]
    cases traced catalog change node field with
    | error => rfl
    | ok results => cases tracedAll catalog change node rest <;> rfl

theorem staleHead_eq (fields : List SelectionField) : staleHead catalog change node fields =
    Predicate.unlessUntouched (readAll (.empty node.name) fields) change
      (staleAll catalog change node fields >>= fun results => pure (Predicate.union results)) := by
  cases fields with
  | nil => rfl
  | cons field rest =>
    rw [staleHead, staleAll]
    cases stale catalog change node field with
    | error => rfl
    | ok results => cases staleAll catalog change node rest <;> rfl

theorem tracedAll_nil {fields : List SelectionField}
    (each : ∀ field ∈ fields, traced catalog change node field = .ok []) :
    tracedAll catalog change node fields = .ok [] := by
  induction fields with
  | nil => rfl
  | cons field rest ih =>
    rw [List.forall_mem_cons] at each
    rw [tracedAll, each.1, Outcome.ok_bind, ih each.2]
    rfl

theorem tracedAny_of_untouched (wellFormed : catalog.WellFormed) {fields : List SelectionField}
    (charted : chartedAll catalog node.name fields = true)
    (untouched : ¬ (readAll (.empty node.name) fields).touchedBy change = true)
    (each : ∀ field ∈ fields, ∀ graph, At catalog node.name graph →
      ¬ (read graph field).touchedBy change = true →
        traced catalog change node field = .ok []) :
    tracedAny catalog change node fields = .ok none := by
  have silent : ∀ field ∈ fields, traced catalog change node field = .ok [] := by
    intro field inside
    by_contra some
    refine untouched (touchedBy_readAll wellFormed charted (at_empty node.name) inside ?_)
    intro graph here
    by_contra touched
    exact some (each field inside graph here touched)
  rw [tracedAny_eq, tracedAll_nil silent]
  rfl

theorem at_readAll (wellFormed : catalog.WellFormed) {name : String} {fields : List SelectionField}
    (charted : chartedAll catalog name fields = true) :
    At catalog name (readAll (.empty name) fields) :=
  (at_empty name).grow (readAll_grows wellFormed charted (at_empty name))

/-- A change comes to nothing at a field that reads nothing that it touches. -/
theorem traced_of_untouched (wellFormed : catalog.WellFormed) {field : SelectionField}
    {node : Node} (charted : field.charted catalog node.name = true) {graph : DependencyGraph}
    (here : At catalog node.name graph)
    (untouched : ¬ (read graph field).touchedBy change = true) :
    traced catalog change node field = .ok [] := by
  induction field generalizing node graph with
  | leaf key field =>
    refine Predicate.instanceIf_of_not (updatesComponent_of_not fun changes => ?_)
    exact untouched (touchedBy_addLeaf (here.node ▸ changes))
  | edge key link head ih =>
    rw [SelectionField.charted, Bool.and_eq_true, decide_eq_true_iff] at charted
    obtain ⟨headNode, headed, name⟩ := wellFormed.edgeHead_of_known charted.1
    have known : catalog.edgeNode? node.name link.name = some link.head := by
      rw [Catalog.edgeNode?, charted.1]
      rfl
    have silent (touched) := untouched (here.touchedBy_addEdge known
      (at_of_some (at_readAll wellFormed charted.2)) touched)
    have below : tracedAny catalog change headNode head = .ok none := by
      rw [← name] at charted silent
      exact tracedAny_of_untouched wellFormed charted.2
        (fun touches => silent (Or.inr ⟨_, rfl, touches⟩))
        fun field inside graph => ih field inside (chartedAll_iff.mp charted.2 field inside)
    have unchanged := updatesComponent_of_not fun changes => silent (Or.inl changes)
    rw [traced, Predicate.instanceIf_of_not unchanged, Outcome.ok_bind, headed, lift_ok,
      Outcome.ok_bind, below]
    rfl
  | unique key relation head ih =>
    rw [SelectionField.charted, Bool.and_eq_true, decide_eq_true_iff] at charted
    obtain ⟨headNode, headed, name⟩ := wellFormed.reverseEdgeHead_of_known charted.1
    have silent (touched) := untouched (here.touchedBy_addReverseEdge
      (Predicate.reverseNode?_of_known charted.1) (Predicate.edgeNode?_of_known wellFormed charted.1)
      (at_of_some (at_readAll wellFormed charted.2)) touched)
    rw [← name] at charted silent
    have below : tracedAny catalog change headNode head = .ok none :=
      tracedAny_of_untouched wellFormed charted.2
        (fun touches => silent (Or.inr ⟨_, rfl, touches⟩))
        fun field inside graph => ih field inside (chartedAll_iff.mp charted.2 field inside)
    rw [traced, headed, lift_ok, Outcome.ok_bind, below]
    exact Predicate.throughReverse_nil headed fun changes => silent (Or.inl changes)
  | multiple key relation window head ih =>
    rw [SelectionField.charted, Bool.and_eq_true, Bool.and_eq_true, decide_eq_true_iff] at charted
    obtain ⟨headNode, headed, name⟩ := wellFormed.reverseEdgeHead_of_known charted.1.1
    obtain ⟨rooted, fields_within, window_within⟩ :=
      at_readMany wellFormed charted.1.2 (at_readAll wellFormed charted.2)
    have silent (touched) := untouched (here.touchedBy_addReverseEdge
      (Predicate.reverseNode?_of_known charted.1.1)
      (Predicate.edgeNode?_of_known wellFormed charted.1.1) (at_of_some rooted) touched)
    rw [← name] at charted silent fields_within window_within
    have quiet : ¬ (readMany headNode.name window head).touchedBy change = true :=
      fun touches => silent (Or.inr ⟨_, rfl, touches⟩)
    have moved : tracedInWindow catalog change headNode window = .ok [] :=
      tracedInWindow_of_untouched wellFormed charted.1.2 (untouched_of_within window_within quiet)
    have below : tracedAny catalog change headNode head = .ok none :=
      tracedAny_of_untouched wellFormed charted.2 (untouched_of_within fields_within quiet)
        fun field inside graph => ih field inside (chartedAll_iff.mp charted.2 field inside)
    rw [traced, headed, lift_ok, Outcome.ok_bind, moved, Outcome.ok_bind, below]
    exact Predicate.throughReverse_nil headed fun changes => silent (Or.inl changes)
  | count key relation filter =>
    rw [SelectionField.charted, Bool.and_eq_true, decide_eq_true_iff] at charted
    obtain ⟨headNode, headed, name⟩ := wellFormed.reverseEdgeHead_of_known charted.1
    have silent (touched) := untouched (here.touchedBy_addReverseEdge
      (Predicate.reverseNode?_of_known charted.1) (Predicate.edgeNode?_of_known wellFormed charted.1)
      (Predicate.at_dependenciesHead wellFormed charted.2) touched)
    rw [← name] at charted silent
    have below : Predicate.tracedHead catalog change (catalog.reverseEdgeHead relation) filter =
        .ok [] :=
      Predicate.tracedHead_of_untouched wellFormed headed charted.2 fun graph same touches =>
        silent (Or.inr ⟨graph, same, touches⟩)
    rw [traced, below]
    exact Predicate.throughReverse_nil headed fun changes => silent (Or.inl changes)

theorem staleAll_eq_traced {fields : List SelectionField}
    (each : ∀ field ∈ fields, stale catalog change node field = traced catalog change node field) :
    staleAll catalog change node fields = tracedAll catalog change node fields := by
  induction fields with
  | nil => rfl
  | cons field rest ih =>
    rw [List.forall_mem_cons] at each
    rw [staleAll, tracedAll, each.1, ih each.2]

/-- What is left out of the analysis of fields would have come to nothing. -/
theorem staleHead_eq_traced (wellFormed : catalog.WellFormed) {fields : List SelectionField}
    (charted : chartedAll catalog node.name fields = true)
    (each : ∀ field ∈ fields, stale catalog change node field = traced catalog change node field) :
    staleHead catalog change node fields = tracedAny catalog change node fields := by
  rw [staleHead_eq, staleAll_eq_traced each, ← tracedAny_eq]
  unfold Predicate.unlessUntouched
  by_cases touched : (readAll (.empty node.name) fields).touchedBy change = true
  · rw [if_pos touched]
  · rw [if_neg touched, tracedAny_of_untouched wellFormed charted touched]
    exact fun field inside graph =>
      traced_of_untouched wellFormed (chartedAll_iff.mp charted field inside)

/-- Pruning takes nothing away from the analysis of a field. -/
theorem stale_eq_traced (wellFormed : catalog.WellFormed) {field : SelectionField} {node : Node}
    (charted : field.charted catalog node.name = true) :
    stale catalog change node field = traced catalog change node field := by
  induction field generalizing node with
  | leaf key field => rfl
  | edge key link head ih =>
    rw [SelectionField.charted, Bool.and_eq_true, decide_eq_true_iff] at charted
    obtain ⟨headNode, headed, name⟩ := wellFormed.edgeHead_of_known charted.1
    rw [← name] at charted
    have below : staleHead catalog change headNode head = tracedAny catalog change headNode head :=
      staleHead_eq_traced wellFormed charted.2 fun field inside =>
        ih field inside (chartedAll_iff.mp charted.2 field inside)
    simp only [stale, traced, headed, lift_ok, Outcome.ok_bind, below]
  | unique key relation head ih =>
    rw [SelectionField.charted, Bool.and_eq_true, decide_eq_true_iff] at charted
    obtain ⟨headNode, headed, name⟩ := wellFormed.reverseEdgeHead_of_known charted.1
    rw [← name] at charted
    have below : staleHead catalog change headNode head = tracedAny catalog change headNode head :=
      staleHead_eq_traced wellFormed charted.2 fun field inside =>
        ih field inside (chartedAll_iff.mp charted.2 field inside)
    simp only [stale, traced, headed, lift_ok, Outcome.ok_bind, below]
  | multiple key relation window head ih =>
    rw [SelectionField.charted, Bool.and_eq_true, Bool.and_eq_true, decide_eq_true_iff] at charted
    obtain ⟨headNode, headed, name⟩ := wellFormed.reverseEdgeHead_of_known charted.1.1
    rw [← name] at charted
    have moved : movedInWindow catalog change headNode window =
        tracedInWindow catalog change headNode window :=
      movedInWindow_eq_traced wellFormed charted.1.2
    have below : staleHead catalog change headNode head = tracedAny catalog change headNode head :=
      staleHead_eq_traced wellFormed charted.2 fun field inside =>
        ih field inside (chartedAll_iff.mp charted.2 field inside)
    simp only [stale, traced, headed, lift_ok, Outcome.ok_bind, moved, below]
  | count key relation filter =>
    rw [SelectionField.charted, Bool.and_eq_true, decide_eq_true_iff] at charted
    obtain ⟨headNode, headed, name⟩ := wellFormed.reverseEdgeHead_of_known charted.1
    rw [← name] at charted
    rw [stale, traced, Predicate.affectedHead_eq_traced_of_charted wellFormed headed charted.2]

end SelectionField

/-- A selection whose relations are the catalog's own. -/
def Selection.charted (catalog : Catalog) (selection : Selection) : Bool :=
  SelectionField.chartedAll catalog selection.node.name selection.fields

/-- Looking at dependencies first changes no answer: for every change, filters and selections over
a catalog are analysed to what they are analysed to without it, be it a filter, nothing or an
error. -/
theorem Catalog.analysis_eq_traced {definitions : CatalogDefinition} {catalog : Catalog}
    (built : definitions.build = .ok catalog) (change : Change) :
    (∀ filter : Filter, filter.charted catalog = true →
      filter.affected catalog change = filter.traced catalog change) ∧
    ∀ selection : Selection, selection.charted catalog = true →
      selection.stale catalog change = selection.traced catalog change := by
  have wellFormed := CatalogDefinition.build_wellFormed built
  constructor
  · intro filter charted
    unfold Filter.affected Filter.traced
    rw [Predicate.affected_eq_traced wellFormed charted]
  · intro selection charted
    unfold Selection.stale Selection.traced
    rw [SelectionField.staleHead_eq_traced wellFormed charted fun field inside =>
      SelectionField.stale_eq_traced wellFormed
        (SelectionField.chartedAll_iff.mp charted field inside)]

namespace Samples

/-- People with tasks, and those that some plain SQL picks. -/
def busyOrPicked : Filter := ⟨person, .junction .any [busy.predicate, .raw "1 = 1"]⟩

theorem made_busyOrPicked : Filter.Made boardCatalog busyOrPicked := by
  have related : Filter.reverse person "tasks" none = .ok busy := rfl
  have joined : Filter.junction person .any [busy, .raw person "1 = 1"] = .ok busyOrPicked := rfl
  refine .junction joined fun operand inside => ?_
  rcases List.mem_pair.mp inside with rfl | rfl
  · exact .reverse rfl related (by rintro _ ⟨⟩)
  · exact .raw "1 = 1"

theorem analysis_of_assignment : board.build = .ok boardCatalog ∧
    (busyOrPicked.charted boardCatalog = true ∧
      busyOrPicked.affected boardCatalog assignment =
        busyOrPicked.traced boardCatalog assignment) ∧
    duties.charted boardCatalog = true ∧
      duties.stale boardCatalog assignment = duties.traced boardCatalog assignment :=
  have charted := Filter.charted_of_made made_busyOrPicked
  ⟨rfl, ⟨charted, (Catalog.analysis_eq_traced build_board assignment).1 busyOrPicked charted⟩, rfl,
    (Catalog.analysis_eq_traced build_board assignment).2 duties rfl⟩

end Samples

end LiveQuery
