import LiveQuery.Proofs.Dependency.Selecting
import LiveQuery.Proofs.Impact.Membership
import LiveQuery.Proofs.Store.Reselected

set_option autoImplicit false

namespace LiveQuery

open DependencyGraph

variable {catalog : Catalog} {change : Change} {node head : Node}

section Ordering

theorem SortExpression.fits_leaf {field : Leaf} {direction : Direction}
    (found : catalog.node? node.name = some node)
    (fits : SortExpression.fits catalog node.name ⟨.leaf field, direction⟩ = true) :
    .leaf field ∈ node.components := by
  have component := of_decide_eq_true fits
  rw [found] at component
  exact Node.mem_of_component? component

theorem SortExpression.fits_count {relation : ReverseEdge} {direction : Direction}
    (found : catalog.node? node.name = some node)
    (fits : SortExpression.fits catalog node.name ⟨.count relation, direction⟩ = true) :
    node.reverseEdge? relation.name = some relation := by
  have related := of_decide_eq_true fits
  rwa [found] at related

/-- A sort key that a change does not affect sorts a persisting row as before. -/
theorem SortExpression.agrees_of_not_affected {expression : SortExpression}
    (found : catalog.node? node.name = some node) (fits : expression.fits catalog node.name = true)
    (unaffected : expression.affectedBy node.name change = false) {before after : Store}
    {row row' : Record} (transit : Transit catalog change before after)
    (persists : Persists node before after row row') :
    expression.Agrees before after row row' := by
  obtain ⟨target, direction⟩ := expression
  unfold SortExpression.affectedBy at unaffected
  cases target with
  | leaf field =>
    rcases transit.agrees found persists (fits_leaf found fits) with
      agrees | ⟨same, update, touched, -⟩
    · exact agrees
    · have touched : change.touches field.name = true := touched
      simp [update, touched, same] at unaffected
  | count relation =>
    obtain ⟨head, relates⟩ := transit.wellFormed.relates found (fits_count found fits)
    obtain ⟨front, back, old, new, splits⟩ := transit.splits
    rcases transit.children_cases splits relates persists with ⟨-, changes, -⟩ | stays
    · unfold Predicate.changesComponent at changes
      rw [relates.name] at changes
      exact absurd (unaffected.symm.trans changes) Bool.false_ne_true
    · exact stays.length_eq

/-- Where a change affects a sort key that does not count rows of the changed node itself, only the
changed row may move. -/
theorem SortExpression.agrees_or_changed {expression : SortExpression}
    (sound : change.Sound catalog) (fits : expression.fits catalog change.node.name = true)
    (foreign : (expression.countsOwn change.node.name &&
      expression.affectedBy change.node.name change) = false) {before after : Store}
    {row row' : Record} (transit : Transit catalog change before after)
    (persists : Persists change.node before after row row') :
    expression.Agrees before after row row' ∨
      change.node.key row = change.node.key change.identifier := by
  cases affected : expression.affectedBy change.node.name change with
  | false => exact Or.inl (agrees_of_not_affected sound.node fits affected transit persists)
  | true =>
    obtain ⟨target, direction⟩ := expression
    cases target with
    | leaf field =>
      exact (transit.agrees sound.node persists (fits_leaf sound.node fits)).imp_right (·.2.2.2)
    | count relation =>
      rw [affected, Bool.and_true] at foreign
      unfold SortExpression.affectedBy at affected
      unfold SortExpression.countsOwn at foreign
      simp only [Bool.and_eq_true, decide_eq_true_eq, decide_eq_false_iff_not] at affected foreign
      exact absurd affected.1.symm foreign

namespace Window

variable {window : Window} {before after : Store} {row row' : Record}

theorem ordered_of_not_affected (found : catalog.node? node.name = some node)
    (fits : ∀ expression ∈ window.ordering.getD [], expression.fits catalog node.name = true)
    (unaffected : ∀ expression ∈ window.ordering.getD [],
      expression.affectedBy node.name change = false) (transit : Transit catalog change before after)
    (persists : Persists node before after row row') :
    window.ordered change node before after row row' := by
  have uncounted : ¬window.recounted node.name change = true := by
    unfold recounted
    rw [Bool.not_eq_true, List.any_eq_false]
    intro expression inside
    simp [unaffected expression inside]
  unfold ordered
  rw [if_neg uncounted]
  intro expression inside
  exact SortExpression.agrees_of_not_affected found (fits expression inside)
    (unaffected expression inside) transit persists

/-- A row of the changed node keeps its place in the order unless it is the changed one. -/
theorem ordered_or_changed (sound : change.Sound catalog)
    (fits : ∀ expression ∈ window.ordering.getD [],
      expression.fits catalog change.node.name = true) (transit : Transit catalog change before after)
    (persists : Persists change.node before after row row') :
    window.ordered change change.node before after row row' ∨
      change.node.key row = change.node.key change.identifier := by
  by_cases changed : change.node.key row = change.node.key change.identifier
  · exact Or.inr changed
  · left
    unfold ordered
    cases recounted : window.recounted change.node.name change with
    | true => exact changed
    | false =>
      intro expression inside
      have foreign : (expression.countsOwn change.node.name &&
          expression.affectedBy change.node.name change) = false := by
        unfold Window.recounted at recounted
        rw [List.any_eq_false] at recounted
        simpa using recounted expression inside
      exact (SortExpression.agrees_or_changed sound (fits expression inside) foreign transit
        persists).resolve_right changed

end Window

/-- Rows that enter or leave a window, or move in it, are covered. -/
theorem SelectionField.movedInWindow_spec (wellFormed : catalog.WellFormed)
    (sound : change.Sound catalog) (found : catalog.node? node.name = some node) {window : Window}
    (fits : window.fits catalog node.name = true) :
    ∃ results, movedInWindow catalog change node window = .ok results ∧
      (results ≠ [] → (window.dependencies node.name).touchedBy change = true) ∧
      Covers catalog change node
        (.both (.identified catalog node.name) (Predicate.shownHead catalog window.filter))
        (fun before after row row' =>
          before.holdsHead window.filter row = after.holdsHead window.filter row' ∧
            window.ordered change node before after row row') results := by
  have reads := Window.dependencies_spec wellFormed (Window.charted_of_fits fits)
  unfold Window.fits at fits
  rw [Bool.and_eq_true, List.all_eq_true] at fits
  have each : ∀ inner, window.filter = some inner →
      ∃ result, Predicate.Analysed catalog change node inner result := by
    intro inner same
    rw [same] at fits
    exact Predicate.exists_analysed wellFormed sound found fits.1
  obtain ⟨matching, computed, touched, covers⟩ := Predicate.affectedHead_spec each
  have touched : matching ≠ [] → (window.dependencies node.name).touchedBy change = true := by
    intro some
    obtain ⟨graph, same, touches⟩ := touched some
    exact touchedBy_of_within (reads.2.1 graph same) touches
  unfold movedInWindow
  rw [computed, Outcome.ok_bind]
  cases reordered : (window.ordering.getD []).any fun expression =>
      expression.affectedBy node.name change with
  | false =>
    refine ⟨matching, rfl, touched, ?_⟩
    rw [List.any_eq_false] at reordered
    have placed : Covers catalog change node
        (.both (.identified catalog node.name) (Predicate.shownHead catalog window.filter))
        (window.ordered change node) [] := by
      refine Covers.of_kept fun before after row row' transit persists => ?_
      refine Window.ordered_of_not_affected found fits.2 ?_ transit persists
      intro expression inside
      simpa using reordered expression inside
    exact List.append_nil matching ▸ covers.append placed
  | true =>
    have touches : (window.dependencies node.name).touchedBy change = true := by
      obtain ⟨expression, inside, affected⟩ := List.any_eq_true.mp reordered
      exact reads.2.2 change expression inside affected
    -- a change on another node can move any row, one on the head's own is taken to move its own row
    by_cases here : change.node.name = node.name
    · obtain rfl := Catalog.eq_of_name_eq found sound.node here.symm
      obtain ⟨result, identified, placed⟩ := sound.covers_changed wellFormed
        fun _ _ _ _ transit persists => Window.ordered_or_changed sound fits.2 transit persists
      refine ⟨matching ++ [result], ?_, fun _ => touches,
        covers.append (placed.narrow fun _ _ _ shown => shown.1)⟩
      simp only [Bool.not_true, Bool.false_eq_true, ↓reduceIte, identified, Outcome.ok_bind,
        Outcome.pure_eq_ok]
    · refine ⟨matching ++ [.constant true], ?_, fun _ => touches, covers.append Covers.anything⟩
      simp only [Bool.not_true, Bool.false_eq_true, ↓reduceIte, here, Outcome.pure_eq_ok]

end Ordering

namespace SelectionField

/-- The analysis of a field succeeds, what it gives covers the instances whose value changes, and it
gives nothing unless the change touches what the field reads. -/
structure Analysed (catalog : Catalog) (change : Change) (node : Node) (field : SelectionField)
    (results : List Predicate) : Prop where
  stale : stale catalog change node field = .ok results
  touched : results ≠ [] → ∀ graph, At catalog node.name graph →
    (read graph field).touchedBy change = true
  covers : Covers catalog change node
    (.both (.identified catalog node.name) (field.shown catalog)) (.selected catalog change field)
    results

/-- The results on all fields cover all of their values. -/
theorem staleAll_spec {fields : List SelectionField}
    (each : ∀ field ∈ fields, ∃ results, Analysed catalog change node field results) :
    ∃ results, staleAll catalog change node fields = .ok results ∧
      (results ≠ [] → ∃ field ∈ fields, ∀ graph, At catalog node.name graph →
        (read graph field).touchedBy change = true) ∧
      Covers catalog change node
        (.both (.identified catalog node.name) (shownAll catalog fields))
        (.selectedAll catalog change fields) results := by
  induction fields with
  | nil => exact ⟨[], rfl, fun found => absurd rfl found, Covers.of_kept fun _ _ _ _ _ _ _ => rfl⟩
  | cons field rest ih =>
    rw [List.forall_mem_cons] at each
    obtain ⟨first, analysed⟩ := each.1
    obtain ⟨results, computed, touched, covers⟩ := ih each.2
    refine ⟨first ++ results, ?_, fun found => ?_, ?_⟩
    · rw [staleAll, analysed.stale, Outcome.ok_bind, computed]
      rfl
    · rcases Lists.ne_nil_or_of_append found with some | behind
      · exact ⟨field, List.mem_cons_self .., analysed.touched some⟩
      · obtain ⟨other, inside, touches⟩ := touched behind
        exact ⟨other, List.mem_cons_of_mem _ inside, touches⟩
    · have here : Covers catalog change node
          (.both (.identified catalog node.name) (shownAll catalog (field :: rest)))
          (.selected catalog change field) first :=
        analysed.covers.narrow fun _ _ _ shown => ⟨shown.1, shown.2.1⟩
      have later : Covers catalog change node
          (.both (.identified catalog node.name) (shownAll catalog (field :: rest)))
          (.selectedAll catalog change rest) results :=
        covers.narrow fun _ _ _ shown => ⟨shown.1, shown.2.2⟩
      apply (here.append later).weaken
      intro before after row row' transit persists both steady
      rw [steadyAll] at steady
      rw [Store.selectedAll, Store.selectedAll, Value.sameFields, both.1 steady.1, both.2 steady.2]
      simp

/-- One predicate for all fields of a node covers their values. -/
theorem staleHead_spec (wellFormed : catalog.WellFormed) {fields : List SelectionField}
    (fits : fitsAll catalog node.name fields = true)
    (each : ∀ field ∈ fields, ∃ results, Analysed catalog change node field results) :
    ∃ result, staleHead catalog change node fields = .ok result ∧
      (result ≠ none → (readAll (.empty node.name) fields).touchedBy change = true) ∧
      Covers catalog change node
        (.both (.identified catalog node.name) (shownAll catalog fields))
        (.selectedAll catalog change fields) result.toList := by
  obtain ⟨results, computed, touched, covers⟩ := staleAll_spec each
  have touched : Predicate.union results ≠ none →
      (readAll (.empty node.name) fields).touchedBy change = true := by
    intro some
    obtain ⟨field, inside, touches⟩ := touched (Predicate.ne_nil_of_union_ne_none some)
    exact touchedBy_readAll wellFormed (chartedAll_of_fits fits) (at_empty node.name) inside touches
  refine ⟨Predicate.union results, ?_, touched, covers.union⟩
  unfold staleHead
  refine Predicate.unlessUntouched_eq ?_ touched
  cases fields with
  | nil =>
    cases computed
    rfl
  | cons field rest =>
    rw [staleAll] at computed
    obtain ⟨first, here, computed⟩ := Outcome.bind_eq_ok.mp computed
    obtain ⟨behind, later, computed⟩ := Outcome.bind_eq_ok.mp computed
    cases computed
    simp only [here, later, Outcome.ok_bind, Outcome.pure_eq_ok]

theorem changes_of_updates {component : String}
    (updates : updatesComponent node.name component change = true) :
    Predicate.changesComponent node.name component change = true := by
  unfold updatesComponent at updates
  rw [Bool.and_eq_true] at updates
  exact updates.2

theorem updates_of_changes {component : String} (update : change.isExistence = false)
    (changes : Predicate.changesComponent node.name component change = true) :
    updatesComponent node.name component change = true := by
  unfold updatesComponent
  rw [update, changes]
  rfl

theorem analysed_leaf (wellFormed : catalog.WellFormed) (sound : change.Sound catalog)
    (found : catalog.node? node.name = some node) (key : String) {field : Leaf}
    (inside : .leaf field ∈ node.components) :
    ∃ results, Analysed catalog change node (.leaf key field) results := by
  obtain ⟨own, computed, changes, covers⟩ := Predicate.own_spec wellFormed sound found inside
    changes_of_updates updates_of_changes
  refine ⟨own, computed, ?_, ?_⟩
  · intro some graph here
    exact touchedBy_addLeaf (here.node ▸ changes_of_updates (changes some))
  · apply (covers.narrow fun _ _ _ shown => shown.1).weaken
    intro before after row row' transit persists agrees steady
    exact Store.same_leaf agrees

theorem at_heads (wellFormed : catalog.WellFormed) {name : String} {fields : List SelectionField}
    (fits : fitsAll catalog name fields = true) : At catalog name (readAll (.empty name) fields) :=
  (at_empty name).grow (readAll_grows wellFormed (chartedAll_of_fits fits) (at_empty name))

theorem analysed_edge (wellFormed : catalog.WellFormed) (sound : change.Sound catalog)
    (found : catalog.node? node.name = some node) (key : String) {link : Edge}
    (leads : catalog.Leads link head) (inside : .edge link ∈ node.components)
    {fields : List SelectionField} (fits : fitsAll catalog head.name fields = true)
    (each : ∀ field ∈ fields, ∃ results, Analysed catalog change head field results) :
    ∃ results, Analysed catalog change node (.edge key link fields) results := by
  have name := Catalog.name_of_node? leads.node
  obtain ⟨own, owned, changes, covers⟩ := Predicate.own_spec wellFormed sound found inside
    changes_of_updates updates_of_changes
  have owned : Predicate.instanceIf (updatesComponent node.name link.name change) catalog node
      change = .ok own := owned
  obtain ⟨below, computed, touched, covers'⟩ := staleHead_spec wellFormed fits each
  refine ⟨own ++ below.toList.map fun result => .edge link (some result), ?_,
    fun some graph here => ?_, ?_⟩
  · rw [stale, leads.edgeHead_eq]
    have computed : (do
        let below ← staleHead catalog change head fields
        return own ++ below.toList.map fun result => Predicate.edge link (some result)) =
        Except.ok (own ++ below.toList.map fun result => Predicate.edge link (some result)) := by
      rw [computed]
      rfl
    simp only [owned, Outcome.ok_bind]
    exact computed
  · refine here.touchedBy_addEdge (wellFormed.edgeNode?_of_mem found inside)
      (at_of_some (at_heads wellFormed (name ▸ fits))) ?_
    rcases Lists.ne_nil_or_of_append some with owned | further
    · exact Or.inl (changes_of_updates (changes owned))
    · refine Or.inr ⟨_, rfl, ?_⟩
      rw [← name]
      exact touched fun none => further (by rw [none]; rfl)
  · have first : Covers catalog change node
        (.both (.identified catalog node.name) ((SelectionField.edge key link fields).shown catalog))
        (fun _ _ row row' => (Component.edge link).Agrees row row') own :=
      covers.narrow fun _ _ _ shown => shown.1
    have behind : Covers catalog change node
        (.both (.identified catalog node.name) ((SelectionField.edge key link fields).shown catalog))
        (.edge link head (.selectedAll catalog change fields))
        (below.toList.map fun result => .edge link (some result)) :=
      (covers'.edge leads).narrow fun _ _ _ shown => name ▸ shown.2
    apply (first.append behind).weaken
    intro before after row row' transit persists both
    exact transit.same_edge found persists inside leads both.1 both.2

/-- A field behind a reverse edge is covered by what covers its heads. -/
theorem throughReverse_analysed (wellFormed : catalog.WellFormed) (sound : change.Sound catalog)
    {relation : ReverseEdge} (relates : catalog.Relates node relation head)
    (related : node.reverseEdge? relation.name = some relation) {view : View} {kept : Kept}
    {results : List Predicate}
    (covers : Covers catalog change head (.both (.identified catalog head.name) view) kept results)
    {reads : Option DependencyGraph}
    (rooted : ∀ more, reads = some more → At catalog relation.head more)
    (touched : results ≠ [] → ∃ more, reads = some more ∧ more.touchedBy change = true) :
    ∃ through, Predicate.throughReverse catalog node relation results change = .ok through ∧
      (through ≠ [] → ∀ graph, At catalog node.name graph →
        (graph.addReverseEdge relation reads).touchedBy change = true) ∧
      Covers catalog change node
        (.both (.identified catalog node.name)
          (.children relation (.both (.identified catalog relation.head) view)))
        (.children relation head kept) through := by
  obtain ⟨through, led, changes, covers'⟩ :=
    throughReverse_spec wellFormed sound relates covers fun _ _ _ _ shown => shown.1
  rw [relates.name] at covers' changes
  refine ⟨through, led, fun some graph here => ?_, covers'⟩
  have known : (catalog.node? node.name).bind (·.reverseEdge? relation.name) = .some relation := by
    rw [relates.owner]
    exact related
  exact here.touchedBy_addReverseEdge (Predicate.reverseNode?_of_known known)
    (Predicate.edgeNode?_of_known wellFormed known) rooted ((changes some).imp_right touched)

theorem analysed_unique (wellFormed : catalog.WellFormed) (sound : change.Sound catalog)
    (key : String) {relation : ReverseEdge} (relates : catalog.Relates node relation head)
    (related : node.reverseEdge? relation.name = some relation)
    {fields : List SelectionField} (fits : fitsAll catalog head.name fields = true)
    (each : ∀ field ∈ fields, ∃ results, Analysed catalog change head field results) :
    ∃ results, Analysed catalog change node (.unique key relation fields) results := by
  obtain ⟨below, computed, touched, covers⟩ := staleHead_spec wellFormed fits each
  obtain ⟨through, led, touches, covers'⟩ := throughReverse_analysed wellFormed sound relates related
    covers (at_of_some (at_heads wellFormed (relates.name ▸ fits))) fun some =>
      ⟨_, rfl, relates.name ▸ touched (Predicate.toList_ne_nil_iff.mp some)⟩
  refine ⟨through, ?_, touches, ?_⟩
  · rw [stale, relates.reverseEdgeHead_eq]
    change (staleHead catalog change head fields >>= _) = _
    rw [computed]
    exact led
  · apply covers'.weaken
    intro before after row row' transit persists kept
    exact Kept.same_unique relates kept

theorem analysed_multiple (wellFormed : catalog.WellFormed) (sound : change.Sound catalog)
    (key : String) {relation : ReverseEdge} (relates : catalog.Relates node relation head)
    (related : node.reverseEdge? relation.name = some relation) {window : Window}
    (framed : window.fits catalog head.name = true)
    {fields : List SelectionField} (fits : fitsAll catalog head.name fields = true)
    (each : ∀ field ∈ fields, ∃ results, Analysed catalog change head field results) :
    ∃ results, Analysed catalog change node (.multiple key relation window fields) results := by
  obtain ⟨moved, moves, touched, covers⟩ :=
    movedInWindow_spec wellFormed sound relates.found framed
  obtain ⟨below, computed, touched', covers'⟩ := staleHead_spec wellFormed fits each
  have both : Covers catalog change head
      (.both (.identified catalog head.name)
        (.both (Predicate.shownHead catalog window.filter) (shownAll catalog fields)))
      (fun before after row row' =>
        (before.holdsHead window.filter row = after.holdsHead window.filter row' ∧
          window.ordered change head before after row row') ∧
            Kept.selectedAll catalog change fields before after row row')
      (moved ++ below.toList) :=
    (covers.narrow fun _ _ _ shown => ⟨shown.1, shown.2.1⟩).append
      (covers'.narrow fun _ _ _ shown => ⟨shown.1, shown.2.2⟩)
  obtain ⟨here, fields_within, window_within⟩ :=
    at_readMany wellFormed (Window.charted_of_fits framed) (at_heads wellFormed fits)
  have touches : moved ++ below.toList ≠ [] →
      (readMany head.name window fields).touchedBy change = true := by
    intro some
    rcases Lists.ne_nil_or_of_append some with moved | below
    · exact touchedBy_of_within window_within (touched moved)
    · exact touchedBy_of_within fields_within
        (touched' (Predicate.toList_ne_nil_iff.mp below))
  rw [relates.name] at here touches
  obtain ⟨through, led, touches, covers⟩ := throughReverse_analysed wellFormed sound relates related
    both (at_of_some here) fun some => ⟨_, rfl, touches some⟩
  refine ⟨through, ?_, touches, ?_⟩
  · rw [stale, relates.reverseEdgeHead_eq]
    change (movedInWindow catalog change head window >>= _) = _
    rw [moves, Outcome.ok_bind]
    simp only [computed, Outcome.ok_bind]
    exact led
  · apply covers.weaken
    intro before after row row' transit persists kept
    exact Kept.same_multiple relates kept

theorem analysed_count (wellFormed : catalog.WellFormed) (sound : change.Sound catalog)
    (key : String) {relation : ReverseEdge} (relates : catalog.Relates node relation head)
    (related : node.reverseEdge? relation.name = some relation) {filter : Option Predicate}
    (fits : Predicate.fitsHead catalog head.name filter = true) :
    ∃ results, Analysed catalog change node (.count key relation filter) results := by
  have each : ∀ inner, filter = some inner →
      ∃ result, Predicate.Analysed catalog change head inner result := by
    rintro inner rfl
    exact Predicate.exists_analysed wellFormed sound relates.found fits
  obtain ⟨below, computed, touched, covers⟩ := Predicate.affectedHead_spec each
  rw [relates.name] at touched fits
  obtain ⟨through, led, touches, covers'⟩ := throughReverse_analysed wellFormed sound relates related
    covers (Predicate.at_dependenciesHead wellFormed (Predicate.chartedHead_of_fits fits)) touched
  refine ⟨through, ?_, touches, ?_⟩
  · rw [stale, relates.reverseEdgeHead_eq, computed]
    exact led
  · apply covers'.weaken
    intro before after row row' transit persists kept
    exact Kept.same_count kept

/-- Every field that fits the catalog can be analysed, for every sound change. -/
theorem exists_analysed (wellFormed : catalog.WellFormed) (sound : change.Sound catalog)
    {field : SelectionField} (found : catalog.node? node.name = some node)
    (fits : field.fits catalog node.name = true) :
    ∃ results, Analysed catalog change node field results := by
  induction field generalizing node with
  | leaf key field =>
    rw [SelectionField.fits, decide_eq_true_iff, found, Option.bind_some] at fits
    exact analysed_leaf wellFormed sound found key (Node.mem_of_component? fits)
  | edge key link fields ih =>
    rw [SelectionField.fits, Bool.and_eq_true, decide_eq_true_iff, found, Option.bind_some] at fits
    have inside := Node.mem_of_component? fits.1
    obtain ⟨head, leads⟩ := wellFormed.heads found link inside
    have name := Catalog.name_of_node? leads.node
    have below := name ▸ fits.2
    exact analysed_edge wellFormed sound found key leads inside below fun field member =>
      ih field member (name ▸ leads.node) (fitsAll_iff.mp below field member)
  | unique key relation fields ih =>
    rw [SelectionField.fits, Bool.and_eq_true, decide_eq_true_iff, found, Option.bind_some] at fits
    obtain ⟨head, relates⟩ := wellFormed.relates found fits.1
    have below := relates.name ▸ fits.2
    exact analysed_unique wellFormed sound key relates fits.1 below fun field member =>
      ih field member relates.found (fitsAll_iff.mp below field member)
  | multiple key relation window fields ih =>
    rw [SelectionField.fits, Bool.and_eq_true, Bool.and_eq_true, decide_eq_true_iff, found,
      Option.bind_some] at fits
    obtain ⟨head, relates⟩ := wellFormed.relates found fits.1.1
    have below := relates.name ▸ fits.2
    exact analysed_multiple wellFormed sound key relates fits.1.1 (relates.name ▸ fits.1.2) below
      fun field member => ih field member relates.found (fitsAll_iff.mp below field member)
  | count key relation filter =>
    rw [SelectionField.fits, Bool.and_eq_true, decide_eq_true_iff, found, Option.bind_some] at fits
    obtain ⟨head, relates⟩ := wellFormed.relates found fits.1
    exact analysed_count wellFormed sound key relates fits.1 (relates.name ▸ fits.2)

end SelectionField

/-- The record has all that decides about a selection, and names the instance of the row. -/
def Selection.shown (catalog : Catalog) (selection : Selection) : View :=
  .both (.identified catalog selection.node.name)
    (SelectionField.shownAll catalog selection.fields)

/-- The analysis of a selection succeeds and covers its selected values. -/
theorem Selection.exists_stale (wellFormed : catalog.WellFormed) (sound : change.Sound catalog)
    {selection : Selection} (fits : selection.fits catalog = true) :
    ∃ result : Option Predicate,
      selection.stale catalog change = .ok (result.map (⟨selection.node, ·⟩)) ∧
        Covers catalog change selection.node (selection.shown catalog)
          (.selectedAll catalog change selection.fields) result.toList := by
  unfold Selection.fits at fits
  rw [Bool.and_eq_true, decide_eq_true_iff] at fits
  obtain ⟨result, computed, -, covers⟩ :=
    SelectionField.staleHead_spec wellFormed fits.2 fun field inside =>
      SelectionField.exists_analysed wellFormed sound fits.1
        (SelectionField.fitsAll_iff.mp fits.2 field inside)
  refine ⟨result, ?_, covers⟩
  unfold Selection.stale
  rw [computed]
  rfl

/-- An instance whose selected value a change alters is one that the analysis of the change tells
of, as long as the change leaves alone the order of the rows other than its own in windows that are
sorted by counts of rows of the changed node. -/
theorem Selection.stale_of_selected_ne {definitions : CatalogDefinition}
    (built : definitions.build = .ok catalog) {selection : Selection}
    (fits : selection.fits catalog = true) {before after : Store}
    (commits : change.Commits catalog before after) {row row' record : Record}
    (persists : Persists selection.node before after row row')
    (steady : SelectionField.steadyAll catalog change selection.fields before after row row')
    (shown : selection.shown catalog after row' record)
    (differs : Record.same (before.selectedAll catalog selection.fields row)
      (after.selectedAll catalog selection.fields row') = false) :
    ∃ stale, selection.stale catalog change = .ok (some stale) ∧
      stale.execute record = .ok true := by
  have wellFormed := CatalogDefinition.build_wellFormed built
  have transit : Transit catalog change before after := ⟨commits, wellFormed⟩
  obtain ⟨result, computed, covers⟩ := Selection.exists_stale wellFormed transit.sound fits
  have lost : ¬Kept.selectedAll catalog change selection.fields before after row row' :=
    fun kept => Bool.false_ne_true (differs.symm.trans (kept steady))
  obtain ⟨predicate, inside, matched⟩ := covers.detects transit persists lost (Or.inr shown)
  rw [Option.mem_toList] at inside
  exact ⟨⟨selection.node, predicate⟩, by rw [computed, inside]; rfl, matched⟩

namespace Samples

/-- A person with her first tasks. -/
def duties : Selection :=
  ⟨person, [.multiple "tasks" tasks ⟨none, none, 0, 10⟩
    [.leaf "id" ⟨"Task", "id", "id", .int, false⟩]]⟩

theorem duties_shown : duties.shown boardCatalog (people [chore]) ada
    [("id", .int 1), ("tasks", .list [.record chore])] :=
  ⟨identified_of_id rfl rfl, ⟨.list [.record chore], [chore], [chore], rfl, rfl, .refl _,
    .cons ⟨identified_of_id rfl rfl, trivial, trivial, trivial⟩ .nil⟩, trivial⟩

end Samples

open Samples

theorem Selection.stale_of_first_task :
    ∃ stale, duties.stale boardCatalog assignment = .ok (some stale) ∧
      stale.execute [("id", .int 1), ("tasks", .list [.record chore])] = .ok true := by
  have steady : SelectionField.steadyAll boardCatalog assignment duties.fields (people [])
      (people [chore]) ada ada := by
    refine ⟨fun node found => ⟨fun recounted => ?_, fun _ inside => ?_⟩, trivial⟩
    · cases recounted
    · cases inside
  exact Selection.stale_of_selected_ne build_board rfl commits_assignment persists_ada steady
    duties_shown rfl

end LiveQuery
