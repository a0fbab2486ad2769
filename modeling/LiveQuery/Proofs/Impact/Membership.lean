import LiveQuery.Proofs.Dependency.Reading
import LiveQuery.Proofs.Impact.Relation

set_option autoImplicit false

namespace LiveQuery

namespace Kept

/-- A row meets the condition as often as before. -/
def membership (predicate : Predicate) : Kept := fun before after row row' =>
  before.holds predicate row = after.holds predicate row'

def headMembership (head : Option Predicate) : Kept := fun before after row row' =>
  before.holdsHead head row = after.holdsHead head row'

end Kept

theorem Lists.ne_nil_or_of_append {α : Type} {left right : List α} (some : left ++ right ≠ []) :
    left ≠ [] ∨ right ≠ [] := by
  cases left with
  | nil => exact Or.inr some
  | cons => exact Or.inl nofun

section Stores

variable {catalog : Catalog} {change : Change} {before after : Store} {node head : Node}
  {row row' : Record}

theorem Transit.holds_edge_eq (transit : Transit catalog change before after)
    (found : catalog.node? node.name = some node) (persists : Persists node before after row row')
    {link : Edge} (inside : .edge link ∈ node.components) (leads : catalog.Leads link head)
    (agrees : link.target row = link.target row') {condition : Option Predicate}
    (kept : Kept.edge link head (.headMembership condition) before after row row') :
    Kept.membership (.edge link condition) before after row row' := by
  have name := Catalog.name_of_node? leads.node
  unfold Kept.membership
  rcases transit.heads_persist found persists inside leads agrees with
    ⟨none, none'⟩ | ⟨other, other', moved, refers, refers'⟩
  · rw [Store.holds_edge_of_target_eq_none none, Store.holds_edge_of_target_eq_none none']
  · rw [transit.consistent.holds_edge_of_refers leads (name ▸ moved.before) refers,
      transit.consistent'.holds_edge_of_refers leads (name ▸ moved.after) refers']
    exact kept other other' moved refers refers'

theorem Kept.holds_reverse_eq {relation : ReverseEdge} {condition : Option Predicate}
    (kept : Kept.children relation head (.headMembership condition) before after row row') :
    Kept.membership (.reverse relation condition) before after row row' :=
  Lists.any_eq_of_forall₂ kept fun _ _ both => both.2

theorem Kept.holds_count_eq {relation : ReverseEdge} {comparison : Comparison} {number : Nat}
    {kept : Kept} (still : Kept.children relation head kept before after row row') :
    Kept.membership (.count relation comparison number) before after row row' := by
  unfold Kept.membership
  rw [Store.holds, Store.holds, still.length_eq]

end Stores

namespace Predicate

open DependencyGraph

section Pruning

variable {graph : DependencyGraph} {change : Change} {result : Except StatementError (Option Predicate)}
  {value : Option Predicate}

theorem unlessUntouched_eq (computed : result = .ok value)
    (touched : value ≠ none → graph.touchedBy change = true) :
    unlessUntouched graph change result = .ok value := by
  unfold unlessUntouched
  by_cases touches : graph.touchedBy change = true
  · rw [if_pos touches, computed]
  · rw [if_neg touches]
    cases value with
    | none => rfl
    | some => exact absurd (touched nofun) touches

theorem touchedBy_of_unlessUntouched (computed : unlessUntouched graph change result = .ok value)
    (some : value ≠ none) : graph.touchedBy change = true := by
  unfold unlessUntouched at computed
  by_cases touches : graph.touchedBy change = true
  · exact touches
  · rw [if_neg touches] at computed
    cases computed
    exact absurd rfl some

theorem ne_nil_of_union_ne_none {results : List Predicate} (some : union results ≠ none) :
    results ≠ [] := by
  rintro rfl
  exact some rfl

theorem toList_ne_nil_iff : value.toList ≠ [] ↔ value ≠ none := by
  cases value <;> simp

end Pruning

variable {catalog : Catalog} {change : Change} {node : Node}

/-- The analysis of a predicate succeeds, what it gives covers the instances whose membership
changes, and it gives nothing unless the change touches what the predicate reads. -/
structure Analysed (catalog : Catalog) (change : Change) (node : Node) (predicate : Predicate)
    (result : Option Predicate) : Prop where
  affected : affected catalog change node predicate = .ok result
  covers : Covers catalog change node
    (.both (.identified catalog node.name) (predicate.shown catalog)) (.membership predicate)
    result.toList

theorem Analysed.touched {predicate : Predicate} {result : Option Predicate}
    (analysed : Analysed catalog change node predicate result) (some : result ≠ none) :
    (predicate.dependencies node.name).touchedBy change = true := by
  have computed := analysed.affected
  unfold Predicate.affected at computed
  exact touchedBy_of_unlessUntouched computed some

theorem holdsAll_eq {before after : Store} {row row' : Record} (kind : Junction)
    {operands : List Predicate}
    (each : ∀ operand ∈ operands, Kept.membership operand before after row row') :
    before.holdsAll kind operands row = after.holdsAll kind operands row' := by
  induction operands with
  | nil => rfl
  | cons operand rest ih =>
    rw [List.forall_mem_cons] at each
    rw [Store.holdsAll, Store.holdsAll, each.1, ih each.2]

/-- The results on the operands of a junction cover it. -/
theorem affectedAll_spec {operands : List Predicate}
    (each : ∀ operand ∈ operands, ∃ result, Analysed catalog change node operand result) :
    ∃ results, affectedAll catalog change node operands = .ok results ∧
      (results ≠ [] → ∃ operand ∈ operands,
        (operand.dependencies node.name).touchedBy change = true) ∧
      Covers catalog change node
        (.both (.identified catalog node.name) (shownAll catalog operands))
        (fun before after row row' =>
          ∀ operand ∈ operands, Kept.membership operand before after row row') results := by
  induction operands with
  | nil =>
    exact ⟨[], rfl, fun found => absurd rfl found, Covers.of_kept fun _ _ _ _ _ _ _ inside =>
      absurd inside List.not_mem_nil⟩
  | cons operand rest ih =>
    rw [List.forall_mem_cons] at each
    obtain ⟨result, analysed⟩ := each.1
    obtain ⟨results, computed, touched, covers⟩ := ih each.2
    refine ⟨result.toList ++ results, ?_, fun found => ?_, ?_⟩
    · rw [affectedAll, analysed.affected, Outcome.ok_bind, computed]
      rfl
    · rcases Lists.ne_nil_or_of_append found with first | behind
      · exact ⟨operand, List.mem_cons_self .., analysed.touched (toList_ne_nil_iff.mp first)⟩
      · obtain ⟨other, inside, touches⟩ := touched behind
        exact ⟨other, List.mem_cons_of_mem _ inside, touches⟩
    · have first : Covers catalog change node
          (.both (.identified catalog node.name) (shownAll catalog (operand :: rest)))
          (.membership operand) result.toList :=
        analysed.covers.narrow fun _ _ _ shown => ⟨shown.1, shown.2.1⟩
      have behind : Covers catalog change node
          (.both (.identified catalog node.name) (shownAll catalog (operand :: rest)))
          (fun before after row row' =>
            ∀ operand ∈ rest, Kept.membership operand before after row row') results :=
        covers.narrow fun _ _ _ shown => ⟨shown.1, shown.2.2⟩
      refine (first.append behind).weaken ?_
      intro before after row row' transit persists both
      exact List.forall_mem_cons.mpr both

theorem affectedHead_spec {head : Option Predicate}
    (each : ∀ inner, head = some inner → ∃ result, Analysed catalog change node inner result) :
    ∃ results, affectedHead catalog change (.ok node) head = .ok results ∧
      (results ≠ [] → ∃ graph, dependenciesHead node.name head = some graph ∧
        graph.touchedBy change = true) ∧
      Covers catalog change node
        (.both (.identified catalog node.name) (shownHead catalog head)) (.headMembership head)
        results := by
  cases head with
  | none => exact ⟨[], rfl, fun found => absurd rfl found, Covers.of_kept fun _ _ _ _ _ _ => rfl⟩
  | some inner =>
    obtain ⟨result, analysed⟩ := each inner rfl
    refine ⟨result.toList, ?_, fun found => ?_, analysed.covers⟩
    · have looked : affectedHead catalog change (.ok node) (some inner) =
          (affected catalog change node inner >>= fun result => pure result.toList) := rfl
      rw [looked, analysed.affected]
      rfl
    · exact ⟨_, rfl, analysed.touched (toList_ne_nil_iff.mp found)⟩

theorem affected_junction (wellFormed : catalog.WellFormed) {kind : Junction}
    {operands : List Predicate} (fits : ∀ operand ∈ operands, operand.fits catalog node.name = true)
    {results : List Predicate} (computed : affectedAll catalog change node operands = .ok results)
    (touched : results ≠ [] → ∃ operand ∈ operands,
      (operand.dependencies node.name).touchedBy change = true) :
    affected catalog change node (.junction kind operands) = .ok (union results) := by
  have rooted : ∀ graph ∈ operands.map (·.dependencies node.name), At catalog node.name graph :=
    List.forall_mem_map.mpr fun operand inside =>
      at_dependencies wellFormed (charted_of_fits (fits operand inside))
  unfold affected
  apply unlessUntouched_eq
  · simp only [computed, Outcome.ok_bind, Outcome.pure_eq_ok]
  · intro some
    obtain ⟨operand, inside, touches⟩ := touched (ne_nil_of_union_ne_none some)
    refine touchedBy_of_within ?_ touches
    rw [dependencies, dependenciesAll_eq_map]
    exact (at_union rooted).2 _ (List.mem_map_of_mem inside)

theorem analysed_junction (wellFormed : catalog.WellFormed) (kind : Junction)
    {operands : List Predicate} (fits : ∀ operand ∈ operands, operand.fits catalog node.name = true)
    (each : ∀ operand ∈ operands, ∃ result, Analysed catalog change node operand result) :
    ∃ result, Analysed catalog change node (.junction kind operands) result := by
  obtain ⟨results, computed, touched, covers⟩ := affectedAll_spec each
  refine ⟨union results, affected_junction wellFormed fits computed touched, ?_⟩
  apply covers.union.weaken
  intro before after row row' transit persists each
  exact holdsAll_eq kind each

/-- An instance's own value of a component is covered by the predicate for that instance, given at
least where an update of the instance touches the component. -/
theorem own_spec (wellFormed : catalog.WellFormed) (sound : change.Sound catalog)
    (found : catalog.node? node.name = some node) {component : Component}
    (inside : component ∈ node.components) {condition : Bool}
    (changes : condition = true → changesComponent node.name component.name change = true)
    (updates : change.isExistence = false →
      changesComponent node.name component.name change = true → condition = true) :
    ∃ results, instanceIf condition catalog node change = .ok results ∧
      (results ≠ [] → condition = true) ∧
      Covers catalog change node (.identified catalog node.name)
        (fun _ _ row row' => component.Agrees row row') results := by
  apply sound.instanceIf_spec wellFormed
  · intro given
    exact here_of_changesComponent sound found (changes given)
  · intro before after row row' transit persists
    rcases transit.agrees found persists inside with agrees | ⟨rfl, update, touched, key⟩
    · exact Or.inl agrees
    · have changed : changesComponent change.node.name component.name change = true := by
        unfold changesComponent
        rw [touched, Bool.or_true, Bool.and_true]
        exact decide_eq_true rfl
      exact Or.inr ⟨updates update changed, key⟩

theorem agrees_holds_leaf {field : Leaf} {operator : LeafOperator} {expected : Value}
    {before after : Store} {row row' : Record} (agrees : (Component.leaf field).Agrees row row') :
    Kept.membership (.leaf field operator expected) before after row row' := by
  obtain ⟨value, value', stored, stored', alike⟩ := agrees
  unfold Kept.membership
  rw [Store.holds, Store.holds, stored, stored']
  exact LeafOperator.holds_of_alike alike operator expected

theorem affected_leaf {field : Leaf} {operator : LeafOperator} {expected : Value}
    {own : List Predicate}
    (owned : instanceIf (changesComponent node.name field.name change) catalog node change =
      .ok own)
    (changes : own ≠ [] → changesComponent node.name field.name change = true) :
    affected catalog change node (.leaf field operator expected) = .ok (union own) := by
  unfold affected
  apply unlessUntouched_eq
  · simp only [owned, Outcome.ok_bind, Outcome.pure_eq_ok]
  · intro some
    exact touchedBy_addLeaf (changes (ne_nil_of_union_ne_none some))

theorem analysed_leaf (wellFormed : catalog.WellFormed) (sound : change.Sound catalog)
    (found : catalog.node? node.name = some node) {field : Leaf} (operator : LeafOperator)
    (expected : Value) (inside : .leaf field ∈ node.components) :
    ∃ result, Analysed catalog change node (.leaf field operator expected) result := by
  obtain ⟨own, owned, changes, covers⟩ := own_spec wellFormed sound found inside id fun _ => id
  refine ⟨union own, affected_leaf owned changes, ?_⟩
  apply (covers.union.narrow fun _ _ _ shown => shown.1).weaken
  intro before after row row' transit persists agrees
  exact agrees_holds_leaf agrees

/-- An edge comes to the changed instance, where the change is one of the edge, and to the
instances that lead to what its head comes to. -/
theorem affected_edge (wellFormed : catalog.WellFormed) {link : Edge}
    {condition : Option Predicate}
    (fits : (Predicate.edge link condition).fits catalog node.name = true) {head : Node}
    (leads : catalog.Leads link head) {own results : List Predicate}
    (owned : instanceIf (changesComponent node.name link.name change) catalog node change =
      .ok own)
    (changes : own ≠ [] → changesComponent node.name link.name change = true)
    (computed : affectedHead catalog change (.ok head) condition = .ok results)
    (touched : results ≠ [] → ∃ graph, dependenciesHead head.name condition = some graph ∧
      graph.touchedBy change = true) :
    affected catalog change node (.edge link condition) =
      .ok (union (own ++ results.map fun result => .edge link (some result))) := by
  have name := Catalog.name_of_node? leads.node
  unfold affected
  refine unlessUntouched_eq ?_ fun some => ?_
  · simp only [owned, leads.edgeHead_eq, computed, Outcome.ok_bind, Outcome.pure_eq_ok]
  · refine (at_empty node.name).touchedBy_addEdge (edgeNode?_of_charted (charted_of_fits fits))
      (at_dependenciesHead wellFormed (chartedHead_of_fits (fits_edge fits).2)) ?_
    refine (Lists.ne_nil_or_of_append (ne_nil_of_union_ne_none some)).imp changes fun further => ?_
    exact name ▸ touched fun none => further (by rw [none]; rfl)

theorem analysed_edge (wellFormed : catalog.WellFormed) (sound : change.Sound catalog)
    (found : catalog.node? node.name = some node) {link : Edge} {condition : Option Predicate}
    (fits : (Predicate.edge link condition).fits catalog node.name = true) {head : Node}
    (leads : catalog.Leads link head) (inside : .edge link ∈ node.components)
    (below : ∀ inner, condition = some inner → ∃ result, Analysed catalog change head inner result) :
    ∃ result, Analysed catalog change node (.edge link condition) result := by
  have name := Catalog.name_of_node? leads.node
  obtain ⟨own, owned, changes, covers⟩ := own_spec wellFormed sound found inside id fun _ => id
  obtain ⟨results, computed, touched, covers'⟩ := affectedHead_spec below
  refine ⟨union (own ++ results.map fun result => .edge link (some result)),
    affected_edge wellFormed fits leads owned changes computed touched, ?_⟩
  have first : Covers catalog change node
      (.both (.identified catalog node.name) ((Predicate.edge link condition).shown catalog))
      (fun _ _ row row' => (Component.edge link).Agrees row row') own :=
    covers.narrow fun _ _ _ shown => shown.1
  have behind : Covers catalog change node
      (.both (.identified catalog node.name) ((Predicate.edge link condition).shown catalog))
      (.edge link head (.headMembership condition))
      (results.map fun result => .edge link (some result)) :=
    (covers'.edge leads).narrow fun _ _ _ shown => name ▸ shown.2
  apply (first.append behind).union.weaken
  intro before after row row' transit persists both
  exact transit.holds_edge_eq found persists inside leads both.1 both.2

theorem affected_reverse (wellFormed : catalog.WellFormed) {relation : ReverseEdge}
    {condition : Option Predicate}
    (fits : (Predicate.reverse relation condition).fits catalog node.name = true) {head : Node}
    (relates : catalog.Relates node relation head) {results through : List Predicate}
    (computed : affectedHead catalog change (.ok head) condition = .ok results)
    (touched : results ≠ [] → ∃ graph, dependenciesHead head.name condition = some graph ∧
      graph.touchedBy change = true)
    (led : throughReverse catalog node relation results change = .ok through)
    (changes : through ≠ [] →
      changesComponent head.name relation.edge.name change = true ∨ results ≠ []) :
    affected catalog change node (.reverse relation condition) = .ok (union through) := by
  unfold affected
  refine unlessUntouched_eq ?_ fun some => ?_
  · simp only [relates.reverseEdgeHead_eq, computed, led, Outcome.ok_bind, Outcome.pure_eq_ok]
  · rw [Predicate.fits, Bool.and_eq_true, decide_eq_true_iff] at fits
    refine (at_empty node.name).touchedBy_addReverseEdge (reverseNode?_of_known fits.1)
      (edgeNode?_of_known wellFormed fits.1)
      (at_dependenciesHead wellFormed (chartedHead_of_fits fits.2)) ?_
    rw [← relates.name]
    exact (changes (ne_nil_of_union_ne_none some)).imp_right touched

theorem analysed_reverse (wellFormed : catalog.WellFormed) (sound : change.Sound catalog)
    {relation : ReverseEdge} {condition : Option Predicate}
    (fits : (Predicate.reverse relation condition).fits catalog node.name = true) {head : Node}
    (relates : catalog.Relates node relation head)
    (below : ∀ inner, condition = some inner → ∃ result, Analysed catalog change head inner result) :
    ∃ result, Analysed catalog change node (.reverse relation condition) result := by
  obtain ⟨results, computed, touched, covers⟩ := affectedHead_spec below
  obtain ⟨through, led, changes, covers'⟩ :=
    throughReverse_spec wellFormed sound relates covers fun _ _ _ _ shown => shown.1
  refine ⟨union through,
    affected_reverse wellFormed fits relates computed touched led changes, ?_⟩
  apply (covers'.union.narrow fun _ _ _ shown => relates.name ▸ shown).weaken
  intro before after row row' transit persists still
  exact Kept.holds_reverse_eq still

theorem affected_count (wellFormed : catalog.WellFormed) {relation : ReverseEdge}
    {comparison : Comparison} {number : Nat}
    (fits : (Predicate.count relation comparison number).fits catalog node.name = true) {head : Node}
    (relates : catalog.Relates node relation head) {through : List Predicate}
    (led : throughReverse catalog node relation [] change = .ok through)
    (changes : through ≠ [] → changesComponent head.name relation.edge.name change = true) :
    affected catalog change node (.count relation comparison number) = .ok (union through) := by
  unfold affected
  refine unlessUntouched_eq ?_ fun some => ?_
  · simp only [led, Outcome.ok_bind, Outcome.pure_eq_ok]
  · rw [Predicate.fits, Bool.and_eq_true, decide_eq_true_iff] at fits
    refine (at_empty node.name).touchedBy_addReverseEdge (reverseNode?_of_known fits.1)
      (edgeNode?_of_known wellFormed fits.1) at_nothing (Or.inl ?_)
    rw [← relates.name]
    exact changes (ne_nil_of_union_ne_none some)

theorem analysed_count (wellFormed : catalog.WellFormed) (sound : change.Sound catalog)
    {relation : ReverseEdge} {comparison : Comparison} {number : Nat}
    (fits : (Predicate.count relation comparison number).fits catalog node.name = true) {head : Node}
    (relates : catalog.Relates node relation head) :
    ∃ result, Analysed catalog change node (.count relation comparison number) result := by
  have nothing : Covers catalog change head View.anything (fun _ _ _ _ => True) [] :=
    Covers.of_kept fun _ _ _ _ _ _ => trivial
  obtain ⟨through, led, changes, covers⟩ :=
    throughReverse_spec wellFormed sound relates nothing fun some => absurd rfl some
  refine ⟨union through, affected_count wellFormed fits relates led
    fun some => (changes some).resolve_right fun further => further rfl, ?_⟩
  apply (covers.union.narrow fun _ _ _ shown => ⟨shown.1, shown.2.1⟩).weaken
  intro before after row row' transit persists still
  exact Kept.holds_count_eq still

/-- Every predicate that fits the catalog can be analysed, for every sound change. -/
theorem exists_analysed (wellFormed : catalog.WellFormed) (sound : change.Sound catalog)
    {predicate : Predicate} (found : catalog.node? node.name = some node)
    (fits : predicate.fits catalog node.name = true) :
    ∃ result, Analysed catalog change node predicate result := by
  -- for every node at once: what is below an edge is analysed on the node that it leads to
  induction predicate generalizing node with
  | constant value =>
    refine ⟨none, ?_, Covers.of_kept fun _ _ _ _ _ _ => rfl⟩
    unfold affected
    exact unlessUntouched_eq rfl fun some => absurd rfl some
  | junction kind operands ih =>
    rw [Predicate.fits, fitsAll_iff] at fits
    exact analysed_junction wellFormed kind fits fun operand inside =>
      ih operand inside found (fits operand inside)
  | negation operand ih =>
    obtain ⟨result, analysed⟩ := ih found fits
    refine ⟨result, ?_, ?_⟩
    · unfold affected
      exact unlessUntouched_eq analysed.affected analysed.touched
    · apply analysed.covers.weaken
      intro before after row row' transit persists same
      exact congrArg (!·) same
  | leaf field operator expected =>
    rw [Predicate.fits, decide_eq_true_iff, found, Option.bind_some] at fits
    exact analysed_leaf wellFormed sound found operator expected (Node.mem_of_component? fits)
  | edge link condition ih =>
    obtain ⟨⟨definition, found', component⟩, headed⟩ := fits_edge fits
    rw [found, Option.some.injEq] at found'
    subst found'
    have inside := Node.mem_of_component? component
    obtain ⟨head, leads⟩ := wellFormed.heads found link inside
    have name := Catalog.name_of_node? leads.node
    refine analysed_edge wellFormed sound found fits leads inside fun inner same => ?_
    subst same
    exact ih inner rfl (name ▸ leads.node) (name ▸ headed)
  | reverse relation condition ih =>
    obtain ⟨⟨definition, found', related⟩, headed⟩ := fits_reverse fits
    rw [found, Option.some.injEq] at found'
    subst found'
    obtain ⟨head, relates⟩ := wellFormed.relates found related
    refine analysed_reverse wellFormed sound fits relates fun inner same => ?_
    subst same
    exact ih inner rfl relates.found (relates.name ▸ headed)
  | count relation comparison number =>
    have known := fits
    rw [Predicate.fits, Bool.and_eq_true, decide_eq_true_iff, found, Option.bind_some] at known
    obtain ⟨head, relates⟩ := wellFormed.relates found known.1
    exact analysed_count wellFormed sound fits relates
  | raw => cases fits

end Predicate

/-- The record has all that a filter looks at, and names the instance of the row. -/
def Filter.shown (catalog : Catalog) (filter : Filter) : View :=
  .both (.identified catalog filter.node.name) (filter.predicate.shown catalog)

/-- The analysis of a filter succeeds and covers its membership. -/
theorem Filter.exists_affected {catalog : Catalog} (wellFormed : catalog.WellFormed)
    {change : Change} (sound : change.Sound catalog) {filter : Filter}
    (fits : filter.fits catalog = true) :
    ∃ result : Option Predicate,
      filter.affected catalog change = .ok (result.map (⟨filter.node, ·⟩)) ∧
        Covers catalog change filter.node (filter.shown catalog) (.membership filter.predicate)
          result.toList := by
  unfold Filter.fits at fits
  rw [Bool.and_eq_true, decide_eq_true_iff] at fits
  obtain ⟨result, analysed⟩ := Predicate.exists_analysed wellFormed sound fits.1 fits.2
  refine ⟨result, ?_, analysed.covers⟩
  unfold Filter.affected
  rw [analysed.affected]
  rfl

/-- An instance that a change makes enter or leave a filter is one that the analysis of the change
tells of. -/
theorem Filter.affected_of_execute_ne {definitions : CatalogDefinition} {catalog : Catalog}
    (built : definitions.build = .ok catalog) {filter : Filter} (fits : filter.fits catalog = true)
    {change : Change} {before after : Store} (commits : change.Commits catalog before after)
    {row row' old new : Record} (persists : Persists filter.node before after row row')
    (shown : filter.shown catalog before row old) (shown' : filter.shown catalog after row' new)
    (flips : filter.execute old ≠ filter.execute new) :
    ∃ affected, filter.affected catalog change = .ok (some affected) ∧
      affected.execute new = .ok true := by
  have wellFormed := CatalogDefinition.build_wellFormed built
  have transit : Transit catalog change before after := ⟨commits, wellFormed⟩
  obtain ⟨result, computed, covers⟩ := Filter.exists_affected wellFormed transit.sound fits
  unfold Filter.fits at fits
  rw [Bool.and_eq_true] at fits
  have lost : ¬Kept.membership filter.predicate before after row row' := by
    intro kept
    have told := (Predicate.faithful_of_shown wellFormed commits.consistent fits.2 shown.2).1
    have told' := (Predicate.faithful_of_shown wellFormed commits.consistent' fits.2 shown'.2).1
    exact flips (told.trans ((congrArg Except.ok kept).trans told'.symm))
  obtain ⟨predicate, inside, matched⟩ := covers.detects transit persists lost (Or.inr shown')
  rw [Option.mem_toList] at inside
  exact ⟨⟨filter.node, predicate⟩, by rw [computed, inside]; rfl, matched⟩

namespace Samples

/-- The people who have a task. -/
def busy : Filter := ⟨person, .reverse tasks none⟩

theorem busy_shown : busy.shown boardCatalog (people [chore]) ada
    [("id", .int 1), ("tasks", .list [.record chore])] :=
  ⟨identified_of_id rfl rfl, .list [.record chore], [chore], [chore], rfl, rfl, .refl _,
    .cons ⟨identified_of_id rfl rfl, trivial⟩ .nil⟩

end Samples

open Samples

theorem Filter.affected_of_first_task :
    ∃ affected, busy.affected boardCatalog assignment = .ok (some affected) ∧
      affected.execute [("id", .int 1), ("tasks", .list [.record chore])] = .ok true := by
  have idle : busy.shown boardCatalog (people []) ada [("id", .int 1), ("tasks", .list [])] :=
    ⟨identified_of_id rfl rfl, .list [], [], [], rfl, rfl, .refl _, .nil⟩
  exact Filter.affected_of_execute_ne build_board rfl commits_assignment persists_ada idle busy_shown
    (by decide)

end LiveQuery
