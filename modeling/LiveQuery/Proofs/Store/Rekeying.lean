import LiveQuery.Proofs.Store.Children

set_option autoImplicit false

namespace LiveQuery

/-- An update between two consistent stores that gives the instance another key. -/
structure Change.Rekeys (catalog : Catalog) (change : Change) (before after : Store)
    (old new : Record) : Prop where
  consistent : before.Consistent catalog
  consistent' : after.Consistent catalog
  replaced : ∃ front back, change.Replaces catalog before after front back (some old) (some new)
  rekeyed : change.node.key old ≠ change.node.key new

/-- Such an update, over a catalog that was built, with the rows around the instance. -/
structure Rekeying (catalog : Catalog) (change : Change) (before after : Store)
    (front back : List Record) (old new : Record) : Prop extends
    change.Replaces catalog before after front back (some old) (some new) where
  wellFormed : catalog.WellFormed
  consistent : before.Consistent catalog
  consistent' : after.Consistent catalog
  rekeyed : change.node.key old ≠ change.node.key new

/-- An instance by its row before an update and its row after it. -/
inductive Counterparts (change : Change) (before : Store) (front back : List Record)
    (old new : Record) (node : Node) : Record → Record → Prop
  | other {row : Record} (inside : row ∈ before node.name)
      (apart : node.name = change.node.name → row ∈ front ++ back) :
      Counterparts change before front back old new node row row
  | changed (here : node = change.node) :
      Counterparts change before front back old new node old new

/-- A row behind a relation before and after an update. Where the update may change what the row is
behind, the row is not the instance. -/
structure Stays (change : Change) (before : Store) (front back : List Record) (old new : Record)
    (relation : ReverseEdge) (head : Node) (child child' : Record) : Prop where
  pair : Counterparts change before front back old new head child child'
  apart : Predicate.changesComponent head.name relation.edge.name change = true →
    child' = child ∧ head.key child ≠ head.key change.identifier

theorem Store.Consistent.not_refers {catalog : Catalog} {store : Store} {node head : Node}
    {link : Edge} {row absent : Record} (consistent : store.Consistent catalog)
    (found : catalog.node? node.name = some node) (member : .edge link ∈ node.components)
    (leads : catalog.Leads link head) (inside : row ∈ store node.name)
    (gone : ∀ other ∈ store head.name, head.key other ≠ head.key absent) :
    link.refers row absent = false := by
  refine Bool.eq_false_iff.mpr fun refers => ?_
  obtain ⟨target, stored, columns⟩ := Edge.refers_iff.mp refers
  obtain ⟨other, there, columns'⟩ :=
    consistent.referential found row inside link member target stored
  rw [← Catalog.name_of_node? leads.node] at there
  exact gone other there (leads.key_eq_iff.mpr (columns'.trans columns.symm))

namespace Rekeying

variable {catalog : Catalog} {change : Change} {before after : Store} {front back : List Record}
  {old new row row' child child' : Record} {node head : Node} {relation : ReverseEdge}

theorem sound (rekeying : Rekeying catalog change before after front back old new) :
    change.Sound catalog :=
  rekeying.toReplaces.sound rekeying.wellFormed rekeying.consistent rekeying.consistent'

theorem old_key (rekeying : Rekeying catalog change before after front back old new) :
    change.node.key old = change.node.key change.identifier := by
  obtain ⟨row, same | ⟨none, -⟩, -, key⟩ := rekeying.toReplaces.key_spec rekeying.wellFormed
    rekeying.consistent rekeying.consistent'
  · cases same
    exact key.symm
  · cases none

theorem others (rekeying : Rekeying catalog change before after front back old new) :
    ∀ row ∈ front ++ back, change.node.key row ≠ change.node.key old :=
  Lists.name_ne_of_nodup (rekeying.before_eq ▸ rekeying.consistent.apart rekeying.node)

theorem others' (rekeying : Rekeying catalog change before after front back old new) :
    ∀ row ∈ front ++ back, change.node.key row ≠ change.node.key new :=
  Lists.name_ne_of_nodup (rekeying.after_eq ▸ rekeying.consistent'.apart rekeying.node)

theorem new_absent (rekeying : Rekeying catalog change before after front back old new) :
    ∀ other ∈ before change.node.name, change.node.key other ≠ change.node.key new := by
  intro other inside
  rw [rekeying.before_eq] at inside
  rcases mem_split_iff.mp inside with apart | same
  · exact rekeying.others' other apart
  · cases same
    exact rekeying.rekeyed

theorem old_absent (rekeying : Rekeying catalog change before after front back old new) :
    ∀ other ∈ after change.node.name, change.node.key other ≠ change.node.key old := by
  intro other inside
  rw [rekeying.after_eq] at inside
  rcases mem_split_iff.mp inside with apart | same
  · exact rekeying.others other apart
  · cases same
    exact rekeying.rekeyed.symm

theorem counterparts_of_mem (rekeying : Rekeying catalog change before after front back old new)
    (apart : row ∈ front ++ back) :
    Counterparts change before front back old new change.node row row := by
  refine .other ?_ fun _ => apart
  rw [rekeying.before_eq]
  exact mem_split_iff.mpr (Or.inl apart)

theorem mem_of_counterparts (rekeying : Rekeying catalog change before after front back old new)
    (pair : Counterparts change before front back old new node row row') :
    row ∈ before node.name ∧ row' ∈ after node.name := by
  cases pair with
  | other inside apart =>
    refine ⟨inside, ?_⟩
    by_cases here : node.name = change.node.name
    · rw [here, rekeying.after_eq]
      exact mem_split_iff.mpr (Or.inl (apart here))
    · rwa [rekeying.elsewhere node.name here]
  | changed here =>
    subst here
    exact ⟨rekeying.old_mem rfl, rekeying.new_mem rfl⟩

theorem agrees (rekeying : Rekeying catalog change before after front back old new)
    (found : catalog.node? node.name = some node)
    (pair : Counterparts change before front back old new node row row')
    {component : Component} (inside : component ∈ node.components) :
    component.Agrees row row' ∨
      (node = change.node ∧ row = old ∧ change.touches component.name = true) := by
  cases pair with
  | other there =>
    exact Or.inl (Component.Agrees.refl
      (rekeying.consistent.complete found row there component inside))
  | changed here =>
    subst here
    exact (rekeying.toReplaces.agrees_of_untouched rekeying.consistent rekeying.consistent'
      inside).2.imp_right fun touches => ⟨rfl, rfl, touches⟩

theorem refers_eq (rekeying : Rekeying catalog change before after front back old new)
    (found : catalog.node? head.name = some head) {link : Edge}
    (member : .edge link ∈ head.components) (leads : catalog.Leads link node)
    (pair : Counterparts change before front back old new head child child')
    (pair' : Counterparts change before front back old new node row row')
    (agrees : link.target child = link.target child') :
    link.refers child row = link.refers child' row' := by
  cases pair' with
  | other => exact Edge.refers_eq_of_target_eq agrees row
  | changed here =>
    subst here
    obtain ⟨inside, inside'⟩ := rekeying.mem_of_counterparts pair
    rw [Edge.refers_eq_of_target_eq agrees old, ← Edge.refers_eq_of_target_eq agrees new,
      rekeying.consistent'.not_refers found member leads inside' rekeying.old_absent,
      rekeying.consistent.not_refers found member leads inside rekeying.new_absent]

/-- Where an edge leads to the same instance before and after, the update leaves that one alone. -/
theorem head_of_agrees (rekeying : Rekeying catalog change before after front back old new)
    (found : catalog.node? node.name = some node)
    (pair : Counterparts change before front back old new node row row') {link : Edge}
    (member : .edge link ∈ node.components) (leads : catalog.Leads link head)
    (agrees : link.target row = link.target row') :
    (link.target row = none ∧ link.target row' = none) ∨
      ∃ other, Counterparts change before front back old new head other other ∧
        link.refers row other = true ∧ link.refers row' other = true := by
  obtain ⟨inside, inside'⟩ := rekeying.mem_of_counterparts pair
  cases target : link.target row with
  | none => exact Or.inl ⟨rfl, agrees ▸ target⟩
  | some columns =>
    right
    obtain ⟨other, there, named⟩ :=
      rekeying.consistent.referential found row inside link member columns target
    have refers : link.refers row other = true := Edge.refers_iff.mpr ⟨columns, target, named⟩
    have refers' := (Edge.refers_eq_of_target_eq agrees other).symm.trans refers
    rw [← Catalog.name_of_node? leads.node] at there
    refine ⟨other, .other there fun here => ?_, refers, refers'⟩
    have named := leads.node
    rw [← Catalog.name_of_node? leads.node] at named
    obtain rfl := Catalog.eq_of_name_eq named rekeying.node here
    rw [rekeying.before_eq] at there
    rcases mem_split_iff.mp there with apart | same
    · exact apart
    · cases same
      -- the row after the update would refer to the key that is gone
      rw [rekeying.consistent'.not_refers found member leads inside' rekeying.old_absent] at refers'
      cases refers'

theorem refers_unmoved (rekeying : Rekeying catalog change before after front back old new)
    (relates : catalog.Relates node relation head)
    (pair : Counterparts change before front back old new node row row')
    (same : Counterparts change before front back old new head child child) :
    relation.edge.refers child row' = relation.edge.refers child row :=
  (rekeying.refers_eq relates.found relates.inside relates.leads same pair rfl).symm

/-- The rows behind a relation from another node than the instance's. -/
theorem children_elsewhere (rekeying : Rekeying catalog change before after front back old new)
    (relates : catalog.Relates node relation head)
    (pair : Counterparts change before front back old new node row row')
    (elsewhere : head.name ≠ change.node.name) :
    List.Forall₂ (Stays change before front back old new relation head)
      (before.children relation row) (after.children relation row') := by
  have other {child : Record} (inside : child ∈ before head.name) :
      Counterparts change before front back old new head child child :=
    .other inside fun same => absurd same elsewhere
  have same : after.children relation row' = before.children relation row := by
    unfold Store.children
    rw [← relates.name, rekeying.elsewhere head.name elsewhere]
    exact List.filter_congr fun child inside =>
      rekeying.refers_unmoved relates pair (other inside)
  rw [same]
  refine List.forall₂_same.mpr fun child inside => ?_
  have there := (Store.mem_children.mp inside).1
  rw [← relates.name] at there
  refine ⟨other there, fun changes => ?_⟩
  unfold Predicate.changesComponent at changes
  rw [Bool.and_eq_true, decide_eq_true_iff] at changes
  exact absurd changes.1.symm elsewhere

theorem children_around (rekeying : Rekeying catalog change before after front back old new)
    (relates : catalog.Relates node relation change.node)
    (pair : Counterparts change before front back old new node row row') {part : List Record}
    (included : part ⊆ front ++ back) :
    List.Forall₂ (Stays change before front back old new relation change.node)
      (part.filter (relation.edge.refers · row)) (part.filter (relation.edge.refers · row')) := by
  have same : part.filter (relation.edge.refers · row') =
      part.filter (relation.edge.refers · row) :=
    List.filter_congr fun child inside =>
      rekeying.refers_unmoved relates pair (rekeying.counterparts_of_mem (included inside))
  rw [same]
  refine List.forall₂_same.mpr fun child inside => ?_
  have apart := included (List.mem_filter.mp inside).1
  exact ⟨rekeying.counterparts_of_mem apart,
    fun _ => ⟨rfl, rekeying.old_key ▸ rekeying.others child apart⟩⟩

/-- The instance itself, if it neither leaves nor joins the rows behind a relation. -/
theorem children_changed (rekeying : Rekeying catalog change before after front back old new)
    (relates : catalog.Relates node relation change.node)
    (pair : Counterparts change before front back old new node row row')
    (unmoved : ¬(Predicate.changesComponent change.node.name relation.edge.name change = true ∧
      (relation.edge.refers old row = true ∨ relation.edge.refers new row' = true))) :
    List.Forall₂ (Stays change before front back old new relation change.node)
      ([old].filter (relation.edge.refers · row)) ([new].filter (relation.edge.refers · row')) := by
  by_cases changes : Predicate.changesComponent change.node.name relation.edge.name change = true
  · obtain ⟨out, out'⟩ := not_or.mp fun found => unmoved ⟨changes, found⟩
    simp [out, out']
  · have itself : Counterparts change before front back old new change.node old new := .changed rfl
    have untouched : change.touches relation.edge.name ≠ true := by
      intro touches
      refine changes ?_
      unfold Predicate.changesComponent
      rw [touches, Bool.or_true, Bool.and_true]
      exact decide_eq_true rfl
    have agrees := (rekeying.agrees relates.found itself relates.inside).resolve_right
      fun touched => untouched touched.2.2
    have same := rekeying.refers_eq relates.found relates.inside relates.leads itself pair agrees
    by_cases refers : relation.edge.refers old row = true
    · rw [List.filter_singleton, List.filter_singleton, refers, ← same, refers]
      exact .cons ⟨itself, fun changed => absurd changed changes⟩ .nil
    · simp [refers, same ▸ refers]

/-- Unless the instance leaves or joins them, the rows behind a relation are counterparts. -/
theorem children_cases (rekeying : Rekeying catalog change before after front back old new)
    (relates : catalog.Relates node relation head)
    (pair : Counterparts change before front back old new node row row') :
    (head = change.node ∧
        Predicate.changesComponent head.name relation.edge.name change = true ∧
          (relation.edge.refers old row = true ∨ relation.edge.refers new row' = true)) ∨
      List.Forall₂ (Stays change before front back old new relation head)
        (before.children relation row) (after.children relation row') := by
  by_cases here : head.name = change.node.name
  · obtain rfl := Catalog.eq_of_name_eq relates.found rekeying.node here
    by_cases meets : Predicate.changesComponent change.node.name relation.edge.name change = true ∧
        (relation.edge.refers old row = true ∨ relation.edge.refers new row' = true)
    · exact Or.inl ⟨rfl, meets⟩
    · right
      unfold Store.children
      rw [← relates.name, rekeying.before_eq, rekeying.after_eq, List.filter_append,
        List.filter_append, List.filter_append, List.filter_append]
      exact List.rel_append (List.rel_append (rekeying.children_around relates pair (by simp))
        (rekeying.children_changed relates pair meets))
        (rekeying.children_around relates pair (by simp))
  · exact Or.inr (rekeying.children_elsewhere relates pair here)

end Rekeying

end LiveQuery
