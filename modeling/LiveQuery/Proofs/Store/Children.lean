import LiveQuery.Impact.Affected
import LiveQuery.Proofs.Store.Step

set_option autoImplicit false

namespace LiveQuery

theorem Lists.exists_of_not_forall₂ {α β : Type} {R S : α → β → Prop} {left : List α}
    {right : List β} (paired : List.Forall₂ R left right) (lost : ¬List.Forall₂ S left right) :
    ∃ a ∈ left, ∃ b ∈ right, R a b ∧ ¬S a b := by
  induction paired with
  | nil => exact absurd .nil lost
  | @cons a b left right related _ ih =>
    by_cases further : S a b
    · obtain ⟨a', inside, b', inside', fails⟩ := ih fun all => lost (.cons further all)
      exact ⟨a', List.mem_cons_of_mem _ inside, b', List.mem_cons_of_mem _ inside', fails⟩
    · exact ⟨a, List.mem_cons_self, b, List.mem_cons_self, related, further⟩

/-- What may be kept of an instance from one store to the next. -/
abbrev Kept := Store → Store → Record → Record → Prop

namespace Kept

/-- It is kept of the head of an edge, where that is the same instance. -/
def edge (link : Edge) (head : Node) (kept : Kept) : Kept := fun before after row row' =>
  ∀ other other', Persists head before after other other' → link.refers row other = true →
    link.refers row' other' = true → kept before after other other'

/-- The rows behind a reverse edge are the same instances, and it is kept of each. -/
def children (relation : ReverseEdge) (head : Node) (kept : Kept) : Kept :=
  fun before after row row' =>
    List.Forall₂
      (fun child child' => Persists head before after child child' ∧ kept before after child child')
      (before.children relation row) (after.children relation row')

/-- It is kept of every row behind a reverse edge that is there before and after. -/
def behind (relation : ReverseEdge) (head : Node) (kept : Kept) : Kept :=
  fun before after row row' => ∀ child ∈ before.children relation row,
    ∀ child' ∈ after.children relation row', Persists head before after child child' →
      kept before after child child'

end Kept

namespace Catalog

/-- A reverse edge of a node, with the node of its heads. -/
structure Relates (catalog : Catalog) (node : Node) (relation : ReverseEdge) (head : Node) :
    Prop where
  owner : catalog.node? node.name = some node
  holder : catalog.node? relation.head = some head
  inside : .edge relation.edge ∈ head.components
  leads : catalog.Leads relation.edge node

variable {catalog : Catalog} {node head : Node} {relation : ReverseEdge}

theorem Relates.name (relates : catalog.Relates node relation head) : head.name = relation.head :=
  name_of_node? relates.holder

theorem Relates.found (relates : catalog.Relates node relation head) :
    catalog.node? head.name = some head := by
  rw [relates.name, relates.holder]

theorem Relates.reverseEdgeHead_eq (relates : catalog.Relates node relation head) :
    catalog.reverseEdgeHead relation = .ok head := by
  unfold reverseEdgeHead Catalog.node
  rw [relates.holder]

theorem WellFormed.relates (wellFormed : catalog.WellFormed)
    (found : catalog.node? node.name = some node) {name : String}
    (related : node.reverseEdge? name = some relation) :
    ∃ head, catalog.Relates node relation head := by
  obtain ⟨back, head, found', inside⟩ :=
    wellFormed.relations found relation (List.mem_of_find?_eq_some related)
  obtain ⟨node', leads⟩ := wellFormed.heads found' relation.edge inside
  have same : node' = node := by
    have node := leads.node
    rw [back, found, Option.some.injEq] at node
    exact node.symm
  exact ⟨head, found, found', inside, same ▸ leads⟩

end Catalog

section Children

variable {catalog : Catalog} {change : Change} {before after : Store} {front back : List Record}
  {old new : Option Record} {node head : Node} {relation : ReverseEdge} {row row' child : Record}

theorem Transit.heads_persist (transit : Transit catalog change before after)
    (found : catalog.node? node.name = some node) (persists : Persists node before after row row')
    {link : Edge} (inside : .edge link ∈ node.components) (leads : catalog.Leads link head)
    (agrees : link.target row = link.target row') :
    (link.target row = none ∧ link.target row' = none) ∨
      ∃ other other', Persists head before after other other' ∧ link.refers row other = true ∧
        link.refers row' other' = true := by
  have name := Catalog.name_of_node? leads.node
  cases target : link.target row with
  | none => exact Or.inl ⟨rfl, agrees ▸ target⟩
  | some columns =>
    right
    obtain ⟨other, member, named⟩ :=
      transit.consistent.referential found row persists.before link inside columns target
    obtain ⟨other', member', named'⟩ :=
      transit.consistent'.referential found row' persists.after link inside columns (agrees ▸ target)
    refine ⟨other, other', ⟨name ▸ member, name ▸ member', ?_⟩, ?_, ?_⟩
    · exact leads.key_eq_iff.mpr (named.trans named'.symm)
    · exact Edge.refers_iff.mpr ⟨columns, target, named⟩
    · exact Edge.refers_iff.mpr ⟨columns, agrees ▸ target, named'⟩

theorem Store.mem_children {store : Store} : child ∈ store.children relation row ↔
    child ∈ store relation.head ∧ relation.edge.refers child row = true := List.mem_filter

/-- The changed instance refers to the row before or after the change. -/
def ReverseEdge.Meets (relation : ReverseEdge) (old new : Option Record) (row row' : Record) :
    Prop :=
  (∃ child, old = some child ∧ relation.edge.refers child row = true) ∨
    ∃ child, new = some child ∧ relation.edge.refers child row' = true

theorem Persists.of_mem (inside : child ∈ before head.name) (inside' : child ∈ after head.name) :
    Persists head before after child child := ⟨inside, inside', rfl⟩

theorem Change.Splits.children_elsewhere
    (splits : change.Splits catalog before after front back old new)
    (relates : catalog.Relates node relation head) (key : node.key row = node.key row')
    (elsewhere : head.name ≠ change.node.name) :
    after.children relation row' = before.children relation row ∧
      ∀ child ∈ before.children relation row, Persists head before after child child := by
  have table := splits.elsewhere head.name elsewhere
  rw [relates.name] at table
  refine ⟨?_, fun child inside => ?_⟩
  · unfold Store.children
    rw [table]
    exact List.filter_congr fun child _ => (relates.leads.refers_eq_of_key_eq key child).symm
  · have member := (Store.mem_children.mp inside).1
    exact Persists.of_mem (relates.name ▸ member) (by rwa [relates.name, table])

theorem Change.Splits.children_here
    (splits : change.Splits catalog before after front back old new)
    (relates : catalog.Relates node relation change.node) (key : node.key row = node.key row') :
    before.children relation row = front.filter (relation.edge.refers · row) ++
        old.toList.filter (relation.edge.refers · row) ++
          back.filter (relation.edge.refers · row) ∧
      after.children relation row' = front.filter (relation.edge.refers · row) ++
        new.toList.filter (relation.edge.refers · row') ++
          back.filter (relation.edge.refers · row) := by
  have refers : (relation.edge.refers · row) = (relation.edge.refers · row') :=
    funext fun child => relates.leads.refers_eq_of_key_eq key child
  unfold Store.children
  rw [← relates.name, splits.before_eq, splits.after_eq]
  simp only [List.filter_append, refers, and_self]

theorem filter_toList_eq_nil {middle : Option Record} {test : Record → Bool}
    (never : ¬∃ child, middle = some child ∧ test child = true) :
    middle.toList.filter test = [] := by
  refine List.filter_eq_nil_iff.mpr fun child inside holds => ?_
  exact never ⟨child, Option.mem_toList.mp inside, holds⟩

theorem Change.Splits.persists_of_mem
    (splits : change.Splits catalog before after front back old new)
    (inside : child ∈ front ++ back) : Persists change.node before after child child := by
  refine Persists.of_mem ?_ ?_
  · rw [splits.before_eq]
    exact mem_split_iff.mpr (Or.inl inside)
  · rw [splits.after_eq]
    exact mem_split_iff.mpr (Or.inl inside)

theorem Change.Splits.persists_changed
    (splits : change.Splits catalog before after front back (some row) (some row')) :
    Persists change.node before after row row' :=
  ⟨splits.old_mem rfl, splits.new_mem rfl,
    (splits.old_key row rfl).trans (splits.new_key row' rfl).symm⟩

/-- A change that does not touch the edge behind a relation is an update that moves nothing. -/
theorem Transit.children_unmoved (transit : Transit catalog change before after)
    (splits : change.Splits catalog before after front back old new)
    (relates : catalog.Relates node relation change.node) (key : node.key row = node.key row')
    (untouched : Predicate.changesComponent change.node.name relation.edge.name change = false) :
    List.Forall₂ (Persists change.node before after) (before.children relation row)
      (after.children relation row') := by
  have update : change.isExistence = false ∧ change.touches relation.edge.name = false := by
    unfold Predicate.changesComponent at untouched
    simpa using untouched
  have both : ∃ child child', old = some child ∧ new = some child' := by
    have carries := splits.carries
    have update := update.1
    unfold Change.isExistence at update
    generalize change.transition = transition at carries update
    cases carries with
    | update => exact ⟨_, _, rfl, rfl⟩
    | creation | deletion => cases update
  obtain ⟨child, child', rfl, rfl⟩ := both
  have moved := splits.persists_changed
  have refers : relation.edge.refers child row = relation.edge.refers child' row' := by
    rw [relates.leads.refers_eq_of_key_eq key]
    rcases transit.agrees splits.node moved relates.inside with agrees | ⟨-, -, touched, -⟩
    · exact Edge.refers_eq_of_target_eq agrees row'
    · rw [show change.touches relation.edge.name = true from touched] at update
      cases update.2
  have stays : ∀ part ⊆ front ++ back, List.Forall₂ (Persists change.node before after)
      (part.filter (relation.edge.refers · row)) (part.filter (relation.edge.refers · row)) :=
    fun part included => List.forall₂_same.mpr fun other inside =>
      splits.persists_of_mem (included (List.mem_filter.mp inside).1)
  obtain ⟨split, split'⟩ := splits.children_here relates key
  rw [split, split']
  refine List.rel_append (List.rel_append (stays _ (by simp)) ?_) (stays _ (by simp))
  by_cases here : relation.edge.refers child row = true
  · simpa [here, refers ▸ here] using moved
  · simp [here, refers ▸ here]

/-- Where the changed instance does not meet a row, the rows behind it stay, and none of them is
the changed one unless the change leaves their edge alone. -/
theorem Transit.children_cases (transit : Transit catalog change before after)
    (splits : change.Splits catalog before after front back old new)
    (relates : catalog.Relates node relation head) (persists : Persists node before after row row') :
    (head = change.node ∧
        Predicate.changesComponent head.name relation.edge.name change = true ∧
          relation.Meets old new row row') ∨
      List.Forall₂ (fun child child' => Persists head before after child child' ∧
          (Predicate.changesComponent head.name relation.edge.name change = true →
            head.key child ≠ head.key change.identifier))
        (before.children relation row) (after.children relation row') := by
  by_cases here : head.name = change.node.name
  · obtain rfl := Catalog.eq_of_name_eq relates.found splits.node here
    by_cases changes :
        Predicate.changesComponent change.node.name relation.edge.name change = true
    · by_cases meets : relation.Meets old new row row'
      · exact Or.inl ⟨rfl, changes, meets⟩
      · right
        obtain ⟨split, split'⟩ := splits.children_here relates persists.key
        rw [split, split', filter_toList_eq_nil fun found => meets (Or.inl found),
          filter_toList_eq_nil fun found => meets (Or.inr found), List.append_nil,
          ← List.filter_append]
        refine List.forall₂_same.mpr fun child inside => ?_
        have apart := (List.mem_filter.mp inside).1
        exact ⟨splits.persists_of_mem apart, fun _ => splits.others child apart⟩
    · right
      refine (transit.children_unmoved splits relates persists.key (by simpa using changes)).imp
        fun child child' stays => ⟨stays, fun touched => absurd touched changes⟩
  · right
    obtain ⟨table, stays⟩ := splits.children_elsewhere relates persists.key here
    rw [table]
    refine List.forall₂_same.mpr fun child inside => ⟨stays child inside, fun changes => ?_⟩
    unfold Predicate.changesComponent at changes
    rw [Bool.and_eq_true, decide_eq_true_iff] at changes
    exact absurd changes.1.symm here

end Children

end LiveQuery
