import LiveQuery.Change
import LiveQuery.Proofs.Statement.Identify
import LiveQuery.Proofs.Store.Basic
import LiveQuery.Proofs.Value.Same

set_option autoImplicit false

namespace LiveQuery

namespace Transition

/-- The record from which the identifier of the change is read. -/
def told : Transition → Record
  | .creation new => new
  | .update old _ => old
  | .deletion old => old

end Transition

namespace Node

/-- Every component that the record has, it has as the row has it. -/
def Tells (node : Node) (record row : Record) : Prop :=
  ∀ component ∈ node.components, ∀ value,
    record.get? component.name = some value → row.get? component.name = some value

/-- The row that a transition takes away and the row that it puts in its place. -/
inductive Carries (node : Node) : Transition → Option Record → Option Record → Prop
  | creation {new row : Record} (told : node.Tells new row) :
      Carries node (.creation new) none (some row)
  | update {old new row row' : Record} (told : node.Tells old row) (told' : node.Tells new row')
      (kept : ∀ component ∈ node.components, new.get? component.name = none →
        row'.get? component.name = row.get? component.name) :
      Carries node (.update old new) (some row) (some row')
  | deletion {old row : Record} (told : node.Tells old row) :
      Carries node (.deletion old) (some row) none

end Node

/-- The change takes one row of its node away, or puts one there, or does both at one place. -/
structure Change.Replaces (catalog : Catalog) (change : Change) (before after : Store)
    (front back : List Record) (old new : Option Record) : Prop where
  node : catalog.node? change.node.name = some change.node
  identifier : change.node.identifierOf change.transition.told = .ok change.identifier
  elsewhere : ∀ name, name ≠ change.node.name → after name = before name
  before_eq : before change.node.name = front ++ old.toList ++ back
  after_eq : after change.node.name = front ++ new.toList ++ back
  carries : change.node.Carries change.transition old new

/-- A change between two consistent stores that leaves the key of the changed instance alone. -/
structure Change.Commits (catalog : Catalog) (change : Change) (before after : Store) : Prop where
  consistent : before.Consistent catalog
  consistent' : after.Consistent catalog
  replaced : ∃ front back old new, change.Replaces catalog before after front back old new ∧
    ∀ row row', old = some row → new = some row' → change.node.key row = change.node.key row'

/-- A committed change, over a catalog that was built. -/
structure Transit (catalog : Catalog) (change : Change) (before after : Store) : Prop extends
    change.Commits catalog before after where
  wellFormed : catalog.WellFormed

/-- An instance that both stores have. -/
structure Persists (node : Node) (before after : Store) (row row' : Record) : Prop where
  before : row ∈ before node.name
  after : row' ∈ after node.name
  key : node.key row = node.key row'

/-- What the analysis of a change relies on: its identifier and its references are complete. -/
structure Change.Sound (catalog : Catalog) (change : Change) : Prop where
  node : catalog.node? change.node.name = some change.node
  names : catalog.Names change.node change.identifier
  references : ∀ link, .edge link ∈ change.node.components → ∀ value,
    ((change.valuesOf link.name).1 = some value ∨ (change.valuesOf link.name).2 = some value) →
      value = .null ∨ ∃ reference, value = .record reference ∧ catalog.Identifies link reference

section Replacing

variable {catalog : Catalog} {change : Change} {before after : Store} {front back : List Record}
  {old new : Option Record} {node : Node} {row row' : Record}

theorem Node.Carries.told_row {transition : Transition} (carries : node.Carries transition old new) :
    ∃ row, (old = some row ∨ (old = none ∧ new = some row)) ∧ node.Tells transition.told row := by
  cases carries with
  | creation told => exact ⟨_, Or.inr ⟨rfl, rfl⟩, told⟩
  | update told => exact ⟨_, Or.inl rfl, told⟩
  | deletion told => exact ⟨_, Or.inl rfl, told⟩

theorem Change.Replaces.old_mem (replaces : change.Replaces catalog before after front back old new)
    (same : old = some row) : row ∈ before change.node.name := by
  rw [replaces.before_eq, same]
  simp

theorem Change.Replaces.new_mem (replaces : change.Replaces catalog before after front back old new)
    (same : new = some row) : row ∈ after change.node.name := by
  rw [replaces.after_eq, same]
  simp

theorem Change.Replaces.key_spec (wellFormed : catalog.WellFormed)
    (consistent : before.Consistent catalog) (consistent' : after.Consistent catalog)
    (replaces : change.Replaces catalog before after front back old new) :
    ∃ row, (old = some row ∨ (old = none ∧ new = some row)) ∧
      catalog.Names change.node change.identifier ∧
      change.node.key change.identifier = change.node.key row := by
  obtain ⟨row, which, told⟩ := replaces.carries.told_row
  have names : catalog.Names change.node row := by
    rcases which with same | ⟨-, same⟩
    · exact consistent.names replaces.node (replaces.old_mem same)
    · exact consistent'.names replaces.node (replaces.new_mem same)
  exact ⟨row, which, Node.identifierOf_spec wellFormed replaces.node names
    (fun component inside => told component (Node.mem_of_identifier inside)) replaces.identifier⟩

/-- A table as a change leaves it alone, with the row of the changed instance before and after. -/
structure Change.Splits (catalog : Catalog) (change : Change) (before after : Store)
    (front back : List Record) (old new : Option Record) : Prop extends
    change.Replaces catalog before after front back old new where
  names : catalog.Names change.node change.identifier
  old_key : ∀ row, old = some row → change.node.key row = change.node.key change.identifier
  new_key : ∀ row, new = some row → change.node.key row = change.node.key change.identifier
  others : ∀ row ∈ front ++ back, change.node.key row ≠ change.node.key change.identifier

theorem Transit.splits (transit : Transit catalog change before after) :
    ∃ front back old new, change.Splits catalog before after front back old new := by
  obtain ⟨front, back, old, new, replaces, keeps⟩ := transit.replaced
  obtain ⟨row, which, names, key⟩ :=
    replaces.key_spec transit.wellFormed transit.consistent transit.consistent'
  refine ⟨front, back, old, new, replaces, names, ?_, ?_, ?_⟩
  · intro other same
    rcases which with told | ⟨none, -⟩
    · rw [same, Option.some.injEq] at told
      rw [told, key]
    · rw [same] at none
      cases none
  · intro other same
    rcases which with told | ⟨-, told⟩
    · rw [key, keeps row other told same]
    · rw [same, Option.some.injEq] at told
      rw [told, key]
  · rw [key]
    rcases which with rfl | ⟨rfl, rfl⟩
    · exact Lists.name_ne_of_nodup (replaces.before_eq ▸ transit.consistent.apart replaces.node)
    · exact Lists.name_ne_of_nodup (replaces.after_eq ▸ transit.consistent'.apart replaces.node)

theorem mem_split_iff {front back : List Record} {middle : Option Record} :
    row ∈ front ++ middle.toList ++ back ↔ row ∈ front ++ back ∨ middle = some row := by
  rw [List.mem_append, List.mem_append, List.mem_append, Option.mem_toList]
  exact or_right_comm

/-- An instance that both stores have is one that the change leaves alone, or the one that it
updates. -/
theorem Transit.persists_cases (transit : Transit catalog change before after)
    (splits : change.Splits catalog before after front back old new)
    (found : catalog.node? node.name = some node) (persists : Persists node before after row row') :
    (row' = row ∧ (node.name = change.node.name → row ∈ front ++ back)) ∨
      (node = change.node ∧ old = some row ∧ new = some row') := by
  have inside := persists.before
  have inside' := persists.after
  by_cases same : node.name = change.node.name
  · obtain rfl := Catalog.eq_of_name_eq found splits.node same
    rcases mem_split_iff.mp (splits.before_eq ▸ inside) with left | left <;>
      rcases mem_split_iff.mp (splits.after_eq ▸ inside') with right | right
    · have kept : row' ∈ before change.node.name := by
        rw [splits.before_eq]
        exact mem_split_iff.mpr (Or.inl right)
      exact Or.inl ⟨(transit.consistent.eq_of_key_eq found inside kept persists.key).symm,
        fun _ => left⟩
    · exact absurd (persists.key.trans (splits.new_key _ right)) (splits.others row left)
    · exact absurd (persists.key.symm.trans (splits.old_key _ left)) (splits.others row' right)
    · exact Or.inr ⟨rfl, left, right⟩
  · have unchanged := splits.elsewhere node.name same
    rw [unchanged] at inside'
    exact Or.inl ⟨(transit.consistent.eq_of_key_eq found inside inside' persists.key).symm,
      fun equal => absurd equal same⟩

theorem Node.Carries.tells_old {transition : Transition} (carries : node.Carries transition old new)
    {record : Record} (told : transition.old? = some record) :
    ∃ row, old = some row ∧ node.Tells record row := by
  cases carries with
  | creation => cases told
  | update tells => cases told; exact ⟨_, rfl, tells⟩
  | deletion tells => cases told; exact ⟨_, rfl, tells⟩

theorem Node.Carries.tells_new {transition : Transition} (carries : node.Carries transition old new)
    {record : Record} (told : transition.new? = some record) :
    ∃ row, new = some row ∧ node.Tells record row := by
  cases carries with
  | creation tells => cases told; exact ⟨_, rfl, tells⟩
  | update _ tells => cases told; exact ⟨_, rfl, tells⟩
  | deletion => cases told

theorem Change.Replaces.value_before
    (replaces : change.Replaces catalog before after front back old new)
    {component : Component} (inside : component ∈ change.node.components) {value : Value}
    (told : (change.valuesOf component.name).1 = some value) :
    ∃ row, old = some row ∧ row.get? component.name = some value := by
  obtain ⟨record, known, stored⟩ := Option.bind_eq_some_iff.mp told
  obtain ⟨row, same, tells⟩ := replaces.carries.tells_old known
  exact ⟨row, same, tells component inside value stored⟩

theorem Change.Replaces.value_after
    (replaces : change.Replaces catalog before after front back old new)
    {component : Component} (inside : component ∈ change.node.components) {value : Value}
    (told : (change.valuesOf component.name).2 = some value) :
    ∃ row, new = some row ∧ row.get? component.name = some value := by
  obtain ⟨record, known, stored⟩ := Option.bind_eq_some_iff.mp told
  obtain ⟨row, same, tells⟩ := replaces.carries.tells_new known
  exact ⟨row, same, tells component inside value stored⟩

/-- Whatever a change between consistent stores tells of identities is complete. -/
theorem Change.Replaces.sound (wellFormed : catalog.WellFormed)
    (consistent : before.Consistent catalog) (consistent' : after.Consistent catalog)
    (replaces : change.Replaces catalog before after front back old new) :
    change.Sound catalog := by
  obtain ⟨-, -, names, -⟩ := replaces.key_spec wellFormed consistent consistent'
  refine ⟨replaces.node, names, fun link inside value told => ?_⟩
  have held : ∃ row : Record, row.get? link.name = some value ∧ catalog.Holds (.edge link) row := by
    rcases told with told | told
    · obtain ⟨row, same, stored⟩ := replaces.value_before inside told
      exact ⟨row, stored, consistent.complete replaces.node row (replaces.old_mem same) _ inside⟩
    · obtain ⟨row, same, stored⟩ := replaces.value_after inside told
      exact ⟨row, stored, consistent'.complete replaces.node row (replaces.new_mem same) _ inside⟩
  obtain ⟨row, stored, ⟨-, null⟩ | ⟨reference, found, identifies⟩⟩ := held
  · exact Or.inl (Option.some.inj (stored.symm.trans null))
  · exact Or.inr ⟨reference, Option.some.inj (stored.symm.trans found), identifies⟩

theorem Transit.sound (transit : Transit catalog change before after) : change.Sound catalog := by
  obtain ⟨front, back, old, new, splits⟩ := transit.splits
  exact splits.toReplaces.sound transit.wellFormed transit.consistent transit.consistent'

theorem Change.touches_update {before after : Record}
    (update : change.transition = .update before after) {component : Component}
    (inside : component ∈ change.node.components) :
    change.touches component.name = Change.differs before after component.name := by
  unfold Change.touches Change.updated
  rw [update]
  simp only
  refine Bool.eq_iff_iff.mpr ?_
  rw [List.contains_iff_mem, List.mem_filter]
  exact and_iff_right (List.mem_map_of_mem inside)

/-- What a component says of a row is the same in two rows. -/
def Component.Agrees (component : Component) (row row' : Record) : Prop :=
  match component with
  | .leaf field => ∃ value value', row.get? field.name = some value ∧
      row'.get? field.name = some value' ∧ value.Alike value'
  | .edge link => link.target row = link.target row'

theorem Component.Agrees.refl {component : Component} (holds : catalog.Holds component row) :
    component.Agrees row row := by
  cases component with
  | leaf field =>
    obtain ⟨value, stored, canonical⟩ := holds
    exact ⟨value, value, stored, stored, canonical.alike⟩
  | edge link => rfl

theorem Component.agrees_of_get?_eq {component : Component} (holds : catalog.Holds component row)
    (same : row'.get? component.name = row.get? component.name) : component.Agrees row row' := by
  cases component with
  | leaf field =>
    obtain ⟨value, stored, canonical⟩ := holds
    exact ⟨value, value, stored, same.trans stored, canonical.alike⟩
  | edge link =>
    have same : row'.get? link.name = row.get? link.name := same
    simp only [Agrees, Edge.target, same]

/-- Values that an update does not tell apart say the same of a component. -/
theorem Component.agrees_of_looselyEqual {component : Component} (holds : catalog.Holds component row)
    (holds' : catalog.Holds component row') {value value' : Value}
    (stored : row.get? component.name = some value)
    (stored' : row'.get? component.name = some value')
    (equal : value.looselyEqual value' = true) : component.Agrees row row' := by
  cases component with
  | leaf field =>
    obtain ⟨known, found, canonical⟩ := holds
    obtain ⟨known', found', canonical'⟩ := holds'
    cases Option.some.inj (found.symm.trans stored)
    cases Option.some.inj (found'.symm.trans stored')
    rw [canonical.looselyEqual_eq canonical', decide_eq_true_iff] at equal
    exact ⟨_, _, stored, stored', canonical.atom?_isSome, equal⟩
  | edge link =>
    have stored : row.get? link.name = some value := stored
    have stored' : row'.get? link.name = some value' := stored'
    simp only [Agrees, Edge.target, stored, stored']
    rcases holds with ⟨-, found⟩ | ⟨reference, found, -⟩ <;>
      rcases holds' with ⟨-, found'⟩ | ⟨reference', found', -⟩ <;>
      cases Option.some.inj (found.symm.trans stored) <;>
      cases Option.some.inj (found'.symm.trans stored')
    · rfl
    · cases equal
    · cases equal
    · refine Lists.mapM_congr fun column _ => ?_
      rcases Value.get?_of_sameFields equal column.headLeaf with ⟨none, none'⟩ | ⟨a, b, some, some', same⟩
      · rw [Record.atom?, Record.atom?, none, none']
      · rw [Record.atom?, Record.atom?, some, some']
        exact Value.atom?_eq_of_same same

theorem Node.Carries.update_of_some {transition : Transition}
    (carries : node.Carries transition (some row) (some row')) :
    ∃ before after, transition = .update before after ∧ node.Tells before row ∧
      node.Tells after row' ∧ ∀ component ∈ node.components,
        after.get? component.name = none →
          row'.get? component.name = row.get? component.name := by
  cases carries with
  | update told told' kept => exact ⟨_, _, rfl, told, told', kept⟩

/-- An update that does not touch a component leaves alone what it says. -/
theorem Change.Replaces.agrees_of_untouched (consistent : before.Consistent catalog)
    (consistent' : after.Consistent catalog)
    (replaces : change.Replaces catalog before after front back (some row) (some row'))
    {component : Component} (inside : component ∈ change.node.components) :
    change.isExistence = false ∧
      (component.Agrees row row' ∨ change.touches component.name = true) := by
  have holds := consistent.complete replaces.node row (replaces.old_mem rfl) component inside
  have holds' := consistent'.complete replaces.node row' (replaces.new_mem rfl) component inside
  obtain ⟨old, new, update, told, told', kept⟩ := replaces.carries.update_of_some
  refine ⟨by unfold Change.isExistence; rw [update], ?_⟩
  by_cases differs : Change.differs old new component.name = true
  · exact Or.inr ((Change.touches_update update inside).trans differs)
  · left
    unfold Change.differs at differs
    cases value' : new.get? component.name with
    | none => exact Component.agrees_of_get?_eq holds (kept component inside value')
    | some value' =>
      cases value : old.get? component.name with
      | none => simp_all
      | some value =>
        refine Component.agrees_of_looselyEqual holds holds'
          (told component inside _ value) (told' component inside _ ‹_›) ?_
        simp_all

/-- An instance that both stores have says the same of a component, unless the change updates that
component of it. -/
theorem Transit.agrees (transit : Transit catalog change before after)
    (found : catalog.node? node.name = some node) (persists : Persists node before after row row')
    {component : Component} (inside : component ∈ node.components) :
    component.Agrees row row' ∨ (node = change.node ∧ change.isExistence = false ∧
      change.touches component.name = true ∧ node.key row = node.key change.identifier) := by
  obtain ⟨front, back, old, new, splits⟩ := transit.splits
  rcases transit.persists_cases splits found persists with ⟨rfl, -⟩ | ⟨rfl, rfl, rfl⟩
  · exact Or.inl (Component.Agrees.refl
      (transit.consistent.complete found row' persists.before component inside))
  · obtain ⟨update, agrees | touches⟩ := splits.toReplaces.agrees_of_untouched transit.consistent
      transit.consistent' inside
    · exact Or.inl agrees
    · exact Or.inr ⟨rfl, update, touches, splits.old_key row rfl⟩

end Replacing

namespace Samples

def assignment : Change := ⟨task, [("id", .int 7)], .creation chore⟩

theorem commits_assignment :
    assignment.Commits boardCatalog (people []) (people [chore]) := by
  refine ⟨consistent_people (Or.inl rfl), consistent_people (Or.inr rfl), [], [], none, some chore,
    ⟨rfl, rfl, ?_, rfl, rfl, .creation fun _ _ _ => id⟩, nofun⟩
  intro name other
  unfold people
  split
  · rfl
  · exact absurd rfl other
  · rfl

theorem persists_ada : Persists person (people []) (people [chore]) ada ada :=
  ⟨List.mem_singleton_self ada, List.mem_singleton_self ada, rfl⟩

end Samples

end LiveQuery
