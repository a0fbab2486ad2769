import LiveQuery.Proofs.Statement.InstanceKey
import LiveQuery.Proofs.Value.Coercion

set_option autoImplicit false

namespace LiveQuery

/-- Two records have values under the name of a leaf that it takes for one. -/
def Leaf.Agrees (field : Leaf) (record record' : Record) : Prop :=
  ∃ raw raw' value, record.get? field.name = some raw ∧ record'.get? field.name = some raw' ∧
    field.coerce raw = .ok value ∧ field.coerce raw' = .ok value

/-- Two records say the same of a component: of a leaf itself, or of each leaf that identifies the
head of an edge. -/
def Catalog.Agrees (catalog : Catalog) (record record' : Record) : Component → Prop
  | .leaf field => field.Agrees record record'
  | .edge link => ∃ reference reference', record.get? link.name = some (.record reference) ∧
      record'.get? link.name = some (.record reference') ∧
        ∀ head, catalog.node? link.head = some head → ∀ field,
          .leaf field ∈ head.identifierComponents → field.Agrees reference reference'

/-- Two records denote one instance of a node. -/
def Catalog.SameInstance (catalog : Catalog) (node : Node) (record record' : Record) : Prop :=
  ∀ component ∈ node.identifierComponents, catalog.Agrees record record' component

/-- How a record spells the head of an edge under a leaf of the head. -/
def Edge.spelled? (link : Edge) (record : Record) (headLeaf : String) : Option Value :=
  match record.get? link.name with
  | some (.record reference) => Entries.get? reference headLeaf
  | _ => none

/-- The heads of the identifying edges are spelled alike under all columns. -/
def Node.SpelledAlike (node : Node) (record record' : Record) : Prop :=
  ∀ link, .edge link ∈ node.identifierComponents → ∀ column ∈ link.columns,
    link.spelled? record column.headLeaf = link.spelled? record' column.headLeaf

variable {catalog : Catalog} {node head : Node} {name : String} {link : Edge}
  {record record' reference reference' known id id' : Record}

theorem Leaf.Agrees.eq_of_canonical {field : Leaf} (agrees : field.Agrees record record')
    {value value' : Value} (stored : record.get? field.name = some value)
    (stored' : record'.get? field.name = some value') (canonical : field.Canonical value)
    (canonical' : field.Canonical value') : value = value' := by
  obtain ⟨raw, raw', kept, found, found', coerced, coerced'⟩ := agrees
  obtain rfl := Option.some.inj (stored.symm.trans found)
  obtain rfl := Option.some.inj (stored'.symm.trans found')
  have first := Except.ok.inj (canonical.coerce.symm.trans coerced)
  have second := Except.ok.inj (canonical'.coerce.symm.trans coerced')
  rw [first, second]

theorem Edge.project?_congr {columns : List ForeignKeyColumn} {fields : Record}
    (same : ∀ column ∈ columns, reference.get? column.headLeaf = reference'.get? column.headLeaf)
    (cut : Edge.project? reference columns = some fields) :
    Edge.project? reference' columns = some fields := by
  induction columns generalizing fields with
  | nil => exact cut
  | cons column rest ih =>
    rw [List.forall_mem_cons] at same
    obtain ⟨value, known, cut⟩ := Option.bind_eq_some_iff.mp cut
    obtain ⟨⟨⟩, set, cut⟩ := Option.bind_eq_some_iff.mp cut
    obtain ⟨others, behind, cut⟩ := Option.bind_eq_some_iff.mp cut
    have known' := same.1.symm.trans known
    have behind' := ih same.2 behind
    exact Option.bind_eq_some_iff.mpr ⟨value, known', Option.bind_eq_some_iff.mpr
      ⟨(), set, Option.bind_eq_some_iff.mpr ⟨others, behind', cut⟩⟩⟩

theorem Edge.reference_eq_iff {value value' : Value}
    (cut : link.reference (.record reference) = .ok value)
    (cut' : link.reference (.record reference') = .ok value') : value = value' ↔
      ∀ column ∈ link.columns, reference.get? column.headLeaf = reference'.get? column.headLeaf := by
  constructor
  · rintro rfl
    obtain ⟨stored, same, columns⟩ := Edge.get?_reference cut
    obtain ⟨stored', same', columns'⟩ := Edge.get?_reference cut'
    obtain rfl := Value.record.inj (same.symm.trans same')
    intro column inside
    rw [← columns column inside, columns' column inside]
  · intro same
    obtain ⟨fields, projected, rfl⟩ := Edge.project?_of_reference cut
    obtain ⟨fields', projected', rfl⟩ := Edge.project?_of_reference cut'
    have moved := Edge.project?_congr same projected
    rw [projected', Option.some.injEq] at moved
    rw [moved]

/-- Identifiers are equal exactly if they are equal under every component. -/
theorem Node.identify_eq_iff {components : List Component}
    (apart : ∀ first ∈ components, ∀ second ∈ components, first.name = second.name →
      first = second)
    (read : node.identify record known components = .ok id)
    (read' : node.identify record' known components = .ok id') : id = id' ↔
      ∀ component ∈ components, id.get? component.name = id'.get? component.name := by
  constructor
  · rintro rfl component -
    rfl
  · intro same
    have each := (identify_spec apart read).2
    have each' := (identify_spec apart read').2
    clear apart
    induction components generalizing known with
    | nil => exact Except.ok.inj (read.symm.trans read')
    | cons component rest ih =>
      rw [List.forall_mem_cons] at same each each'
      obtain ⟨raw, value, found, coerced, stored⟩ := each.1
      obtain ⟨raw', value', found', coerced', stored'⟩ := each'.1
      have equal : value = value' := by
        rw [stored, stored', Option.some.injEq] at same
        exact same.1
      subst equal
      rw [identify, found] at read
      rw [identify, found'] at read'
      simp only [coerced, coerced', Outcome.ok_bind] at read read'
      exact ih read read' same.2 each.2 each'.2

/-- Heads that agree and are in the form that stores keep are spelled alike. -/
theorem Catalog.SameInstance.spelledAlike (wellFormed : catalog.WellFormed)
    (found : catalog.node? name = some node) (same : catalog.SameInstance node record record')
    (keeps : catalog.KeepsReferences node record)
    (keeps' : catalog.KeepsReferences node record') : node.SpelledAlike record record' := by
  intro link inside column part
  obtain ⟨head, leads⟩ := wellFormed.heads found link (Node.mem_of_identifier inside)
  obtain ⟨reference, reference', stored, stored', agree⟩ := same _ inside
  obtain ⟨field, identifying, named⟩ := leads.leaf_of_column part
  have agrees := agree head leads.node field identifying
  obtain ⟨value, known, canonical⟩ :=
    keeps link inside reference stored head leads.node field identifying
  obtain ⟨value', known', canonical'⟩ :=
    keeps' link inside reference' stored' head leads.node field identifying
  have equal := agrees.eq_of_canonical known known' canonical canonical'
  simp only [Edge.spelled?, stored, stored', ← named, known, known', equal]

/-- Equal identifiers repeat equal heads. -/
theorem Catalog.SameInstance.spelledAlike_of_eq (same : catalog.SameInstance node record record')
    (read : node.identifierOf record = .ok id) (read' : node.identifierOf record' = .ok id')
    (equal : id = id') : node.SpelledAlike record record' := by
  intro link inside column part
  obtain ⟨reference, reference', stored, stored', -⟩ := same _ inside
  obtain ⟨raw, value, known, coerced, kept⟩ :=
    (Node.identify_spec node.apart_of_identifier read).2 _ inside
  obtain ⟨raw', value', known', coerced', kept'⟩ :=
    (Node.identify_spec node.apart_of_identifier read').2 _ inside
  obtain rfl := Option.some.inj (stored.symm.trans known)
  obtain rfl := Option.some.inj (stored'.symm.trans known')
  have values : value = value' := by
    rw [equal, kept', Option.some.injEq] at kept
    exact kept.symm
  simp only [Edge.spelled?, stored, stored']
  exact (Edge.reference_eq_iff coerced coerced').mp values column part

/-- Heads that are spelled alike are repeated alike, and leaves are the same anyway. -/
theorem Catalog.SameInstance.eq_of_spelledAlike (same : catalog.SameInstance node record record')
    (read : node.identifierOf record = .ok id) (read' : node.identifierOf record' = .ok id')
    (spelled : node.SpelledAlike record record') : id = id' := by
  apply (Node.identify_eq_iff node.apart_of_identifier read read').mpr
  intro component inside
  obtain ⟨raw, value, known, coerced, kept⟩ :=
    (Node.identify_spec node.apart_of_identifier read).2 _ inside
  obtain ⟨raw', value', known', coerced', kept'⟩ :=
    (Node.identify_spec node.apart_of_identifier read').2 _ inside
  rw [kept, kept', Option.some.injEq]
  cases component with
  | leaf field =>
    obtain ⟨_, _, made, stored, stored', first, second⟩ := same _ inside
    obtain rfl := Option.some.inj (stored.symm.trans known)
    obtain rfl := Option.some.inj (stored'.symm.trans known')
    rw [Except.ok.inj (coerced.symm.trans first), Except.ok.inj (coerced'.symm.trans second)]
  | edge link =>
    obtain ⟨reference, reference', stored, stored', -⟩ := same _ inside
    obtain rfl := Option.some.inj (stored.symm.trans known)
    obtain rfl := Option.some.inj (stored'.symm.trans known')
    apply (Edge.reference_eq_iff coerced coerced').mpr
    intro column part
    simpa only [Edge.spelled?, stored, stored'] using spelled link inside column part

/-- Two records of one instance have one identifier exactly if they spell the heads of the
identifying edges alike, and they do where both keep the heads in the form of their leaves. -/
theorem Catalog.SameInstance.identifierOf_eq_iff {definitions : CatalogDefinition}
    (built : definitions.build = .ok catalog) (found : catalog.node? name = some node)
    (same : catalog.SameInstance node record record')
    (read : node.identifierOf record = .ok id) (read' : node.identifierOf record' = .ok id') :
    (id = id' ↔ node.SpelledAlike record record') ∧
      (catalog.KeepsReferences node record → catalog.KeepsReferences node record' → id = id') := by
  have wellFormed := CatalogDefinition.build_wellFormed built
  refine ⟨⟨same.spelledAlike_of_eq read read', same.eq_of_spelledAlike read read'⟩, ?_⟩
  intro keeps keeps'
  exact same.eq_of_spelledAlike read read' (same.spelledAlike wellFormed found keeps keeps')

namespace Samples

/-- Badges are identified by whom they are given to, and by a serial number. -/
def badges : CatalogDefinition := [
  ⟨"Person", "people", [field "id" .uuid], [unique ["id"]], []⟩,
  ⟨"Badge", "badges", [.edge ⟨"holder", "Person", false, []⟩, field "serial" .uuid],
    [unique ["holder", "serial"]], []⟩]

def holderLeaf : Leaf := ⟨"Person", "id", "id", .uuid, false⟩

def badgeHolder : Node :=
  ⟨"Person", "people", [.leaf holderLeaf], [], [⟨"id", ["id"]⟩], ⟨"id", ["id"]⟩⟩

def holder : Edge := ⟨"Badge", "holder", "Person", false, [⟨"id", "holder_id"⟩]⟩

def serial : Leaf := ⟨"Badge", "serial", "serial", .uuid, false⟩

def badge : Node :=
  ⟨"Badge", "badges", [.edge holder, .leaf serial], [],
    [⟨"holder_serial", ["holder", "serial"]⟩], ⟨"holder_serial", ["holder", "serial"]⟩⟩

def badgeCatalog : Catalog := ⟨[badgeHolder, badge]⟩

theorem build_badges : badges.build = .ok badgeCatalog := rfl

def lowerCase : String := "0b0ef7d4-4a0e-4b8e-8a3e-6f1d2c3b4a59"

def upperCase : String := "0B0EF7D4-4A0E-4B8E-8A3E-6F1D2C3B4A59"

def ungrouped : String := "0b0ef7d44a0e4b8e8a3e6f1d2c3b4a59"

def braced : String := "\x7b0B0EF7D4-4A0E-4B8E-8A3E-6F1D2C3B4A59\x7d"

theorem canonical?_spelling {text : String} (one : text ∈ [upperCase, ungrouped, braced]) :
    Text.Uuid.canonical? text = some lowerCase := by
  simp only [List.mem_cons, List.not_mem_nil, or_false] at one
  rcases one with rfl | rfl | rfl <;> decide

/-- The badge whose number is the one of its holder, with both spelled in some way. -/
def badgeOf (holding numbered : String) : Record :=
  [("holder", .record [("id", .string holding)]), ("serial", .string numbered)]

section Badges

variable {holding holding' numbered numbered' : String}
  (held : Text.Uuid.canonical? holding = some lowerCase)
  (held' : Text.Uuid.canonical? holding' = some lowerCase)
  (issued : Text.Uuid.canonical? numbered = some lowerCase)
  (issued' : Text.Uuid.canonical? numbered' = some lowerCase)

theorem coerce_spelling {field : Leaf} {text : String} (typed : field.type = .uuid)
    (required : field.nullable = false) (spelled : Text.Uuid.canonical? text = some lowerCase) :
    field.coerce (.string text) = .ok (.string lowerCase) := by
  simp only [Leaf.coerce, Leaf.coerce?, typed, required, LeafType.coerce?, spelled,
    Bool.false_and, Bool.false_eq_true, ↓reduceIte, Option.map_some]

include issued in
theorem identifierOf_badge : badge.identifierOf (badgeOf holding numbered) =
    .ok (badgeOf holding lowerCase) := by
  have read : serial.coerce (.string numbered) = .ok (.string lowerCase) :=
    coerce_spelling rfl rfl issued
  change (do
    let value ← serial.coerce (.string numbered)
    Node.identify badge (badgeOf holding numbered)
      [("holder", .record [("id", .string holding)]), ("serial", value)] []) = _
  rw [read]
  rfl

include held held' issued issued' in
/-- However they are spelled, all these are one badge. -/
theorem sameInstance_badge :
    badgeCatalog.SameInstance badge (badgeOf holding numbered) (badgeOf holding' numbered') := by
  intro component inside
  rcases List.mem_cons.mp (show component ∈ [.edge holder, .leaf serial] from inside) with
    rfl | later
  · refine ⟨_, _, rfl, rfl, fun head found field part => ?_⟩
    obtain rfl : badgeHolder = head := Option.some.inj found
    cases List.mem_singleton.mp (show Component.leaf field ∈ [Component.leaf holderLeaf] from part)
    exact ⟨_, _, _, rfl, rfl, coerce_spelling rfl rfl held, coerce_spelling rfl rfl held'⟩
  · cases List.mem_singleton.mp later
    exact ⟨_, _, _, rfl, rfl, coerce_spelling rfl rfl issued, coerce_spelling rfl rfl issued'⟩

end Badges

theorem keeps_badge (numbered : String) :
    badgeCatalog.KeepsReferences badge (badgeOf lowerCase numbered) := by
  intro link inside reference stored head found field part
  obtain rfl : link = holder := by
    rcases List.mem_cons.mp (show Component.edge link ∈ [.edge holder, .leaf serial] from inside)
      with same | later
    · exact Component.edge.inj same
    · cases List.mem_singleton.mp later
  cases stored
  obtain rfl : badgeHolder = head := Option.some.inj found
  cases List.mem_singleton.mp (show Component.leaf field ∈ [Component.leaf holderLeaf] from part)
  exact ⟨.string lowerCase, rfl, rfl⟩

end Samples

open Samples

/-- The spelling of a leaf makes no difference, but that of a holder does. -/
theorem Catalog.SameInstance.identifierOf_eq_iff_badges :
    [upperCase, ungrouped, braced].Forall fun text =>
      (∃ id, badge.identifierOf (badgeOf lowerCase lowerCase) = .ok id ∧
        badge.identifierOf (badgeOf lowerCase text) = .ok id) ∧
      ∃ id id', badge.identifierOf (badgeOf lowerCase lowerCase) = .ok id ∧
        badge.identifierOf (badgeOf text lowerCase) = .ok id' ∧ id ≠ id' := by
  refine List.forall_iff_forall_mem.mpr fun text one => ?_
  have found : badgeCatalog.node? "Badge" = some badge := rfl
  have lower : Text.Uuid.canonical? lowerCase = some lowerCase := by decide
  have spelled := canonical?_spelling one
  have read : badge.identifierOf (badgeOf lowerCase lowerCase) = .ok (badgeOf lowerCase lowerCase) :=
    identifierOf_badge lower
  constructor
  · have read' : badge.identifierOf (badgeOf lowerCase text) =
      .ok (badgeOf lowerCase lowerCase) := identifierOf_badge spelled
    have same := sameInstance_badge lower lower lower spelled
    have equal := (identifierOf_eq_iff build_badges found same read read').2 (keeps_badge lowerCase)
      (keeps_badge text)
    exact ⟨_, read, equal ▸ read'⟩
  · have read' : badge.identifierOf (badgeOf text lowerCase) = .ok (badgeOf text lowerCase) :=
      identifierOf_badge lower
    have same := sameInstance_badge lower spelled lower lower
    refine ⟨_, _, read, read', fun equal => ?_⟩
    have alike := (identifierOf_eq_iff build_badges found same read read').1.mp equal holder
      (List.mem_cons_self ..) ⟨"id", "holder_id"⟩ (List.mem_singleton_self _)
    obtain rfl : lowerCase = text := Value.string.inj (Option.some.inj alike)
    exact absurd one (by decide)

end LiveQuery
