import LiveQuery.Proofs.Catalog.Consistent
import LiveQuery.Proofs.Selection.Narrowing
import LiveQuery.Proofs.Selection.Readable
import LiveQuery.Selection.Followup

set_option autoImplicit false

namespace LiveQuery

namespace SelectionField

/-- A leaf of a node's identifier, under its own name. -/
def IsIdentifierLeaf (node : Node) (field : SelectionField) : Prop :=
  ∃ part : Leaf, .leaf part ∈ node.identifierComponents ∧ field = .leaf part.name part

/-- A component of a node's identifier, under its own name. Of the head of an edge it selects leaves
of the head's identifier. -/
inductive OfIdentifier (catalog : Catalog) (node : Node) : SelectionField → Prop
  | leaf {part : Leaf} (inside : .leaf part ∈ node.identifierComponents) :
      OfIdentifier catalog node (.leaf part.name part)
  | edge {link : Edge} {head : Node} {fields : List SelectionField}
      (inside : .edge link ∈ node.identifierComponents) (leads : catalog.Leads link head)
      (whole : fault? link.head [] fields = none)
      (leaves : ∀ field ∈ fields, IsIdentifierLeaf head field) :
      OfIdentifier catalog node (.edge link.name link fields)

/-- The same field, or an edge of the identifier with more leaves of the head's identifier. -/
inductive Widens (catalog : Catalog) (node : Node) : SelectionField → SelectionField → Prop
  | same {field : SelectionField} : Widens catalog node field field
  | edge {key : String} {link : Edge} {head : Node} {fields more : List SelectionField}
      (inside : .edge link ∈ node.identifierComponents) (named : key = link.name)
      (leads : catalog.Leads link head) (whole : fault? link.head [] (fields ++ more) = none)
      (leaves : ∀ field ∈ more, IsIdentifierLeaf head field) :
      Widens catalog node (.edge key link fields) (.edge key link (fields ++ more))

/-- Fields as they were, perhaps widened, and behind them further components of the identifier. -/
def WidensAll (catalog : Catalog) (node : Node) (fields wider : List SelectionField) : Prop :=
  ∃ added, (∀ field ∈ added, OfIdentifier catalog node field) ∧
    List.Forall₂ (Widens catalog node) (fields ++ added) wider

variable {catalog : Catalog} {node head : Node} {field wide theirs : SelectionField}
  {fields others wider : List SelectionField}

section Merging

theorem Widens.trans {wider : SelectionField} (first : Widens catalog node field wide)
    (second : Widens catalog node wide wider) : Widens catalog node field wider := by
  cases first with
  | same => exact second
  | edge inside named leads whole leaves =>
    cases second with
    | same => exact .edge inside named leads whole leaves
    | edge _ _ leads' whole' leaves' =>
      obtain rfl := Option.some.inj (leads.node.symm.trans leads'.node)
      rw [List.append_assoc] at whole' ⊢
      exact .edge inside named leads whole' (List.forall_mem_append.mpr ⟨leaves, leaves'⟩)

/-- Leaves that are merged in come behind what is there, if they are not there yet. -/
theorem exists_more (leaves : ∀ field ∈ others, IsIdentifierLeaf head field)
    (merges : mergeAll fields others = .ok wider) :
    ∃ more, wider = fields ++ more ∧ ∀ field ∈ more, IsIdentifierLeaf head field := by
  induction others generalizing fields with
  | nil =>
    cases merges
    exact ⟨[], (List.append_nil _).symm, by simp⟩
  | cons theirs rest ih =>
    rw [List.forall_mem_cons] at leaves
    obtain ⟨⟨part, inside, rfl⟩, behind⟩ := leaves
    rw [mergeAll] at merges
    cases split : splitAtAkin? (.leaf part.name part) fields with
    | none =>
      simp only [split] at merges
      obtain ⟨more, rfl, each⟩ := ih behind merges
      refine ⟨.leaf part.name part :: more, by simp, ?_⟩
      exact List.forall_mem_cons.mpr ⟨⟨part, inside, rfl⟩, each⟩
    | some parts =>
      obtain ⟨front, present, back⟩ := parts
      obtain ⟨rfl, -⟩ := splitAtAkin?_eq_some split
      simp only [split, mergeHead, Outcome.ok_bind] at merges
      exact ih behind merges

theorem widens_of_mergeHead (identifying : OfIdentifier catalog node theirs)
    (same : akin field theirs = true) (merges : mergeHead field theirs = .ok wide) :
    Widens catalog node field wide := by
  cases identifying with
  | leaf =>
    cases merges
    exact .same
  | edge inside leads _ leaves =>
    cases field with
    | edge key link' fields' =>
      simp only [akin, Bool.and_eq_true, decide_eq_true_eq] at same
      obtain ⟨rfl, rfl⟩ := same
      obtain ⟨joined, below, merges⟩ := Outcome.bind_eq_ok.mp merges
      obtain ⟨checked, passed, merges⟩ := Outcome.bind_eq_ok.mp merges
      cases merges
      obtain rfl := check_eq_ok passed
      obtain ⟨more, rfl, each⟩ := exists_more leaves below
      exact .edge inside rfl leads (fault?_of_check passed) each
    | _ => cases same

theorem WidensAll.merge (widens : WidensAll catalog node fields others)
    {identifier : List SelectionField}
    (identifying : ∀ theirs ∈ identifier, OfIdentifier catalog node theirs)
    (merges : mergeAll others identifier = .ok wider) : WidensAll catalog node fields wider := by
  induction identifier generalizing others with
  | nil =>
    cases merges
    exact widens
  | cons theirs rest ih =>
    rw [List.forall_mem_cons] at identifying
    obtain ⟨added, components, paired⟩ := widens
    rw [mergeAll] at merges
    cases split : splitAtAkin? theirs others with
    | none =>
      simp only [split] at merges
      refine ih ⟨added ++ [theirs], ?_, ?_⟩ identifying.2 merges
      · exact List.forall_mem_append.mpr
          ⟨components, List.forall_mem_singleton.mpr identifying.1⟩
      · rw [← List.append_assoc]
        exact List.rel_append paired (.cons .same .nil)
    | some parts =>
      obtain ⟨front, present, back⟩ := parts
      obtain ⟨rfl, same⟩ := splitAtAkin?_eq_some split
      simp only [split] at merges
      obtain ⟨merged, head, merges⟩ := Outcome.bind_eq_ok.mp merges
      have step := widens_of_mergeHead identifying.1 same head
      refine ih ⟨added, components, ?_⟩ identifying.2 merges
      exact Lists.forall₂_replaced paired fun _ earlier => earlier.trans step

/-- The selection of an identifier consists of the components of the identifier. -/
theorem ofIdentifier_of_identifier (wellFormed : catalog.WellFormed)
    (found : catalog.node? node.name = some node) (made : identifier catalog node = .ok fields) :
    ∀ field ∈ fields, OfIdentifier catalog node field := by
  intro field member
  unfold identifier at made
  obtain ⟨listed, mapped, passed⟩ := Outcome.bind_eq_ok.mp made
  obtain rfl := check_eq_ok passed
  obtain ⟨component, inside, made⟩ := Outcome.exists_of_mem_mapM mapped member
  cases component with
  | leaf part =>
    cases made
    exact .leaf inside
  | edge link =>
    obtain ⟨head, leads⟩ := wellFormed.heads found link (Node.mem_of_identifier inside)
    rw [identifierField, leads.edgeHead_eq] at made
    obtain ⟨_, same, made⟩ := Outcome.bind_eq_ok.mp made
    cases same
    obtain ⟨heads, below, made⟩ := Outcome.bind_eq_ok.mp made
    cases made
    unfold headIdentifier at below
    obtain ⟨listed, mapped, passed⟩ := Outcome.bind_eq_ok.mp below
    obtain rfl := check_eq_ok passed
    refine .edge inside leads ?_ fun field member => ?_
    · rw [← Catalog.name_of_node? leads.node]
      exact fault?_of_check passed
    · obtain ⟨component, part, made⟩ := Outcome.exists_of_mem_mapM mapped member
      obtain ⟨leaf, rfl⟩ := leads.leaf_of_identifier part
      cases made
      exact ⟨leaf, part, rfl⟩

end Merging

section Readable

variable (outward : catalog.Outward)

include outward

theorem readable_of_ofIdentifier (known : node ∈ catalog.nodes)
    (identifying : OfIdentifier catalog node field) : Readable catalog node field := by
  cases identifying with
  | leaf inside => exact .leaf (plain_of_identifier outward known inside)
  | edge inside leads whole leaves =>
    refine .edge (plain_of_identifier outward known inside) leads.node ?_ fun inner member => ?_
    · rwa [Catalog.name_of_node? leads.node]
    · obtain ⟨part, inside, rfl⟩ := leaves inner member
      exact .leaf (plain_of_identifier outward (Catalog.mem_of_node? leads.node) inside)

theorem readable_of_widens (widens : Widens catalog node field wide)
    (readable : Readable catalog node field) : Readable catalog node wide := by
  cases widens with
  | same => exact readable
  | edge _ _ leads whole leaves =>
    cases readable with
    | edge plain found _ heads =>
      obtain rfl := Option.some.inj (leads.node.symm.trans found)
      refine .edge plain found ?_ (List.forall_mem_append.mpr ⟨heads, fun inner member => ?_⟩)
      · rwa [Catalog.name_of_node? found]
      · obtain ⟨part, inside, rfl⟩ := leaves inner member
        exact .leaf (plain_of_identifier outward (Catalog.mem_of_node? found) inside)

end Readable

section Later

variable {owner : List String}

theorem ofFields_append : Followup.ofFields owner (fields ++ others) =
    Followup.ofFields owner fields ++ Followup.ofFields owner others := by
  induction fields with
  | nil => rfl
  | cons field rest ih =>
    rw [List.cons_append, Followup.ofFields, Followup.ofFields, ih, List.append_assoc]

theorem ofFields_of_leaves (leaves : ∀ field ∈ fields, IsIdentifierLeaf head field) :
    Followup.ofFields owner fields = [] := by
  induction fields with
  | nil => rfl
  | cons field rest ih =>
    rw [List.forall_mem_cons] at leaves
    obtain ⟨⟨part, -, rfl⟩, behind⟩ := leaves
    rw [Followup.ofFields, ih behind]
    rfl

theorem ofFields_of_ofIdentifier
    (identifying : ∀ field ∈ fields, OfIdentifier catalog node field) :
    Followup.ofFields owner fields = [] := by
  induction fields with
  | nil => rfl
  | cons field rest ih =>
    rw [List.forall_mem_cons] at identifying
    rw [Followup.ofFields, ih identifying.2, List.append_nil]
    cases identifying.1 with
    | leaf => rfl
    | edge _ _ _ leaves => exact ofFields_of_leaves leaves

theorem ofFields_of_widensAll (widens : WidensAll catalog node fields wider) :
    Followup.ofFields owner wider = Followup.ofFields owner fields := by
  obtain ⟨added, identifying, paired⟩ := widens
  have same : Followup.ofFields owner wider = Followup.ofFields owner (fields ++ added) := by
    generalize fields ++ added = all at paired
    induction paired with
    | nil => rfl
    | cons first _ ih =>
      rw [Followup.ofFields, Followup.ofFields, ih]
      cases first with
      | same => rfl
      | edge _ _ _ _ leaves =>
        rw [Followup.ofField, Followup.ofField, ofFields_append, ofFields_of_leaves leaves,
          List.append_nil]
  rw [same, ofFields_append, ofFields_of_ofIdentifier identifying, List.append_nil]

end Later

section Projection

variable {name : String} {record : Record}

/-- What is under the key of a field can be brought into the selected form. -/
def Projects (name : String) (record : Record) (field : SelectionField) : Prop :=
  ∃ raw value, record.get? field.key = some raw ∧ projectValue name raw field = .ok value

theorem projectFields_iff : (∃ selected, projectFields name record fields = .ok selected) ↔
    ∀ field ∈ fields, Projects name record field := by
  induction fields with
  | nil => simp [projectFields]
  | cons field rest ih =>
    rw [List.forall_mem_cons, ← ih]
    simp only [projectFields_eq_ok, List.forall₂_cons_left_iff]
    constructor
    · rintro ⟨_, entry, others, ⟨-, raw, present, made⟩, behind, rfl⟩
      exact ⟨⟨raw, entry.2, present, made⟩, others, behind⟩
    · rintro ⟨⟨raw, value, present, made⟩, others, behind⟩
      exact ⟨_, (field.key, value), others, ⟨rfl, raw, present, made⟩, behind, rfl⟩

theorem projects_identifierLeaf {link : Edge} (leads : catalog.Leads link head)
    (identifies : catalog.Identifies link record) (identifying : IsIdentifierLeaf head field) :
    Projects name record field := by
  obtain ⟨part, inside, rfl⟩ := identifying
  obtain ⟨value, present, canonical⟩ := identifies head leads.node part inside
  exact ⟨value, value, present, canonical.coerce⟩

section Named

variable (wellFormed : catalog.WellFormed) (found : catalog.node? node.name = some node)
  (names : catalog.Names node record)

include wellFormed found names

theorem projects_ofIdentifier (identifying : OfIdentifier catalog node field) :
    Projects name record field := by
  cases identifying with
  | leaf inside =>
    obtain ⟨value, present, canonical⟩ := names _ inside
    exact ⟨value, value, present, canonical.coerce⟩
  | @edge link head fields inside leads _ leaves =>
    obtain ⟨reference, present, identifies⟩ :=
      reference_of_required (wellFormed.required found _ inside) (names _ inside)
    obtain ⟨selected, projected⟩ : ∃ selected,
        projectFields link.head reference fields = .ok selected :=
      projectFields_iff.mpr fun inner member =>
        projects_identifierLeaf leads identifies (leaves inner member)
    exact ⟨.record reference, .record selected, present,
      projectValue_edge.mpr (Or.inr ⟨reference, selected, rfl, rfl, projected⟩)⟩

theorem projects_of_widens (widens : Widens catalog node field wide)
    (projects : Projects name record field) : Projects name record wide := by
  cases widens with
  | same => exact projects
  | @edge key link head fields more inside named leads _ leaves =>
    obtain ⟨reference, present, identifies⟩ :=
      reference_of_required (wellFormed.required found _ inside) (names _ inside)
    obtain ⟨raw, value, known, made⟩ := projects
    rw [SelectionField.key, named, present, Option.some.injEq] at known
    subst known
    rcases projectValue_edge.mp made with ⟨-, null, -⟩ | ⟨_, selected, same, rfl, projected⟩
    · cases null
    · cases same
      obtain ⟨wider, whole⟩ : ∃ wider,
          projectFields link.head reference (fields ++ more) = .ok wider :=
        projectFields_iff.mpr (List.forall_mem_append.mpr
          ⟨projectFields_iff.mp ⟨selected, projected⟩,
            fun inner member => projects_identifierLeaf leads identifies (leaves inner member)⟩)
      exact ⟨.record reference, .record wider, named ▸ present,
        projectValue_edge.mpr (Or.inr ⟨reference, wider, rfl, rfl, whole⟩)⟩

/-- A record that names an instance can be cut down to the wider fields if it can be to the
others. -/
theorem exists_projectFields_of_widensAll (widens : WidensAll catalog node fields wider)
    {selected : Record} (projected : projectFields name record fields = .ok selected) :
    ∃ selected, projectFields name record wider = .ok selected := by
  obtain ⟨added, identifying, paired⟩ := widens
  have before : ∀ field ∈ fields ++ added, Projects name record field :=
    List.forall_mem_append.mpr ⟨projectFields_iff.mp ⟨selected, projected⟩,
      fun field inside => projects_ofIdentifier wellFormed found names (identifying field inside)⟩
  refine projectFields_iff.mpr fun field inside => ?_
  obtain ⟨narrow, member, widens⟩ := Lists.exists_left_of_forall₂ paired inside
  exact projects_of_widens wellFormed found names widens (before narrow member)

end Named

end Projection

section Existence

/-- Fields that are called after the components of an identifier can be selected together. -/
theorem exists_check (apart : (node.identifierComponents.map (·.name)).Nodup)
    {step : Component → Except StatementError SelectionField}
    (steps : ∀ component ∈ node.identifierComponents, ∃ field, step component = .ok field ∧
      field.key = component.name ∧ field.owner = node.name) :
    ∃ fields, (node.identifierComponents.mapM step >>= check node.name) = .ok fields := by
  obtain ⟨fields, mapped, -⟩ := Outcome.mapM_eq_ok fun component inside =>
    (steps component inside).imp fun _ => And.left
  have paired : List.Forall₂ (fun (component : Component) (field : SelectionField) =>
      component.name = field.key ∧ field.owner = node.name) node.identifierComponents fields := by
    refine (Lists.forall₂_mem (Outcome.mapM_eq_ok_iff.mp mapped)).imp fun _ _ both => ?_
    obtain ⟨field, made, keys, owner⟩ := steps _ both.2.1
    cases Except.ok.inj (both.1.symm.trans made)
    exact ⟨keys.symm, owner⟩
  have keys : node.identifierComponents.map (·.name) = fields.map key := by
    rw [← List.forall₂_eq_eq_eq, List.forall₂_map_left_iff, List.forall₂_map_right_iff]
    exact paired.imp fun _ _ => And.left
  have owners : ∀ field ∈ fields, field.owner = node.name := by
    intro field inside
    obtain ⟨_, -, -, owner⟩ := Lists.exists_left_of_forall₂ paired inside
    exact owner
  have whole : fault? node.name [] fields = none :=
    fault?_eq_none_iff.mpr ⟨owners, keys ▸ apart, by simp⟩
  exact ⟨fields, by rw [mapped, Outcome.ok_bind, check, whole]⟩

variable {definitions : CatalogDefinition} (built : definitions.build = .ok catalog)
  (once : ∀ node ∈ catalog.nodes, (node.identifierComponents.map (·.name)).Nodup)

include built

theorem owner_of_build {name : String} (found : catalog.node? name = some node) :
    (∀ field : Leaf, .leaf field ∈ node.components → field.node = node.name) ∧
      ∀ link : Edge, .edge link ∈ node.components → link.node = node.name := by
  have member := Catalog.mem_of_node? found
  refine ⟨fun field inside => ?_, fun link inside =>
    (CatalogDefinition.edgeConsistent_of_build built member inside).owner⟩
  obtain ⟨nodes, whole⟩ := CatalogDefinition.build_spec built
  obtain ⟨definition, bare, made, relations, -, rfl⟩ := whole.of_node node member
  obtain ⟨written, -, made', -⟩ := Lists.exists_left_of_forall₂ made.components inside
  cases written with
  | leaf written =>
    cases made'
    exact made.name.symm
  | edge written =>
    obtain ⟨_, -, same⟩ := Outcome.bind_eq_ok.mp made'
    cases same

include once

theorem exists_headIdentifier (found : catalog.node? head.name = some head)
    (leaves : ∀ component ∈ head.identifierComponents, ∃ field, component = .leaf field) :
    ∃ fields, headIdentifier head = .ok fields := by
  refine exists_check (once _ (Catalog.mem_of_node? found)) fun component inside => ?_
  obtain ⟨part, rfl⟩ := leaves component inside
  exact ⟨.leaf part.name part, rfl, rfl,
    (owner_of_build built found).1 part (Node.mem_of_identifier inside)⟩

/-- The identifier of every node can be selected. -/
theorem exists_identifier_of_build (found : catalog.node? node.name = some node) :
    ∃ identifier, Selection.identifier catalog node = .ok identifier := by
  have wellFormed := CatalogDefinition.build_wellFormed built
  obtain ⟨leaf_owner, edge_owner⟩ := owner_of_build built found
  obtain ⟨fields, made⟩ : ∃ fields, SelectionField.identifier catalog node = .ok fields := by
    refine exists_check (once _ (Catalog.mem_of_node? found)) fun component inside => ?_
    have member := Node.mem_of_identifier inside
    cases component with
    | leaf part => exact ⟨.leaf part.name part, rfl, rfl, leaf_owner part member⟩
    | edge link =>
      obtain ⟨head, leads⟩ := wellFormed.heads found link member
      obtain ⟨heads, below⟩ := exists_headIdentifier built once
        ((Catalog.name_of_node? leads.node).symm ▸ leads.node) fun _ => leads.leaf_of_identifier
      refine ⟨.edge link.name link heads, ?_, rfl, edge_owner link member⟩
      rw [identifierField, leads.edgeHead_eq]
      exact Outcome.bind_eq_ok.mpr ⟨head, rfl, Outcome.bind_eq_ok.mpr ⟨heads, below, rfl⟩⟩
  exact ⟨⟨node, fields⟩, Outcome.bind_eq_ok.mpr ⟨fields, made, rfl⟩⟩

end Existence

end SelectionField

namespace Selection

variable {catalog : Catalog} {node : Node} {selection identifier wide : Selection}

open SelectionField

/-- A selection with the identifier of its node merged into it. -/
structure Identifies (catalog : Catalog) (selection wide : Selection) : Prop where
  node : wide.node = selection.node
  whole : fault? wide.node.name [] wide.fields = none
  fields : WidensAll catalog selection.node selection.fields wide.fields

theorem identifies_of_merge (wellFormed : catalog.WellFormed)
    (found : catalog.node? selection.node.name = some selection.node)
    (made : Selection.identifier catalog selection.node = .ok identifier)
    (merges : selection.merge identifier = .ok wide) : Identifies catalog selection wide := by
  obtain ⟨fields, read, same⟩ := Outcome.bind_eq_ok.mp made
  cases same
  unfold merge at merges
  rw [if_neg (not_not.mpr rfl)] at merges
  obtain ⟨joined, below, merges⟩ := Outcome.bind_eq_ok.mp merges
  obtain ⟨checked, passed, merges⟩ := Outcome.bind_eq_ok.mp merges
  cases merges
  obtain rfl := check_eq_ok passed
  have start : WidensAll catalog selection.node selection.fields selection.fields :=
    ⟨[], by simp, by
      rw [List.append_nil]
      exact List.forall₂_same.mpr fun _ _ => .same⟩
  exact ⟨rfl, fault?_of_check passed,
    start.merge (ofIdentifier_of_identifier wellFormed found read) below⟩

theorem Identifies.readable (identifies : Identifies catalog selection wide)
    (outward : catalog.Outward) (known : selection.node ∈ catalog.nodes)
    (readable : ReadableAll catalog selection.node selection.fields) :
    ReadableAll catalog wide.node wide.fields := by
  refine ⟨identifies.whole, fun field inside => ?_⟩
  obtain ⟨added, identifying, paired⟩ := identifies.fields
  obtain ⟨narrow, member, widens⟩ := Lists.exists_left_of_forall₂ paired inside
  rw [identifies.node]
  refine readable_of_widens outward widens ?_
  rcases List.mem_append.mp member with selected | more
  · exact readable.each narrow selected
  · exact readable_of_ofIdentifier outward known (identifying narrow more)

theorem Identifies.followups_eq (identifies : Identifies catalog selection wide) :
    wide.followups = selection.followups :=
  ofFields_of_widensAll identifies.fields

theorem Identifies.exists_project (identifies : Identifies catalog selection wide)
    (wellFormed : catalog.WellFormed)
    (found : catalog.node? selection.node.name = some selection.node) {record selected : Record}
    (names : catalog.Names selection.node record)
    (projected : selection.project record = .ok selected) :
    ∃ selected, wide.project record = .ok selected := by
  unfold project
  rw [identifies.node]
  exact exists_projectFields_of_widensAll wellFormed found names identifies.fields projected

/-- What is selected of the head of an identifying edge identifies the head. -/
theorem identifies_of_projectFields {link : Edge} {head : Node}
    {leaves wanted : List SelectionField} {name : String} {record cut : Record}
    (found : catalog.node? link.head = some head) (made : headIdentifier head = .ok leaves)
    (unique : (wanted.map key).Nodup) (includes : includesAll wanted leaves = true)
    (projected : projectFields name record wanted = .ok cut) : catalog.Identifies link cut := by
  intro head' found' part inside
  obtain rfl := Option.some.inj (found.symm.trans found')
  unfold headIdentifier at made
  obtain ⟨listed, mapped, passed⟩ := Outcome.bind_eq_ok.mp made
  obtain rfl := check_eq_ok passed
  obtain ⟨field, member, listed⟩ := Outcome.exists_mem_of_mapM mapped inside
  cases listed
  obtain ⟨wide, there, above⟩ := includesAll_iff.mp includes _ member
  have same := akin_of_includes above
  obtain ⟨raw, value, -, present, taken⟩ := get?_of_projectFields unique projected there
  cases wide with
  | leaf key part' =>
    simp only [akin, Bool.and_eq_true, decide_eq_true_eq] at same
    obtain ⟨rfl, rfl⟩ := same
    exact ⟨value, present, Leaf.canonical_of_coerce taken⟩
  | _ => cases same

/-- What a selection with the identifier makes of a record names an instance. -/
theorem names_of_project (valid : wide.Valid)
    (made : Selection.identifier catalog node = .ok identifier)
    (includes : wide.includes identifier = true) {record selected : Record}
    (projected : wide.project record = .ok selected) : catalog.Names node selected := by
  obtain ⟨fields, read, same⟩ := Outcome.bind_eq_ok.mp made
  cases same
  unfold SelectionField.identifier at read
  obtain ⟨listed, mapped, passed⟩ := Outcome.bind_eq_ok.mp read
  obtain rfl := check_eq_ok passed
  obtain ⟨-, unique, sound⟩ := validAll_iff.mp valid
  intro component inside
  obtain ⟨field, member, listed⟩ := Outcome.exists_mem_of_mapM mapped inside
  obtain ⟨outer, there, above⟩ := includesAll_iff.mp (includes_iff.mp includes).2 field member
  obtain ⟨raw, value, -, present, taken⟩ := get?_of_projectFields unique projected there
  rw [includes_eq, Bool.and_eq_true] at above
  obtain ⟨same, heads⟩ := above
  cases component with
  | leaf part =>
    cases listed
    cases outer with
    | leaf key part' =>
      simp only [akin, Bool.and_eq_true, decide_eq_true_eq] at same
      obtain ⟨rfl, rfl⟩ := same
      exact ⟨value, present, Leaf.canonical_of_coerce taken⟩
    | _ => cases same
  | edge link =>
    obtain ⟨head, looked, listed⟩ := Outcome.bind_eq_ok.mp listed
    obtain ⟨leaves, below, listed⟩ := Outcome.bind_eq_ok.mp listed
    cases listed
    cases outer with
    | edge key link' wanted =>
      simp only [akin, Bool.and_eq_true, decide_eq_true_eq] at same
      obtain ⟨rfl, rfl⟩ := same
      obtain ⟨-, apart, -⟩ := validAll_iff.mp (valid_iff.mp (sound _ there)).2
      rcases projectValue_edge.mp taken with
        ⟨nullable, -, rfl⟩ | ⟨reference, cut, -, rfl, cutting⟩
      · exact Or.inl ⟨nullable, present⟩
      · exact Or.inr ⟨cut, present, identifies_of_projectFields
          (node?_of_edgeHead (lift_eq_ok looked)) below apart heads cutting⟩
    | _ => cases same

end Selection

end LiveQuery
