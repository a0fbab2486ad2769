import LiveQuery.Proofs.Execution.Completion
import LiveQuery.Proofs.Selection.Followups
import LiveQuery.Proofs.Statement.SameIdentifier

set_option autoImplicit false

namespace LiveQuery

namespace Followup

variable {catalog : Catalog} {followup : Followup} {parent target : Node} {key : String}
  {twin tree owner : Record}

/-- A record that owns the relation of a follow-up: it carries its identifier, and has a list of
heads of the selected shape. -/
structure Owned (catalog : Catalog) (followup : Followup) (owner : Record) : Prop where
  identified : catalog.Identified followup.relation.node owner
  listed : ∃ items : List Record, owner.get? followup.key = some (.list (items.map .record)) ∧
    ∀ item ∈ items, catalog.Identified followup.relation.head item ∧
      SelectionField.ShapesAll catalog followup.head item

/-- The owner in a record is the one in the tree that the record stands for, if there is one. -/
def Reached (catalog : Catalog) (followup : Followup) (twin tree : Record) : Prop :=
  (tree.at? followup.owner = none ∧ twin.at? followup.owner = none) ∨
    ∃ owner twin', tree.at? followup.owner = some owner ∧ twin.at? followup.owner = some twin' ∧
      catalog.Carries followup.relation.node twin' owner ∧ followup.Owned catalog owner

theorem Rooted.inside (rooted : followup.Rooted catalog parent target) (key : String) :
    (followup.inside key).Rooted catalog parent target := by
  cases followup
  exact ⟨rooted.found, rooted.belongs, rooted.heads, rooted.readable, rooted.next⟩

theorem at?_inside_of_child {child : Record} (found : tree.get? key = some (.record child)) :
    tree.at? (followup.inside key).owner = child.at? followup.owner := by
  rw [Executor.owner_inside, Record.at?, found]

theorem at?_inside_of_null (found : tree.get? key = some .null) :
    tree.at? (followup.inside key).owner = none := by
  rw [Executor.owner_inside, Record.at?, found]

theorem Reached.inside {twin' child : Record} (reached : followup.Reached catalog twin' child)
    (found : twin.get? key = some (.record twin')) (found' : tree.get? key = some (.record child)) :
    (followup.inside key).Reached catalog twin tree := by
  unfold Reached at reached ⊢
  rw [at?_inside_of_child found, at?_inside_of_child found']
  cases followup
  exact reached.imp_right fun ⟨owner, twin, known, known', carries, owned⟩ =>
    ⟨owner, twin, known, known', carries, owned.identified, owned.listed⟩

end Followup

namespace SelectionField

variable {catalog : Catalog} {node : Node} {twin tree : Record} {fields : List SelectionField}

/-- How the follow-ups of a field are placed, in the catalog and in records. -/
def Places (catalog : Catalog) (field : SelectionField) : Prop :=
  ∀ {node : Node}, catalog.node? node.name = some node → Readable catalog node field →
    field.owner = node.name → ∀ followup ∈ Followup.ofField [] field,
      (∃ parent target, followup.Rooted catalog parent target) ∧
      ∀ {twin tree : Record}, catalog.Identified node.name tree → Shapes catalog field tree →
        Copied catalog false field twin tree → catalog.Carries node.name twin tree →
        followup.Reached catalog twin tree

theorem placed_of (found : catalog.node? node.name = some node)
    (readable : ReadableAll catalog node fields) (each : ∀ field ∈ fields, Places catalog field)
    {followup : Followup} (inside : followup ∈ Followup.ofFields [] fields) :
    (∃ parent target, followup.Rooted catalog parent target) ∧
      ∀ {twin tree : Record}, catalog.Identified node.name tree → ShapesAll catalog fields tree →
        CopiedAll catalog false fields twin tree → catalog.Carries node.name twin tree →
        followup.Reached catalog twin tree := by
  obtain ⟨field, member, below⟩ := Followup.mem_ofFields.mp inside
  have owner : field.owner = node.name := (fault?_eq_none_iff.mp readable.whole).1 field member
  obtain ⟨rooted, reached⟩ := each field member found (readable.each field member) owner _ below
  refine ⟨rooted, fun identified shaped copied carries => ?_⟩
  exact reached identified (shapesAll_iff.mp shaped field member)
    (copiedAll_iff.mp copied field member) carries

/-- The follow-ups behind a relation to one head are placed below it. -/
theorem placed_head {target : Node} {key name : String} (found : catalog.node? name = some target)
    (readable : ReadableAll catalog target fields)
    (each : ∀ field ∈ fields, Places catalog field) {followup : Followup}
    (inside : followup ∈ Followup.ofFields [key] fields) :
    (∃ parent target, followup.Rooted catalog parent target) ∧
      ∀ {twin tree : Record},
        (tree.get? key = some .null ∨ ∃ child, tree.get? key = some (.record child) ∧
          catalog.Identified name child ∧ ShapesAll catalog fields child) →
        ((twin.get? key = some .null ∧ tree.get? key = some .null) ∨
          ∃ twin' child, twin.get? key = some (.record twin') ∧
            tree.get? key = some (.record child) ∧ catalog.Carries name twin' child ∧
            CopiedAll catalog false fields twin' child) →
        followup.Reached catalog twin tree := by
  have named := Catalog.name_of_node? found
  rw [Followup.ofFields_cons] at inside
  obtain ⟨inner, member, rfl⟩ := List.mem_map.mp inside
  obtain ⟨⟨parent, below, rooted⟩, reached⟩ :=
    placed_of (named.symm ▸ found) readable each member
  refine ⟨⟨parent, below, rooted.inside key⟩, fun shaped copied => ?_⟩
  rcases copied with ⟨null, null'⟩ | ⟨twin', child, known, known', carries, copied⟩
  · exact Or.inl ⟨Followup.at?_inside_of_null null', Followup.at?_inside_of_null null⟩
  · rcases shaped with null | ⟨child', known'', identified, shaped⟩
    · rw [null] at known'
      cases known'
    · rw [known'', Option.some.injEq, Value.record.injEq] at known'
      subst known'
      exact (reached (named ▸ identified) shaped copied (named ▸ carries)).inside known known''

theorem places (field : SelectionField) : Places catalog field := by
  induction field using induction_head with
  | step field ih =>
    intro node found readable owner followup inside
    cases readable with
    | leaf plain | count plain => cases inside
    | edge plain found' whole heads =>
      obtain ⟨rooted, reached⟩ := placed_head found' ⟨whole, heads⟩ ih inside
      exact ⟨rooted, fun _ shaped copied _ => reached shaped copied⟩
    | unique plain found' whole heads =>
      obtain ⟨rooted, reached⟩ := placed_head found' ⟨whole, heads⟩ ih inside
      exact ⟨rooted, fun _ shaped copied _ => reached shaped copied⟩
    | @multiple _ target key relation window head plain belongs found' whole heads =>
      obtain rfl := List.mem_singleton.mp inside
      have owner : relation.node = node.name := owner
      constructor
      · exact ⟨node, target, owner ▸ found, belongs, found', ⟨whole, heads⟩, rfl⟩
      · intro twin tree identified shaped _ carries
        refine Or.inr ⟨tree, twin, rfl, rfl, ?_, ?_, shaped⟩
        · exact show catalog.Carries relation.node twin tree from owner ▸ carries
        · exact show catalog.Identified relation.node tree from owner ▸ identified

/-- The follow-ups of a selection are placed in the catalog and in assembled records. -/
theorem placed (found : catalog.node? node.name = some node)
    (readable : ReadableAll catalog node fields) {followup : Followup}
    (inside : followup ∈ Followup.ofFields [] fields) :
    (∃ parent target, followup.Rooted catalog parent target) ∧
      ∀ {twin tree : Record}, catalog.Identified node.name tree → ShapesAll catalog fields tree →
        CopiedAll catalog false fields twin tree → catalog.Carries node.name twin tree →
        followup.Reached catalog twin tree :=
  placed_of found readable (fun field _ => places field) inside

end SelectionField

namespace Followup

/-- The records that own the relation. -/
def owners (followup : Followup) (trees : List Record) : List Record :=
  trees.filterMap (·.at? followup.owner)

/-- Identifiers of all the owners, each instance once. -/
structure Requested (parent : Node) (owners ids : List Record) : Prop where
  apart : (ids.map parent.key).Nodup
  origin : ∀ id ∈ ids, ∃ owner ∈ owners, ∃ own, owner.carried? Sql.identifierKey = some own ∧
    parent.identifierOf own = .ok id
  every : ∀ owner ∈ owners, ∀ own, owner.carried? Sql.identifierKey = some own →
    ∃ id ∈ ids, parent.key id = parent.key own

variable {σ : Type} {catalog : Catalog} {followup : Followup} {parent target : Node}
  {before ids : List Record} {owner own id : Record}

theorem names_of_identified (found : catalog.node? followup.relation.node = some parent)
    (identified : catalog.Identified followup.relation.node owner)
    (carried : owner.carried? Sql.identifierKey = some own) : catalog.Names parent own := by
  obtain ⟨node, known, found', carried', names⟩ := identified
  obtain rfl : parent = node := Option.some.inj (found.symm.trans found')
  obtain rfl : own = known := Option.some.inj (carried.symm.trans carried')
  exact names

section Collecting

variable (wellFormed : catalog.WellFormed) (rooted : followup.Rooted catalog parent target)

include wellFormed rooted

/-- One more owner adds its identifier, unless that of the same instance is there. -/
theorem Requested.add (known : Requested parent before ids)
    (identified : ∀ owner ∈ before, catalog.Identified followup.relation.node owner)
    (names : catalog.Names parent own) (carried : owner.carried? Sql.identifierKey = some own)
    (read : parent.identifierOf own = .ok id) :
    Requested parent (before ++ [owner])
      (if ids.any (·.same id) then ids else ids ++ [id]) := by
  have leads := rooted.leads wellFormed
  have same_iff : ∀ other ∈ ids, other.same id = true ↔ parent.key other = parent.key id := by
    intro other inside
    obtain ⟨owner', member, own', carried', read'⟩ := known.origin other inside
    have names' := names_of_identified rooted.found (identified owner' member) carried'
    rw [Node.same_identifierOf_iff wellFormed leads.node names' names read' read,
      (Node.identifierOf_names wellFormed leads.node names' read').2,
      (Node.identifierOf_names wellFormed leads.node names read).2]
  have own_key : parent.key id = parent.key own :=
    (Node.identifierOf_names wellFormed leads.node names read).2
  have earlier : ∀ other ∈ ids, ∃ owner' ∈ before ++ [owner], ∃ own',
      owner'.carried? Sql.identifierKey = some own' ∧ parent.identifierOf own' = .ok other := by
    intro other inside
    obtain ⟨owner', member, rest⟩ := known.origin other inside
    exact ⟨owner', List.mem_append_left _ member, rest⟩
  by_cases present : ids.any (·.same id) = true
  · rw [if_pos present]
    obtain ⟨other, inside, same⟩ := List.any_eq_true.mp present
    refine ⟨known.apart, earlier, fun owner' member own' carried' => ?_⟩
    rcases List.mem_append.mp member with first | last
    · exact known.every owner' first own' carried'
    · obtain rfl := List.mem_singleton.mp last
      obtain rfl : own = own' := Option.some.inj (carried.symm.trans carried')
      exact ⟨other, inside, ((same_iff other inside).mp same).trans own_key⟩
  · rw [if_neg present]
    refine ⟨?_, ?_, fun owner' member own' carried' => ?_⟩
    · rw [List.map_append, List.map_singleton, List.nodup_append]
      refine ⟨known.apart, List.nodup_singleton _, fun key inside key' single equal => ?_⟩
      obtain ⟨other, member, rfl⟩ := List.mem_map.mp inside
      rw [List.mem_singleton.mp single] at equal
      exact present (List.any_eq_true.mpr ⟨other, member, (same_iff other member).mpr equal⟩)
    · intro other inside
      rcases List.mem_append.mp inside with first | last
      · exact earlier other first
      · rw [List.mem_singleton.mp last]
        exact ⟨owner, by simp, own, carried, read⟩
    · rcases List.mem_append.mp member with first | last
      · obtain ⟨other, inside, same⟩ := known.every owner' first own' carried'
        exact ⟨other, List.mem_append_left _ inside, same⟩
      · obtain rfl := List.mem_singleton.mp last
        obtain rfl : own = own' := Option.some.inj (carried.symm.trans carried')
        exact ⟨id, by simp, own_key⟩

/-- The identifiers that are collected from records are those of the owners in their trees. -/
theorem collectIds_requested {records trees : List Record}
    (reached : List.Forall₂ (followup.Reached catalog) records trees)
    (identified : ∀ owner ∈ before, catalog.Identified followup.relation.node owner)
    (known : Requested parent before ids) (state : σ) :
    ∃ ids', Executor.collectIds parent followup ids records state = .ok ids' state ∧
      Requested parent (before ++ followup.owners trees) ids' := by
  induction reached generalizing before ids with
  | nil => exact ⟨ids, rfl, by rwa [owners, List.filterMap_nil, List.append_nil]⟩
  | @cons twin tree records trees first rest ih =>
    rcases first with ⟨absent, absent'⟩ | ⟨owner, twin', present, present', carries, owned⟩
    · obtain ⟨ids', collected, requested⟩ := ih identified known
      refine ⟨ids', ?_, ?_⟩
      · rw [Executor.collectIds, absent']
        exact collected
      · rw [owners, List.filterMap_cons]
        simp only [absent]
        exact requested
    · obtain ⟨own, own', carried, carried', agrees⟩ := carries
      have names := names_of_identified rooted.found owned.identified carried
      obtain ⟨id, read⟩ := Node.exists_identifierOf wellFormed (rooted.leads wellFormed).node names
      have read' : parent.identifierOf own' = .ok id := by
        rw [← read]
        refine Node.identify_congr fun component inside => ?_
        obtain ⟨field, rfl⟩ := (rooted.leads wellFormed).leaf_of_identifier inside
        exact agrees parent rooted.found field inside
      have more := known.add wellFormed rooted identified names carried read
      have identified' : ∀ owner' ∈ before ++ [owner],
          catalog.Identified followup.relation.node owner' := by
        rw [List.forall_mem_append]
        exact ⟨identified, List.forall_mem_singleton.mpr owned.identified⟩
      obtain ⟨ids', collected, requested⟩ := ih identified' more
      refine ⟨ids', ?_, ?_⟩
      · rw [Executor.collectIds, present']
        simp only [carried', read']
        exact collected
      · rw [List.append_assoc] at requested
        rw [owners, List.filterMap_cons]
        simp only [present]
        exact requested

theorem ownerIds_requested {executor : Executor σ} (same : executor.catalog = catalog)
    {records trees : List Record}
    (reached : List.Forall₂ (followup.Reached catalog) records trees) (state : σ) :
    ∃ ids, executor.ownerIds records followup state = .ok ids state ∧
      Requested parent (followup.owners trees) ids := by
  have none_ : Requested parent [] [] := ⟨List.nodup_nil, by simp, by simp⟩
  obtain ⟨ids, collected, requested⟩ :=
    collectIds_requested wellFormed rooted reached (by simp) none_ state
  refine ⟨ids, ?_, requested⟩
  have looked : executor.catalog.node followup.relation.node = .ok parent := by
    rw [same, Catalog.node, rooted.found]
  rw [Executor.ownerIds, looked]
  exact collected

end Collecting

end Followup

end LiveQuery
