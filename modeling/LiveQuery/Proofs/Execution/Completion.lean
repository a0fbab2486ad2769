import LiveQuery.Execution.Executor
import LiveQuery.Proofs.Execution.Rows

set_option autoImplicit false

namespace LiveQuery

namespace Session

variable {σ α β : Type} {state state' : σ}

theorem bind_of_ok {action : Session σ α} {value : α} (next : α → Session σ β)
    (ran : action state = .ok value state') : (action >>= next) state = next value state' := by
  simp only [bind, EStateM.bind, ran]

theorem mapM_of_ok {step : α → Session σ β} {R : α → β → Prop} {items : List α}
    (steps : ∀ item ∈ items, ∃ result, step item state = .ok result state ∧ R item result) :
    ∃ results, items.mapM step state = .ok results state ∧ List.Forall₂ R items results := by
  induction items with
  | nil => exact ⟨[], rfl, .nil⟩
  | cons item rest ih =>
    rw [List.forall_mem_cons] at steps
    obtain ⟨result, ran, related⟩ := steps.1
    obtain ⟨results, behind, others⟩ := ih steps.2
    refine ⟨result :: results, ?_, .cons related others⟩
    rw [List.mapM_cons, bind_of_ok _ ran, bind_of_ok _ behind]
    rfl

end Session

namespace Executor

variable {σ : Type}

theorem fetch_of_read {executor : Executor σ} {query : Sql.Find} {rows : List Record}
    {state state' : σ}
    (ran : executor.connector.read (.find query) state = .ok rows state') :
    executor.fetch query state = .ok (rows.map Row.assemble) state' := by
  have lifted : (liftM (executor.connector.read (.find query)) : Session σ (List Record)) state =
      .ok rows state' := by
    simp only [liftM, monadLift, MonadLift.monadLift, ran]
  rw [fetch, Session.bind_of_ok _ lifted]
  rfl

end Executor

namespace Record

variable {record child : Record} {alter : Record → Record} {key : String} {path : List String}

theorem alterAt_of_child (found : record.get? key = some (.record child)) :
    record.alterAt alter (key :: path) = record.insert key (.record (child.alterAt alter path)) := by
  rw [alterAt, found]

theorem alterAt_of_null (found : record.get? key = some .null) :
    record.alterAt alter (key :: path) = record := by
  rw [alterAt, found]

end Record

namespace Followup

/-- A follow-up seen from the record that has its records under a key. -/
def inside (key : String) : Followup → Followup
  | .make owner key' relation window head next =>
    .make (key :: owner) key' relation window head next

mutual

theorem ofField_cons (key : String) : ∀ (owner : List String) (field : SelectionField),
    ofField (key :: owner) field = (ofField owner field).map (inside key)
  | owner, .edge key' _ head | owner, .unique key' _ head => ofFields_cons key (owner ++ [key']) head
  | _, .multiple _ _ _ _ | _, .leaf _ _ | _, .count _ _ _ => rfl

theorem ofFields_cons (key : String) : ∀ (owner : List String) (fields : List SelectionField),
    ofFields (key :: owner) fields = (ofFields owner fields).map (inside key)
  | _, [] => rfl
  | owner, field :: rest => by
    rw [ofFields, ofFields, List.map_append, ofField_cons key owner field,
      ofFields_cons key owner rest]

end

end Followup

namespace Executor

/-- The heads that belong to a record. -/
def ownHeads (heads : List Record) (owner : Record) : List Record :=
  match owner.carried? Sql.identifierKey with
  | some id => heads.filter (Row.isChildOf · id)
  | none => []

/-- A record with the heads that belong to it. -/
def put (followup : Followup) (heads : List Record) (owner : Record) : Record :=
  owner.insert followup.key (.list ((ownHeads heads owner).map .record))

/-- A record into which the heads of follow-ups were put. -/
def attached (record : Record) (pairs : List (Followup × List Record)) : Record :=
  pairs.foldl (fun record pair => record.alterAt (put pair.1 pair.2) pair.1.owner) record

theorem attachAll_eq (records : List Record) (followups : List Followup)
    (heads : List (List Record)) : attachAll records followups heads =
      records.map fun record => attached record (followups.zip heads) := by
  induction followups generalizing records heads with
  | nil =>
    rw [attachAll]
    · exact (List.map_id' records).symm
    · simp
  | cons followup rest ih =>
    cases heads with
    | nil =>
      rw [attachAll]
      · exact (List.map_id' records).symm
      · simp
    | cons own more =>
      rw [attachAll, ih, attach, List.map_map]
      rfl

variable {key : String} {twin child : Record} {pairs : List (Followup × List Record)}

theorem attached_append (more : List (Followup × List Record)) :
    attached twin (pairs ++ more) = attached (attached twin pairs) more :=
  List.foldl_append ..

theorem owner_inside (followup : Followup) :
    (followup.inside key).owner = key :: followup.owner := by
  cases followup
  rfl

theorem put_inside (followup : Followup) (heads : List Record) :
    put (followup.inside key) heads = put followup heads := by
  cases followup
  rfl

/-- The follow-ups of what is under a key, seen from the record that has it. -/
def insideAll (key : String) (pairs : List (Followup × List Record)) :
    List (Followup × List Record) :=
  pairs.map fun pair => (pair.1.inside key, pair.2)

theorem exists_inside {followups : List Followup}
    (listed : pairs.map (·.1) = followups.map (Followup.inside key)) :
    ∃ inner, pairs = insideAll key inner ∧ inner.map (·.1) = followups := by
  induction followups generalizing pairs with
  | nil => exact ⟨[], List.map_eq_nil_iff.mp listed, rfl⟩
  | cons followup rest ih =>
    obtain ⟨pair, more, rfl, first, behind⟩ := List.map_eq_cons_iff.mp listed
    obtain ⟨inner, rfl, same⟩ := ih behind
    refine ⟨(followup, pair.2) :: inner, ?_, by rw [List.map_cons, same]⟩
    rw [insideAll, insideAll, List.map_cons, ← first]

theorem attached_of_child (found : twin.get? key = some (.record child)) :
    (attached twin (insideAll key pairs)).get? key = some (.record (attached child pairs)) ∧
      ∀ other, other ≠ key → (attached twin (insideAll key pairs)).get? other = twin.get? other := by
  induction pairs generalizing twin child with
  | nil => exact ⟨found, fun _ _ => rfl⟩
  | cons pair rest ih =>
    rw [insideAll, List.map_cons, attached, List.foldl_cons, attached, List.foldl_cons,
      owner_inside, put_inside, Record.alterAt_of_child found]
    obtain ⟨inner, others⟩ := @ih _ _ (Entries.get?_insert_self twin key _)
    refine ⟨inner, fun other apart => (others other apart).trans ?_⟩
    exact Entries.get?_insert_of_ne _ _ _ _ apart

theorem attached_of_null (found : twin.get? key = some .null) :
    attached twin (insideAll key pairs) = twin := by
  induction pairs with
  | nil => rfl
  | cons pair rest ih =>
    rw [insideAll, List.map_cons, attached, List.foldl_cons, owner_inside,
      Record.alterAt_of_null found]
    exact ih

end Executor

/-- The heads of a follow-up that belong to an owner in a tree are those that the tree has there. -/
def Followup.Supplied (catalog : Catalog) (followup : Followup) (heads : List Record)
    (tree : Record) : Prop :=
  ∀ owner, tree.at? followup.owner = some owner → ∃ items : List Record,
    owner.get? followup.key = some (.list (items.map .record)) ∧
      ∀ twin, catalog.Carries followup.relation.node twin owner →
        List.Forall₂ (SelectionField.CopiedAll catalog true followup.head)
          (Executor.ownHeads heads twin) items

theorem Followup.Supplied.of_inside {catalog : Catalog} {followup : Followup} {key : String}
    {heads : List Record} {tree child : Record}
    (supplied : (followup.inside key).Supplied catalog heads tree)
    (found : tree.get? key = some (.record child)) : followup.Supplied catalog heads child := by
  cases followup with
  | make owner =>
    intro record reached
    refine supplied record ?_
    show tree.at? (key :: owner) = some record
    rw [Record.at?, found]
    exact reached

namespace SelectionField

open Executor

variable {catalog : Catalog} {node : Node} {twin tree : Record} {fields : List SelectionField}
  {pairs : List (Followup × List Record)}

/-- The heads of a field's follow-ups complete the record under the key of the field. -/
def Completes (catalog : Catalog) (field : SelectionField) : Prop :=
  ∀ {node : Node} {twin tree : Record} {pairs : List (Followup × List Record)},
    Readable catalog node field → field.owner = node.name →
    Copied catalog false field twin tree → catalog.Carries node.name twin tree →
    pairs.map (·.1) = Followup.ofField [] field →
    (∀ pair ∈ pairs, pair.1.Supplied catalog pair.2 tree) →
    Copied catalog true field (attached twin pairs) tree ∧
      ∀ key, key ≠ field.key → (attached twin pairs).get? key = twin.get? key

theorem carries_congr {name : String} {twin' : Record}
    (same : twin'.get? Sql.identifierKey = twin.get? Sql.identifierKey)
    (carries : catalog.Carries name twin tree) : catalog.Carries name twin' tree := by
  obtain ⟨id, id', known, known', agrees⟩ := carries
  refine ⟨id, id', known, ?_, agrees⟩
  rw [Record.carried?, same]
  exact known'

theorem copied_congr {complete : Bool} {field : SelectionField} {twin' : Record}
    (same : twin'.get? field.key = twin.get? field.key)
    (copied : Copied catalog complete field twin tree) :
    Copied catalog complete field twin' tree := by
  cases field <;> rw [key] at same <;> simpa only [Copied, same] using copied

theorem completed_of (readable : ReadableAll catalog node fields)
    (each : ∀ field ∈ fields, Completes catalog field)
    (copied : CopiedAll catalog false fields twin tree)
    (carries : catalog.Carries node.name twin tree)
    (listed : pairs.map (·.1) = Followup.ofFields [] fields)
    (supplied : ∀ pair ∈ pairs, pair.1.Supplied catalog pair.2 tree) :
    CopiedAll catalog true fields (attached twin pairs) tree ∧
      ∀ key, (∀ field ∈ fields, key ≠ field.key) →
        (attached twin pairs).get? key = twin.get? key := by
  obtain ⟨whole, readable⟩ := readable
  obtain ⟨owners, apart, -⟩ := fault?_eq_none_iff.mp whole
  clear whole
  induction fields generalizing twin pairs with
  | nil =>
    rw [Followup.ofFields, List.map_eq_nil_iff] at listed
    subst listed
    exact ⟨trivial, fun _ _ => rfl⟩
  | cons field rest ih =>
    rw [List.forall_mem_cons] at owners readable each
    rw [List.map_cons, List.nodup_cons] at apart
    rw [Followup.ofFields, List.map_eq_append_iff] at listed
    obtain ⟨own, more, rfl, first, behind⟩ := listed
    rw [List.forall_mem_append] at supplied
    obtain ⟨done, others⟩ :=
      each.1 readable.1 owners.1 copied.1 carries first supplied.1
    have differs : ∀ other ∈ rest, other.key ≠ field.key := fun other inside same =>
      apart.1 (same ▸ List.mem_map_of_mem inside)
    have kept : CopiedAll catalog false rest (attached twin own) tree :=
      copiedAll_iff.mpr fun other inside =>
        copied_congr (others other.key (differs other inside))
          (copiedAll_iff.mp copied.2 other inside)
    have carries' : catalog.Carries node.name (attached twin own) tree :=
      carries_congr (others _ readable.1.plain.ne_internal.1.symm) carries
    obtain ⟨completed, untouched⟩ :=
      ih each.2 kept carries' behind supplied.2 readable.2 owners.2 apart.2
    rw [attached_append]
    refine ⟨⟨copied_congr (untouched _ fun other inside => (differs other inside).symm) done,
      completed⟩, fun key absent => ?_⟩
    rw [List.forall_mem_cons] at absent
    rw [untouched key absent.2, others key absent.1]

/-- A relation to one head is completed by what completes the head. -/
theorem completed_head {target : Node} {key name : String}
    (found : catalog.node? name = some target) (readable : ReadableAll catalog target fields)
    (each : ∀ field ∈ fields, Completes catalog field)
    (copied : (twin.get? key = some .null ∧ tree.get? key = some .null) ∨
      ∃ twin' child, twin.get? key = some (.record twin') ∧ tree.get? key = some (.record child) ∧
        catalog.Carries name twin' child ∧ CopiedAll catalog false fields twin' child)
    (listed : pairs.map (·.1) = Followup.ofFields [key] fields)
    (supplied : ∀ pair ∈ pairs, pair.1.Supplied catalog pair.2 tree) :
    (((attached twin pairs).get? key = some .null ∧ tree.get? key = some .null) ∨
      ∃ twin' child, (attached twin pairs).get? key = some (.record twin') ∧
        tree.get? key = some (.record child) ∧ catalog.Carries name twin' child ∧
        CopiedAll catalog true fields twin' child) ∧
      ∀ other, other ≠ key → (attached twin pairs).get? other = twin.get? other := by
  rw [Followup.ofFields_cons] at listed
  obtain ⟨inner, rfl, listed'⟩ := exists_inside listed
  rcases copied with ⟨null, null'⟩ | ⟨twin', child, known, known', carries, copied⟩
  · rw [attached_of_null null]
    exact ⟨Or.inl ⟨null, null'⟩, fun _ _ => rfl⟩
  · have below : ∀ pair ∈ inner, pair.1.Supplied catalog pair.2 child := fun pair inside =>
      (supplied _ (List.mem_map_of_mem inside)).of_inside known'
    have named := Catalog.name_of_node? found
    obtain ⟨completed, untouched⟩ :=
      completed_of readable each copied (named ▸ carries) listed' below
    obtain ⟨put, others⟩ := @attached_of_child _ _ _ inner known
    refine ⟨Or.inr ⟨_, child, put, known', ?_, completed⟩, others⟩
    exact carries_congr (untouched _ fun field inside =>
      (readable.each field inside).plain.ne_internal.1.symm) carries

theorem completes (field : SelectionField) : Completes catalog field := by
  induction field using induction_head with
  | step field ih =>
    intro node twin tree pairs readable owner copied carries listed supplied
    cases readable with
    | leaf plain | count plain =>
      rw [Followup.ofField, List.map_eq_nil_iff] at listed
      subst listed
      exact ⟨copied, fun _ _ => rfl⟩
    | edge plain found whole heads =>
      exact completed_head found ⟨whole, heads⟩ ih copied listed supplied
    | unique plain found whole heads =>
      exact completed_head found ⟨whole, heads⟩ ih copied listed supplied
    | @multiple _ _ key relation window head plain belongs found whole heads =>
      rw [Followup.ofField] at listed
      obtain ⟨⟨followup, own⟩, rfl, single⟩ := List.map_eq_singleton_iff.mp listed
      obtain rfl : followup = .make [] key relation window head (Followup.ofFields [] head) := single
      obtain ⟨items, known, belong⟩ := supplied _ (List.mem_singleton_self _) tree rfl
      have owner : relation.node = node.name := owner
      refine ⟨fun _ => ⟨_, items, Entries.get?_insert_self .., known, ?_⟩, fun other apart => ?_⟩
      · exact belong twin (show catalog.Carries relation.node twin tree from owner ▸ carries)
      · exact Entries.get?_insert_of_ne _ _ _ _ apart

/-- The heads of all follow-ups complete a record. -/
theorem completed (readable : ReadableAll catalog node fields)
    (copied : CopiedAll catalog false fields twin tree)
    (carries : catalog.Carries node.name twin tree)
    (listed : pairs.map (·.1) = Followup.ofFields [] fields)
    (supplied : ∀ pair ∈ pairs, pair.1.Supplied catalog pair.2 tree) :
    CopiedAll catalog true fields (attached twin pairs) tree ∧
      ∀ key, (∀ field ∈ fields, key ≠ field.key) →
        (attached twin pairs).get? key = twin.get? key :=
  completed_of readable (fun field _ => completes field) copied carries listed supplied

end SelectionField

end LiveQuery
