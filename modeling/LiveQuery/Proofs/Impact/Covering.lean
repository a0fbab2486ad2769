import LiveQuery.Proofs.Filter.Identifier
import LiveQuery.Proofs.Store.Children
import LiveQuery.Proofs.Store.Shown

set_option autoImplicit false

namespace LiveQuery

structure Covers (catalog : Catalog) (change : Change) (node : Node) (view : View) (kept : Kept)
    (results : List Predicate) : Prop where
  settled : ∀ ⦃store row record⦄, view store row record →
    ∀ result ∈ results, Predicate.Settled node.name result record
  detects : ∀ ⦃before after row row'⦄, Transit catalog change before after →
    Persists node before after row row' → ¬kept before after row row' →
      ∀ ⦃record⦄, view before row record ∨ view after row' record →
        ∃ result ∈ results, result.evaluate node.name record = .ok true

section Combining

variable {catalog : Catalog} {change : Change} {node head : Node} {view view' : View}
  {kept kept' : Kept} {results more : List Predicate}

theorem View.exists_head {store : Store} {row other record : Record}
    (consistent : store.Consistent catalog) {link : Edge} (leads : catalog.Leads link head)
    (inside : other ∈ store link.head) (refers : link.refers row other = true)
    (shown : View.edge link view store row record) :
    ∃ inner, record.get? link.name = some (.record inner) ∧ view store other inner := by
  rcases shown with ⟨-, nowhere, -⟩ | ⟨found, member, refers', inner, known, shown⟩
  · simp [Edge.refers, nowhere] at refers
  · rw [consistent.eq_of_refers leads inside member refers refers']
    exact ⟨inner, known, shown⟩

namespace Covers

theorem of_kept (always : ∀ ⦃before after row row'⦄, Transit catalog change before after →
    Persists node before after row row' → kept before after row row') :
    Covers catalog change node view kept [] := by
  constructor
  · intro store row record shown result inside
    cases inside
  · intro before after row row' transit persists lost
    exact absurd (always transit persists) lost

theorem anything : Covers catalog change node view kept [.constant true] := by
  constructor
  · intro store row record shown result inside
    rw [List.mem_singleton.mp inside]
    exact ⟨⟨true, rfl⟩, trivial⟩
  · intro before after row row' transit persists lost record shown
    exact ⟨.constant true, List.mem_singleton_self _, rfl⟩

/-- Records that show more can be told from. -/
theorem narrow (covers : Covers catalog change node view kept results)
    (stronger : ∀ ⦃store row record⦄, view' store row record → view store row record) :
    Covers catalog change node view' kept results := by
  constructor
  · intro store row record shown
    exact covers.settled (stronger shown)
  · intro before after row row' transit persists lost record shown
    have shown : view before row record ∨ view after row' record :=
      shown.imp (fun here => stronger here) fun here => stronger here
    exact covers.detects transit persists lost shown

theorem weaken (covers : Covers catalog change node view kept results)
    (weaker : ∀ ⦃before after row row'⦄, Transit catalog change before after →
      Persists node before after row row' → kept before after row row' →
        kept' before after row row') : Covers catalog change node view kept' results := by
  refine ⟨covers.settled, ?_⟩
  intro before after row row' transit persists lost record shown
  have lost : ¬kept before after row row' := fun still => lost (weaker transit persists still)
  exact covers.detects transit persists lost shown

theorem append (first : Covers catalog change node view kept results)
    (second : Covers catalog change node view kept' more) :
    Covers catalog change node view
      (fun before after row row' => kept before after row row' ∧ kept' before after row row')
      (results ++ more) := by
  constructor
  · intro store row record shown
    exact List.forall_mem_append.mpr ⟨first.settled shown, second.settled shown⟩
  · intro before after row row' transit persists lost record shown
    rcases Classical.not_and_iff_not_or_not.mp lost with lost | lost
    · obtain ⟨result, inside, matched⟩ := first.detects transit persists lost shown
      exact ⟨result, List.mem_append_left _ inside, matched⟩
    · obtain ⟨result, inside, matched⟩ := second.detects transit persists lost shown
      exact ⟨result, List.mem_append_right _ inside, matched⟩

/-- One predicate does for a list of them. -/
theorem union (covers : Covers catalog change node view kept results) :
    Covers catalog change node view kept (Predicate.union results).toList := by
  unfold Predicate.union
  cases results with
  | nil => exact covers
  | cons first rest =>
    simp only [List.isEmpty_cons, Bool.false_eq_true, ↓reduceIte, Option.toList_some]
    have settled : ∀ {store row record}, view store row record →
        Predicate.Settled node.name (.junction .any (first :: rest)) record :=
      fun shown => Predicate.Settled.junction (covers.settled shown)
    constructor
    · intro store row record shown result inside
      rw [List.mem_singleton.mp inside]
      exact (settled shown).reduced
    · intro before after row row' transit persists lost record shown
      have whole : Predicate.Settled node.name (.junction .any (first :: rest)) record :=
        shown.elim (fun here => settled here) fun here => settled here
      have each : ∀ result ∈ first :: rest, Predicate.Settled node.name result record :=
        shown.elim (fun here => covers.settled here) fun here => covers.settled here
      obtain ⟨value, evaluated, some⟩ :=
        Predicate.evaluateAll_any fun result inside => (each result inside).evaluates
      have found : value = true := some.mpr (covers.detects transit persists lost shown)
      refine ⟨_, List.mem_singleton_self _, ?_⟩
      rw [whole.evaluate_reduced_eq, Predicate.evaluate_junction, evaluated, found]

theorem settled_edge {link : Edge} (leads : catalog.Leads link head)
    (below : Covers catalog change head view kept results) {store : Store} {row record : Record}
    (shown : View.edge link view store row record) :
    ∀ result ∈ results, Predicate.Settled node.name (.edge link (some result)) record := by
  have name := Catalog.name_of_node? leads.node
  intro result inside
  rcases shown with ⟨nullable, -, null⟩ | ⟨other, -, -, inner, known, shown⟩
  · refine ⟨⟨false, Predicate.evaluate_edge_eq_ok.mpr ⟨_, null, rfl⟩⟩, fun required => ?_,
      fun inner known => ?_⟩
    · rw [nullable] at required
      cases required
    · rw [null] at known
      cases known
  · have settled := below.settled shown result inside
    rw [name] at settled
    obtain ⟨value, evaluated⟩ := settled.evaluates
    refine ⟨⟨value, Predicate.evaluate_edge_eq_ok.mpr ⟨_, known, evaluated⟩⟩, fun _ null => ?_,
      fun inner' same => ?_⟩
    · rw [known] at null
      cases null
    · rw [known] at same
      cases same
      exact settled.respected

/-- What is not kept of the head of an edge is covered through the edge. -/
theorem edge {link : Edge} (leads : catalog.Leads link head)
    (below : Covers catalog change head view kept results) :
    Covers catalog change node (.edge link view) (.edge link head kept)
      (results.map fun result => .edge link (some result)) := by
  have name := Catalog.name_of_node? leads.node
  refine ⟨fun _ _ _ shown => List.forall_mem_map.mpr (below.settled_edge leads shown), ?_⟩
  intro before after row row' transit persists lost record shown
  have apart : ∃ other other', Persists head before after other other' ∧
      link.refers row other = true ∧ link.refers row' other' = true ∧
        ¬kept before after other other' := by
    simpa [Kept.edge] using lost
  obtain ⟨other, other', moved, refers, refers', lost⟩ := apart
  have reach : ∃ inner, record.get? link.name = some (.record inner) ∧
      (view before other inner ∨ view after other' inner) := by
    rcases shown with shown | shown
    · obtain ⟨inner, known, shown⟩ :=
        View.exists_head transit.consistent leads (name ▸ moved.before) refers shown
      exact ⟨inner, known, Or.inl shown⟩
    · obtain ⟨inner, known, shown⟩ :=
        View.exists_head transit.consistent' leads (name ▸ moved.after) refers' shown
      exact ⟨inner, known, Or.inr shown⟩
  obtain ⟨inner, known, shown⟩ := reach
  obtain ⟨result, inside, matched⟩ := below.detects transit moved lost shown
  rw [name] at matched
  exact ⟨_, List.mem_map_of_mem inside,
    Predicate.evaluate_edge_eq_ok.mpr ⟨_, known, matched⟩⟩

end Covers

theorem Change.Sound.changedInstance_spec (wellFormed : catalog.WellFormed)
    (sound : change.Sound catalog) :
    ∃ result, Predicate.changedInstance catalog change.node change = .ok result ∧
      ∀ record, catalog.Names change.node record →
        result.evaluate change.node.name record =
            .ok (decide (change.node.key record = change.node.key change.identifier)) ∧
          result.Respects record := by
  obtain ⟨filter, identified, -, spec⟩ :=
    Filter.identifier_spec wellFormed sound.node sound.names
  refine ⟨filter.predicate, ?_, spec⟩
  unfold Predicate.changedInstance
  rw [identified]
  rfl

/-- What only the changed instance can lose is covered by the predicate for that instance. -/
theorem Change.Sound.covers_changed (wellFormed : catalog.WellFormed)
    (sound : change.Sound catalog)
    (changed : ∀ ⦃before after row row'⦄, Transit catalog change before after →
      Persists change.node before after row row' → kept before after row row' ∨
        change.node.key row = change.node.key change.identifier) :
    ∃ result, Predicate.changedInstance catalog change.node change = .ok result ∧
      Covers catalog change change.node (.identified catalog change.node.name) kept [result] := by
  obtain ⟨result, identified, spec⟩ := sound.changedInstance_spec wellFormed
  refine ⟨result, identified, ?_, ?_⟩
  · intro store row record shown other inside
    rw [List.mem_singleton.mp inside]
    obtain ⟨evaluated, respected⟩ := spec record (shown _ sound.node).1
    exact ⟨⟨_, evaluated⟩, respected⟩
  · intro before after row row' transit persists lost record shown
    have key := (changed transit persists).resolve_left lost
    have names : catalog.Names change.node record ∧
        change.node.key record = change.node.key row := by
      rcases shown with here | here
      · exact here _ sound.node
      · exact ⟨(here _ sound.node).1, (here _ sound.node).2.trans persists.key.symm⟩
    have same : change.node.key record = change.node.key change.identifier := names.2.trans key
    refine ⟨result, List.mem_singleton_self _, ?_⟩
    rw [(spec record names.1).1, decide_eq_true same]

theorem Change.Sound.instanceIf_spec (wellFormed : catalog.WellFormed)
    (sound : change.Sound catalog) {condition : Bool} (here : condition = true → node = change.node)
    (changed : ∀ ⦃before after row row'⦄, Transit catalog change before after →
      Persists node before after row row' → kept before after row row' ∨
        (condition = true ∧ node.key row = node.key change.identifier)) :
    ∃ results, Predicate.instanceIf condition catalog node change = .ok results ∧
      (results ≠ [] → condition = true) ∧
        Covers catalog change node (.identified catalog node.name) kept results := by
  unfold Predicate.instanceIf
  cases condition with
  | false =>
    refine ⟨[], rfl, fun found => absurd rfl found, Covers.of_kept ?_⟩
    intro before after row row' transit persists
    exact (changed transit persists).resolve_right (by simp)
  | true =>
    obtain rfl := here rfl
    obtain ⟨result, identified, covers⟩ := sound.covers_changed wellFormed
      fun _ _ _ _ transit persists => (changed transit persists).imp_right (·.2)
    exact ⟨[result], by rw [identified]; rfl, fun _ => rfl, covers⟩

end Combining

end LiveQuery
