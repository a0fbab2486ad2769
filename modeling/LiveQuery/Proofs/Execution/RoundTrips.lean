import LiveQuery.Proofs.Execution.Reassembly
import LiveQuery.Proofs.Execution.Recording

set_option autoImplicit false

namespace LiveQuery

mutual

/-- The number of relations to many that are selected, at any depth. -/
def SelectionField.multiples : SelectionField → Nat
  | .leaf _ _ | .count _ _ _ => 0
  | .edge _ _ head | .unique _ _ head => multiplesOf head
  | .multiple _ _ _ head => 1 + multiplesOf head

def SelectionField.multiplesOf : List SelectionField → Nat
  | [] => 0
  | field :: rest => multiples field + multiplesOf rest

end

def Selection.multiples (selection : Selection) : Nat :=
  SelectionField.multiplesOf selection.fields

namespace Followup

mutual

/-- A follow-up, and those that its heads leave in turn. -/
def nested : Followup → List Followup
  | .make owner key relation window head next =>
    .make owner key relation window head next :: nestedAll next

def nestedAll : List Followup → List Followup
  | [] => []
  | followup :: rest => nested followup ++ nestedAll rest

end

theorem nestedAll_append (first second : List Followup) :
    nestedAll (first ++ second) = nestedAll first ++ nestedAll second := by
  induction first with
  | nil => rfl
  | cons followup rest ih =>
    rw [List.cons_append, nestedAll, ih, nestedAll, List.append_assoc]

mutual

theorem length_nestedAll_ofField : ∀ (owner : List String) (field : SelectionField),
    (nestedAll (ofField owner field)).length = field.multiples
  | _, .leaf _ _ | _, .count _ _ _ => rfl
  | owner, .edge key _ head | owner, .unique key _ head =>
    length_nestedAll_ofFields (owner ++ [key]) head
  | _, .multiple _ _ _ head => by
    rw [ofField, nestedAll, nestedAll, List.append_nil, nested, List.length_cons,
      length_nestedAll_ofFields [] head, SelectionField.multiples, Nat.add_comm]

theorem length_nestedAll_ofFields : ∀ (owner : List String) (fields : List SelectionField),
    (nestedAll (ofFields owner fields)).length = SelectionField.multiplesOf fields
  | _, [] => rfl
  | owner, field :: rest => by
    rw [ofFields, nestedAll_append, List.length_append, length_nestedAll_ofField owner field,
      length_nestedAll_ofFields owner rest, SelectionField.multiplesOf]

end

end Followup

/-- Every relation to many of a selection is left for later once. -/
theorem Selection.length_nestedAll (selection : Selection) :
    (Followup.nestedAll selection.followups).length = selection.multiples :=
  Followup.length_nestedAll_ofFields [] selection.fields

namespace Followup

/-- The identifier that an owner carries. -/
def Identifies (node : Node) (owner id : Record) : Prop :=
  ∃ carried, owner.carried? Sql.identifierKey = some carried ∧ node.identifierOf carried = .ok id

/-- The identifiers of all the owners together, no two of them the same. -/
structure Batch (node : Node) (owners ids : List Record) : Prop where
  apart : ids.Pairwise fun a b => a.same b = false
  origin : ∀ id ∈ ids, ∃ owner ∈ owners, Identifies node owner id
  every : ∀ owner ∈ owners, ∃ own, Identifies node owner own ∧
    ∃ id ∈ ids, id = own ∨ id.same own = true

variable {node : Node} {owners ids : List Record} {owner id : Record}

theorem Batch.nil : Batch node [] [] := ⟨.nil, by simp, by simp⟩

theorem Batch.eq_nil_iff (batch : Batch node owners ids) : ids = [] ↔ owners = [] := by
  constructor
  · rintro rfl
    refine List.eq_nil_iff_forall_not_mem.mpr fun owner member => ?_
    obtain ⟨_, _, id, inside, _⟩ := batch.every owner member
    cases inside
  · rintro rfl
    refine List.eq_nil_iff_forall_not_mem.mpr fun id member => ?_
    obtain ⟨owner, inside, _⟩ := batch.origin id member
    cases inside

/-- One more owner adds its identifier, unless the same one is there. -/
theorem Batch.add (batch : Batch node owners ids) (identifies : Identifies node owner id) :
    Batch node (owners ++ [owner]) (if ids.any (·.same id) then ids else ids ++ [id]) := by
  have origin : ∀ other ∈ ids, ∃ owner' ∈ owners ++ [owner], Identifies node owner' other := by
    intro other member
    obtain ⟨owner', inside, known⟩ := batch.origin other member
    exact ⟨owner', List.mem_append_left _ inside, known⟩
  by_cases present : ids.any (·.same id) = true
  · rw [if_pos present]
    refine ⟨batch.apart, origin, fun owner' member => ?_⟩
    rcases List.mem_append.mp member with first | last
    · exact batch.every owner' first
    · rw [List.mem_singleton.mp last]
      obtain ⟨other, inside, same⟩ := List.any_eq_true.mp present
      exact ⟨id, identifies, other, inside, Or.inr same⟩
  · rw [if_neg present]
    refine ⟨?_, ?_, fun owner' member => ?_⟩
    · refine List.pairwise_append.mpr ⟨batch.apart, List.pairwise_singleton _ _, ?_⟩
      intro other inside last single
      rw [List.mem_singleton.mp single]
      exact Bool.eq_false_iff.mpr fun same =>
        present (List.any_eq_true.mpr ⟨other, inside, same⟩)
    · refine List.forall_mem_append.mpr ⟨origin, List.forall_mem_singleton.mpr ?_⟩
      exact ⟨owner, by simp, identifies⟩
    · rcases List.mem_append.mp member with first | last
      · obtain ⟨own, known, other, inside, same⟩ := batch.every owner' first
        exact ⟨own, known, other, List.mem_append_left _ inside, same⟩
      · rw [List.mem_singleton.mp last]
        exact ⟨id, identifies, id, by simp, Or.inl rfl⟩

end Followup

namespace Executor

open Followup Session

variable {σ : Type} {executor : Executor σ} {followup : Followup} {followups : List Followup}
  {records ids : List Record} {trips : List (Followup × Exchange)}

/-- What completing records sends for follow-ups, and for those of their heads in turn. -/
inductive Sends (executor : Executor σ) :
    List Followup → List Record → List (Followup × Exchange) → Prop
  | done {records : List Record} : Sends executor [] records []
  | passed {followup : Followup} {rest : List Followup} {records : List Record}
      {later : List (Followup × Exchange)} (ownerless : followup.owners records = [])
      (behind : Sends executor rest records later) :
      Sends executor (followup :: rest) records later
  | sent {followup : Followup} {rest : List Followup} {records : List Record} {node : Node}
      {ids rows : List Record} {query : Sql.Find} {inner later : List (Followup × Exchange)}
      (owned : followup.owners records ≠ [])
      (found : executor.catalog.node? followup.relation.node = some node)
      (batch : Batch node (followup.owners records) ids)
      (compiled : Sql.followUp executor.catalog executor.settings followup ids = .ok query)
      (next : Sends executor followup.next (rows.map Row.assemble) inner)
      (behind : Sends executor rest records later) :
      Sends executor (followup :: rest) records
        ((followup, ⟨.find query, .ok rows⟩) :: inner ++ later)

theorem Sends.of_no_records : ∀ followups, executor.Sends followups [] []
  | [] => .done
  | _ :: rest => .passed rfl (of_no_records rest)

/-- Every follow-up, at any depth, is sent no more than once. -/
theorem Sends.sublist (sends : executor.Sends followups records trips) :
    (trips.map (·.1)).Sublist (nestedAll followups) := by
  induction sends with
  | done => exact .slnil
  | passed _ _ ih => exact ih.trans (List.sublist_append_right _ _)
  | @sent followup _ _ _ _ _ _ _ _ _ _ _ _ _ _ inner later =>
    cases followup
    rw [nestedAll, nested, List.cons_append, List.map_cons, List.map_append]
    exact (inner.append later).cons_cons _

theorem collectIds_records {node : Node} {before : List Record} (batch : Batch node before ids) :
    Records (collectIds node followup ids records : Session σ (List Record))
      (collectIds node followup ids records) fun ids' sent =>
        Batch node (before ++ followup.owners records) ids' ∧ sent = [] := by
  induction records generalizing before ids with
  | nil => exact .pure ⟨by rwa [owners, List.filterMap_nil, List.append_nil], rfl⟩
  | cons record rest ih =>
    simp only [collectIds, owners, List.filterMap_cons]
    cases record.at? followup.owner with
    | none => exact ih batch
    | some owner =>
      cases carried : owner.carried? Sql.identifierKey with
      | none =>
        simp only [carried]
        exact .throw _
      | some own =>
        simp only [carried]
        refine (Records.statement _).bind fun id sent known => ?_
        obtain ⟨read, nothing⟩ := known
        have more := ih (batch.add ⟨own, carried, read⟩)
        rw [nothing]
        simpa only [List.append_assoc, List.singleton_append, List.nil_append, owners] using more

/-- The identifiers that a follow-up asks for. -/
def Asked (executor : Executor σ) (records : List Record) (followup : Followup)
    (ids : List Record) : Prop :=
  ∃ node, executor.catalog.node? followup.relation.node = some node ∧
    Batch node (followup.owners records) ids

theorem ownerIds_records (executor : Executor σ) (records : List Record) (followup : Followup) :
    Records (executor.ownerIds records followup) (executor.recorded.ownerIds records followup)
      fun ids sent => executor.Asked records followup ids ∧ sent = [] := by
  simp only [ownerIds, Catalog.node]
  cases found : executor.catalog.node? followup.relation.node with
  | none =>
    simp only [recorded, found]
    exact .throw _
  | some node =>
    simp only [recorded, found]
    exact (collectIds_records .nil).imp fun ids _ batch => ⟨⟨node, found, batch.1⟩, batch.2⟩

theorem fetch_records (executor : Executor σ) (query : Sql.Find) :
    Records (executor.fetch query) (executor.recorded.fetch query) fun read sent =>
      ∃ rows, read = rows.map Row.assemble ∧ sent = [⟨.find query, .ok rows⟩] :=
  (Records.read executor.connector (.find query)).bind fun rows sent sends => .pure
    ⟨rows, rfl, by rw [sends, List.append_nil]⟩

/-- What is sent for the heads of a follow-up, given the identifiers of their owners. -/
inductive SendsHeads (executor : Executor σ) (followup : Followup) :
    List Record → List (Followup × Exchange) → Prop
  | passed : SendsHeads executor followup [] []
  | sent {ids rows : List Record} {query : Sql.Find} {inner : List (Followup × Exchange)}
      (some : ids ≠ [])
      (compiled : Sql.followUp executor.catalog executor.settings followup ids = .ok query)
      (next : executor.Sends followup.next (rows.map Row.assemble) inner) :
      SendsHeads executor followup ids ((followup, ⟨.find query, .ok rows⟩) :: inner)

/-- The heads of a follow-up are read with the round trips stated. -/
def HeadsRecord (executor : Executor σ) (followup : Followup) : Prop :=
  ∀ ids, Records (executor.readHeads followup ids) (executor.recorded.readHeads followup ids)
    fun _ sent => ∃ trips, executor.SendsHeads followup ids trips ∧ sent = trips.map (·.2)

theorem Sends.cons {later : List (Followup × Exchange)}
    (asked : executor.Asked records followup ids) (heads : executor.SendsHeads followup ids trips)
    (behind : executor.Sends followups records later) :
    executor.Sends (followup :: followups) records (trips ++ later) := by
  obtain ⟨node, found, batch⟩ := asked
  cases heads with
  | passed => exact .passed (batch.eq_nil_iff.mp rfl) behind
  | sent some compiled next =>
    exact .sent (mt batch.eq_nil_iff.mpr some) found batch compiled next behind

theorem readAllHeads_records (each : ∀ followup ∈ followups, executor.HeadsRecord followup)
    {owners : List (List Record)} (asked : List.Forall₂ (executor.Asked records) followups owners) :
    Records (executor.readAllHeads followups owners)
      (executor.recorded.readAllHeads followups owners) fun _ sent =>
        ∃ trips, executor.Sends followups records trips ∧ sent = trips.map (·.2) := by
  induction asked with
  | nil => exact .pure ⟨[], .done, rfl⟩
  | cons first _ ih =>
    rw [List.forall_mem_cons] at each
    simp only [readAllHeads]
    refine (each.1 _).bind fun heads sent here => (ih each.2).bind fun more sent' there => .pure ?_
    obtain ⟨trips, own, sends⟩ := here
    obtain ⟨later, behind, sends'⟩ := there
    refine ⟨trips ++ later, ?_, ?_⟩
    · exact .cons first own behind
    · rw [sends, sends', List.map_append, List.append_nil]

/-- Completing records sends what their follow-ups need. -/
theorem complete_records (each : ∀ followup ∈ followups, executor.HeadsRecord followup)
    (records : List Record) :
    Records (executor.complete followups (executor.readAllHeads followups) records)
      (executor.recorded.complete followups (executor.recorded.readAllHeads followups) records)
      fun _ sent => ∃ trips, executor.Sends followups records trips ∧ sent = trips.map (·.2) := by
  simp only [complete]
  split
  · rename_i nothing
    refine .pure ⟨[], ?_, rfl⟩
    rcases Bool.or_eq_true_iff.mp nothing with none | none
    · rw [List.isEmpty_iff.mp none]
      exact .done
    · rw [List.isEmpty_iff.mp none]
      exact .of_no_records followups
  · refine (Records.mapM (ownerIds_records executor records) followups).bind
      fun owners sent known => ?_
    obtain ⟨asked, nothing⟩ := known
    refine (readAllHeads_records each asked).bind fun heads sent' read => .pure ?_
    obtain ⟨trips, sends, same⟩ := read
    exact ⟨trips, sends, by rw [nothing, same, List.nil_append, List.append_nil]⟩

theorem headsRecord (executor : Executor σ) (followup : Followup) :
    executor.HeadsRecord followup := by
  induction followup with
  | make owner key relation window head next ih =>
    intro ids
    simp only [readHeads]
    split
    · rename_i none
      rw [List.isEmpty_iff.mp none]
      exact .pure ⟨[], .passed, rfl⟩
    · rename_i some
      refine (Records.sql _).bind fun query _ compiled => ?_
      refine (fetch_records executor query).bind fun read _ fetched => ?_
      obtain ⟨rows, rfl, sends⟩ := fetched
      refine (complete_records ih _).imp fun _ _ completed => ?_
      obtain ⟨inner, next, more⟩ := completed
      refine ⟨_, .sent (mt List.isEmpty_iff.mpr some) compiled.1 next, ?_⟩
      rw [compiled.2, sends, more]
      rfl

/-- Whatever the store answers, a find that succeeds sends its own query and then what the relations
to many of its selection need: each of these, at any depth, is asked for at most once, for all the
records that own it together with no identifier twice, and not at all where no record owns it. -/
theorem find_round_trips (executor : Executor σ) (selection : Selection) (request : Request)
    {state after : σ} {values : List Record}
    (found : executor.find selection request state = .ok values after) :
    ∃ query rows trips,
      executor.recorded.find selection request (state, []) =
        .ok values (after, ⟨.find query, .ok rows⟩ :: trips.map (·.2)) ∧
      Sql.find executor.catalog executor.settings selection request = .ok query ∧
      executor.Sends selection.followups (rows.map Row.assemble) trips ∧
      (trips.map (·.1)).Sublist (nestedAll selection.followups) ∧
      1 + trips.length ≤ 1 + selection.multiples := by
  have records : Records (executor.find selection request)
      (executor.recorded.find selection request) fun _ sent => ∃ query rows trips,
        sent = ⟨.find query, .ok rows⟩ :: trips.map (·.2) ∧
        Sql.find executor.catalog executor.settings selection request = .ok query ∧
        executor.Sends selection.followups (rows.map Row.assemble) trips := by
    refine (Records.sql _).bind fun query _ compiled => ?_
    refine (fetch_records executor query).bind fun read _ fetched => ?_
    obtain ⟨rows, rfl, sends⟩ := fetched
    refine (complete_records (fun followup _ => headsRecord executor followup) _).bind
      fun records _ completed => ?_
    obtain ⟨trips, completes, more⟩ := completed
    refine (Records.statement _).imp fun _ _ shown => ⟨query, rows, trips, ?_, compiled.1, completes⟩
    rw [compiled.2, sends, more, shown.2, List.append_nil]
    rfl
  obtain ⟨_, ran, query, rows, trips, rfl, compiled, sends⟩ := records.of_ok found
  have once := sends.sublist
  have few := once.length_le
  rw [List.length_map, selection.length_nestedAll] at few
  exact ⟨query, rows, trips, ran, compiled, sends, once, Nat.add_le_add_left few 1⟩

end Executor

namespace Samples

/-- All tasks, their owners, and the tasks of these: two round trips for four records. -/
theorem round_trips_of_owned_tasks :
    ∃ values query rows trips,
      taskExecutor.recorded.find ownersSelection allTasks ((), []) =
        .ok values ((), ⟨.find query, .ok rows⟩ :: trips.map (·.2)) ∧
      taskExecutor.Sends ownersSelection.followups (rows.map Row.assemble) trips ∧
      1 + trips.length ≤ 2 := by
  have outward := CatalogDefinition.outward_of_build build_board (by decide) (by decide) (by decide)
  have parsed : Selection.parse boardCatalog task ownersInput = .ok ownersSelection := rfl
  have holds (query : Sql.Find) : List.Forall₂ query.Holds ownedTasks
      (ownedTasks.map (rowOf query)) := by
    rw [List.forall₂_map_right_iff, List.forall₂_same]
    exact fun tree _ => holds_rowOf query tree
  have found : ∃ after, taskExecutor.find ownersSelection allTasks () =
      (liftM (ownedTasks.mapM ownersSelection.project) : Session Unit (List Record)) after :=
    Executor.find_of_readable (CatalogDefinition.build_wellFormed build_board) outward rfl
      (Selection.readable_of_parse outward parsed).2 rfl ownedTasks_shaped ownedTasks_coherent
      taskExecutor_answers rfl (holds _)
  obtain ⟨after, found⟩ := found
  obtain ⟨query, rows, trips, ran, -, sends, -, few⟩ :=
    Executor.find_round_trips taskExecutor ownersSelection allTasks (found.trans rfl)
  exact ⟨_, query, rows, trips, ran, sends, few⟩

end Samples

end LiveQuery
