import LiveQuery.Proofs.Sql.Grammar

set_option autoImplicit false

namespace LiveQuery

open Sql

/-- A test of a leaf as filters hold it, with an operand that has an exact literal. -/
structure Formed (field : Leaf) (operator : LeafOperator) (value : Value) : Prop where
  plain : operator ≠ .fullText
  operand : ∃ raw, Filter.operand field operator raw = .ok value
  exact : value.Exact

/-- Identifiers with a component give every edge a foreign key. -/
theorem Catalog.WellFormed.keyed {catalog : Catalog} (wellFormed : catalog.WellFormed)
    (identified : ∀ node ∈ catalog.nodes, node.identifierComponents ≠ []) : catalog.Keyed := by
  intro name node found link part empty
  obtain ⟨head, leads⟩ := wellFormed.heads found link part
  obtain ⟨leaves, components, columns⟩ := leads.columns
  refine identified head (List.mem_of_find?_eq_some leads.node) ?_
  rw [empty, List.map_nil] at columns
  rw [components, List.map_eq_nil_iff.mp columns.symm, List.map_nil]

theorem Sql.Condition.testable_reduced {predicate : Predicate}
    (testable : predicate.Leaves Condition.Testable) :
    predicate.reduced.Leaves Condition.Testable := by
  have single {field : Leaf} {value : Value} {comparison : Comparison}
      (unordered : comparison.isOrder = false)
      (listed : ∃ items, Value.list [value] = .list items ∧ Condition.Listable field items) :
      Condition.Testable field (.compared comparison) value := by
    obtain ⟨_, ⟨⟩, listable⟩ := listed
    obtain ⟨null | has, exact⟩ := listable value (List.mem_singleton_self value)
    · exact ⟨Or.inl ⟨unordered, null⟩, exact⟩
    · exact ⟨Or.inr has, exact⟩
  exact testable.reduced (fun _ _ => single rfl) (fun _ _ => single rfl)

/-- What the text of a compiled filter says of the row of a record, extended by the joins that it
needs, is what the filter says of the record in memory. It is never unknown. -/
theorem Filter.truth_of_execute {definitions : CatalogDefinition} {catalog : Catalog}
    (built : definitions.build = .ok catalog)
    (identified : ∀ node ∈ catalog.nodes, node.identifierComponents ≠ []) {store : Store}
    (consistent : store.Consistent catalog) {database : Database}
    (stores : database.Stores catalog store) {filter subject : Filter}
    (fits : filter.fits catalog = true) (formed : filter.predicate.Leaves Formed)
    (same : subject = filter ∨ subject = filter.reduced) {condition : Condition} {table : Table}
    (compiled : Condition.ofNodeFilter catalog subject (Table.root filter.node) =
      .ok condition table)
    {joins : List LeftJoin} (joined : table.leftJoins = .ok joins) {row record : Record}
    (inside : row ∈ store filter.node.name)
    (shown : filter.predicate.shown catalog store row record) {stored : Row}
    (kept : filter.node.StoredAs row stored) (outer : Scope) :
    Reads database .factor condition.text (condition.truth database) ∧
      ∃ value scope, filter.execute record = .ok value ∧ subject.execute record = .ok value ∧
        LeftJoin.extendAll database joins (Function.update outer filter.node.table stored) =
          [scope] ∧
        condition.truth database scope = some value := by
  have wellFormed := CatalogDefinition.build_wellFormed built
  have serves : Serves catalog store database :=
    ⟨wellFormed, CatalogDefinition.isName_of_build built, wellFormed.keyed identified, consistent,
      stores⟩
  rw [Filter.fits, Bool.and_eq_true, decide_eq_true_iff] at fits
  have sound : Sound catalog (Table.root filter.node) := .ofNode fits.1 _
  have testable : filter.predicate.Leaves Condition.Testable :=
    formed.mono fun field operator value test =>
      test.operand.elim fun raw made =>
        Condition.testable_of_operand test.plain made test.exact
  have plain : filter.predicate.Leaves fun _ operator _ => operator ≠ .fullText :=
    formed.mono fun _ _ _ test => test.plain
  obtain ⟨node', fits', testable', plain', shown', means⟩ : subject.node = filter.node ∧
      subject.predicate.fits catalog filter.node.name = true ∧
      subject.predicate.Leaves Condition.Testable ∧
      (subject.predicate.Leaves fun _ operator _ => operator ≠ .fullText) ∧
      subject.predicate.shown catalog store row record ∧
      store.holds subject.predicate row = store.holds filter.predicate row := by
    rcases same with rfl | rfl
    · exact ⟨rfl, fits.2, testable, plain, shown, rfl⟩
    · exact ⟨rfl, Predicate.fits_reduced fits.2, Condition.testable_reduced testable,
        plain.reduced (fun _ _ _ => nofun) (fun _ _ _ => nofun), Predicate.shown_reduced shown,
        Predicate.holds_reduced wellFormed consistent fits.2 shown⟩
  obtain ⟨_, _, got, compiled⟩ := Building.bind_eq_ok.mp compiled
  cases got
  split at compiled
  · cases compiled
  have whole := serves.translates testable' sound fits' compiled
  have label : table.label = filter.node.table := whole.grown.label
  have node : table.node = filter.node := whole.grown.node
  have anchored : Anchored store (Function.update outer filter.node.table stored) table.label
      table.node (some row) := by
    rw [label, node]
    exact ⟨inside, by rwa [Function.update_self]⟩
  obtain ⟨scope, extended⟩ := serves.extendAll whole.sound joined anchored
  refine ⟨Condition.readable wellFormed serves.keyed fits' plain' compiled,
    store.holds filter.predicate row, scope, ?_, ?_, extended.extended, ?_⟩
  · exact (Predicate.faithful_of_shown wellFormed consistent fits.2 shown).1
  · rw [← means, Filter.execute, node']
    exact (Predicate.faithful_of_shown wellFormed consistent fits' shown').1
  · rw [whole.truth_eq (extended.placed row rfl), means]

namespace Samples

/-- The tasks that are not the second person's. -/
def others : Filter :=
  ⟨task, .negation (.edge owner (some (.leaf ⟨"Person", "id", "id", .int, false⟩ (.compared .eq)
    (.int 2))))⟩

def choreRow : Row := fun column => if column = "id" then .int 7 else .int 1

/-- The tables of one person and a task. -/
def shelf : Database
  | "people" => [fun _ => .int 1]
  | "tasks" => [choreRow]
  | _ => []

theorem stored_chore : task.StoredAs chore choreRow := by
  intro component inside
  rcases List.mem_cons.mp inside with rfl | later
  · rfl
  · cases List.mem_singleton.mp later
    rfl

theorem stores_shelf : shelf.Stores boardCatalog (people [chore]) := by
  refine ⟨fun {name node} found => ?_⟩
  rcases node?_cases found with ⟨rfl, rfl⟩ | ⟨rfl, rfl⟩
  · refine ⟨[fun _ => .int 1], .refl _, .cons (fun component inside => ?_) .nil⟩
    cases List.mem_singleton.mp inside
    rfl
  · exact ⟨[choreRow], .refl _, .cons stored_chore .nil⟩

theorem others_formed : others.predicate.Leaves Formed := by
  intro field operator value member
  simp only [others, Predicate.parts, Predicate.partsHead, List.mem_cons, reduceCtorEq, false_or,
    List.not_mem_nil, or_false, Predicate.leaf.injEq] at member
  obtain ⟨rfl, rfl, rfl⟩ := member
  exact ⟨by decide, ⟨.int 2, rfl⟩, trivial⟩

theorem others_shown : others.predicate.shown boardCatalog (people [chore]) chore chore :=
  Or.inr ⟨ada, List.mem_singleton_self _, by decide, ada, rfl, identified_of_id rfl rfl, .int 1,
    rfl, rfl⟩

end Samples

open Samples

theorem Filter.truth_of_execute_chore : ∃ condition table joins scope,
    Condition.ofNodeFilter boardCatalog others (Table.root task) = .ok condition table ∧
      table.leftJoins = .ok joins ∧
      Reads shelf .factor condition.text (condition.truth shelf) ∧
      LeftJoin.extendAll shelf joins (Function.update (fun _ => Row.null) "tasks" choreRow) =
        [scope] ∧
      condition.truth shelf scope = some true := by
  have identified : ∀ node ∈ boardCatalog.nodes, node.identifierComponents ≠ [] := by decide
  obtain ⟨reads, value, scope, executed, -, extended, truth⟩ :=
    Filter.truth_of_execute build_board identified (consistent_people (.inr rfl)) stores_shelf rfl
      others_formed (.inl rfl) rfl rfl (List.mem_singleton_self _) others_shown stored_chore
      (fun _ => Row.null)
  have value_eq : others.execute chore = .ok true := rfl
  rw [value_eq] at executed
  cases executed
  exact ⟨_, _, _, scope, rfl, rfl, reads, extended, truth⟩

namespace Samples

/-- Notes with the time at which they were taken. -/
def diary : CatalogDefinition := [
  ⟨"Note", "notes", [field "id" .int, field "taken" .instant], [unique ["id"]], []⟩]

def taken : Leaf := ⟨"Note", "taken", "taken", .instant, false⟩

def note : Node :=
  ⟨"Note", "notes", [.leaf ⟨"Note", "id", "id", .int, false⟩, .leaf taken], [], [⟨"id", ["id"]⟩],
    ⟨"id", ["id"]⟩⟩

def diaryCatalog : Catalog := ⟨[note]⟩

theorem build_diary : diary.build = .ok diaryCatalog := rfl

/-- The last second of 2016, or, with more nanoseconds than a second has, the leap second after
it. -/
def lastSecond (nanos : Nat) (bound : nanos < 2 * Instant.nanosPerSecond) : Instant :=
  ⟨1483228799, nanos, bound⟩

/-- An instant between two microseconds. -/
def between : Instant := lastSecond 500 (by decide)

def leapSecond : Instant := lastSecond Instant.nanosPerSecond (by decide)

def entry : Record := [("id", .int 1), ("taken", .instant (lastSecond 0 (by decide)))]

/-- A single note. -/
def entries : Store
  | "Note" => [entry]
  | _ => []

def entryRow : Row := fun column =>
  if column = "id" then .int 1 else .instant (lastSecond 0 (by decide))

/-- The table of the single note. -/
def binder : Database
  | "notes" => [entryRow]
  | _ => []

def takenAt (moment : Instant) : Filter :=
  ⟨note, .leaf taken (.compared .eq) (.instant moment)⟩

theorem node?_diary {name : String} {node : Node} (found : diaryCatalog.node? name = some node) :
    name = "Note" ∧ node = note := by
  have inside : node ∈ [note] := List.mem_of_find?_eq_some found
  cases List.mem_singleton.mp inside
  exact ⟨(Catalog.name_of_node? found).symm, rfl⟩

theorem consistent_entries : entries.Consistent diaryCatalog := by
  refine ⟨?_, ?_, ?_⟩
  · intro name node found row inside component member
    obtain ⟨rfl, rfl⟩ := node?_diary found
    cases List.mem_singleton.mp (show row ∈ [entry] from inside)
    rcases List.mem_cons.mp member with rfl | later
    · exact ⟨.int 1, rfl, rfl⟩
    · cases List.mem_singleton.mp later
      exact ⟨.instant (lastSecond 0 (by decide)), rfl, rfl⟩
  · intro name node found row inside link member
    obtain ⟨rfl, rfl⟩ := node?_diary found
    simp [note] at member
  · intro name node found
    obtain ⟨rfl, rfl⟩ := node?_diary found
    exact List.nodup_singleton _

theorem stored_entry : note.StoredAs entry entryRow := by
  intro component inside
  rcases List.mem_cons.mp inside with rfl | later
  · rfl
  · cases List.mem_singleton.mp later
    rfl

theorem stores_binder : binder.Stores diaryCatalog entries := by
  refine ⟨fun {name node} found => ?_⟩
  obtain ⟨rfl, rfl⟩ := node?_diary found
  exact ⟨[entryRow], .refl _, .cons stored_entry .nil⟩

end Samples

/-- Of operands between two microseconds a literal keeps the earlier one, so that a note may meet a
filter on the server alone. For a leap second the server has no instant at all. -/
theorem Filter.truth_of_inexact_operand :
    diary.build = .ok diaryCatalog ∧
      (∀ node ∈ diaryCatalog.nodes, node.identifierComponents ≠ []) ∧
      entries.Consistent diaryCatalog ∧ binder.Stores diaryCatalog entries ∧
      entry ∈ entries note.name ∧ note.StoredAs entry entryRow ∧
      (∀ moment, ("taken", .instant moment) ∈ entry → moment.Exact) ∧
      (∀ moment, (takenAt moment).fits diaryCatalog = true ∧
        Filter.operand taken (.compared .eq) (.instant moment) = .ok (.instant moment) ∧
        (takenAt moment).predicate.shown diaryCatalog entries entry entry) ∧
      (∃ condition table,
        Condition.ofNodeFilter diaryCatalog (takenAt between) (Table.root note) =
            .ok condition table ∧
          table.leftJoins = .ok [] ∧ (takenAt between).execute entry = .ok false ∧
          condition.truth binder (Function.update (fun _ => Row.null) note.table entryRow) =
            some true) ∧
      ∃ condition table,
        Condition.ofNodeFilter diaryCatalog (takenAt leapSecond) (Table.root note) =
            .ok condition table ∧
          table.leftJoins = .ok [] ∧ (takenAt leapSecond).execute entry = .ok false ∧
          condition.truth binder (Function.update (fun _ => Row.null) note.table entryRow) =
            none := by
  refine ⟨build_diary, by decide, consistent_entries, stores_binder, List.mem_singleton_self _,
    stored_entry, ?_, fun moment => ⟨rfl, rfl, _, rfl, rfl⟩, ⟨_, _, rfl, rfl, rfl, rfl⟩,
    ⟨_, _, rfl, rfl, rfl, rfl⟩⟩
  intro moment inside
  simp only [entry, List.mem_cons, Prod.mk.injEq, Value.instant.injEq, List.not_mem_nil,
    or_false, reduceCtorEq, and_false, false_or, true_and] at inside
  subst inside
  exact ⟨by decide, by decide⟩

end LiveQuery
