import LiveQuery.Proofs.Execution.Reassembly
import LiveQuery.Proofs.Execution.Transparency
import LiveQuery.Proofs.Selection.Conflicts
import LiveQuery.Proofs.Selection.Made
import LiveQuery.Proofs.Sql.Compiling
import LiveQuery.Proofs.Statement.SameIdentifier

set_option autoImplicit false

namespace LiveQuery

variable {σ : Type}

/-- The store answers a request for a selection with rows that hold certain trees, which are of the
shape of the selection. -/
structure Executor.Reads (executor : Executor σ) (selection : Selection) (request : Request)
    (trees : List Record) : Prop where
  shaped : ∀ tree ∈ trees, executor.catalog.Identified selection.node.name tree ∧
    SelectionField.ShapesAll executor.catalog selection.fields tree
  holds : ∀ query, Sql.find executor.catalog executor.settings selection request = .ok query →
    ∀ state, ∃ rows between, executor.connector.read (.find query) state = .ok rows between ∧
      List.Forall₂ query.Holds trees rows

/-- The store answers what is left for later as well. -/
structure Executor.Shows (executor : Executor σ) (selection : Selection) (request : Request)
    (trees : List Record) : Prop extends executor.Reads selection request trees where
  coherent : Followup.CoherentAll executor.catalog selection.followups trees
  answers : executor.AnswersAll selection.followups trees

namespace Executor

variable {executor : Executor σ} {selection : Selection} {filter filter' : Filter}

theorem find_congr (reduced : filter.reduced = filter'.reduced) :
    executor.find selection ⟨some filter, none, 0, none⟩ =
      executor.find selection ⟨some filter', none, 0, none⟩ := by
  have node : filter.node = filter'.node := by
    change filter.reduced.node = filter'.reduced.node
    rw [reduced]
  have condition : Sql.conditionOf executor.catalog (some filter) =
      Sql.conditionOf executor.catalog (some filter') := by
    simp only [Sql.conditionOf, reduced]
  have compiled : Sql.find executor.catalog executor.settings selection
      ⟨some filter, none, 0, none⟩ = Sql.find executor.catalog executor.settings selection
      ⟨some filter', none, 0, none⟩ := by
    simp only [Sql.find, Option.map_some, node, Sql.findDirect, Sql.listStage, condition,
      Sql.limitOf]
  rw [find, find, compiled]

/-- What is found are the selected parts of the trees that the store shows. -/
theorem find_of_shows {request : Request} {trees : List Record}
    (wellFormed : executor.catalog.WellFormed) (outward : executor.catalog.Outward)
    (found : executor.catalog.node? selection.node.name = some selection.node)
    (readable : SelectionField.ReadableAll executor.catalog selection.node selection.fields)
    (shows : executor.Shows selection request trees) {query : Sql.Find}
    (compiled : Sql.find executor.catalog executor.settings selection request = .ok query)
    (state : σ) : ∃ after, executor.find selection request state =
      (liftM (trees.mapM selection.project) : Session σ (List Record)) after := by
  obtain ⟨rows, between, answered, holds⟩ := shows.holds query compiled state
  exact find_of_readable wellFormed outward found readable compiled shows.shaped shows.coherent
    shows.answers answered holds

section Found

variable {definitions : CatalogDefinition} {wide : Selection} {request : Request} {state after : σ}
  {values trees : List Record} (built : definitions.build = .ok executor.catalog)
  (outward : executor.catalog.Outward)
  (found : executor.catalog.node? selection.node.name = some selection.node)
  (readable : SelectionField.ReadableAll executor.catalog selection.node selection.fields)
  (finds : executor.find selection request state = .ok values after)
  (shows : executor.Shows selection request trees)

include finds in
theorem exists_compiled :
    ∃ query, Sql.find executor.catalog executor.settings selection request = .ok query := by
  cases compiled : Sql.find executor.catalog executor.settings selection request with
  | ok query => exact ⟨query, rfl⟩
  | error error =>
    rw [find, compiled] at finds
    cases finds

include built outward found readable finds shows

theorem project_of_find : trees.mapM selection.project = .ok values := by
  obtain ⟨query, compiled⟩ := exists_compiled finds
  obtain ⟨_, answered⟩ := find_of_shows (CatalogDefinition.build_wellFormed built) outward found
    readable shows compiled state
  rw [finds] at answered
  cases projected : trees.mapM selection.project with
  | error =>
    rw [projected] at answered
    cases answered
  | ok =>
    rw [projected] at answered
    cases answered
    rfl

/-- A find for the selection with the identifier succeeds as well. -/
theorem find_of_identifies (identifies : Selection.Identifies executor.catalog selection wide)
    (filtered : request.filter = some filter)
    (visits : ∀ link, .edge link ∈ selection.node.identifierComponents →
      Predicate.Visits link filter.reduced.predicate)
    (reads : executor.Reads wide request trees)
    (conform : ∀ tree ∈ trees, executor.catalog.Names selection.node tree) :
    ∃ wider now, trees.mapM wide.project = .ok wider ∧
      executor.find wide request state = .ok wider now := by
  have wellFormed := CatalogDefinition.build_wellFormed built
  obtain ⟨query, compiled⟩ :=
    Sql.find_of_identifies built found identifies filtered visits (exists_compiled finds)
  have cut := Outcome.exists_mapM_iff.mp
    ⟨values, project_of_find built outward found readable finds shows⟩
  obtain ⟨wider, projected⟩ := Outcome.exists_mapM_iff.mpr fun tree inside =>
    (cut tree inside).elim fun _ made =>
      identifies.exists_project wellFormed found (conform tree inside) made
  have found_wide := found
  rw [← identifies.node] at found_wide
  -- The identifier leaves nothing for later that was not left before.
  have shows_wide : executor.Shows wide request trees :=
    ⟨reads, identifies.followups_eq ▸ shows.coherent, identifies.followups_eq ▸ shows.answers⟩
  obtain ⟨now, answered⟩ := find_of_shows wellFormed outward found_wide
    (identifies.readable outward (Catalog.mem_of_node? found) readable) shows_wide compiled state
  rw [projected] at answered
  exact ⟨wider, now, projected, answered⟩

end Found

end Executor

namespace Loader

variable {loader : Loader σ} {selection wide : Selection} {given ids missed values : List Record}

/-- The filter on the instances that records name. -/
def filterOf (loader : Loader σ) (given : List Record) : Except StatementError Filter := do
  let ids ← given.mapM loader.node.identifierOf
  let filters ← ids.mapM (Filter.identifier loader.executor.catalog loader.node)
  Filter.junction loader.node .any filters

theorem misses_fresh : ∃ missed', misses [] selection wide missed ids = (wide, missed') ∧
    Condensed (missed ++ ids) missed' := by
  induction ids generalizing missed with
  | nil => exact ⟨missed, rfl, (List.append_nil missed).symm ▸ .all⟩
  | cons id rest ih =>
    rw [misses]
    change ∃ missed', misses [] selection wide _ rest = _ ∧ _
    split
    · rename_i known
      obtain ⟨first, inside, same⟩ := List.any_eq_true.mp known
      obtain ⟨missed', listed, condensed⟩ := @ih missed
      have without : Condensed (missed ++ id :: rest) (missed ++ rest) :=
        .drop (List.append_cons .. ▸ .all) inside same
      exact ⟨missed', listed, without.trans condensed⟩
    · obtain ⟨missed', listed, condensed⟩ := @ih (missed ++ [id])
      exact ⟨missed', listed, List.append_cons .. ▸ condensed⟩

theorem exists_remember (named : ∀ value ∈ values, ∃ id, loader.node.identifierOf value = .ok id)
    {loading : Loading σ} : ∃ now, loader.remember wide values loading = .ok () now ∧
      ∀ key known, now.cache.get? key = some known → loading.cache.get? key = some known ∨
        ∃ value ∈ values, known = ⟨wide, some value⟩ := by
  induction values generalizing loading with
  | nil => exact ⟨loading, rfl, fun _ _ => Or.inl⟩
  | cons value rest ih =>
    rw [List.forall_mem_cons] at named
    obtain ⟨id, read⟩ := named.1
    obtain ⟨now, taken, entries⟩ :=
      @ih named.2 ⟨loading.cache.insert id.text ⟨wide, some value⟩, loading.store⟩
    refine ⟨now, ?_, fun key known present => ?_⟩
    · rw [← taken, remember, liftStatement_bind, read]
      rfl
    · rcases entries key known present with older | ⟨value', inside, same⟩
      · by_cases here : key = id.text
        · rw [here, Entries.get?_insert_self, Option.some.injEq] at older
          exact Or.inr ⟨value, List.mem_cons_self .., older.symm⟩
        · rw [Entries.get?_insert_of_ne _ _ _ _ here] at older
          exact Or.inl older
      · exact Or.inr ⟨value', List.mem_cons_of_mem _ inside, same⟩

theorem exists_serve {cache : Cache}
    (entries : ∀ key known, cache.get? key = some known → known.value = none ∨
      ∃ value served, known.value = some value ∧ selection.project value = .ok served) :
    ∃ answers, ids.mapM (serve cache selection) = .ok answers := by
  have each : ∀ id ∈ ids, ∃ answer, serve cache selection id = .ok answer := by
    intro id _
    unfold serve
    cases present : cache.get? id.text with
    | none => exact ⟨none, rfl⟩
    | some known =>
      rcases entries _ known present with absent | ⟨value, served, stored, projected⟩
      · exact ⟨none, by simp [absent]⟩
      · refine ⟨some served, ?_⟩
        simp only [Option.bind_some, stored, projected]
        rfl
  exact Outcome.exists_mapM_iff.mpr each

section Served

variable (wellFormed : loader.executor.catalog.WellFormed)
  (found : loader.executor.catalog.node? loader.node.name = some loader.node)

include wellFormed found

/-- What is remembered of records with the identifier serves every selection that was read. -/
theorem exists_served {identifier : Selection} {trees : List Record} (valid : wide.Valid)
    (known : Selection.identifier loader.executor.catalog loader.node = .ok identifier)
    (includes : wide.includes selection = true) (includes' : wide.includes identifier = true)
    (projected : trees.mapM wide.project = .ok values) (ids missed : List Record) (now : σ) :
    ∃ later answers, loader.remember wide values ⟨missed.foldl (absent wide) [], now⟩ =
      .ok () later ∧ ids.mapM (serve later.cache selection) = .ok answers := by
  have from_ : ∀ value ∈ values, ∃ tree, wide.project tree = .ok value := by
    intro value inside
    obtain ⟨tree, -, made⟩ := Outcome.exists_of_mem_mapM projected inside
    exact ⟨tree, made⟩
  have named : ∀ value ∈ values, ∃ id, loader.node.identifierOf value = .ok id := by
    intro value inside
    obtain ⟨tree, made⟩ := from_ value inside
    exact Node.exists_identifierOf wellFormed found
      (Selection.names_of_project valid known includes' made)
  obtain ⟨later, taken, entries⟩ := @exists_remember _ _ wide _ named
    ⟨missed.foldl (absent wide) [], now⟩
  have each (key : String) (entry : Cached) (present : later.cache.get? key = some entry) :
      entry.value = none ∨
        ∃ value served, entry.value = some value ∧ selection.project value = .ok served := by
    rcases entries key entry present with noted | ⟨value, inside, rfl⟩
    · rcases (foldl_absent_served includes).1 key entry noted with impossible | ⟨rfl, -⟩
      · cases impossible
      · exact Or.inl rfl
    · obtain ⟨tree, made⟩ := from_ value inside
      obtain ⟨served, -, again⟩ := Selection.project_of_includes valid includes made
      exact Or.inr ⟨value, served, rfl, again⟩
  obtain ⟨answers, served⟩ := exists_serve each
  exact ⟨later, answers, taken, served⟩

end Served

section Fresh

variable {filter : Filter} {state : σ} (wellFormed : loader.executor.catalog.WellFormed)
  (outward : loader.executor.catalog.Outward)
  (found : loader.executor.catalog.node? loader.node.name = some loader.node)
  (names : ∀ id ∈ given, loader.executor.catalog.Names loader.node id)
  (filtered : loader.filterOf given = .ok filter)

include names in
theorem identifiers_of_read (read : given.mapM loader.node.identifierOf = .ok ids) :
    ∀ id ∈ ids, loader.Identifier id := by
  intro id inside
  obtain ⟨record, member, named⟩ := Outcome.exists_of_mem_mapM read inside
  exact ⟨record, names record member, named⟩

include wellFormed found names filtered

theorem reduced_of_filterOf : ∃ ids, given.mapM loader.node.identifierOf = .ok ids ∧
    (∀ id ∈ ids, loader.Identifier id ∧ loader.executor.catalog.Names loader.node id) ∧
    filter.reduced = ⟨loader.node, Predicate.joinReduced .any
      (ids.map (Filter.recognising loader.executor.catalog loader.node))⟩ := by
  obtain ⟨ids, read, filtered⟩ := Outcome.bind_eq_ok.mp filtered
  obtain ⟨filters, mapped, whole⟩ := Outcome.bind_eq_ok.mp filtered
  have identifiers := identifiers_of_read names read
  exact ⟨ids, read, fun id inside =>
    ⟨identifiers id inside, (identifiers id inside).names wellFormed found⟩,
    Filter.reduced_alternatives mapped whole⟩

include outward

theorem visits_filterOf (some_ : given ≠ []) {link : Edge}
    (inside : .edge link ∈ loader.node.identifierComponents) :
    Predicate.Visits link filter.reduced.predicate := by
  obtain ⟨ids, read, each, reduced⟩ := reduced_of_filterOf wellFormed found names filtered
  rw [reduced]
  refine Filter.visits_alternatives wellFormed outward found (fun id member => (each id member).2)
    ?_ inside
  rintro rfl
  exact some_ (Outcome.eq_nil_of_mapM read)

/-- A load of which nothing is cached is a find for the selection with the identifier. -/
theorem loadMany_fresh (here : selection.node.name = loader.node.name) (some_ : given ≠ []) :
    ∃ ids missed : List Record, loader.loadMany given selection ⟨[], state⟩ =
      match loader.identified selection with
      | .error error => .error (.sql (.statement error)) ⟨[], state⟩
      | .ok wide =>
        match loader.executor.find wide ⟨some filter, none, 0, none⟩ state with
        | .error error now => .error error ⟨[], now⟩
        | .ok values now =>
          match loader.remember wide values ⟨missed.foldl (absent wide) [], now⟩ with
          | .error error later => .error error later
          | .ok _ later => liftStatement (ids.mapM (serve later.cache selection)) later := by
  obtain ⟨ids, read, each, reduced⟩ := reduced_of_filterOf wellFormed found names filtered
  obtain ⟨missed, listed, condensed⟩ : ∃ missed, misses [] selection selection [] ids =
      (selection, missed) ∧ Condensed ids missed := misses_fresh
  have missed_some : missed ≠ [] := by
    refine condensed.ne_nil ?_
    rintro rfl
    exact some_ (Outcome.eq_nil_of_mapM read)
  obtain ⟨filters, filter', mapped, whole⟩ := exists_filter wellFormed found fun id inside =>
    (each id (condensed.subset inside)).1
  have same : filter.reduced = filter'.reduced := by
    rw [reduced, Filter.reduced_alternatives mapped whole,
      Filter.joinReduced_of_condensed wellFormed outward found
        (fun id inside => (each id inside).2) condensed]
  refine ⟨ids, missed, ?_⟩
  rw [loadMany_eq here read listed, if_neg (by simpa using missed_some), fetch_eq, asked_eq]
  cases loader.identified selection with
  | error => rfl
  | ok wide =>
    simp only [Outcome.ok_bind, mapped, whole, Outcome.pure_eq_ok,
      ← Executor.find_congr same]
    cases loader.executor.find wide ⟨some filter, none, 0, none⟩ state <;> rfl

theorem loadMany_of_unidentified (here : selection.node.name = loader.node.name)
    (some_ : given ≠ []) {error : StatementError}
    (fails : loader.identified selection = .error error) :
    loader.loadMany given selection ⟨[], state⟩ =
      .error (.sql (.statement error)) ⟨[], state⟩ := by
  obtain ⟨ids, missed, fresh⟩ := @loadMany_fresh _ loader selection _ _ state wellFormed outward
    found names filtered here some_
  rw [fresh, fails]

/-- A load that can ask for the identifier succeeds if the find for its selection does. -/
theorem exists_loadMany {definitions : CatalogDefinition}
    (built : definitions.build = .ok loader.executor.catalog) (here : selection.node = loader.node)
    (valid : selection.Valid)
    (readable : SelectionField.ReadableAll loader.executor.catalog loader.node selection.fields)
    (some_ : given ≠ []) (made : loader.identified selection = .ok wide) {after : σ}
    (finds : loader.executor.find selection ⟨some filter, none, 0, none⟩ state = .ok values after)
    {trees : List Record}
    (shows : loader.executor.Shows selection ⟨some filter, none, 0, none⟩ trees)
    (reads : loader.executor.Reads wide ⟨some filter, none, 0, none⟩ trees)
    (conform : ∀ tree ∈ trees, loader.executor.catalog.Names loader.node tree) :
    ∃ answers now, loader.loadMany given selection ⟨[], state⟩ = .ok answers now := by
  obtain ⟨identifier, known, merges⟩ := Outcome.bind_eq_ok.mp made
  obtain ⟨valid', -, includes, includes'⟩ :=
    Selection.merge_spec valid (Selection.identifier_valid known).2 merges
  have visits {link : Edge} : .edge link ∈ loader.node.identifierComponents →
      Predicate.Visits link filter.reduced.predicate :=
    visits_filterOf wellFormed outward found names filtered some_
  have found' := found
  have known' := known
  rw [← here] at found' known' readable conform visits
  have identifies := Selection.identifies_of_merge wellFormed found' known' merges
  obtain ⟨wider, now, projected, finds'⟩ := Executor.find_of_identifies built outward found'
    readable finds shows identifies rfl (fun _ => visits) reads conform
  obtain ⟨ids, missed, fresh⟩ := @loadMany_fresh _ loader selection _ _ state wellFormed outward
    found names filtered (congrArg Node.name here) some_
  obtain ⟨later, answers, taken, served⟩ := exists_served wellFormed found valid' known includes
    includes' projected ids missed now
  refine ⟨answers, later, ?_⟩
  rw [fresh, made]
  simp only [finds', taken, served]
  rfl

end Fresh

/-- Where a find for a selection succeeds, a load of which nothing is cached succeeds as well,
unless it asks for some instance and its selection wants something else under a key of the
identifier. The load then fails, although the find does not, and reads nothing.

Catalogs are left out in which loads fail for other reasons: an identifier that repeats a component
has no selection of its own, and where an identifier has no component, or a component is named like
the labels that rows carry identifiers under, rows do not tell what instance they are of. -/
theorem loadMany_of_find {definitions : CatalogDefinition}
    (built : definitions.build = .ok loader.executor.catalog)
    (identified : ∀ node ∈ loader.executor.catalog.nodes, node.identifierComponents ≠ [])
    (once : ∀ node ∈ loader.executor.catalog.nodes,
      (node.identifierComponents.map (·.name)).Nodup)
    (outside : ∀ node ∈ loader.executor.catalog.nodes, ∀ component ∈ node.components,
      ¬ "__".toList <+: component.name.toList)
    (found : loader.executor.catalog.node? loader.node.name = some loader.node) {input : Json}
    (parsed : Selection.parse loader.executor.catalog loader.node input = .ok selection)
    (names : ∀ id ∈ given, loader.executor.catalog.Names loader.node id) {filter : Filter}
    (filtered : loader.filterOf given = .ok filter) {state after : σ}
    (finds : loader.executor.find selection ⟨some filter, none, 0, none⟩ state = .ok values after)
    (store : ∀ wide, loader.identified selection = .ok wide → ∃ trees,
      loader.executor.Shows selection ⟨some filter, none, 0, none⟩ trees ∧
      loader.executor.Reads wide ⟨some filter, none, 0, none⟩ trees ∧
      ∀ tree ∈ trees, loader.executor.catalog.Names loader.node tree) :
    ∃ identifier, Selection.identifier loader.executor.catalog loader.node = .ok identifier ∧
      ((∃ answers now, loader.loadMany given selection ⟨[], state⟩ = .ok answers now) ↔
        given = [] ∨ ∀ mine ∈ selection.fields, ∀ theirs ∈ identifier.fields,
          ¬ SelectionField.Clash mine theirs) ∧
      (given ≠ [] → (∃ mine ∈ selection.fields, ∃ theirs ∈ identifier.fields,
          SelectionField.Clash mine theirs) → ∃ node key,
        loader.loadMany given selection ⟨[], state⟩ =
          .error (.sql (.statement (.duplicateSelectionKey node key))) ⟨[], state⟩) := by
  have wellFormed := CatalogDefinition.build_wellFormed built
  have outward := CatalogDefinition.outward_of_build built identified once outside
  obtain ⟨here, readable⟩ := Selection.readable_of_parse outward parsed
  have valid : selection.Valid := (Selection.Made.parsed parsed).valid
  obtain ⟨identifier, known⟩ := SelectionField.exists_identifier_of_build built once found
  obtain ⟨node, valid'⟩ := Selection.identifier_valid known
  have same : selection.node.name = identifier.node.name := by rw [here, node]
  have merges_iff := Selection.merge_eq_ok_iff same valid valid'
  have asks : loader.identified selection = selection.merge identifier := by
    rw [Loader.identified, known, Outcome.ok_bind]
  have refused (some_ : given ≠ []) {error : StatementError}
      (fails : selection.merge identifier = .error error) :
      loader.loadMany given selection ⟨[], state⟩ =
        .error (.sql (.statement error)) ⟨[], state⟩ :=
    loadMany_of_unidentified wellFormed outward found names filtered (congrArg Node.name here)
      some_ (asks.trans fails)
  refine ⟨identifier, known, ⟨?_, ?_⟩, ?_⟩
  · rintro ⟨answers, now, loads⟩
    by_cases none_ : given = []
    · exact Or.inl none_
    · refine Or.inr (merges_iff.mp ?_)
      cases merges : selection.merge identifier with
      | ok wide => exact ⟨wide, rfl⟩
      | error error =>
        rw [refused none_ merges] at loads
        cases loads
  · intro allowed
    by_cases none_ : given = []
    · subst none_
      have read : ([] : List Record).mapM loader.node.identifierOf = .ok [] := rfl
      rw [loadMany_eq (congrArg Node.name here) read rfl]
      exact ⟨[], _, rfl⟩
    · obtain ⟨wide, merges⟩ := merges_iff.mpr (allowed.resolve_left none_)
      obtain ⟨trees, shows, reads, conform⟩ := store wide (asks.trans merges)
      exact exists_loadMany wellFormed outward found names filtered built here valid readable none_
        (asks.trans merges) finds shows reads conform
  · rintro some_ ⟨mine, inside, theirs, inside', clash⟩
    cases merges : selection.merge identifier with
    | ok wide =>
      exact absurd clash (merges_iff.mp ⟨wide, merges⟩ mine inside theirs inside')
    | error error =>
      obtain ⟨node, key, rfl⟩ := Selection.isConflict_of_merge same valid valid' merges
      exact ⟨node, key, refused some_ merges⟩

end Loader

namespace Samples

/-- Tasks by their owners, without their own identifier. -/
def ownerInput : Json :=
  .object [("owner", .object [("id", .boolean true), ("tasks", .object [("first", .integer 10),
    ("selection", .object [("id", .boolean true)])])])]

def ownerSelection : Selection := ⟨task, ownersSelection.fields.tail⟩

/-- What is read to load the owners: the tasks' identifier comes last. -/
def identifiedOwners : Selection := ⟨task, ownerSelection.fields ++ [taskId]⟩

def taskLoader : Loader Unit := ⟨taskExecutor, task⟩

def taskIds : List Record := [7, 8, 9, 7].map fun id => [("id", .int id)]

def taskFilter : Filter :=
  ⟨task, .junction .any ([7, 8, 9, 7].map fun id =>
    .leaf ⟨"Task", "id", "id", .int, false⟩ (.compared .eq) (.int id))⟩

theorem taskExecutor_holds {selection : Selection} {request : Request} (query : Sql.Find)
    (compiled : Sql.find boardCatalog ⟨false, 100⟩ selection request = .ok query) (state : Unit) :
    ∃ rows between, taskExecutor.connector.read (.find query) state = .ok rows between ∧
      List.Forall₂ query.Holds ownedTasks rows := by
  obtain ⟨limit, -, after, ran⟩ := Sql.find_plain_eq_ok.mp compiled
  obtain ⟨columns, condition, order, source, -, rfl⟩ := Sql.composed_of_direct ran
  refine ⟨_, state, rfl, ?_⟩
  rw [List.forall₂_map_right_iff, List.forall₂_same]
  exact fun tree _ => holds_rowOf _ tree

theorem shows_owners (request : Request) :
    taskExecutor.Shows ownerSelection request ownedTasks ∧
      taskExecutor.Reads identifiedOwners request ownedTasks := by
  refine ⟨⟨⟨fun tree inside => ?_, taskExecutor_holds⟩, ownedTasks_coherent, taskExecutor_answers⟩,
    ⟨fun tree inside => ?_, taskExecutor_holds⟩⟩
  · obtain ⟨identified, -, shaped⟩ := ownedTasks_shaped tree inside
    exact ⟨identified, shaped⟩
  · obtain ⟨identified, id, owner, -⟩ := ownedTasks_shaped tree inside
    exact ⟨identified, owner, id, trivial⟩

end Samples

open Samples

/-- The owners of three tasks, one of which is asked for twice. -/
theorem Loader.loadMany_of_find_owners :
    taskLoader.filterOf taskIds = .ok taskFilter ∧
      (∃ values after, taskExecutor.find ownerSelection ⟨some taskFilter, none, 0, none⟩ () =
        .ok values after) ∧
      ∃ answers now, taskLoader.loadMany taskIds ownerSelection ⟨[], ()⟩ = .ok answers now := by
  have names : ∀ id ∈ taskIds, boardCatalog.Names task id := by
    intro id inside
    obtain ⟨number, -, rfl⟩ := List.mem_map.mp inside
    exact names_task number
  have conform : ∀ tree ∈ ownedTasks, boardCatalog.Names task tree := by
    intro tree inside component part
    obtain rfl := List.mem_singleton.mp part
    simp only [ownedTasks, List.mem_cons, List.not_mem_nil, or_false] at inside
    rcases inside with rfl | rfl | rfl <;> exact ⟨_, rfl, rfl⟩
  have filtered : taskLoader.filterOf taskIds = .ok taskFilter := rfl
  have parsed : Selection.parse boardCatalog task ownerInput = .ok ownerSelection := rfl
  have outward := CatalogDefinition.outward_of_build build_board (by decide) (by decide) (by decide)
  obtain ⟨values, after, finds⟩ : ∃ values after, taskExecutor.find ownerSelection
      ⟨some taskFilter, none, 0, none⟩ () = .ok values after := by
    obtain ⟨after, answered⟩ : ∃ after, taskExecutor.find ownerSelection
        ⟨some taskFilter, none, 0, none⟩ () =
          (liftM (ownedTasks.mapM ownerSelection.project) : Session Unit (List Record)) after :=
      Executor.find_of_shows (CatalogDefinition.build_wellFormed build_board) outward rfl
        (Selection.readable_of_parse outward parsed).2 (shows_owners _).1 rfl ()
    exact ⟨_, after, answered⟩
  have store : ∀ wide, taskLoader.identified ownerSelection = .ok wide → ∃ trees,
      taskExecutor.Shows ownerSelection ⟨some taskFilter, none, 0, none⟩ trees ∧
      taskExecutor.Reads wide ⟨some taskFilter, none, 0, none⟩ trees ∧
      ∀ tree ∈ trees, boardCatalog.Names task tree := by
    intro wide made
    have concrete : taskLoader.identified ownerSelection = .ok identifiedOwners := rfl
    cases made.symm.trans concrete
    exact ⟨ownedTasks, (shows_owners _).1, (shows_owners _).2, conform⟩
  obtain ⟨identifier, known, serves, -⟩ := @Loader.loadMany_of_find _ taskLoader _ _ _ _ build_board
    (by decide) (by decide) (by decide) rfl _ parsed names _ filtered _ _ finds store
  have concrete : Selection.identifier boardCatalog task = .ok ⟨task, [taskId]⟩ := rfl
  cases known.symm.trans concrete
  refine ⟨filtered, ⟨values, after, finds⟩, serves.mpr (Or.inr ?_)⟩
  intro mine inside theirs inside' clash
  have keys := clash.key_eq
  obtain rfl := List.mem_singleton.mp inside
  obtain rfl := List.mem_singleton.mp inside'
  exact absurd keys (by decide)

/-- An owner cannot be loaded under the key of the tasks' identifier. -/
example : taskLoader.loadMany taskIds
    ⟨task, [.edge "id" owner [.leaf "id" ⟨"Person", "id", "id", .int, false⟩]]⟩ ⟨[], ()⟩ =
      .error (.sql (.statement (.duplicateSelectionKey "Task" "id"))) ⟨[], ()⟩ := rfl

end LiveQuery
