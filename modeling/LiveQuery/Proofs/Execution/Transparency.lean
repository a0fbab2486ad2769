import LiveQuery.Proofs.Execution.Completion
import LiveQuery.Proofs.Execution.Fetching
import LiveQuery.Proofs.Sql.Columns

set_option autoImplicit false

namespace LiveQuery

variable {σ : Type}

namespace Loader

section Setting

variable (loader : Loader σ)

/-- What a load asks the store for is refused. -/
def Refused (given : List Record) (selection : Selection) (loading : Loading σ) : Prop :=
  selection.node.name = loader.node.name ∧ ∃ wide missed merged filter error state,
    loader.request loading.cache given selection = .ok (wide, missed) ∧ missed ≠ [] ∧
    loader.asked missed wide = .ok (merged, filter) ∧
    loader.executor.find merged ⟨some filter, none, 0, none⟩ loading.store = .error error state

/-- The loadings that loads of such selections and identifiers lead to, refused ones included. -/
inductive Visited (kind : Selection → Prop) : Loading σ → Prop
  | empty (state : σ) : Visited kind ⟨[], state⟩
  | loadMany {loading : Loading σ} (visited : Visited kind loading) {selection : Selection}
      (known : kind selection) {given : List Record}
      (names : ∀ id ∈ given, loader.executor.catalog.Names loader.node id) :
      Visited kind (left (loader.loadMany given selection loading))
  | load {loading : Loading σ} (visited : Visited kind loading) {selection : Selection}
      (known : kind selection) {id : Record}
      (names : loader.executor.catalog.Names loader.node id) :
      Visited kind (left (loader.load id selection loading))

end Setting

/-- What an action answers, whatever it leaves behind. -/
def answer {ε τ α : Type} : EStateM.Result ε τ α → Except ε α
  | .ok value _ => .ok value
  | .error error _ => .error error

variable {loader : Loader σ} {kind : Selection → Prop} {contents : Contents}

section Loads

/-- What a load owes, if the store behind the loader has certain contents. -/
def owed (loader : Loader σ) (contents : Contents) (given : List Record) (selection : Selection) :
    Except StatementError (List (Option Record)) :=
  if selection.node.name = loader.node.name then do
    let ids ← given.mapM loader.node.identifierOf
    unless ids.isEmpty do
      let _ ← loader.identified selection
    return ids.map (contents.shown selection)
  else .error (.nodeMismatch loader.node.name selection.node.name)

/-- How a load can end: refused by the store, failing as it owes, or with the answers it owes. -/
inductive Settles (loader : Loader σ) (kind : Selection → Prop) (contents : Contents)
    (given : List Record) (selection : Selection) (loading : Loading σ) :
    EStateM.Result ExecutionError (Loading σ) (List (Option Record)) → Prop
  | refused (error : ExecutionError) (state : σ)
      (refused : loader.Refused given selection loading) :
      Settles loader kind contents given selection loading (.error error ⟨loading.cache, state⟩)
  | failed {error : StatementError} (allowed : ¬ loader.Refused given selection loading)
      (owes : loader.owed contents given selection = .error error) :
      Settles loader kind contents given selection loading (.error (.sql (.statement error)) loading)
  | answered {answers : List (Option Record)} {loading' : Loading σ}
      (allowed : ¬ loader.Refused given selection loading)
      (owes : loader.owed contents given selection = .ok answers)
      (sound : Sound loader kind contents loading'.cache) :
      Settles loader kind contents given selection loading (.ok answers loading')

variable {selection wide : Selection} {given ids missed : List Record} {loading : Loading σ}

theorem loadMany_eq (here : selection.node.name = loader.node.name)
    (read : given.mapM loader.node.identifierOf = .ok ids)
    (missing : misses loading.cache selection selection [] ids = (wide, missed)) :
    loader.loadMany given selection loading =
      if missed.isEmpty then liftStatement (ids.mapM (serve loading.cache selection)) loading
      else match loader.fetch missed wide loading with
        | .error error now => .error error now
        | .ok _ now => liftStatement (ids.mapM (serve now.cache selection)) now := by
  unfold loadMany
  simp only [here, ne_eq, not_true_eq_false, ↓reduceIte, liftStatement_bind, read, get_bind, missing]
  cases missed.isEmpty with
  | true => rfl
  | false =>
    simp only [Bool.false_eq_true, ↓reduceIte, bind, EStateM.bind]
    cases loader.fetch missed wide loading <;> rfl

theorem refused_iff (here : selection.node.name = loader.node.name)
    (read : given.mapM loader.node.identifierOf = .ok ids)
    (missing : misses loading.cache selection selection [] ids = (wide, missed)) :
    loader.Refused given selection loading ↔ missed ≠ [] ∧ ∃ merged filter error state,
      loader.asked missed wide = .ok (merged, filter) ∧
      loader.executor.find merged ⟨some filter, none, 0, none⟩ loading.store =
        .error error state := by
  have asks : loader.request loading.cache given selection = .ok (wide, missed) := by
    rw [request, read, Outcome.ok_bind, missing]
    rfl
  constructor
  · rintro ⟨-, wide', missed', merged, filter, error, state, asks', some_, whole, refuses⟩
    rw [asks, Except.ok.injEq, Prod.mk.injEq] at asks'
    obtain ⟨rfl, rfl⟩ := asks'
    exact ⟨some_, merged, filter, error, state, whole, refuses⟩
  · rintro ⟨some_, merged, filter, error, state, whole, refuses⟩
    exact ⟨here, wide, missed, merged, filter, error, state, asks, some_, whole, refuses⟩

section Requested

variable (here : selection.node.name = loader.node.name)
  (read : given.mapM loader.node.identifierOf = .ok ids)
  (selects : loader.Selects kind selection) (identifiers : ∀ id ∈ ids, loader.Identifier id)

include here read

theorem owed_eq : loader.owed contents given selection = do
    unless ids.isEmpty do
      let _ ← loader.identified selection
    return ids.map (contents.shown selection) := by
  rw [owed, if_pos here, read]
  rfl

theorem owed_eq_ok (identified : ids = [] ∨ ∃ merged, loader.identified selection = .ok merged) :
    loader.owed contents given selection = .ok (ids.map (contents.shown selection)) := by
  rw [owed_eq here read]
  rcases identified with rfl | ⟨merged, identified⟩
  · rfl
  · rw [identified]
    cases ids <;> rfl

theorem owed_eq_error (some_ : ids ≠ []) {error : StatementError}
    (fails : loader.identified selection = .error error) :
    loader.owed contents given selection = .error error := by
  rw [owed_eq here read, fails]
  cases ids with
  | nil => exact absurd rfl some_
  | cons => rfl

include selects identifiers

theorem owed_of_served (backed : loader.Backed kind contents) {cache : Cache}
    (sound : Sound loader kind contents cache) (served : ∀ id ∈ ids, Served cache selection id) :
    loader.owed contents given selection = .ok (ids.map (contents.shown selection)) ∧
      ids.mapM (serve cache selection) = .ok (ids.map (contents.shown selection)) := by
  constructor
  · refine owed_eq_ok here read ?_
    cases ids with
    | nil => exact Or.inl rfl
    | cons id rest =>
      obtain ⟨known, present, includes⟩ := served id (List.mem_cons_self ..)
      have tells := sound id (identifiers id (List.mem_cons_self ..)) known present
      exact Or.inr (exists_identified selects tells.selects.valid tells.identifying includes)
  · rw [Outcome.mapM_eq_ok_iff, List.forall₂_map_right_iff, List.forall₂_same]
    exact fun id inside => serve_eq backed selects sound (identifiers id inside) (served id inside)

end Requested

variable (wellFormed : loader.executor.catalog.WellFormed)
  (found : loader.executor.catalog.node? loader.node.name = some loader.node)
  (plain : loader.executor.catalog.PlainlyIdentified loader.node)
  (closed : loader.Closed kind) (backed : loader.Backed kind contents)

include wellFormed found plain closed backed

/-- A load of which something is missed. -/
theorem settles_of_missed (sound : Sound loader kind contents loading.cache)
    (selects : loader.Selects kind selection) (read : given.mapM loader.node.identifierOf = .ok ids)
    (identifiers : ∀ id ∈ ids, loader.Identifier id)
    (missing : misses loading.cache selection selection [] ids = (wide, missed))
    (misses : Misses loader kind loading.cache selection ids (wide, missed)) (some_ : missed ≠ []) :
    Settles loader kind contents given selection loading (loader.loadMany given selection loading) := by
  have refused_iff := refused_iff selects.node read missing
  obtain ⟨filters, filter, each, whole⟩ :=
    exists_filter wellFormed found misses.identifiers
  rw [loadMany_eq selects.node read missing, if_neg (by simpa using some_)]
  cases identified : loader.identified wide with
  | error error =>
    have asks : loader.asked missed wide = .error error := by
      rw [asked_eq, identified, Outcome.error_bind]
    obtain rfl := (misses.widens.eq_of_unidentified identified).symm
    have allowed : ¬ loader.Refused given selection loading := by
      rw [refused_iff, asks]
      rintro ⟨-, _, _, _, _, impossible, -⟩
      cases impossible
    have given_ : ids ≠ [] := by
      rintro rfl
      cases missing
      exact some_ rfl
    rw [fetch_eq, asks]
    exact .failed allowed (owed_eq_error selects.node read given_ identified)
  | ok merged =>
    have asks : loader.asked missed wide = .ok (merged, filter) := by
      rw [asked_eq, identified, Outcome.ok_bind, each, Outcome.ok_bind, whole]
      rfl
    obtain ⟨selects', identifying, includes⟩ :=
      identified_spec closed misses.widens.selects identified
    cases finds : loader.executor.find merged ⟨some filter, none, 0, none⟩ loading.store with
    | error error state =>
      rw [fetch_eq, asks]
      simp only [finds]
      exact .refused error state
        (refused_iff.mpr ⟨some_, merged, filter, error, state, asks, finds⟩)
    | ok values state =>
      have allowed : ¬ loader.Refused given selection loading := by
        rw [refused_iff, asks]
        rintro ⟨-, merged', filter', _, _, same, refuses⟩
        cases same
        rw [finds] at refuses
        cases refuses
      obtain ⟨loading', fetched, sound', serves⟩ := fetch_answered backed
        (fun identifier identifier' =>
          identifier.eq_of_text_eq wellFormed found plain identifier')
        selects' identifying (Selection.includes_trans includes misses.widens.includes)
        misses.identifiers misses.apart some_ asks sound finds
      obtain ⟨owes, served⟩ := owed_of_served selects.node read selects identifiers backed sound'
        fun id inside => serves id (misses.rest id inside).symm
      rw [fetched]
      simp only [served]
      exact .answered allowed owes sound'

/-- Every load ends in one of these ways. -/
theorem settles_loadMany (sound : Sound loader kind contents loading.cache) (known : kind selection)
    (names : ∀ id ∈ given, loader.executor.catalog.Names loader.node id) :
    Settles loader kind contents given selection loading (loader.loadMany given selection loading) := by
  by_cases here : selection.node.name = loader.node.name
  · cases read : given.mapM loader.node.identifierOf with
    | error error =>
      have allowed : ¬ loader.Refused given selection loading := by
        rintro ⟨-, _, _, _, _, _, _, asks, -⟩
        rw [request, read] at asks
        cases asks
      have fails : loader.loadMany given selection loading =
          .error (.sql (.statement error)) loading := by
        unfold loadMany
        simp only [here, ne_eq, not_true_eq_false, ↓reduceIte, liftStatement_bind, read]
      rw [fails]
      exact .failed allowed (by rw [owed, if_pos here, read, Outcome.error_bind])
    | ok ids =>
      have selects : loader.Selects kind selection := ⟨here, closed.valid known, known⟩
      have identifiers : ∀ id ∈ ids, loader.Identifier id := by
        intro id inside
        obtain ⟨record, member, named⟩ := Outcome.exists_of_mem_mapM read inside
        exact ⟨record, names record member, named⟩
      obtain ⟨wide, missed, missing⟩ : ∃ wide missed,
          misses loading.cache selection selection [] ids = (wide, missed) := ⟨_, _, rfl⟩
      have start : Misses loader kind loading.cache selection [] (selection, []) :=
        ⟨.refl selects, List.nodup_nil, by simp, by simp⟩
      have misses : Misses loader kind loading.cache selection ids (wide, missed) := by
        rw [← missing]
        exact misses_spec (fun identifier identifier' =>
          identifier.same_iff wellFormed found plain identifier') closed sound identifiers start
      by_cases none_ : missed = []
      · subst none_
        have served : ∀ id ∈ ids, Served loading.cache selection id := fun id inside =>
          (misses.rest id inside).resolve_left List.not_mem_nil
        have allowed : ¬ loader.Refused given selection loading := by
          rw [refused_iff here read missing]
          exact fun refused => refused.1 rfl
        obtain ⟨owes, served⟩ :=
          owed_of_served here read selects identifiers backed sound served
        rw [loadMany_eq here read missing]
        simp only [List.isEmpty_nil, ↓reduceIte, served]
        exact .answered allowed owes sound
      · exact settles_of_missed wellFormed found plain closed backed sound selects read identifiers
          missing misses none_
  · have allowed : ¬ loader.Refused given selection loading := fun refused => here refused.1
    have fails : loader.loadMany given selection loading =
        .error (.sql (.statement (.nodeMismatch loader.node.name selection.node.name)))
          loading := by
      unfold loadMany
      simp only [here, ne_eq, not_false_eq_true, ↓reduceIte, liftStatement_bind]
    rw [fails]
    exact .failed allowed (if_neg here)

end Loads

section Answers

variable {selection : Selection} {given : List Record} {loading fresh : Loading σ}
  {result other : EStateM.Result ExecutionError (Loading σ) (List (Option Record))}

namespace Settles

theorem sound_left (settles : Settles loader kind contents given selection loading result)
    (sound : Sound loader kind contents loading.cache) :
    Sound loader kind contents (left result).cache := by
  cases settles with
  | refused | failed => exact sound
  | answered _ _ sound' => exact sound'

theorem cache_left (settles : Settles loader kind contents given selection loading result)
    {error : ExecutionError} (fails : answer result = .error error) :
    (left result).cache = loading.cache := by
  cases settles with
  | refused | failed => rfl
  | answered => cases fails

theorem exists_error (settles : Settles loader kind contents given selection loading result)
    (refused : loader.Refused given selection loading) :
    ∃ error, answer result = .error error := by
  cases settles with
  | refused error => exact ⟨error, rfl⟩
  | failed allowed | answered allowed => exact absurd refused allowed

theorem answer_eq (settles : Settles loader kind contents given selection loading result)
    (allowed : ¬ loader.Refused given selection loading) :
    answer result = (loader.owed contents given selection).mapError (.sql ∘ .statement) := by
  cases settles with
  | refused _ _ refused => exact absurd refused allowed
  | failed _ owes | answered _ owes => rw [owes]; rfl

end Settles

theorem exists_ids_of_owed {answers : List (Option Record)}
    (owes : loader.owed contents given selection = .ok answers) :
    ∃ ids, given.mapM loader.node.identifierOf = .ok ids ∧
      answers = ids.map (contents.shown selection) := by
  by_cases here : selection.node.name = loader.node.name
  · rw [owed, if_pos here] at owes
    obtain ⟨ids, read, owes⟩ := Outcome.bind_eq_ok.mp owes
    refine ⟨ids, read, ?_⟩
    cases ids with
    | nil => exact (Except.ok.inj owes).symm
    | cons id rest =>
      obtain ⟨-, -, owes⟩ := Outcome.bind_eq_ok.mp owes
      exact (Except.ok.inj owes).symm
  · rw [owed, if_neg here] at owes
    cases owes

theorem left_load (id : Record) :
    left (loader.load id selection loading) = left (loader.loadMany [id] selection loading) := by
  simp only [load, bind, EStateM.bind]
  cases loader.loadMany [id] selection loading <;> rfl

theorem answer_load (id : Record) :
    answer (loader.load id selection loading) =
      (answer (loader.loadMany [id] selection loading)).map (·.getLast?.join) := by
  simp only [load, bind, EStateM.bind]
  cases loader.loadMany [id] selection loading <;> rfl

/-- What loads leave in the cache is sound. -/
theorem Visited.sound (visited : loader.Visited kind loading)
    (wellFormed : loader.executor.catalog.WellFormed)
    (found : loader.executor.catalog.node? loader.node.name = some loader.node)
    (plain : loader.executor.catalog.PlainlyIdentified loader.node)
    (closed : loader.Closed kind) (backed : loader.Backed kind contents) :
    Sound loader kind contents loading.cache := by
  induction visited with
  | empty => exact fun _ _ _ present => nomatch present
  | loadMany _ known names ih =>
    exact (settles_loadMany wellFormed found plain closed backed ih known names).sound_left ih
  | load _ known names ih =>
    rw [left_load]
    have names' : ∀ other ∈ [_], loader.executor.catalog.Names loader.node other :=
      fun other single => List.mem_singleton.mp single ▸ names
    exact (settles_loadMany wellFormed found plain closed backed ih known names').sound_left ih

/-- An action on a loader answers as it would with an empty cache, unless the store refuses what it
is asked. Where the action fails, the cache stays as it is. -/
structure Transparent {α : Type} (action : LoadingSession σ α) (refused : Loading σ → Prop)
    (loading : Loading σ) : Prop where
  same : ∀ state, ¬ refused loading → ¬ refused ⟨[], state⟩ →
    answer (action loading) = answer (action ⟨[], state⟩)
  failed : refused loading → ∃ error, answer (action loading) = .error error
  unchanged : ∀ error, answer (action loading) = .error error →
    (left (action loading)).cache = loading.cache

/-- Whatever was loaded before, loads answer as with an empty cache: for each identifier, in their
order, what the store has of the instance. The selections are of any kind that merging does not lead
out of, such as all that can be made (`closed_made`). -/
theorem transparent_of_visited (visited : loader.Visited kind loading)
    (wellFormed : loader.executor.catalog.WellFormed)
    (found : loader.executor.catalog.node? loader.node.name = some loader.node)
    (plain : loader.executor.catalog.PlainlyIdentified loader.node)
    (closed : loader.Closed kind) (backed : loader.Backed kind contents) (known : kind selection) :
    (∀ given, (∀ id ∈ given, loader.executor.catalog.Names loader.node id) →
      Transparent (loader.loadMany given selection) (loader.Refused given selection) loading ∧
      ∀ answers, answer (loader.loadMany given selection loading) = .ok answers →
        ∃ ids, given.mapM loader.node.identifierOf = .ok ids ∧
          answers = ids.map (contents.shown selection)) ∧
    ∀ id, loader.executor.catalog.Names loader.node id →
      Transparent (loader.load id selection) (loader.Refused [id] selection) loading := by
  have sound := visited.sound wellFormed found plain closed backed
  have start (state : σ) : Sound loader kind contents (Loading.mk [] state).cache :=
    fun _ _ _ present => nomatch present
  have many (given : List Record)
      (names : ∀ id ∈ given, loader.executor.catalog.Names loader.node id) :
      Transparent (loader.loadMany given selection) (loader.Refused given selection) loading := by
    have settles := settles_loadMany wellFormed found plain closed backed sound known names
    refine ⟨fun state allowed allowed' => ?_, settles.exists_error, fun _ => settles.cache_left⟩
    have settles' := settles_loadMany wellFormed found plain closed backed (start state) known names
    rw [settles.answer_eq allowed, settles'.answer_eq allowed']
  refine ⟨fun given names => ⟨many given names, fun answers answered => ?_⟩, fun id named => ?_⟩
  · have settles := settles_loadMany wellFormed found plain closed backed sound known names
    have allowed : ¬ loader.Refused given selection loading := by
      intro refused
      obtain ⟨error, fails⟩ := settles.exists_error refused
      rw [answered] at fails
      cases fails
    rw [settles.answer_eq allowed] at answered
    cases owes : loader.owed contents given selection with
    | error error => rw [owes] at answered; cases answered
    | ok listed =>
      rw [owes] at answered
      cases answered
      exact exists_ids_of_owed owes
  · have names : ∀ other ∈ [id], loader.executor.catalog.Names loader.node other :=
      fun other single => List.mem_singleton.mp single ▸ named
    have one := many [id] names
    refine ⟨fun state allowed allowed' => ?_, fun refused => ?_, fun error fails => ?_⟩
    · rw [answer_load, answer_load, one.same state allowed allowed']
    · obtain ⟨error, fails⟩ := one.failed refused
      exact ⟨error, by rw [answer_load, fails]; rfl⟩
    · rw [answer_load] at fails
      cases answered : answer (loader.loadMany [id] selection loading) with
      | ok answers => rw [answered] at fails; cases fails
      | error error => rw [left_load, one.unchanged error answered]

end Answers

end Loader

namespace Samples

/-- Flags are identified by whether they are on. -/
def flags : CatalogDefinition := [⟨"Flag", "flags", [field "on" .boolean], [unique ["on"]], []⟩]

def on : Leaf := ⟨"Flag", "on", "on", .boolean, false⟩

def flag : Node := ⟨"Flag", "flags", [.leaf on], [], [⟨"on", ["on"]⟩], ⟨"on", ["on"]⟩⟩

def flagCatalog : Catalog := ⟨[flag]⟩

theorem build_flags : flags.build = .ok flagCatalog := rfl

def flagged (value : Bool) : Record := [("on", .boolean value)]

/-- Whether a condition, or one of its alternatives, asks for the flag that is on. -/
def asksOn : Sql.Condition → Bool
  | .compared _ _ (.boolean value) => value
  | .junction _ operands => operands.any fun
    | .compared _ _ (.boolean value) => value
    | _ => false
  | _ => false

/-- A store that has the flag which is on, and not the other one. -/
def flagConnector : Connector Unit where
  read
    | .find (.direct columns listing) =>
      pure (if (listing.condition.map asksOn).getD false then
        [columns.map fun column => (column.label.text, .boolean true)] else [])
    | _ => pure []
  write _ := pure 0

def flagLoader : Loader Unit := ⟨⟨flagCatalog, ⟨false, 100⟩, flagConnector⟩, flag⟩

/-- What is selected of the flag that is on. -/
def shining (fields : List SelectionField) : Record :=
  fields.map fun field => (field.key, .boolean true)

def flagContents : Contents where
  present id := (id.get? "on").any fun
    | .boolean value => value
    | _ => false
  value selection _ := shining selection.fields

/-- Nothing is selected of a flag but whether it is on, under any key. -/
def SelectsOn (fields : List SelectionField) : Prop := ∀ field ∈ fields, ∃ key, field = .leaf key on

/-- The filter for one of the flags. -/
def flagFilter (value : Bool) : Predicate := .leaf on (.compared .eq) (.boolean value)

/-- Selections that can be made of the leaf of flags, under any keys. -/
def FlagSelection (selection : Selection) : Prop :=
  selection.Made flagCatalog ∧ selection.fits flagCatalog = true

theorem closed_flags : flagLoader.Closed FlagSelection where
  valid known := flagLoader.closed_made.valid known.1
  identifier identified :=
    ⟨flagLoader.closed_made.identifier identified, (Selection.identifier_fits
      (CatalogDefinition.build_wellFormed build_flags) rfl identified).2⟩
  merged mine theirs merges :=
    ⟨flagLoader.closed_made.merged mine.1 theirs.1 merges,
      (Selection.merge_fits mine.2 theirs.2 merges).2⟩

theorem flagSelection_of_make {fields : List SelectionField} {selection : Selection}
    (leaves : SelectsOn fields) (made : Selection.make flag fields = .ok selection)
    (fits : selection.fits flagCatalog = true) : FlagSelection selection := by
  refine ⟨.fields (fun field inside => ?_) made, fits⟩
  obtain ⟨key, rfl⟩ := leaves field inside
  exact .leaf key on

theorem selectsOn_of_selects {selection : Selection}
    (selects : flagLoader.Selects FlagSelection selection) : SelectsOn selection.fields := by
  obtain ⟨found, fits⟩ := Selection.fits_iff.mp selects.known.2
  have inside : selection.node ∈ [flag] := List.mem_of_find?_eq_some found
  intro field part
  have fits' := SelectionField.fitsAll_iff.mp fits field part
  have looked : flagCatalog.node? selection.node.name = some flag :=
    found.trans (congrArg some (List.mem_singleton.mp inside))
  cases field with
  | leaf key leaf =>
    rw [SelectionField.fits, decide_eq_true_eq, looked, Option.bind_some] at fits'
    have known : Component.leaf leaf ∈ [Component.leaf on] := Node.mem_of_component? fits'
    cases List.mem_singleton.mp known
    exact ⟨key, rfl⟩
  | edge key link head =>
    rw [SelectionField.fits, Bool.and_eq_true, decide_eq_true_eq, looked, Option.bind_some] at fits'
    have known : Component.edge link ∈ [Component.leaf on] := Node.mem_of_component? fits'.1
    cases List.mem_singleton.mp known
  | unique | multiple | count =>
    rw [SelectionField.fits, looked] at fits'
    simp [flag, Node.reverseEdge?] at fits'

/-- Where no entry can be read as off, nothing but on can be selected. -/
theorem eq_shining_of_projectFields {node : String} {record values : Record}
    {fields : List SelectionField} (leaves : SelectsOn fields)
    (entries : ∀ key raw value, record.get? key = some raw → on.coerce raw = .ok value →
      value = .boolean true)
    (projected : SelectionField.projectFields node record fields = .ok values) :
    values = shining fields := by
  induction fields generalizing values with
  | nil =>
    cases projected
    rfl
  | cons field rest ih =>
    obtain ⟨⟨key, rfl⟩, others⟩ := List.forall_mem_cons.mp leaves
    rw [SelectionField.projectFields] at projected
    obtain ⟨raw, stored, projected⟩ := Outcome.bind_eq_ok.mp projected
    obtain ⟨value, coerced, projected⟩ := Outcome.bind_eq_ok.mp projected
    obtain ⟨behind, more, same⟩ := Outcome.bind_eq_ok.mp projected
    cases same
    have known : record.get? key = some raw := by
      rw [SelectionField.key, Record.require] at stored
      cases found : record.get? key with
      | none => rw [found] at stored; cases stored
      | some other => rw [found] at stored; cases stored; rfl
    rw [ih others more, entries key raw value known coerced]
    rfl

theorem projectFields_eq_shining {node : String} {record : Record} {fields : List SelectionField}
    (leaves : SelectsOn fields)
    (entries : ∀ field ∈ fields, record.get? field.key = some (.boolean true)) :
    SelectionField.projectFields node record fields = .ok (shining fields) := by
  induction fields with
  | nil => rfl
  | cons field rest ih =>
    rw [List.forall_mem_cons] at entries
    obtain ⟨⟨key, rfl⟩, others⟩ := List.forall_mem_cons.mp leaves
    rw [SelectionField.projectFields, Record.require, entries.1, ih others entries.2]
    rfl

theorem get?_shining {fields others : List SelectionField}
    (includes : SelectionField.includesAll fields others = true) {field : SelectionField}
    (inside : field ∈ others) : (shining fields).get? field.key = some (.boolean true) := by
  obtain ⟨wide, member, covers⟩ := SelectionField.includesAll_iff.mp includes field inside
  rw [← (SelectionField.spec_of_akin (SelectionField.akin_of_includes covers)).1]
  clear covers includes
  induction fields with
  | nil => cases member
  | cons first rest ih =>
    rw [shining, List.map_cons, Entries.get?]
    split
    · rfl
    · rename_i apart
      refine ih ((List.mem_cons.mp member).resolve_left ?_)
      rintro rfl
      exact apart rfl

theorem eq_flagged {id : Record} (identifier : flagLoader.Identifier id) :
    ∃ value, id = flagged value := by
  obtain ⟨record, names, read⟩ := identifier
  obtain ⟨value, stored, canonical⟩ := names (.leaf on) (List.mem_singleton_self _)
  have kept : LeafType.boolean.coerce? value = some value := canonical
  obtain ⟨content, rfl⟩ := LeafType.shape_of_coerce? kept
  have read' : flag.identifierOf record = .ok (flagged content) := by
    have stored : record.get? "on" = some (.boolean content) := stored
    show flag.identify record [] [.leaf on] = _
    rw [Node.identify, show Component.name (.leaf on) = "on" from rfl, stored]
    rfl
  exact ⟨content, Except.ok.inj (read.symm.trans read')⟩

/-- What a record can hold while columns are placed in it that are all true. -/
def Lit (record : Record) : Prop :=
  ∀ key raw, record.get? key = some raw → raw = .boolean true ∨ ∃ child, raw = .record child

theorem lit_insertAt {record : Record} (lit : Lit record) (path : List String) :
    Lit (record.insertAt (.boolean true) path) := by
  have insert {key : String} {value : Value}
      (new : value = .boolean true ∨ ∃ child, value = .record child) :
      Lit (record.insert key value) := by
    intro other raw found
    by_cases same : other = key
    · rw [same, Entries.get?_insert_self] at found
      exact Option.some.inj found ▸ new
    · rw [Entries.get?_insert_of_ne _ _ _ _ same] at found
      exact lit other raw found
  match path with
  | [] => exact lit
  | [key] => exact insert (Or.inl rfl)
  | key :: next :: rest => exact insert (Or.inr ⟨_, rfl⟩)

theorem lit_foldl {row record : Record} (every : ∀ column ∈ row, column.2 = .boolean true)
    (lit : Lit record) : Lit (row.foldl (fun record column =>
      Record.insertAt record column.2 (Text.splitAtPoints column.1)) record) := by
  induction row generalizing record with
  | nil => exact lit
  | cons column rest ih =>
    rw [List.forall_mem_cons] at every
    rw [List.foldl_cons, every.1]
    exact ih every.2 (lit_insertAt lit _)

theorem coerce_assemble {row : Record} (every : ∀ column ∈ row, column.2 = .boolean true)
    {key : String} {raw value : Value} (found : (Row.assemble row).get? key = some raw)
    (coerced : on.coerce raw = .ok value) : value = .boolean true := by
  have lit : Lit (row.foldl (fun record column =>
      Record.insertAt record column.2 (Text.splitAtPoints column.1)) []) :=
    lit_foldl every fun _ _ absent => nomatch absent
  have still : raw = .boolean true ∨ raw = .null ∨ ∃ child, raw = .record child := by
    rw [Row.assemble, Row.get?_collapse] at found
    split at found
    · exact (lit key raw found).imp_right Or.inr
    · obtain ⟨stored, placed, collapsed⟩ := Option.map_eq_some_iff.mp found
      rcases lit key stored placed with rfl | ⟨child, rfl⟩
      · exact Or.inl collapsed.symm
      · rw [Row.collapseValue] at collapsed
        split at collapsed
        · exact Or.inr (Or.inl collapsed.symm)
        · exact Or.inr (Or.inr ⟨_, collapsed.symm⟩)
  rcases still with rfl | rfl | ⟨child, rfl⟩ <;> cases coerced
  rfl

theorem condition_of_flagFilter {value : Bool} {table after : Sql.Table} {condition : Sql.Condition}
    (compiled : Sql.Condition.ofPredicate flagCatalog (flagFilter value) table =
      .ok condition after) :
    ∃ column, condition = .compared column (.compared .eq) (.boolean value) := by
  rw [flagFilter, Sql.Condition.ofPredicate] at compiled
  obtain ⟨_, _, got, compiled⟩ := Sql.Building.bind_eq_ok.mp compiled
  obtain ⟨compiled, -⟩ := Sql.Building.lift_eq_ok.mp compiled
  obtain ⟨column, -, made⟩ := Outcome.bind_eq_ok.mp compiled
  cases made
  exact ⟨column, rfl⟩

theorem asksOn_of_flagFilters {value value' : Bool} {table after : Sql.Table}
    {condition : Sql.Condition}
    (compiled : Sql.Condition.ofPredicate flagCatalog
      (.junction .any [flagFilter value, flagFilter value']) table = .ok condition after) :
    asksOn condition = (value || value') := by
  rw [Sql.Condition.ofPredicate] at compiled
  obtain ⟨conditions, _, operands, made⟩ := Sql.Building.bind_eq_ok.mp compiled
  cases made
  rw [Sql.Condition.ofPredicates] at operands
  obtain ⟨first, _, one, operands⟩ := Sql.Building.bind_eq_ok.mp operands
  obtain ⟨others, _, operands, made⟩ := Sql.Building.bind_eq_ok.mp operands
  cases made
  rw [Sql.Condition.ofPredicates] at operands
  obtain ⟨second, _, two, operands⟩ := Sql.Building.bind_eq_ok.mp operands
  obtain ⟨none_, _, operands, made⟩ := Sql.Building.bind_eq_ok.mp operands
  cases made
  cases operands
  obtain ⟨column, rfl⟩ := condition_of_flagFilter one
  obtain ⟨column', rfl⟩ := condition_of_flagFilter two
  simp [asksOn]

/-- The identifiers of flags that differ are that of one, or those of both. -/
theorem flagged_cases {ids : List Record} (each : ∀ id ∈ ids, ∃ value, id = flagged value)
    (apart : ids.Nodup) (some_ : ids ≠ []) :
    (∃ value, ids = [flagged value]) ∨ ∃ value, ids = [flagged value, flagged (!value)] := by
  match ids, each, apart, some_ with
  | [first], each, _, _ =>
    obtain ⟨value, rfl⟩ := each first (List.mem_singleton_self _)
    exact Or.inl ⟨value, rfl⟩
  | first :: second :: rest, each, apart, _ =>
    simp only [List.forall_mem_cons] at each
    obtain ⟨⟨value, rfl⟩, ⟨value', rfl⟩, others⟩ := each
    simp only [List.nodup_cons, List.mem_cons, not_or] at apart
    obtain ⟨⟨differs, absent⟩, absent', -⟩ := apart
    have opposite : value' = !value := by
      rw [Bool.eq_not]
      rintro rfl
      exact differs rfl
    subst opposite
    cases rest with
    | nil => exact Or.inr ⟨value, rfl⟩
    | cons third more =>
      obtain ⟨value', rfl⟩ := others third (List.mem_cons_self ..)
      cases value <;> cases value' <;> simp at absent absent'

theorem predicate_of_one {value : Bool} {filters : List Filter} {filter : Filter}
    (listed : [flagged value].mapM (Filter.identifier flagCatalog flag) = .ok filters)
    (joined : Filter.junction flag .any filters = .ok filter) :
    filter.reduced.predicate = flagFilter value := by
  cases value <;> (cases listed; cases joined; rfl)

theorem predicate_of_both {value : Bool} {filters : List Filter} {filter : Filter}
    (listed : [flagged value, flagged (!value)].mapM (Filter.identifier flagCatalog flag) =
      .ok filters)
    (joined : Filter.junction flag .any filters = .ok filter) :
    filter.reduced.predicate = .junction .any [flagFilter value, flagFilter (!value)] := by
  cases value <;> (cases listed; cases joined; rfl)

theorem compiled_of_conditionOf {filter : Filter} {table after : Sql.Table}
    {condition : Option Sql.Condition} (proper : filter.reduced.isTrue = false)
    (made : Sql.conditionOf flagCatalog (some filter) table = .ok condition after) :
    ∃ part, condition = some part ∧
      Sql.Condition.ofPredicate flagCatalog filter.reduced.predicate table = .ok part after := by
  rw [Sql.conditionOf, proper] at made
  obtain ⟨part, made, same⟩ := Sql.Building.map_eq_ok.mp made
  refine ⟨part, same, ?_⟩
  rw [Sql.Condition.ofNodeFilter] at made
  obtain ⟨_, _, got, made⟩ := Sql.Building.bind_eq_ok.mp made
  cases got
  split at made
  · obtain ⟨_, _, impossible, -⟩ := Sql.Building.bind_eq_ok.mp made
    cases impossible
  · exact made

theorem condition_of_find {selection : Selection} {filter : Filter} {query : Sql.Find}
    (compiled : Sql.find flagCatalog ⟨false, 100⟩ selection ⟨some filter, none, 0, none⟩ =
      .ok query) :
    ∃ columns listing table after, query = .direct columns listing ∧
      Sql.conditionOf flagCatalog (some filter) table = .ok listing.condition after := by
  obtain ⟨_, -, checked⟩ := Outcome.bind_eq_ok.mp compiled
  obtain ⟨_, -, limited⟩ := Outcome.bind_eq_ok.mp checked
  obtain ⟨limit, -, built⟩ := Outcome.bind_eq_ok.mp limited
  obtain ⟨_, ran⟩ := Sql.Building.on_eq_ok built
  obtain ⟨columns, table, -, filtering⟩ := Sql.Building.bind_eq_ok.mp ran
  obtain ⟨condition, after, filtered, ordering⟩ := Sql.Building.bind_eq_ok.mp filtering
  obtain ⟨_, _, -, sourcing⟩ := Sql.Building.bind_eq_ok.mp ordering
  obtain ⟨_, _, -, finishing⟩ := Sql.Building.bind_eq_ok.mp sourcing
  obtain ⟨_, _, -, finished⟩ := Sql.Building.bind_eq_ok.mp finishing
  cases finished
  exact ⟨_, _, table, after, rfl, filtered⟩

/-- The statement for some flags asks for the one that is on exactly if that is one of them. -/
theorem asksOn_of_find {selection : Selection} {ids : List Record} {filters : List Filter}
    {filter : Filter} (each : ∀ id ∈ ids, ∃ value, id = flagged value) (apart : ids.Nodup)
    (some_ : ids ≠ []) (listed : ids.mapM (Filter.identifier flagCatalog flag) = .ok filters)
    (joined : Filter.junction flag .any filters = .ok filter) {query : Sql.Find}
    (compiled : Sql.find flagCatalog ⟨false, 100⟩ selection ⟨some filter, none, 0, none⟩ =
      .ok query) :
    ∃ columns listing, query = .direct columns listing ∧
      (listing.condition.map asksOn).getD false = ids.any flagContents.present := by
  obtain ⟨columns, listing, table, after, rfl, made⟩ := condition_of_find compiled
  refine ⟨columns, listing, rfl, ?_⟩
  rcases flagged_cases each apart some_ with ⟨value, rfl⟩ | ⟨value, rfl⟩
  · have predicate := predicate_of_one listed joined
    have proper : filter.reduced.isTrue = false := by rw [Filter.isTrue, predicate]; rfl
    obtain ⟨part, same, made⟩ := compiled_of_conditionOf proper made
    rw [predicate] at made
    obtain ⟨column, rfl⟩ := condition_of_flagFilter made
    rw [same]
    cases value <;> rfl
  · have predicate := predicate_of_both listed joined
    have proper : filter.reduced.isTrue = false := by rw [Filter.isTrue, predicate]; rfl
    obtain ⟨part, same, made⟩ := compiled_of_conditionOf proper made
    rw [predicate] at made
    rw [same, Option.map_some, Option.getD_some, asksOn_of_flagFilters made]
    cases value <;> rfl

theorem filter_present {ids : List Record} (each : ∀ id ∈ ids, ∃ value, id = flagged value)
    (apart : ids.Nodup) (some_ : ids ≠ []) :
    ids.filter flagContents.present =
      if ids.any flagContents.present then [flagged true] else [] := by
  rcases flagged_cases each apart some_ with ⟨value, rfl⟩ | ⟨value, rfl⟩ <;> cases value <;> rfl

theorem followups_of_selectsOn {fields : List SelectionField} (leaves : SelectsOn fields) :
    Followup.ofFields [] fields = [] := by
  induction fields with
  | nil => rfl
  | cons field rest ih =>
    obtain ⟨⟨key, rfl⟩, others⟩ := List.forall_mem_cons.mp leaves
    rw [Followup.ofFields, ih others]
    rfl

/-- What a find of flags answers is what the contents say, whatever keys the selection has. -/
theorem answered_flags {selection : Selection}
    (selects : flagLoader.Selects FlagSelection selection)
    {ids : List Record} {filters : List Filter} {filter : Filter} {values : List Record}
    (each : ∀ id ∈ ids, ∃ value, id = flagged value) (apart : ids.Nodup) (some_ : ids ≠ [])
    (listed : ids.mapM (Filter.identifier flagCatalog flag) = .ok filters)
    (joined : Filter.junction flag .any filters = .ok filter)
    (found : flagLoader.executor.find selection ⟨some filter, none, 0, none⟩ () = .ok values ()) :
    values = (ids.filter flagContents.present).map (flagContents.value selection) := by
  have leaves := selectsOn_of_selects selects
  rw [Executor.find] at found
  cases compiled : Sql.find flagLoader.executor.catalog flagLoader.executor.settings selection
      ⟨some filter, none, 0, none⟩ with
  | error error =>
    rw [compiled] at found
    cases found
  | ok query =>
    obtain ⟨columns, listing, rfl, asks⟩ := asksOn_of_find each apart some_ listed joined compiled
    let row : Record := columns.map fun column => (column.label.text, .boolean true)
    have read : flagConnector.read (.find (.direct columns listing)) () =
        .ok (if ids.any flagContents.present then [row] else []) () := by
      rw [← asks]
      rfl
    have none_ : selection.followups = [] := followups_of_selectsOn leaves
    have completed (readAll : List (List Record) → Session Unit (List (List Record)))
        (records : List Record) : Executor.complete flagLoader.executor [] readAll records () =
          .ok records () := rfl
    rw [compiled] at found
    have found := (Session.bind_of_ok _ rfl).symm.trans found
    rw [Session.bind_of_ok _ (Executor.fetch_of_read read), none_] at found
    have found := (Session.bind_of_ok _ (completed _ _)).symm.trans found
    rw [filter_present each apart some_]
    cases asked : ids.any flagContents.present with
    | false =>
      rw [asked] at found
      cases found
      rfl
    | true =>
      rw [asked, if_pos rfl, List.map_singleton, List.mapM_cons] at found
      cases projected : selection.project (Row.assemble row) with
      | error error =>
        rw [projected] at found
        cases found
      | ok value =>
        rw [projected] at found
        cases found
        have every : ∀ column ∈ row, column.2 = .boolean true := by
          intro column inside
          obtain ⟨selected, -, rfl⟩ := List.mem_map.mp inside
          rfl
        have same : value = shining selection.fields := eq_shining_of_projectFields leaves
          (fun key raw value stored coerced => coerce_assemble every stored coerced) projected
        rw [same]
        rfl

theorem backed_flags : flagLoader.Backed FlagSelection flagContents where
  narrowed selects selects' includes _ _ := by
    exact projectFields_eq_shining (selectsOn_of_selects selects') fun field inside =>
      get?_shining (Selection.includes_iff.mp includes).2 inside
  identified {selection id} selects identifying identifier present := by
    obtain ⟨value, rfl⟩ := eq_flagged identifier
    obtain rfl : value = true := present
    obtain ⟨identity, made, includes⟩ := identifying
    cases made
    have stored : (flagContents.value selection (flagged true)).get? "on" = some (.boolean true) :=
      get?_shining (Selection.includes_iff.mp includes).2
        (show SelectionField.leaf "on" on ∈ [SelectionField.leaf "on" on] from
          List.mem_singleton_self _)
    show flag.identify _ [] [.leaf on] = _
    rw [Node.identify, show Component.name (.leaf on) = "on" from rfl, stored]
    rfl
  answered selects identifying each apart some_ listed joined found :=
    .of_eq (answered_flags selects (fun id inside => eq_flagged (each id inside)) apart some_ listed
      joined found)

/-- The flag under a key of its own. -/
def litSelection : Selection := ⟨flag, [.leaf "lit" on]⟩

/-- Neither this selection nor the one before includes the other. -/
def switchSelection : Selection := ⟨flag, [.leaf "on" on, .leaf "switch" on]⟩

theorem names_flagged (value : Bool) : flagCatalog.Names flag (flagged value) := by
  intro component inside
  obtain rfl := List.mem_singleton.mp inside
  exact ⟨.boolean value, rfl, by cases value <;> rfl⟩

/-- The loading after both flags were asked for. -/
def afterLit : Loading Unit :=
  Loader.left (flagLoader.loadMany [flagged true, flagged false] litSelection ⟨[], ()⟩)

theorem visited_afterLit : flagLoader.Visited FlagSelection afterLit := by
  have leaves : SelectsOn litSelection.fields := by simp [SelectsOn, litSelection]
  have known : FlagSelection litSelection := flagSelection_of_make leaves rfl rfl
  refine .loadMany (.empty ()) known fun id inside => ?_
  simp only [List.mem_cons, List.not_mem_nil, or_false] at inside
  rcases inside with rfl | rfl <;> exact names_flagged _

end Samples

open Samples

theorem Loader.transparent_of_visited_flags :
    Transparent (flagLoader.loadMany [flagged false, flagged true] switchSelection)
      (flagLoader.Refused [flagged false, flagged true] switchSelection) afterLit ∧
    ∀ answers, answer (flagLoader.loadMany [flagged false, flagged true] switchSelection afterLit) =
      .ok answers → answers = [none, some [("on", .boolean true), ("switch", .boolean true)]] := by
  have wellFormed := CatalogDefinition.build_wellFormed build_flags
  have plain : flagCatalog.PlainlyIdentified flag := by
    intro component inside
    obtain rfl := List.mem_singleton.mp inside
    rfl
  have leaves : SelectsOn switchSelection.fields := by simp [SelectsOn, switchSelection]
  have known : FlagSelection switchSelection := flagSelection_of_make leaves rfl rfl
  have given : ∀ id ∈ [flagged false, flagged true], flagCatalog.Names flag id := by
    simp only [List.forall_mem_cons]
    exact ⟨names_flagged false, names_flagged true, by simp⟩
  obtain ⟨transparent, answers_eq⟩ := (Loader.transparent_of_visited visited_afterLit wellFormed rfl
    plain closed_flags backed_flags known).1 _ given
  refine ⟨transparent, fun answers answered => ?_⟩
  obtain ⟨ids, read, rfl⟩ := answers_eq answers answered
  cases read
  rfl

end LiveQuery
