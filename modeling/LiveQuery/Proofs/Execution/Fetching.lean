import LiveQuery.Proofs.Execution.Cache
import LiveQuery.Proofs.Filter.Identifier
import LiveQuery.Proofs.Selection.Made
import LiveQuery.Proofs.Statement.InstanceKey

set_option autoImplicit false

namespace LiveQuery

/-- The instances of a node that there are, and what each selection yields of them. -/
structure Contents where
  present : Record → Bool
  value : Selection → Record → Record

/-- What a load owes for an instance. -/
def Contents.shown (contents : Contents) (selection : Selection) (id : Record) : Option Record :=
  if contents.present id then some (contents.value selection id) else none

variable {σ : Type}

namespace Loader

section Setting

variable (loader : Loader σ)

/-- What is read as the identifier of a record that names an instance of the node. -/
def Identifier (id : Record) : Prop :=
  ∃ record, loader.executor.catalog.Names loader.node record ∧
    loader.node.identifierOf record = .ok id

variable (kind : Selection → Prop)

/-- A kind of selections that loads can be asked for: the one of the identifier is among them, and
merging does not lead out of them. -/
structure Closed : Prop where
  valid : ∀ {selection : Selection}, kind selection → selection.Valid
  identifier : ∀ {selection : Selection},
    Selection.identifier loader.executor.catalog loader.node = .ok selection → kind selection
  merged : ∀ {mine theirs merged : Selection}, kind mine → kind theirs →
    mine.merge theirs = .ok merged → kind merged

theorem closed_made : loader.Closed (Selection.Made loader.executor.catalog) :=
  ⟨Selection.Made.valid, .identifier, .merged⟩

/-- A selection of the kind on the loader's node. -/
structure Selects (selection : Selection) : Prop where
  node : selection.node.name = loader.node.name
  valid : selection.Valid
  known : kind selection

/-- The selection holds the identifier of the node. -/
def Identifying (selection : Selection) : Prop :=
  ∃ identifier, Selection.identifier loader.executor.catalog loader.node = .ok identifier ∧
    selection.includes identifier = true

/-- The store behind a loader has these instances. A find over alternatives of their identifiers
yields the values of those that there are, in any order, if it does not fail. A value is cut down to
whatever its selection includes, and carries the identifier where that is selected. -/
structure Backed (contents : Contents) : Prop where
  narrowed : ∀ {wide narrow : Selection} {id : Record}, loader.Selects kind wide →
    loader.Selects kind narrow → wide.includes narrow = true → loader.Identifier id →
    contents.present id = true →
    narrow.project (contents.value wide id) = .ok (contents.value narrow id)
  identified : ∀ {selection : Selection} {id : Record}, loader.Selects kind selection →
    loader.Identifying selection → loader.Identifier id → contents.present id = true →
    loader.node.identifierOf (contents.value selection id) = .ok id
  answered : ∀ {selection : Selection} {ids : List Record} {filters : List Filter}
    {filter : Filter} {values : List Record} {state state' : σ}, loader.Selects kind selection →
    loader.Identifying selection → (∀ id ∈ ids, loader.Identifier id) → ids.Nodup → ids ≠ [] →
    ids.mapM (Filter.identifier loader.executor.catalog loader.node) = .ok filters →
    Filter.junction loader.node .any filters = .ok filter →
    loader.executor.find selection ⟨some filter, none, 0, none⟩ state = .ok values state' →
    values.Perm ((ids.filter contents.present).map (contents.value selection))

end Setting

variable {loader : Loader σ} {kind : Selection → Prop} {contents : Contents}

/-- What is cached of an instance is what a selection with its identifier yields of it. -/
structure Tells (loader : Loader σ) (kind : Selection → Prop) (contents : Contents) (id : Record)
    (known : Cached) : Prop where
  selects : loader.Selects kind known.selection
  identifying : loader.Identifying known.selection
  value : known.value = contents.shown known.selection id

/-- Every entry under an identifier tells what there is of the instance. -/
def Sound (loader : Loader σ) (kind : Selection → Prop) (contents : Contents) (cache : Cache) :
    Prop :=
  ∀ id, loader.Identifier id → ∀ known, cache.get? id.text = some known →
    Tells loader kind contents id known

section Identifiers

variable (wellFormed : loader.executor.catalog.WellFormed)
  (found : loader.executor.catalog.node? loader.node.name = some loader.node)
  {id id' : Record}

include wellFormed found

theorem Identifier.names (identifier : loader.Identifier id) :
    loader.executor.catalog.Names loader.node id := by
  obtain ⟨record, names, read⟩ := identifier
  exact (Node.identifierOf_spec wellFormed found names (fun _ _ _ same => same) read).1

theorem Identifier.legible (plain : loader.executor.catalog.PlainlyIdentified loader.node)
    (identifier : loader.Identifier id) (identifier' : loader.Identifier id') :
    (Value.record id).Legible (.record id') := by
  obtain ⟨record, names, read⟩ := identifier
  obtain ⟨record', names', read'⟩ := identifier'
  exact Node.legible_identifierOf wellFormed found plain names names' read read'

theorem Identifier.eq_of_text_eq
    (plain : loader.executor.catalog.PlainlyIdentified loader.node)
    (identifier : loader.Identifier id) (identifier' : loader.Identifier id')
    (same : id.text = id'.text) : id = id' :=
  Value.record.inj ((identifier.legible wellFormed found plain identifier').eq_of_text_eq same)

theorem Identifier.same_iff (plain : loader.executor.catalog.PlainlyIdentified loader.node)
    (identifier : loader.Identifier id) (identifier' : loader.Identifier id') :
    Record.same id id' = true ↔ id = id' := by
  rw [← Value.record.injEq, ← (identifier.legible wellFormed found plain identifier').same_iff,
    Value.same, Record.same]

/-- There is a filter for any identifiers. -/
theorem exists_filter {ids : List Record} (identifiers : ∀ id ∈ ids, loader.Identifier id) :
    ∃ filters filter,
      ids.mapM (Filter.identifier loader.executor.catalog loader.node) = .ok filters ∧
      Filter.junction loader.node .any filters = .ok filter := by
  have each : ∀ id ∈ ids, ∃ filter,
      Filter.identifier loader.executor.catalog loader.node id = .ok filter := by
    intro id inside
    obtain ⟨filter, made, -⟩ :=
      Filter.identifier_spec wellFormed found ((identifiers id inside).names wellFormed found)
    exact ⟨filter, made⟩
  obtain ⟨filters, mapped, from_, -⟩ := Outcome.mapM_eq_ok each
  have here : ∀ filter ∈ filters, Filter.checkNode loader.node.name filter = .ok () := by
    intro filter inside
    obtain ⟨id, member, made⟩ := from_ filter inside
    obtain ⟨filter', made', node, -⟩ :=
      Filter.identifier_spec wellFormed found ((identifiers id member).names wellFormed found)
    cases Except.ok.inj (made.symm.trans made')
    exact if_pos (congrArg Node.name node)
  refine ⟨filters, ⟨loader.node, .junction .any (filters.map (·.predicate))⟩, mapped, ?_⟩
  rw [Filter.junction, Outcome.forM_eq_ok here]
  rfl

end Identifiers

/-- The selection that a request is widened to. -/
structure Widens (loader : Loader σ) (kind : Selection → Prop) (selection wide : Selection) :
    Prop where
  selects : loader.Selects kind wide
  includes : wide.includes selection = true
  cause : wide = selection ∨ loader.Identifying wide

/-- What the store is asked for at least: the selection and the identifier. -/
def identified (loader : Loader σ) (selection : Selection) : Except StatementError Selection := do
  selection.merge (← Selection.identifier loader.executor.catalog loader.node)

theorem asked_eq (ids : List Record) (selection : Selection) :
    loader.asked ids selection = do
      let merged ← loader.identified selection
      let filters ← ids.mapM (Filter.identifier loader.executor.catalog loader.node)
      return (merged, ← Filter.junction loader.node .any filters) := by
  unfold asked identified
  rw [bind_assoc]

section Widening

variable {selection wide : Selection} {cache : Cache} {ids missed : List Record}

theorem Widens.refl (selects : loader.Selects kind selection) :
    Widens loader kind selection selection :=
  ⟨selects, Selection.includes_refl selects.valid, Or.inl rfl⟩

/-- A request widened by an entry holds all that either held, or it stays as it is. -/
theorem Widens.merge (closed : loader.Closed kind) (widens : Widens loader kind selection wide)
    {id : Record} {known : Cached} (tells : Tells loader kind contents id known) :
    Widens loader kind selection (((wide.merge known.selection).toOption).getD wide) := by
  cases merges : wide.merge known.selection with
  | error => exact widens
  | ok merged =>
    obtain ⟨valid, node, mine, theirs⟩ :=
      Selection.merge_spec widens.selects.valid tells.selects.valid merges
    have kept := closed.merged widens.selects.known tells.selects.known merges
    obtain ⟨identifier, made, holds⟩ := tells.identifying
    exact ⟨⟨(congrArg Node.name node).trans widens.selects.node, valid, kept⟩,
      Selection.includes_trans mine widens.includes,
      Or.inr ⟨identifier, made, Selection.includes_trans theirs holds⟩⟩

theorem exists_identified (selects : loader.Selects kind selection) (sound : wide.Valid)
    (identifying : loader.Identifying wide) (includes : wide.includes selection = true) :
    ∃ merged, loader.identified selection = .ok merged := by
  obtain ⟨identifier, made, holds⟩ := identifying
  obtain ⟨-, valid⟩ := Selection.identifier_valid made
  obtain ⟨merged, merges⟩ :=
    Selection.merge_of_included sound selects.valid valid includes holds
  exact ⟨merged, by rw [identified, made, Outcome.ok_bind, merges]⟩

theorem Widens.eq_of_unidentified (widens : Widens loader kind selection wide)
    {error : StatementError} (fails : loader.identified wide = .error error) : wide = selection := by
  refine widens.cause.resolve_right fun identifying => ?_
  obtain ⟨merged, made⟩ := exists_identified widens.selects widens.selects.valid identifying
    (Selection.includes_refl widens.selects.valid)
  rw [fails] at made
  cases made

theorem identified_spec (closed : loader.Closed kind) (selects : loader.Selects kind wide)
    {merged : Selection} (asks : loader.identified wide = .ok merged) :
    loader.Selects kind merged ∧ loader.Identifying merged ∧ merged.includes wide = true := by
  obtain ⟨identifier, made, merges⟩ := Outcome.bind_eq_ok.mp asks
  obtain ⟨-, valid⟩ := Selection.identifier_valid made
  obtain ⟨valid, node, mine, theirs⟩ := Selection.merge_spec selects.valid valid merges
  exact ⟨⟨(congrArg Node.name node).trans selects.node, valid,
    closed.merged selects.known (closed.identifier made) merges⟩, ⟨identifier, made, theirs⟩, mine⟩

/-- An entry serves a selection. -/
def Served (cache : Cache) (selection : Selection) (id : Record) : Prop :=
  ∃ known, cache.get? id.text = some known ∧ known.selection.includes selection = true

/-- The misses of a request are some of its identifiers, each once, and all that no entry serves. -/
structure Misses (loader : Loader σ) (kind : Selection → Prop) (cache : Cache)
    (selection : Selection) (ids : List Record) (result : Selection × List Record) : Prop where
  widens : Widens loader kind selection result.1
  apart : result.2.Nodup
  identifiers : ∀ id ∈ result.2, loader.Identifier id
  rest : ∀ id ∈ ids, id ∈ result.2 ∨ Served cache selection id

namespace Misses

variable {before : List Record} {id : Record}

theorem grow (known : Misses loader kind cache selection before (wide, missed)) {wide' : Selection}
    (widens : Widens loader kind selection wide') (identifier : loader.Identifier id)
    (fresh : id ∉ missed) :
    Misses loader kind cache selection (before ++ [id]) (wide', missed ++ [id]) := by
  have differs : ∀ other ∈ missed, ∀ last ∈ [id], other ≠ last := by
    rintro other inside last single rfl
    exact fresh (List.mem_singleton.mp single ▸ inside)
  refine ⟨widens, ?_, ?_, ?_⟩
  · exact List.nodup_append.mpr ⟨known.apart, List.nodup_singleton _, differs⟩
  · simpa [or_imp, forall_and] using ⟨known.identifiers, identifier⟩
  · intro other inside
    rcases List.mem_append.mp inside with first | last
    · exact (known.rest other first).imp_left (List.mem_append_left _)
    · exact Or.inl (List.mem_append_right _ last)

theorem stay (known : Misses loader kind cache selection before (wide, missed))
    (served : id ∈ missed ∨ Served cache selection id) :
    Misses loader kind cache selection (before ++ [id]) (wide, missed) := by
  refine ⟨known.widens, known.apart, known.identifiers, ?_⟩
  simpa [or_imp, forall_and] using ⟨known.rest, served⟩

end Misses

section Distinct

variable (same_iff : ∀ {id id'}, loader.Identifier id → loader.Identifier id' →
  (Record.same id id' = true ↔ id = id'))

include same_iff

theorem any_same_iff {id : Record} (identifier : loader.Identifier id)
    (identifiers : ∀ other ∈ missed, loader.Identifier other) :
    missed.any (·.same id) = true ↔ id ∈ missed := by
  rw [List.any_eq_true]
  constructor
  · rintro ⟨other, inside, same⟩
    rwa [← (same_iff (identifiers other inside) identifier).mp same]
  · exact fun inside => ⟨id, inside, (same_iff identifier identifier).mpr rfl⟩

theorem misses_spec (closed : loader.Closed kind) (sound : Sound loader kind contents cache)
    (identifiers : ∀ id ∈ ids, loader.Identifier id) {before : List Record}
    (known : Misses loader kind cache selection before (wide, missed)) :
    Misses loader kind cache selection (before ++ ids)
      (Loader.misses cache selection wide missed ids) := by
  induction ids generalizing wide missed before with
  | nil => simpa [Loader.misses] using known
  | cons id rest ih =>
    rw [List.forall_mem_cons] at identifiers
    have listed_iff := any_same_iff same_iff identifiers.1 known.identifiers
    rw [List.append_cons]
    unfold Loader.misses
    cases present : cache.get? id.text with
    | none =>
      simp only
      by_cases listed : missed.any (·.same id) = true
      · rw [if_pos listed]
        exact ih identifiers.2 (known.stay (Or.inl (listed_iff.mp listed)))
      · rw [if_neg listed]
        exact ih identifiers.2 (known.grow known.widens identifiers.1 (listed_iff.not.mp listed))
    | some entry =>
      have tells := sound id identifiers.1 entry present
      simp only [Bool.or_eq_true]
      by_cases served : entry.selection.includes selection = true
      · rw [if_pos (Or.inl served)]
        exact ih identifiers.2 (known.stay (Or.inr ⟨entry, present, served⟩))
      · by_cases listed : missed.any (·.same id) = true
        · rw [if_pos (Or.inr listed)]
          exact ih identifiers.2 (known.stay (Or.inl (listed_iff.mp listed)))
        · rw [if_neg (not_or.mpr ⟨served, listed⟩)]
          exact ih identifiers.2
            (known.grow (known.widens.merge closed tells) identifiers.1 (listed_iff.not.mp listed))

end Distinct

end Widening

section Fetching

variable {selection wide merged : Selection} {cache : Cache} {id : Record} {missed : List Record}

theorem Served.insert (served : Served cache selection id) {key : String} {known : Cached}
    (includes : known.selection.includes selection = true) :
    Served (cache.insert key known) selection id := by
  obtain ⟨older, present, includes'⟩ := served
  by_cases same : id.text = key
  · exact ⟨known, by rw [same]; exact Entries.get?_insert_self .., includes⟩
  · exact ⟨older, by rw [Entries.get?_insert_of_ne _ _ _ _ same]; exact present, includes'⟩

/-- What is cached once instances are noted as absent, and that it serves what it did and those. -/
theorem foldl_absent_served (includes : merged.includes selection = true) :
    (∀ key known, (missed.foldl (absent merged) cache).get? key = some known →
      cache.get? key = some known ∨ known = ⟨merged, none⟩ ∧ ∃ id ∈ missed, id.text = key) ∧
    (∀ id, Served cache selection id ∨ id ∈ missed →
      Served (missed.foldl (absent merged) cache) selection id) := by
  induction missed generalizing cache with
  | nil =>
    refine ⟨fun _ _ => Or.inl, fun id served => ?_⟩
    exact served.resolve_right List.not_mem_nil
  | cons first rest ih =>
    obtain ⟨noted, serves⟩ := @ih (absent merged cache first)
    constructor
    · intro key known present
      rcases noted key known present with now | ⟨same, id, inside, named⟩
      · by_cases here : key = first.text
        · rw [here, absent, Entries.get?_insert_self, Option.some.injEq] at now
          exact Or.inr ⟨now.symm, first, List.mem_cons_self .., here.symm⟩
        · rw [absent, Entries.get?_insert_of_ne _ _ _ _ here] at now
          exact Or.inl now
      · exact Or.inr ⟨same, id, List.mem_cons_of_mem _ inside, named⟩
    · intro id before
      refine serves id ?_
      rcases before with served | inside
      · exact Or.inl (served.insert includes)
      · rcases List.mem_cons.mp inside with rfl | behind
        · exact Or.inl ⟨⟨merged, none⟩, Entries.get?_insert_self .., includes⟩
        · exact Or.inr behind

/-- An entry tells of its instance, or the value that it waits for is still to come. -/
def Awaits (loader : Loader σ) (kind : Selection → Prop) (contents : Contents)
    (order : List Record) (cache : Cache) : Prop :=
  ∀ id, loader.Identifier id → ∀ known, cache.get? id.text = some known →
    Tells loader kind contents id known ∨ id ∈ order

section Backed

variable (backed : loader.Backed kind contents)
  (eq_of_text_eq : ∀ {id id'}, loader.Identifier id → loader.Identifier id' →
    id.text = id'.text → id = id')
  (selects : loader.Selects kind merged) (identifying : loader.Identifying merged)

include backed eq_of_text_eq selects identifying

/-- Once all values have come, every entry tells of its instance. -/
theorem remember_sound (includes : merged.includes selection = true) {order : List Record}
    (here : ∀ id ∈ order, loader.Identifier id ∧ contents.present id = true)
    {loading : Loading σ} (awaits : Awaits loader kind contents order loading.cache) :
    ∃ loading', loader.remember merged (order.map (contents.value merged)) loading =
        .ok () loading' ∧ Sound loader kind contents loading'.cache ∧
      ∀ id, Served loading.cache selection id → Served loading'.cache selection id := by
  induction order generalizing loading with
  | nil =>
    refine ⟨loading, rfl, fun id identifier known present => ?_, fun _ => id⟩
    exact (awaits id identifier known present).resolve_right List.not_mem_nil
  | cons id rest ih =>
    rw [List.forall_mem_cons] at here
    obtain ⟨identifier, exists_⟩ := here.1
    have carried : loader.node.identifierOf (contents.value merged id) = .ok id :=
      backed.identified selects identifying identifier exists_
    have awaits' : Awaits loader kind contents rest
        (loading.cache.insert id.text ⟨merged, some (contents.value merged id)⟩) := by
      intro other identifier' known present
      by_cases same : other.text = id.text
      · obtain rfl := eq_of_text_eq identifier' identifier same
        rw [Entries.get?_insert_self, Option.some.injEq] at present
        subst present
        exact Or.inl ⟨selects, identifying, by simp [Contents.shown, exists_]⟩
      · rw [Entries.get?_insert_of_ne _ _ _ _ same] at present
        refine (awaits other identifier' known present).imp_right fun inside => ?_
        exact (List.mem_cons.mp inside).resolve_left fun equal => same (congrArg _ equal)
    obtain ⟨loading', taken, sound, kept⟩ := @ih here.2 ⟨_, loading.store⟩ awaits'
    refine ⟨loading', ?_, sound, fun other served => kept other (served.insert includes)⟩
    rw [← taken, List.map_cons, remember, liftStatement_bind, carried]
    rfl

/-- A fetch whose find is answered leaves entries that tell of their instances, and that serve all
that was asked for and all that was served before. -/
theorem fetch_answered (includes : merged.includes selection = true)
    (identifiers : ∀ id ∈ missed, loader.Identifier id) (apart : missed.Nodup)
    (some_ : missed ≠ []) {filter : Filter}
    (asks : loader.asked missed wide = .ok (merged, filter)) {loading : Loading σ}
    (sound : Sound loader kind contents loading.cache) {values : List Record} {state : σ}
    (finds : loader.executor.find merged ⟨some filter, none, 0, none⟩ loading.store =
      .ok values state) :
    ∃ loading', loader.fetch missed wide loading = .ok () loading' ∧
      Sound loader kind contents loading'.cache ∧
      ∀ id, Served loading.cache selection id ∨ id ∈ missed →
        Served loading'.cache selection id := by
  have answered : values.Perm ((missed.filter contents.present).map (contents.value merged)) := by
    rw [asked_eq] at asks
    obtain ⟨joined, -, asks⟩ := Outcome.bind_eq_ok.mp asks
    obtain ⟨filters, each, asks⟩ := Outcome.bind_eq_ok.mp asks
    obtain ⟨whole, all, asks⟩ := Outcome.bind_eq_ok.mp asks
    cases asks
    exact backed.answered selects identifying identifiers apart some_ each all finds
  obtain ⟨order, same, rfl⟩ := Lists.exists_map_of_perm answered
  have among : ∀ id, id ∈ order ↔ id ∈ missed ∧ contents.present id = true := fun id => by
    rw [same.mem_iff, List.mem_filter]
  obtain ⟨noted, serves⟩ := @foldl_absent_served selection merged loading.cache missed includes
  have awaits : Awaits loader kind contents order
      (missed.foldl (absent merged) loading.cache) := by
    intro id identifier known present
    rcases noted id.text known present with older | ⟨rfl, id', inside, named⟩
    · exact Or.inl (sound id identifier known older)
    · obtain rfl := eq_of_text_eq (identifiers id' inside) identifier named
      by_cases exists_ : contents.present id' = true
      · exact Or.inr ((among id').mpr ⟨inside, exists_⟩)
      · exact Or.inl ⟨selects, identifying, by simp [Contents.shown, exists_]⟩
  obtain ⟨loading', taken, sound', kept⟩ : ∃ loading',
      loader.remember merged (order.map (contents.value merged))
          ⟨missed.foldl (absent merged) loading.cache, state⟩ = .ok () loading' ∧
        Sound loader kind contents loading'.cache ∧
        ∀ id, Served (missed.foldl (absent merged) loading.cache) selection id →
          Served loading'.cache selection id :=
    remember_sound backed eq_of_text_eq selects identifying includes
      (fun id inside => ⟨identifiers id ((among id).mp inside).1, ((among id).mp inside).2⟩) awaits
  refine ⟨loading', ?_, sound', fun id before => kept id (serves id before)⟩
  rw [fetch_eq, asks]
  simp only [finds, taken]

end Backed

theorem serve_eq (backed : loader.Backed kind contents) (selects : loader.Selects kind selection)
    (sound : Sound loader kind contents cache) (identifier : loader.Identifier id)
    (served : Served cache selection id) :
    serve cache selection id = .ok (contents.shown selection id) := by
  obtain ⟨known, present, includes⟩ := served
  have tells := sound id identifier known present
  have value : (cache.get? id.text).bind (·.value) = contents.shown known.selection id := by
    rw [present, ← tells.value]
    rfl
  unfold serve
  rw [value, Contents.shown, Contents.shown]
  by_cases exists_ : contents.present id = true
  · simp only [exists_, ↓reduceIte]
    rw [backed.narrowed tells.selects selects includes identifier exists_]
    rfl
  · simp only [exists_, Bool.false_eq_true, ↓reduceIte]

end Fetching

end Loader

end LiveQuery
