import LiveQuery.Proofs.Execution.Owners

set_option autoImplicit false

namespace LiveQuery

namespace SelectionField

variable {catalog : Catalog} {fields : List SelectionField} {twin tree : Record}

/-- What is selected under the key of a field is the same in a record that has what a tree has. -/
def Reproduces (catalog : Catalog) (field : SelectionField) : Prop :=
  ∀ {twin tree : Record} (node : String), Copied catalog true field twin tree →
    (twin.require node field.key >>= fun raw => projectValue node raw field) =
      (tree.require node field.key >>= fun raw => projectValue node raw field)

theorem projectFields_of (each : ∀ field ∈ fields, Reproduces catalog field) (node : String)
    (copied : CopiedAll catalog true fields twin tree) :
    projectFields node twin fields = projectFields node tree fields := by
  induction fields with
  | nil => rfl
  | cons field rest ih =>
    rw [List.forall_mem_cons] at each
    have first := each.1 node copied.1
    rw [projectFields, projectFields, ih each.2 copied.2, ← bind_assoc, ← bind_assoc, first]

theorem projectItems_of {node key expected : String} {raw raw' : Value}
    {project project' : Record → Except StatementError Record} {twins items : List Record}
    (same : List.Forall₂ (fun twin item => project twin = project' item) twins items) :
    projectItems node key expected raw project (twins.map .record) =
      projectItems node key expected raw' project' (items.map .record) := by
  induction same with
  | nil => rfl
  | cons first _ ih => rw [List.map_cons, List.map_cons, projectItems, projectItems, first, ih]

theorem require_of_get? {record : Record} {node key : String} {value : Value}
    (known : record.get? key = some value) : record.require node key = .ok value := by
  rw [Record.require, known]

theorem reproduces (field : SelectionField) : Reproduces catalog field := by
  induction field using induction_head with
  | step field ih =>
    intro twin tree node copied
    cases field with
    | leaf key leaf | count key =>
      have same : twin.require node key = tree.require node key := by
        rw [Record.require, Record.require, show twin.get? key = tree.get? key from copied]
      rw [SelectionField.key, same]
    | edge key link head | unique key relation head =>
      rcases copied with ⟨null, null'⟩ | ⟨twin', child, known, known', -, copied⟩
      · rw [SelectionField.key, require_of_get? null, require_of_get? null']
      · have below (name : String) :
            projectFields name twin' head = projectFields name child head :=
          projectFields_of ih name copied
        rw [SelectionField.key, require_of_get? known, require_of_get? known', Outcome.ok_bind,
          Outcome.ok_bind, projectValue, projectValue, below]
    | multiple key relation window head =>
      obtain ⟨twins, items, known, known', each⟩ := copied rfl
      rw [SelectionField.key, require_of_get? known, require_of_get? known', Outcome.ok_bind,
        Outcome.ok_bind, projectValue, projectValue]
      refine congrArg (· >>= _) (projectItems_of (each.imp fun twin item copied => ?_))
      exact projectFields_of ih relation.head copied

theorem projectFields_congr (node : String) (copied : CopiedAll catalog true fields twin tree) :
    projectFields node twin fields = projectFields node tree fields :=
  projectFields_of (fun field _ => reproduces field) node copied

end SelectionField

namespace Followup

/-- The heads that an owner has. -/
def headsIn (followup : Followup) (owner : Record) : List Record :=
  match owner.get? followup.key with
  | some (.list items) => items.filterMap Value.record?
  | _ => []

/-- The heads that all the owners have. -/
def allHeads (followup : Followup) (trees : List Record) : List Record :=
  (followup.owners trees).flatMap followup.headsIn

/-- Owners that are one instance have the same heads. -/
def Agreeing (catalog : Catalog) (followup : Followup) (trees : List Record) : Prop :=
  ∀ parent, catalog.node? followup.relation.node = some parent →
    ∀ owner ∈ followup.owners trees, ∀ owner' ∈ followup.owners trees, ∀ own own',
      owner.carried? Sql.identifierKey = some own → owner'.carried? Sql.identifierKey = some own' →
      parent.key own = parent.key own' → followup.headsIn owner = followup.headsIn owner'

mutual

/-- Owners that are one instance have the same heads, and so have these in turn. -/
def Coherent (catalog : Catalog) : Followup → List Record → Prop
  | .make owner key relation window head next, trees =>
    Agreeing catalog (.make owner key relation window head next) trees ∧
      CoherentAll catalog next (allHeads (.make owner key relation window head next) trees)

def CoherentAll (catalog : Catalog) : List Followup → List Record → Prop
  | [], _ => True
  | followup :: rest, trees => Coherent catalog followup trees ∧ CoherentAll catalog rest trees

end

/-- The heads of the requested owners, each with the identifier of its owner. -/
structure Tagged (followup : Followup) (parent : Node) (owners ids : List Record)
    (pairs : List (Record × Record)) : Prop where
  among : ∀ pair ∈ pairs, pair.1 ∈ ids
  heads : ∀ id ∈ ids, ∃ owner ∈ owners, ∃ own, owner.carried? Sql.identifierKey = some own ∧
    parent.key own = parent.key id ∧
    followup.headsIn owner =
      (pairs.filter fun pair => parent.key pair.1 = parent.key id).map (·.2)

end Followup

namespace Executor

open Followup

variable {σ : Type}

mutual

/-- Whenever the heads of owners in trees are requested, the store answers rows that hold them, each
tagged by its owner. The same is true of what these heads own in turn. -/
def Answers (executor : Executor σ) : Followup → List Record → Prop
  | .make owner key relation window head next, trees =>
    ∀ parent, executor.catalog.node? relation.node = some parent → ∀ ids, ids ≠ [] →
      Requested parent (owners (.make owner key relation window head next) trees) ids →
      ∃ query, Sql.followUp executor.catalog executor.settings
          (.make owner key relation window head next) ids = .ok query ∧
        ∀ state, ∃ rows state' pairs, executor.connector.read (.find query) state = .ok rows state' ∧
          Tagged (.make owner key relation window head next) parent
            (owners (.make owner key relation window head next) trees) ids pairs ∧
          List.Forall₂ (fun pair row => query.Holds (Record.tagged pair.1 pair.2) row) pairs rows ∧
          AnswersAll executor next (pairs.map (·.2))

def AnswersAll (executor : Executor σ) : List Followup → List Record → Prop
  | [], _ => True
  | followup :: rest, trees => Answers executor followup trees ∧ AnswersAll executor rest trees

end

end Executor

namespace Followup

variable {catalog : Catalog} {followup : Followup} {followups : List Followup}
  {trees trees' : List Record}

@[induction_eliminator]
theorem induction {motive : Followup → Prop}
    (make : ∀ owner key relation window head next, (∀ inner ∈ next, motive inner) →
      motive (.make owner key relation window head next)) (followup : Followup) :
    motive followup := by
  refine @Followup.rec motive (fun followups => ∀ followup ∈ followups, motive followup)
    make ?_ ?_ followup
  · simp
  · intro first rest holds behind
    exact List.forall_mem_cons.mpr ⟨holds, behind⟩

theorem coherentAll_iff : CoherentAll catalog followups trees ↔
    ∀ followup ∈ followups, Coherent catalog followup trees := by
  induction followups with
  | nil => simp [CoherentAll]
  | cons followup rest ih => rw [CoherentAll, ih, List.forall_mem_cons]

theorem coherent_iff : Coherent catalog followup trees ↔ Agreeing catalog followup trees ∧
    ∀ inner ∈ followup.next, Coherent catalog inner (allHeads followup trees) := by
  cases followup
  rw [Coherent, coherentAll_iff]
  rfl

theorem owners_mono (within : ∀ tree ∈ trees', tree ∈ trees) :
    ∀ owner ∈ followup.owners trees', owner ∈ followup.owners trees := by
  intro owner member
  obtain ⟨tree, inside, found⟩ := List.mem_filterMap.mp member
  exact List.mem_filterMap.mpr ⟨tree, within tree inside, found⟩

/-- Fewer trees are as coherent. -/
theorem Coherent.mono (coherent : Coherent catalog followup trees)
    (within : ∀ tree ∈ trees', tree ∈ trees) : Coherent catalog followup trees' := by
  induction followup generalizing trees trees' with
  | make owner key relation window head next ih =>
    obtain ⟨agreeing, below⟩ := coherent_iff.mp coherent
    have fewer := @owners_mono (.make owner key relation window head next) _ _ within
    refine coherent_iff.mpr ⟨?_, fun inner inside => ih inner inside (below inner inside) ?_⟩
    · exact fun parent found owner member owner' member' =>
        agreeing parent found owner (fewer owner member) owner' (fewer owner' member')
    · intro item member
      obtain ⟨owner, part, inside⟩ := List.mem_flatMap.mp member
      exact List.mem_flatMap.mpr ⟨owner, fewer owner part, inside⟩

theorem headsIn_of_get? {owner : Record} {items : List Record}
    (listed : owner.get? followup.key = some (.list (items.map .record))) :
    followup.headsIn owner = items := by
  simp only [headsIn, listed, List.filterMap_map]
  exact List.filterMap_some

end Followup

namespace Executor

open Followup SelectionField

variable {σ : Type} {executor : Executor σ} {followup : Followup} {followups : List Followup}
  {trees : List Record} {ids : List Record}

theorem answersAll_iff : AnswersAll executor followups trees ↔
    ∀ followup ∈ followups, executor.Answers followup trees := by
  induction followups with
  | nil => simp [AnswersAll]
  | cons followup rest ih => rw [AnswersAll, ih, List.forall_mem_cons]

/-- A record that was read for a tree, without the heads of relations to many. -/
structure Stands (catalog : Catalog) (node : Node) (fields : List SelectionField)
    (twin tree : Record) : Prop where
  identified : catalog.Identified node.name tree
  shaped : ShapesAll catalog fields tree
  copied : CopiedAll catalog false fields twin tree
  carries : catalog.Carries node.name twin tree

theorem stands_of_flattened {catalog : Catalog} {node : Node} {fields : List SelectionField}
    {row tree : Record} (wellFormed : catalog.WellFormed) (outward : catalog.Outward)
    (found : catalog.node? node.name = some node) (readable : ReadableAll catalog node fields)
    (identified : catalog.Identified node.name tree) (shaped : ShapesAll catalog fields tree)
    (flat : Flattened catalog node.name fields tree (Row.cells row)) :
    Stands catalog node fields (Row.assemble row) tree := by
  have assembled := assembled wellFormed outward found readable identified shaped flat
  rw [Row.assemble_eq]
  exact ⟨identified, shaped, assembled.copied, assembled.carries⟩

/-- The heads of a follow-up can be read for the owners in trees. -/
structure Ready (executor : Executor σ) (trees : List Record) (followup : Followup) : Prop where
  rooted : ∃ parent target, followup.Rooted executor.catalog parent target
  owned : ∀ owner ∈ followup.owners trees, followup.Owned executor.catalog owner
  coherent : followup.Coherent executor.catalog trees
  answers : executor.Answers followup trees

/-- The identifiers are those of the owners in trees. -/
def Asks (executor : Executor σ) (trees : List Record) (followup : Followup)
    (ids : List Record) : Prop :=
  ∀ parent, executor.catalog.node? followup.relation.node = some parent →
    Requested parent (followup.owners trees) ids

/-- Reading the heads of a follow-up supplies every tree with its own. -/
def Supplies (executor : Executor σ) (followup : Followup) : Prop :=
  ∀ {trees ids : List Record}, executor.Ready trees followup → executor.Asks trees followup ids →
    ∀ state, ∃ heads state', executor.readHeads followup ids state = .ok heads state' ∧
      ∀ tree ∈ trees, followup.Supplied executor.catalog heads tree

theorem readAllHeads_of {owners : List (List Record)}
    (each : ∀ followup ∈ followups, executor.Supplies followup)
    (ready : ∀ followup ∈ followups, executor.Ready trees followup)
    (asks : List.Forall₂ (executor.Asks trees) followups owners) (state : σ) :
    ∃ heads state', executor.readAllHeads followups owners state = .ok heads state' ∧
      List.Forall₂ (fun followup own => ∀ tree ∈ trees,
        followup.Supplied executor.catalog own tree) followups heads := by
  induction asks generalizing state with
  | nil => exact ⟨[], state, rfl, .nil⟩
  | cons first _ ih =>
    rw [List.forall_mem_cons] at each ready
    obtain ⟨own, between, read, supplied⟩ := each.1 ready.1 first state
    obtain ⟨heads, after, behind, others⟩ := ih each.2 ready.2 between
    refine ⟨own :: heads, after, ?_, .cons supplied others⟩
    rw [readAllHeads, Session.bind_of_ok _ read, Session.bind_of_ok _ behind]
    rfl

section Levels

variable {node : Node} {fields : List SelectionField} {records : List Record}

variable (wellFormed : executor.catalog.WellFormed)
  (found : executor.catalog.node? node.name = some node)
  (readable : ReadableAll executor.catalog node fields)
  (stands : List.Forall₂ (Stands executor.catalog node fields) records trees)

include found readable stands

theorem reached_of_stands {followup : Followup} (inside : followup ∈ Followup.ofFields [] fields) :
    (∃ parent target, followup.Rooted executor.catalog parent target) ∧
      List.Forall₂ (followup.Reached executor.catalog) records trees := by
  obtain ⟨rooted, reached⟩ := placed found readable inside
  exact ⟨rooted, stands.imp fun _ _ read =>
    reached read.identified read.shaped read.copied read.carries⟩

theorem ready_of_stands (coherent : CoherentAll executor.catalog (Followup.ofFields [] fields) trees)
    (answers : executor.AnswersAll (Followup.ofFields [] fields) trees) {followup : Followup}
    (inside : followup ∈ Followup.ofFields [] fields) : executor.Ready trees followup := by
  obtain ⟨rooted, reached⟩ := reached_of_stands found readable stands inside
  refine ⟨rooted, fun owner member => ?_, coherentAll_iff.mp coherent followup inside,
    answersAll_iff.mp answers followup inside⟩
  obtain ⟨tree, part, known⟩ := List.mem_filterMap.mp member
  obtain ⟨twin, -, placed⟩ := Lists.exists_left_of_forall₂ reached part
  rcases placed with ⟨absent, -⟩ | ⟨owner', _, present, -, -, owned⟩
  · rw [absent] at known
    cases known
  · rw [known, Option.some.injEq] at present
    exact present ▸ owned

include wellFormed

/-- Once the heads are read the records have all that the trees have. -/
theorem complete_of (each : ∀ followup ∈ Followup.ofFields [] fields, executor.Supplies followup)
    (coherent : CoherentAll executor.catalog (Followup.ofFields [] fields) trees)
    (answers : executor.AnswersAll (Followup.ofFields [] fields) trees) (state : σ) :
    ∃ (finish : Record → Record) (state' : σ),
      executor.complete (Followup.ofFields [] fields)
        (executor.readAllHeads (Followup.ofFields [] fields)) records state =
          .ok (records.map finish) state' ∧
      List.Forall₂ (fun twin tree => CopiedAll executor.catalog true fields (finish twin) tree ∧
        ∀ key, (∀ field ∈ fields, key ≠ field.key) → (finish twin).get? key = twin.get? key)
        records trees := by
  have ready := fun followup inside =>
    @ready_of_stands _ _ _ _ _ _ found readable stands coherent answers followup inside
  obtain ⟨owners, asked, asks⟩ : ∃ owners,
      (Followup.ofFields [] fields).mapM (executor.ownerIds records) state = .ok owners state ∧
        List.Forall₂ (executor.Asks trees) (Followup.ofFields [] fields) owners := by
    refine Session.mapM_of_ok fun followup inside => ?_
    obtain ⟨⟨parent, target, rooted⟩, reached⟩ := reached_of_stands found readable stands inside
    obtain ⟨ids, collected, requested⟩ :=
      ownerIds_requested wellFormed rooted rfl reached state
    refine ⟨ids, collected, fun other looked => ?_⟩
    obtain rfl : parent = other := Option.some.inj (rooted.found.symm.trans looked)
    exact requested
  obtain ⟨heads, state', read, supplied⟩ := readAllHeads_of each ready asks state
  have listed : ((Followup.ofFields [] fields).zip heads).map (·.1) =
      Followup.ofFields [] fields :=
    List.map_fst_zip supplied.length_eq.le
  have finished : List.Forall₂ (fun twin tree =>
      CopiedAll executor.catalog true fields
        (attached twin ((Followup.ofFields [] fields).zip heads)) tree ∧
      ∀ key, (∀ field ∈ fields, key ≠ field.key) →
        (attached twin ((Followup.ofFields [] fields).zip heads)).get? key = twin.get? key)
      records trees := by
    refine (Lists.forall₂_mem stands).imp fun twin tree ⟨read, _, part⟩ => ?_
    refine completed readable read.copied read.carries listed fun pair inside => ?_
    exact List.forall₂_zip supplied inside tree part
  by_cases nothing : (Followup.ofFields [] fields).isEmpty || records.isEmpty
  · refine ⟨_, state, ?_, finished⟩
    have same : records.map (attached · ((Followup.ofFields [] fields).zip heads)) = records := by
      rcases Bool.or_eq_true_iff.mp nothing with none_ | none_
      · rw [List.isEmpty_iff.mp none_, List.zip_nil_left]
        exact List.map_id' records
      · rw [List.isEmpty_iff.mp none_, List.map_nil]
    rw [complete, if_pos nothing, same]
    rfl
  · refine ⟨_, state', ?_, finished⟩
    rw [complete, if_neg nothing, ← attachAll_eq, Session.bind_of_ok _ asked,
      Session.bind_of_ok _ read]
    rfl

end Levels

/-- The record is a head of those that have the identifier of the tag. -/
def Belongs (catalog : Catalog) (parent : Node) (head tag : Record) : Prop :=
  ∀ own own', catalog.Names parent own →
    (∀ field, .leaf field ∈ parent.identifierComponents →
      own'.get? field.name = own.get? field.name) →
    (Row.isChildOf head own' = true ↔ parent.key own = parent.key tag)

theorem isChildOf_congr {head head' : Record} (own : Record)
    (same : head'.get? Sql.parentKey = head.get? Sql.parentKey) :
    Row.isChildOf head' own = Row.isChildOf head own := by
  rw [Row.isChildOf, Row.isChildOf, Record.carried?, Record.carried?, same]

section Heads

variable {parent target : Node} (wellFormed : executor.catalog.WellFormed)
  (rooted : followup.Rooted executor.catalog parent target)
  (owned : ∀ owner ∈ followup.owners trees, followup.Owned executor.catalog owner)

include rooted owned

theorem exists_requested (requested : Requested parent (followup.owners trees) ids)
    {tree owner : Record} (part : tree ∈ trees) (found : tree.at? followup.owner = some owner) :
    owner ∈ followup.owners trees ∧ ∃ own id, owner.carried? Sql.identifierKey = some own ∧
      executor.catalog.Names parent own ∧ id ∈ ids ∧ parent.key id = parent.key own := by
  have member : owner ∈ followup.owners trees := List.mem_filterMap.mpr ⟨tree, part, found⟩
  obtain ⟨node, own, found', carried, names⟩ := (owned owner member).identified
  obtain rfl : parent = node := Option.some.inj (rooted.found.symm.trans found')
  obtain ⟨id, inside, same⟩ := requested.every owner member own carried
  exact ⟨member, own, id, carried, names, inside, same⟩

theorem supplied_of_none (requested : Requested parent (followup.owners trees) []) :
    ∀ tree ∈ trees, followup.Supplied executor.catalog [] tree := by
  intro tree part owner found
  obtain ⟨-, _, _, -, -, inside, -⟩ := exists_requested rooted owned requested part found
  cases inside

theorem supplied_of_tagged (agreeing : Agreeing executor.catalog followup trees)
    (requested : Requested parent (followup.owners trees) ids) {pairs : List (Record × Record)}
    (tagged : Tagged followup parent (followup.owners trees) ids pairs) {heads : List Record}
    (read : List.Forall₂ (fun head pair =>
      CopiedAll executor.catalog true followup.head head pair.2 ∧
        Belongs executor.catalog parent head pair.1) heads pairs) :
    ∀ tree ∈ trees, followup.Supplied executor.catalog heads tree := by
  intro tree part owner found
  obtain ⟨member, own, id, carried, names, inside, same⟩ :=
    exists_requested rooted owned requested part found
  obtain ⟨items, listed, -⟩ := (owned owner member).listed
  obtain ⟨owner', member', own', carried', same', heads'⟩ := tagged.heads id inside
  have agree : followup.headsIn owner = followup.headsIn owner' :=
    agreeing parent rooted.found owner member owner' member' own own' carried carried'
      (same.symm.trans same'.symm)
  rw [headsIn_of_get? listed, heads'] at agree
  refine ⟨items, listed, fun twin carries => ?_⟩
  obtain ⟨known, own'', known_, known', leaves⟩ := carries
  obtain rfl : own = known := Option.some.inj (carried.symm.trans known_)
  rw [ownHeads, known', agree, List.forall₂_map_right_iff]
  refine (Lists.forall₂_filter read fun head pair both => ?_).imp fun _ _ both => both.1
  have belongs := both.2 own own'' names (leaves parent rooted.found)
  rw [Bool.eq_iff_iff, belongs, decide_eq_true_eq, ← same, eq_comm]

omit rooted in
theorem spec_of_tagged (requested : Requested parent (followup.owners trees) ids)
    {pairs : List (Record × Record)}
    (tagged : Tagged followup parent (followup.owners trees) ids pairs) {pair : Record × Record}
    (inside : pair ∈ pairs) : pair.2 ∈ followup.allHeads trees ∧
      executor.catalog.Identified followup.relation.head pair.2 ∧
      ShapesAll executor.catalog followup.head pair.2 ∧
      ∃ owner ∈ followup.owners trees, ∃ own, owner.carried? Sql.identifierKey = some own ∧
        parent.identifierOf own = .ok pair.1 := by
  have asked := tagged.among pair inside
  obtain ⟨owner, member, -, -, -, heads⟩ := tagged.heads pair.1 asked
  obtain ⟨items, listed, each⟩ := (owned owner member).listed
  have head : pair.2 ∈ followup.headsIn owner := by
    rw [heads]
    exact List.mem_map_of_mem (List.mem_filter.mpr ⟨inside, decide_eq_true rfl⟩)
  refine ⟨List.mem_flatMap.mpr ⟨owner, member, head⟩, ?_⟩
  rw [headsIn_of_get? listed] at head
  exact ⟨(each pair.2 head).1, (each pair.2 head).2, requested.origin pair.1 asked⟩

end Heads

section Rows

variable {parent target : Node} (wellFormed : executor.catalog.WellFormed)
  (outward : executor.catalog.Outward) (rooted : followup.Rooted executor.catalog parent target)
  {query : Sql.Find}
  (made : Sql.followUp executor.catalog executor.settings followup ids = .ok query)
  {tag item row : Record} (holds : query.Holds (Record.tagged tag item) row)

include wellFormed outward rooted made holds

theorem stands_of_row (identified : executor.catalog.Identified followup.relation.head item)
    (shaped : ShapesAll executor.catalog followup.head item) :
    Stands executor.catalog target followup.head (Row.assemble row) item := by
  have flat := flattened_of_followUp wellFormed outward rooted made holds
  have found := rooted.heads
  rw [← Catalog.name_of_node? found] at identified flat found
  exact stands_of_flattened wellFormed outward found rooted.readable identified shaped flat

theorem belongs_of_row (names : executor.catalog.Names parent tag) :
    Belongs executor.catalog parent (Row.assemble row) tag := by
  intro own own' names' leaves
  rw [Row.assemble_eq]
  exact isChildOf_iff wellFormed outward (rooted.leads wellFormed)
    (parent_of_followUp wellFormed outward rooted made holds) names names' leaves

end Rows

/-- The records of the rows that are answered stand for the heads, each with the owners of its
tag. -/
theorem stands_of_rows {parent target : Node} (wellFormed : executor.catalog.WellFormed)
    (outward : executor.catalog.Outward) (rooted : followup.Rooted executor.catalog parent target)
    {query : Sql.Find}
    (made : Sql.followUp executor.catalog executor.settings followup ids = .ok query)
    (owned : ∀ owner ∈ followup.owners trees, followup.Owned executor.catalog owner)
    (requested : Requested parent (followup.owners trees) ids) {pairs : List (Record × Record)}
    (tagged : Tagged followup parent (followup.owners trees) ids pairs) {rows : List Record}
    (holds : List.Forall₂ (fun pair row => query.Holds (Record.tagged pair.1 pair.2) row)
      pairs rows) :
    List.Forall₂ (fun pair twin =>
      Stands executor.catalog target followup.head twin pair.2 ∧
        Belongs executor.catalog parent twin pair.1) pairs (rows.map Row.assemble) := by
  rw [List.forall₂_map_right_iff]
  refine (Lists.forall₂_mem holds).imp fun pair row ⟨holds, inside, _⟩ => ?_
  obtain ⟨-, identified, shaped, owner, member, own, carried, id⟩ :=
    spec_of_tagged owned requested tagged inside
  have names := names_of_identified rooted.found (owned owner member).identified carried
  have named := (Node.identifierOf_names wellFormed (rooted.leads wellFormed).node names id).1
  exact ⟨stands_of_row wellFormed outward rooted made holds identified shaped,
    belongs_of_row wellFormed outward rooted made holds named⟩

/-- Reading the heads of a follow-up supplies the trees, at whatever depth. -/
theorem supplies (wellFormed : executor.catalog.WellFormed) (outward : executor.catalog.Outward)
    (followup : Followup) : executor.Supplies followup := by
  induction followup with
  | make owner key relation window head next ih =>
    intro trees ids ready asks state
    obtain ⟨parent, target, rooted⟩ := ready.rooted
    have requested := asks parent rooted.found
    by_cases none_ : ids = []
    · subst none_
      refine ⟨[], state, ?_, supplied_of_none rooted ready.owned requested⟩
      rw [readHeads]
      rfl
    obtain ⟨agreeing, coherent⟩ := coherent_iff.mp ready.coherent
    have answers := ready.answers
    rw [Answers] at answers
    obtain ⟨query, made, answered⟩ := answers parent rooted.found ids none_ requested
    obtain ⟨rows, between, pairs, ran, tagged, holds, deeper⟩ := answered state
    obtain rfl : next = Followup.ofFields [] head := rooted.next
    have read := stands_of_rows wellFormed outward rooted made ready.owned requested tagged holds
    have stands : List.Forall₂ (Stands executor.catalog target head) (rows.map Row.assemble)
        (pairs.map (·.2)) := by
      rw [List.forall₂_map_right_iff]
      exact read.flip.imp fun _ _ both => both.1
    have coherent' : CoherentAll executor.catalog (Followup.ofFields [] head)
        (pairs.map (·.2)) := by
      refine coherentAll_iff.mpr fun inner inside => (coherent inner inside).mono ?_
      exact List.forall_mem_map.mpr fun pair part =>
        (spec_of_tagged ready.owned requested tagged part).1
    have found : executor.catalog.node? target.name = some target :=
      (Catalog.name_of_node? rooted.heads).symm ▸ rooted.heads
    obtain ⟨finish, after, completed, finished⟩ :=
      complete_of wellFormed found rooted.readable stands ih coherent' deeper between
    refine ⟨(rows.map Row.assemble).map finish, after, ?_, ?_⟩
    · rw [readHeads, if_neg (by simpa using none_), made]
      refine Eq.trans (Session.bind_of_ok _ rfl) ?_
      rw [Session.bind_of_ok _ (fetch_of_read ran)]
      exact completed
    · refine supplied_of_tagged rooted ready.owned agreeing requested tagged ?_
      rw [List.forall₂_map_right_iff] at finished
      rw [List.forall₂_map_left_iff]
      refine finished.mp (fun twin pair both known => ⟨both.1, ?_⟩) read.flip
      have kept := both.2 Sql.parentKey fun field inside =>
        (rooted.readable.each field inside).plain.ne_internal.2.symm
      intro own own' names leaves
      rw [isChildOf_congr own' kept]
      exact known.2 own own' names leaves

/-- A find for any fields that can be read together answers the selected part of every tree. -/
theorem find_of_readable (wellFormed : executor.catalog.WellFormed)
    (outward : executor.catalog.Outward) {selection : Selection}
    (found : executor.catalog.node? selection.node.name = some selection.node)
    (readable : ReadableAll executor.catalog selection.node selection.fields)
    {request : Request} {query : Sql.Find}
    (compiled : Sql.find executor.catalog executor.settings selection request = .ok query)
    (shaped : ∀ tree ∈ trees, executor.catalog.Identified selection.node.name tree ∧
      ShapesAll executor.catalog selection.fields tree)
    (coherent : CoherentAll executor.catalog selection.followups trees)
    (answers : executor.AnswersAll selection.followups trees) {state between : σ}
    {rows : List Record} (answered : executor.connector.read (.find query) state = .ok rows between)
    (holds : List.Forall₂ query.Holds trees rows) :
    ∃ after, executor.find selection request state =
      (liftM (trees.mapM selection.project) : Session σ (List Record)) after := by
  have stands : List.Forall₂ (Stands executor.catalog selection.node selection.fields)
      (rows.map Row.assemble) trees := by
    rw [List.forall₂_map_left_iff]
    refine (Lists.forall₂_mem holds).flip.imp fun row tree ⟨holds, inside, _⟩ => ?_
    obtain ⟨identified, shape⟩ := shaped tree inside
    exact stands_of_flattened wellFormed outward found readable identified shape
      (flattened_of_find wellFormed outward found readable compiled holds)
  obtain ⟨finish, after, completed, finished⟩ := complete_of wellFormed found readable stands
    (fun followup _ => supplies wellFormed outward followup) coherent answers between
  have projected : ((rows.map Row.assemble).map finish).mapM selection.project =
      trees.mapM selection.project := by
    refine Outcome.mapM_eq_of_forall₂ ?_
    rw [List.forall₂_map_left_iff]
    exact finished.imp fun twin tree both => projectFields_congr selection.node.name both.1
  refine ⟨after, ?_⟩
  rw [find, compiled]
  refine Eq.trans (Session.bind_of_ok _ rfl) ?_
  rw [Session.bind_of_ok _ (fetch_of_read answered)]
  refine (Session.bind_of_ok _ completed).trans ?_
  rw [projected]

/-- A find answers the selected part of every tree, in the order of the trees, where the store
answers each of its statements with rows that hold them. -/
theorem find_of_answers {definitions : CatalogDefinition}
    (built : definitions.build = .ok executor.catalog)
    (identified : ∀ node ∈ executor.catalog.nodes, node.identifierComponents ≠ [])
    (once : ∀ node ∈ executor.catalog.nodes, (node.identifierComponents.map (·.name)).Nodup)
    (outside : ∀ node ∈ executor.catalog.nodes, ∀ component ∈ node.components,
      ¬ "__".toList <+: component.name.toList)
    {node : Node} (found : executor.catalog.node? node.name = some node) {input : Json}
    {selection : Selection} (parsed : Selection.parse executor.catalog node input = .ok selection)
    {request : Request} {query : Sql.Find}
    (compiled : Sql.find executor.catalog executor.settings selection request = .ok query)
    (shaped : ∀ tree ∈ trees, executor.catalog.Identified node.name tree ∧
      ShapesAll executor.catalog selection.fields tree)
    (coherent : CoherentAll executor.catalog selection.followups trees)
    (answers : executor.AnswersAll selection.followups trees) {state between : σ}
    {rows : List Record} (answered : executor.connector.read (.find query) state = .ok rows between)
    (holds : List.Forall₂ query.Holds trees rows) :
    ∃ after, executor.find selection request state =
      (liftM (trees.mapM selection.project) : Session σ (List Record)) after := by
  have outward := CatalogDefinition.outward_of_build built identified once outside
  obtain ⟨same, readable⟩ := Selection.readable_of_parse outward parsed
  rw [← same] at found readable shaped
  exact find_of_readable (CatalogDefinition.build_wellFormed built) outward found readable compiled
    shaped coherent answers answered holds

end Executor

namespace Samples

/-- Tasks with their owners, and all the tasks of these. -/
def ownersInput : Json :=
  .object [("id", .boolean true), ("owner", .object [("id", .boolean true),
    ("tasks", .object [("first", .integer 10),
      ("selection", .object [("id", .boolean true)])])])]

def taskId : SelectionField := .leaf "id" ⟨"Task", "id", "id", .int, false⟩

def ownersSelection : Selection :=
  ⟨task, [taskId, .edge "owner" owner [.leaf "id" ⟨"Person", "id", "id", .int, false⟩,
    .multiple "tasks" tasks ⟨none, none, 0, 10⟩ [taskId]]]⟩

/-- A record with the identifier that its row carries. -/
def marked (id : Int64) (fields : Record) : Record :=
  (Sql.identifierKey, .record [("id", .int id)]) :: ("id", .int id) :: fields

def adaOwner : Record :=
  marked 1 [("tasks", .list [.record (marked 7 []), .record (marked 8 [])])]

/-- Two tasks of one person, and a task of nobody. -/
def ownedTasks : List Record :=
  [marked 7 [("owner", .record adaOwner)], marked 8 [("owner", .record adaOwner)],
    marked 9 [("owner", .null)]]

/-- A row that holds a tree, the last column first. -/
def rowOf (query : Sql.Find) (tree : Record) : Record :=
  (query.columns.map fun column =>
    (column.label.text, tree.under (Text.splitAtPoints column.label.text))).reverse

/-- A store of the tasks. Only statements that follow up are ranked. -/
def taskConnector : Connector Unit where
  read
    | .find (.ranked ranking columns joins keys rank offset last) =>
      pure ([marked 7 [], marked 8 []].map fun item =>
        rowOf (.ranked ranking columns joins keys rank offset last) (Record.tagged ada item))
    | .find query => pure (ownedTasks.map (rowOf query))
    | _ => pure []
  write _ := pure 0

def taskExecutor : Executor Unit := ⟨boardCatalog, ⟨false, 100⟩, taskConnector⟩

def allTasks : Request := ⟨none, none, 0, none⟩

def ownerTasks : Followup := .make ["owner"] "tasks" tasks ⟨none, none, 0, 10⟩ [taskId] []

theorem holds_rowOf (query : Sql.Find) (tree : Record) : query.Holds tree (rowOf query tree) :=
  List.reverse_perm _

theorem names_person (id : Int64) : boardCatalog.Names person [("id", .int id)] := by
  intro component inside
  obtain rfl := List.mem_singleton.mp inside
  exact ⟨.int id, rfl, rfl⟩

theorem names_task (id : Int64) : boardCatalog.Names task [("id", .int id)] := by
  intro component inside
  obtain rfl := List.mem_singleton.mp inside
  exact ⟨.int id, rfl, rfl⟩

theorem identified_person (id : Int64) (fields : Record) :
    boardCatalog.Identified "Person" (marked id fields) :=
  ⟨person, [("id", .int id)], rfl, rfl, names_person id⟩

theorem identified_task (id : Int64) (fields : Record) :
    boardCatalog.Identified "Task" (marked id fields) :=
  ⟨task, [("id", .int id)], rfl, rfl, names_task id⟩

theorem shapes_taskId (id : Int64) (fields : Record) :
    SelectionField.Shapes boardCatalog taskId (marked id fields) :=
  ⟨.int id, rfl, rfl⟩

theorem ownedTasks_shaped : ∀ tree ∈ ownedTasks, boardCatalog.Identified "Task" tree ∧
    SelectionField.ShapesAll boardCatalog ownersSelection.fields tree := by
  have ada : boardCatalog.Identified "Person" adaOwner ∧ SelectionField.ShapesAll boardCatalog
      [.leaf "id" ⟨"Person", "id", "id", .int, false⟩,
        .multiple "tasks" tasks ⟨none, none, 0, 10⟩ [taskId]] adaOwner := by
    refine ⟨identified_person 1 _, ⟨.int 1, rfl, rfl⟩, ⟨[marked 7 [], marked 8 []], rfl, ?_⟩,
      trivial⟩
    simp only [List.forall_mem_cons]
    exact ⟨⟨identified_task 7 [], shapes_taskId 7 [], trivial⟩,
      ⟨identified_task 8 [], shapes_taskId 8 [], trivial⟩, by simp⟩
  simp only [ownedTasks, List.forall_mem_cons]
  exact ⟨⟨identified_task 7 _, shapes_taskId 7 _, Or.inr ⟨adaOwner, rfl, ada⟩, trivial⟩,
    ⟨identified_task 8 _, shapes_taskId 8 _, Or.inr ⟨adaOwner, rfl, ada⟩, trivial⟩,
    ⟨identified_task 9 _, shapes_taskId 9 _, Or.inl rfl, trivial⟩, by simp⟩

theorem eq_adaOwner {owner : Record} (inside : owner ∈ ownerTasks.owners ownedTasks) :
    owner = adaOwner := by
  have owners : ownerTasks.owners ownedTasks = [adaOwner, adaOwner] := rfl
  rw [owners] at inside
  simpa using inside

theorem ownedTasks_coherent :
    Followup.CoherentAll boardCatalog ownersSelection.followups ownedTasks := by
  refine ⟨⟨fun _ _ owner inside owner' inside' _ _ _ _ _ => ?_, trivial⟩, trivial⟩
  rw [eq_adaOwner inside, eq_adaOwner inside']

theorem eq_ada {parent : Node} (found : boardCatalog.node? "Person" = some parent)
    {ids : List Record} (some_ : ids ≠ [])
    (requested : Followup.Requested parent (ownerTasks.owners ownedTasks) ids) : ids = [ada] := by
  obtain rfl : person = parent := Option.some.inj found
  have each : ∀ id ∈ ids, id = ada := by
    intro id inside
    obtain ⟨owner, member, own, carried, read⟩ := requested.origin id inside
    rw [eq_adaOwner member] at carried
    cases carried
    exact (Except.ok.inj read).symm
  have repeated := List.eq_replicate_of_mem each
  have apart := requested.apart
  rw [repeated, List.map_replicate, List.nodup_replicate] at apart
  have positive := List.length_pos_iff.mpr some_
  rw [repeated, show ids.length = 1 by omega]
  rfl

theorem taskExecutor_answers : taskExecutor.AnswersAll ownersSelection.followups ownedTasks := by
  refine ⟨fun parent found ids some_ requested => ?_, trivial⟩
  obtain rfl := eq_ada found some_ requested
  obtain rfl : person = parent := Option.some.inj found
  refine ⟨_, rfl, fun state => ⟨_, state, [(ada, marked 7 []), (ada, marked 8 [])], rfl, ?_,
    .cons (holds_rowOf _ _) (.cons (holds_rowOf _ _) .nil), trivial⟩⟩
  constructor
  · simp
  · intro id inside
    obtain rfl := List.mem_singleton.mp inside
    exact ⟨adaOwner, List.mem_cons_self .., ada, rfl, rfl, rfl⟩

end Samples

open Samples

/-- All tasks with their owners: the person's tasks are read once and put into both copies of it. -/
theorem Executor.find_of_owned_tasks :
    let owned : List Value := [.record [("id", .int 7)], .record [("id", .int 8)]]
    let owner : Record := [("id", .int 1), ("tasks", .list owned)]
    ∃ after, taskExecutor.find ownersSelection allTasks () =
      .ok [[("id", .int 7), ("owner", .record owner)], [("id", .int 8), ("owner", .record owner)],
        [("id", .int 9), ("owner", .null)]] after := by
  have holds (query : Sql.Find) : List.Forall₂ query.Holds ownedTasks
      (ownedTasks.map (rowOf query)) := by
    rw [List.forall₂_map_right_iff, List.forall₂_same]
    exact fun tree _ => holds_rowOf query tree
  have parsed : Selection.parse boardCatalog task ownersInput = .ok ownersSelection := rfl
  exact Executor.find_of_answers build_board (by decide) (by decide) (by decide) rfl parsed rfl
    ownedTasks_shaped ownedTasks_coherent taskExecutor_answers rfl (holds _)

end LiveQuery
