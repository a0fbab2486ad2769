import LiveQuery.Execution.Loader
import LiveQuery.Proofs.Entries
import LiveQuery.Proofs.Impact.Staleness
import LiveQuery.Proofs.Selection.Merge

set_option autoImplicit false

namespace LiveQuery

variable {σ : Type} {catalog : Catalog} {node : Node} {store : Store}

/-- What is known of an instance is what a store has of it: its selected values, or that there is
none with this identifier. -/
def Cached.Holds (catalog : Catalog) (node : Node) (store : Store) (id : Record) (known : Cached) :
    Prop :=
  match known.value with
  | none => ∀ row ∈ store node.name, node.identifierOf row ≠ .ok id
  | some value => ∃ row ∈ store node.name, node.identifierOf row = .ok id ∧
      Record.same value (store.selectedAll catalog known.selection.fields row) = true

structure Cached.Exact (catalog : Catalog) (node : Node) (store : Store) (key : String)
    (known : Cached) : Prop where
  on_node : known.selection.node = node
  fits : known.selection.fits catalog = true
  holds : ∃ id : Record, id.text = key ∧ known.Holds catalog node store id

/-- No key occurs twice, and every entry is what fetching its selection yields. -/
structure Cache.Exact (catalog : Catalog) (node : Node) (store : Store) (cache : Cache) : Prop where
  unique : cache.keys.Nodup
  exact : ∀ entry ∈ cache, entry.2.Exact catalog node store entry.1

namespace Loader

variable (loader : Loader σ)

/-- The loading that is left behind, whether or not the action succeeds. -/
def left {α : Type} : EStateM.Result ExecutionError (Loading σ) α → Loading σ
  | .ok _ loading => loading
  | .error _ loading => loading

theorem liftStatement_bind {α β : Type} (result : Except StatementError α)
    (next : α → LoadingSession σ β) (loading : Loading σ) :
    (liftStatement result >>= next) loading =
      match result with
      | .ok value => next value loading
      | .error error => .error (.sql (.statement error)) loading := by
  cases result <;> rfl

theorem liftStatement_append {α β : Type} (result : Except StatementError α)
    (next : α → Except StatementError β) :
    (liftStatement (result >>= next) : LoadingSession σ β) =
      liftStatement result >>= fun value => liftStatement (next value) := by
  cases result <;> rfl

/-- What a fetch asks the store for. -/
def asked (ids : List Record) (selection : Selection) :
    Except StatementError (Selection × Filter) := do
  let identifier ← Selection.identifier loader.executor.catalog loader.node
  let merged ← selection.merge identifier
  let filters ← ids.mapM (Filter.identifier loader.executor.catalog loader.node)
  let filter ← Filter.junction loader.node .any filters
  return (merged, filter)

/-- The entry of an instance that is not there. -/
def absent (selection : Selection) (cache : Cache) (id : Record) : Cache :=
  cache.insert id.text ⟨selection, none⟩

theorem fetch_eq (ids : List Record) (selection : Selection) (loading : Loading σ) :
    loader.fetch ids selection loading =
      match loader.asked ids selection with
      | .error error => .error (.sql (.statement error)) loading
      | .ok (merged, filter) =>
        match loader.executor.find merged ⟨some filter, none, 0, none⟩ loading.store with
        | .error error store => .error error { loading with store }
        | .ok values store =>
          loader.remember merged values ⟨ids.foldl (absent merged) loading.cache, store⟩ := by
  have steps : loader.fetch ids selection =
      (do
        let (merged, filter) ← liftStatement (loader.asked ids selection)
        let values ← liftM (loader.executor.find merged ⟨some filter, none, 0, none⟩)
        modify fun loading => { loading with cache := ids.foldl (absent merged) loading.cache }
        loader.remember merged values) := by
    unfold fetch asked
    simp only [liftStatement_append, bind_assoc]
    rfl
  rw [steps, liftStatement_bind]
  cases loader.asked ids selection with
  | error => rfl
  | ok asked =>
    obtain ⟨merged, filter⟩ := asked
    simp only [bind, EStateM.bind, liftM, monadLift, MonadLift.monadLift]
    cases loader.executor.find merged ⟨some filter, none, 0, none⟩ loading.store <;> rfl

theorem asked_fits {loader : Loader σ} {ids : List Record} {selection merged : Selection}
    {filter : Filter} (wellFormed : loader.executor.catalog.WellFormed)
    (found : loader.executor.catalog.node? loader.node.name = some loader.node)
    (fits : selection.fits loader.executor.catalog = true)
    (asked : loader.asked ids selection = .ok (merged, filter)) :
    merged.node = selection.node ∧ merged.fits loader.executor.catalog = true := by
  unfold Loader.asked at asked
  obtain ⟨identifier, identified, asked⟩ := Outcome.bind_eq_ok.mp asked
  obtain ⟨joined, merges, asked⟩ := Outcome.bind_eq_ok.mp asked
  obtain ⟨filters, -, asked⟩ := Outcome.bind_eq_ok.mp asked
  obtain ⟨whole, -, asked⟩ := Outcome.bind_eq_ok.mp asked
  cases asked
  exact Selection.merge_fits fits (Selection.identifier_fits wellFormed found identified).2 merges

end Loader

/-- A value that was read has what the selection yields of a row, and is known by the row's
identifier. -/
structure Selection.Reads (catalog : Catalog) (store : Store) (selection : Selection)
    (row value : Record) : Prop where
  named : ∃ id, selection.node.identifierOf row = .ok id ∧
    selection.node.identifierOf value = .ok id
  same : Record.same value (store.selectedAll catalog selection.fields row) = true

/-- The rows that identifiers name are read, in any order. -/
def Selection.Answered (catalog : Catalog) (store : Store) (selection : Selection)
    (ids values : List Record) : Prop :=
  ∃ rows : List Record,
    rows.Perm ((store selection.node.name).filter fun row =>
      ids.any fun id => decide (selection.node.key row = selection.node.key id)) ∧
    List.Forall₂ (selection.Reads catalog store) rows values

/-- Nothing is known of an instance yet, but its row is among those that are still to come. -/
def Cached.Pending (store : Store) (selection : Selection) (rows : List Record) (key : String)
    (known : Cached) : Prop :=
  known = ⟨selection, none⟩ ∧ ∃ id : Record, id.text = key ∧
    ∀ row ∈ store selection.node.name, selection.node.identifierOf row = .ok id → row ∈ rows

theorem Cached.Pending.tail {selection : Selection} {row : Record} {rows : List Record}
    {key : String} {known : Cached} (pending : known.Pending store selection (row :: rows) key)
    {id : Record} (named : selection.node.identifierOf row = .ok id) (apart : key ≠ id.text) :
    known.Pending store selection rows key := by
  obtain ⟨rfl, id', rfl, among⟩ := pending
  refine ⟨rfl, id', rfl, fun other inside named' => ?_⟩
  rcases List.mem_cons.mp (among other inside named') with rfl | behind
  · rw [named, Except.ok.injEq] at named'
    exact absurd (congrArg Record.text named'.symm) apart
  · exact behind

namespace Loader

variable {loader : Loader σ} {selection : Selection}

/-- Taking in what was read settles every entry. -/
theorem remember_spec (fits : selection.fits catalog = true) (on_node : selection.node = loader.node)
    {rows values : List Record} (read : List.Forall₂ (selection.Reads catalog store) rows values)
    (inside : ∀ row ∈ rows, row ∈ store selection.node.name) {loading : Loading σ}
    (unique : loading.cache.keys.Nodup)
    (entries : ∀ entry ∈ loading.cache, entry.2.Exact catalog selection.node store entry.1 ∨
      entry.2.Pending store selection rows entry.1) :
    ∃ loading', loader.remember selection values loading = .ok () loading' ∧
      loading'.cache.Exact catalog selection.node store := by
  -- along the rows still to come: each value settles the entry of its row, whatever it held before
  induction read generalizing loading with
  | nil =>
    refine ⟨loading, rfl, unique, fun entry member => ?_⟩
    refine (entries entry member).elim id fun pending => ?_
    obtain ⟨known, id, named, among⟩ := pending
    rw [known]
    exact ⟨rfl, fits, id, named, fun row stored identified =>
      absurd (among row stored identified) List.not_mem_nil⟩
  | @cons row value rows values reads _ ih =>
    obtain ⟨id, named, named'⟩ := reads.named
    rw [List.forall_mem_cons] at inside
    have taken : loader.remember selection (value :: values) loading = loader.remember selection
        values { loading with cache := loading.cache.insert id.text ⟨selection, some value⟩ } := by
      rw [remember, liftStatement_bind, ← on_node, named']
      rfl
    rw [taken]
    refine ih inside.2 (Entries.nodup_insert unique) fun entry member => ?_
    rcases Entries.mem_insert_cases unique member with rfl | ⟨apart, older⟩
    · exact Or.inl ⟨rfl, fits, id, rfl, row, inside.1, named, reads.same⟩
    · exact (entries entry older).imp_right fun pending => pending.tail named apart

theorem foldl_absent_spec {ids : List Record} {cache : Cache} (unique : cache.keys.Nodup) :
    (ids.foldl (absent selection) cache).keys.Nodup ∧
      ∀ entry ∈ ids.foldl (absent selection) cache,
        entry ∈ cache ∨ ∃ id ∈ ids, entry = (id.text, ⟨selection, none⟩) := by
  induction ids generalizing cache with
  | nil => exact ⟨unique, fun _ => Or.inl⟩
  | cons id rest ih =>
    obtain ⟨apart, noted⟩ := @ih (absent selection cache id) (Entries.nodup_insert unique)
    refine ⟨apart, fun entry inside => ?_⟩
    rcases noted entry inside with first | ⟨other, behind, same⟩
    · rcases Entries.mem_insert_cases unique first with same | ⟨-, older⟩
      · exact Or.inr ⟨id, List.mem_cons_self .., same⟩
      · exact Or.inl older
    · exact Or.inr ⟨other, List.mem_cons_of_mem _ behind, same⟩

/-- Whatever rows are found for a request are those of a store. -/
def Truthful (loader : Loader σ) (store : Store) (ids : List Record) (selection : Selection)
    (state : σ) : Prop :=
  ∀ merged filter, loader.asked ids selection = .ok (merged, filter) → ∀ values state',
    loader.executor.find merged ⟨some filter, none, 0, none⟩ state = .ok values state' →
      merged.Answered loader.executor.catalog store ids values

/-- What is read for some misses is a selection on the node. -/
theorem misses_fits {cache : Cache}
    (cached : cache.Exact loader.executor.catalog loader.node store) {wide : Selection}
    (fits : wide.fits loader.executor.catalog = true) (on_node : wide.node = loader.node)
    {missed ids : List Record} :
    (misses cache selection wide missed ids).1.fits loader.executor.catalog = true ∧
      (misses cache selection wide missed ids).1.node = loader.node := by
  induction ids generalizing wide missed with
  | nil => exact ⟨fits, on_node⟩
  | cons id rest ih =>
    unfold misses
    cases present : cache.get? id.text with
    | none => exact ih fits on_node
    | some known =>
      have exact := cached.exact _ (Entries.mem_of_get? present)
      simp only
      split
      · exact ih fits on_node
      · cases merges : wide.merge known.selection with
        | error => exact ih fits on_node
        | ok merged =>
          obtain ⟨same, fits⟩ := Selection.merge_fits fits exact.fits merges
          exact ih fits (same.trans on_node)

section Loading

variable (wellFormed : loader.executor.catalog.WellFormed)
  (found : loader.executor.catalog.node? loader.node.name = some loader.node)

include wellFormed found

theorem mem_of_answered (consistent : store.Consistent loader.executor.catalog)
    {ids rows : List Record}
    (answered : rows.Perm ((store loader.node.name).filter fun row =>
      ids.any fun id => decide (loader.node.key row = loader.node.key id)))
    {id row : Record} (missed : id ∈ ids) (inside : row ∈ store loader.node.name)
    (named : loader.node.identifierOf row = .ok id) : row ∈ rows := by
  have key := (Node.identifierOf_spec wellFormed found (consistent.names found inside)
    (fun _ _ _ same => same) named).2
  refine answered.mem_iff.mpr (List.mem_filter.mpr ⟨inside, ?_⟩)
  exact List.any_eq_true.mpr ⟨id, missed, decide_eq_true key.symm⟩

theorem fetch_exact (consistent : store.Consistent loader.executor.catalog)
    (fits : selection.fits loader.executor.catalog = true) (on_node : selection.node = loader.node)
    {ids : List Record} {loading : Loading σ}
    (cached : loading.cache.Exact loader.executor.catalog loader.node store)
    (truthful : loader.Truthful store ids selection loading.store) :
    (left (loader.fetch ids selection loading)).cache.Exact loader.executor.catalog loader.node
      store := by
  rw [fetch_eq]
  cases asked : loader.asked ids selection with
  | error => exact cached
  | ok pair =>
    obtain ⟨merged, filter⟩ := pair
    obtain ⟨same, fits⟩ := asked_fits wellFormed found fits asked
    have here : merged.node = loader.node := same.trans on_node
    simp only
    cases answer : loader.executor.find merged ⟨some filter, none, 0, none⟩ loading.store with
    | error => exact cached
    | ok values state =>
      obtain ⟨rows, among, read⟩ := truthful merged filter asked values state answer
      have noting : (ids.foldl (absent merged) loading.cache).keys.Nodup ∧
          ∀ entry ∈ ids.foldl (absent merged) loading.cache,
            entry ∈ loading.cache ∨ ∃ id ∈ ids, entry = (id.text, ⟨merged, none⟩) :=
        foldl_absent_spec cached.unique
      have inside : ∀ row ∈ rows, row ∈ store merged.node.name := fun row member =>
        (List.mem_filter.mp (among.mem_iff.mp member)).1
      rw [here] at among
      obtain ⟨loading', taken, settled⟩ : ∃ loading',
          loader.remember merged values ⟨ids.foldl (absent merged) loading.cache, state⟩ =
            .ok () loading' ∧ loading'.cache.Exact loader.executor.catalog merged.node store := by
        refine remember_spec fits here read inside noting.1 fun entry member => ?_
        rcases noting.2 entry member with older | ⟨id, missed, rfl⟩
        · rw [here]
          exact Or.inl (cached.exact entry older)
        · refine Or.inr ⟨rfl, id, rfl, ?_⟩
          rw [here]
          exact fun row => mem_of_answered wellFormed found consistent among missed
      simp only [taken]
      rw [← here]
      exact settled

end Loading

/-- What a load reads of the instances that the cache does not serve. -/
def request (loader : Loader σ) (cache : Cache) (given : List Record) (selection : Selection) :
    Except StatementError (Selection × List Record) := do
  let ids ← given.mapM loader.node.identifierOf
  return misses cache selection selection [] ids

theorem left_liftStatement {α : Type} (result : Except StatementError α) (loading : Loading σ) :
    left (liftStatement result loading) = loading := by
  cases result <;> rfl

theorem get_bind {α : Type} (next : Loading σ → LoadingSession σ α) (loading : Loading σ) :
    ((get : LoadingSession σ (Loading σ)) >>= next) loading = next loading loading := rfl

theorem left_read {α β : Type} (action : LoadingSession σ α)
    (read : Loading σ → Except StatementError β) (loading : Loading σ) :
    left ((action >>= fun _ => get >>= fun now => liftStatement (read now)) loading) =
      left (action loading) := by
  have after : ∀ now : Loading σ,
      left ((get >>= fun now => liftStatement (read now)) now) = now := fun now =>
    left_liftStatement (read now) now
  simp only [bind, EStateM.bind] at after ⊢
  cases action loading with
  | error => rfl
  | ok value now => exact after now

/-- A load leaves everything as it is, or leaves what fetching its request leaves. -/
theorem loadMany_left (loader : Loader σ) (given : List Record) (selection : Selection)
    (loading : Loading σ) :
    left (loader.loadMany given selection loading) = loading ∨
      selection.node.name = loader.node.name ∧
        ∃ wide missed, loader.request loading.cache given selection = .ok (wide, missed) ∧
          left (loader.loadMany given selection loading) =
            left (loader.fetch missed wide loading) := by
  unfold loadMany request
  by_cases here : selection.node.name = loader.node.name
  · simp only [here, ne_eq, not_true_eq_false, ↓reduceIte, liftStatement_bind]
    cases given.mapM loader.node.identifierOf with
    | error => exact Or.inl rfl
    | ok ids =>
      simp only [Outcome.ok_bind, get_bind]
      cases served : (misses loading.cache selection selection [] ids).2.isEmpty with
      | true => exact Or.inl (left_liftStatement (ids.mapM (serve loading.cache selection)) loading)
      | false =>
        refine Or.inr ⟨trivial, _, _, rfl, ?_⟩
        exact left_read _ (fun now => ids.mapM (serve now.cache selection)) loading
  · left
    simp only [here, ne_eq, not_false_eq_true, ↓reduceIte, liftStatement_bind]
    rfl

/-- The loadings that loads lead to while the store behind the loader stays as it is. -/
inductive Reached (loader : Loader σ) (store : Store) : Loading σ → Prop
  | empty (state : σ) : Reached loader store ⟨[], state⟩
  | load {loading : Loading σ} (reached : Reached loader store loading) {selection : Selection}
      (fits : selection.fits loader.executor.catalog = true) (given : List Record)
      (truthful : ∀ wide missed, loader.request loading.cache given selection = .ok (wide, missed) →
        loader.Truthful store missed wide loading.store) :
      Reached loader store (left (loader.loadMany given selection loading))

theorem loadMany_exact (wellFormed : loader.executor.catalog.WellFormed)
    (found : loader.executor.catalog.node? loader.node.name = some loader.node)
    (consistent : store.Consistent loader.executor.catalog)
    (fits : selection.fits loader.executor.catalog = true) (given : List Record)
    {loading : Loading σ}
    (cached : loading.cache.Exact loader.executor.catalog loader.node store)
    (truthful : ∀ wide missed, loader.request loading.cache given selection = .ok (wide, missed) →
      loader.Truthful store missed wide loading.store) :
    (left (loader.loadMany given selection loading)).cache.Exact loader.executor.catalog
      loader.node store := by
  rcases loadMany_left loader given selection loading with same | ⟨here, wide, missed, asks, same⟩
  · rw [same]
    exact cached
  · have on_node : selection.node = loader.node :=
      Catalog.eq_of_name_eq (Selection.fits_iff.mp fits).1 found here
    rw [same]
    have told := truthful wide missed asks
    unfold request at asks
    obtain ⟨ids, -, asks⟩ := Outcome.bind_eq_ok.mp asks
    have missing : misses loading.cache selection selection [] ids = (wide, missed) :=
      Except.ok.inj asks
    have wider : (misses loading.cache selection selection [] ids).1.fits
          loader.executor.catalog = true ∧
        (misses loading.cache selection selection [] ids).1.node = loader.node :=
      misses_fits cached fits on_node
    rw [missing] at wider
    exact fetch_exact wellFormed found consistent wider.1 wider.2 cached told

/-- Whatever loads leave in the cache is what the store has. -/
theorem Reached.exact {loading : Loading σ} (reached : loader.Reached store loading)
    (wellFormed : loader.executor.catalog.WellFormed)
    (found : loader.executor.catalog.node? loader.node.name = some loader.node)
    (consistent : store.Consistent loader.executor.catalog) :
    loading.cache.Exact loader.executor.catalog loader.node store := by
  induction reached with
  | empty => exact ⟨List.nodup_nil, fun _ inside => absurd inside List.not_mem_nil⟩
  | load _ fits given truthful ih =>
    exact loadMany_exact wellFormed found consistent fits given ih truthful

end Loader

end LiveQuery
