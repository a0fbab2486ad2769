import LiveQuery.Proofs.Execution.Cache
import LiveQuery.Proofs.Impact.Reordering

set_option autoImplicit false

namespace LiveQuery

section Identifying

variable {catalog : Catalog} {change : Change} {before after : Store} {front back : List Record}
  {old new : Option Record} {node : Node} {record row row' : Record}

theorem Node.identify_of_tells {components : List Component} {known id : Record}
    (told : ∀ component ∈ components, ∀ value, record.get? component.name = some value →
      row.get? component.name = some value)
    (read : node.identify record known components = .ok id) :
    node.identify row known components = .ok id := by
  induction components generalizing known with
  | nil => exact read
  | cons component rest ih =>
    rw [List.forall_mem_cons] at told
    unfold identify at read ⊢
    cases stored : record.get? component.name with
    | none => simp only [stored, reduceCtorEq] at read
    | some value =>
      simp only [stored, told.1 value stored] at read ⊢
      obtain ⟨coerced, converts, read⟩ := Outcome.bind_eq_ok.mp read
      rw [converts, Outcome.ok_bind]
      exact ih told.2 read

theorem Node.Tells.identifierOf_eq {id : Record} (tells : node.Tells record row)
    (read : node.identifierOf record = .ok id) : node.identifierOf row = .ok id :=
  identify_of_tells (fun component inside => tells component (mem_of_identifier inside)) read

theorem Change.Replaces.identifierOf_old
    (replaces : change.Replaces catalog before after front back old new) (same : old = some row) :
    change.node.identifierOf row = .ok change.identifier := by
  have read := replaces.identifier
  have carries := replaces.carries
  generalize change.transition = transition at read carries
  cases carries with
  | creation => cases same
  | update tells | deletion tells =>
    cases same
    exact tells.identifierOf_eq read

/-- So has a row that comes to a store which has no row with its identifier yet. -/
theorem Change.Replaces.identifierOf_new
    (replaces : change.Replaces catalog before after front back old new) (same : new = some row)
    (preserves : ∀ row row', Persists change.node before after row row' →
      change.node.identifierOf row' = change.node.identifierOf row)
    (keeps : ∀ row row', old = some row → new = some row' →
      change.node.key row = change.node.key row') :
    change.node.identifierOf row = .ok change.identifier := by
  cases former : old with
  | none =>
    have read := replaces.identifier
    have carries := replaces.carries
    generalize change.transition = transition at read carries
    cases carries with
    | creation tells =>
      cases same
      exact tells.identifierOf_eq read
    | update | deletion => cases former
  | some row' =>
    rw [preserves row' row ⟨replaces.old_mem former, replaces.new_mem same,
      keeps row' row former same⟩]
    exact replaces.identifierOf_old former

end Identifying

section Moving

variable {catalog : Catalog} {change : Change} {before after : Store} {node : Node} {row : Record}

theorem Change.Commits.mem_after (commits : change.Commits catalog before after)
    (found : catalog.node? node.name = some node) (inside : row ∈ before node.name)
    (other : node.name = change.node.name → node.identifierOf row ≠ .ok change.identifier) :
    row ∈ after node.name := by
  obtain ⟨front, back, old, new, replaces, -⟩ := commits.replaced
  by_cases here : node.name = change.node.name
  · obtain rfl := Catalog.eq_of_name_eq found replaces.node here
    rw [replaces.before_eq, mem_split_iff] at inside
    rw [replaces.after_eq, mem_split_iff]
    exact Or.inl (inside.resolve_right fun former =>
      other rfl (replaces.identifierOf_old former))
  · rw [replaces.elsewhere node.name here]
    exact inside

theorem Change.Commits.mem_before (commits : change.Commits catalog before after)
    (preserves : ∀ row row', Persists change.node before after row row' →
      change.node.identifierOf row' = change.node.identifierOf row)
    (found : catalog.node? node.name = some node) (inside : row ∈ after node.name)
    (other : node.name = change.node.name → node.identifierOf row ≠ .ok change.identifier) :
    row ∈ before node.name := by
  obtain ⟨front, back, old, new, replaces, keeps⟩ := commits.replaced
  by_cases here : node.name = change.node.name
  · obtain rfl := Catalog.eq_of_name_eq found replaces.node here
    rw [replaces.after_eq, mem_split_iff] at inside
    rw [replaces.before_eq, mem_split_iff]
    exact Or.inl (inside.resolve_right fun later =>
      other rfl (replaces.identifierOf_new later preserves keeps))
  · rw [← replaces.elsewhere node.name here]
    exact inside

end Moving

namespace Loader

variable {σ : Type} {catalog : Catalog} {change : Change}

theorem staleKeys_spec {entries : List (String × Cached)} {keys : List String}
    (computed : staleKeys catalog change entries = .ok keys) {entry : String × Cached}
    (inside : entry ∈ entries) (kept : entry.1 ∉ keys) :
    isStale catalog change entry.2 = .ok false := by
  induction entries generalizing keys with
  | nil => cases inside
  | cons first rest ih =>
    unfold staleKeys at computed
    obtain ⟨stale, judged, computed⟩ := Outcome.bind_eq_ok.mp computed
    obtain ⟨others, behind, computed⟩ := Outcome.bind_eq_ok.mp computed
    cases computed
    rcases List.mem_cons.mp inside with rfl | member
    · cases stale with
      | false => exact judged
      | true => exact absurd (List.mem_cons_self ..) kept
    · refine ih behind member fun listed => kept ?_
      cases stale with
      | false => exact listed
      | true => exact List.mem_cons_of_mem _ listed

theorem exists_staleKeys {entries : List (String × Cached)}
    (each : ∀ entry ∈ entries, ∃ stale, isStale catalog change entry.2 = .ok stale) :
    ∃ keys, staleKeys catalog change entries = .ok keys := by
  induction entries with
  | nil => exact ⟨[], rfl⟩
  | cons entry rest ih =>
    rw [List.forall_mem_cons] at each
    obtain ⟨stale, judged⟩ := each.1
    obtain ⟨keys, behind⟩ := ih each.2
    unfold staleKeys
    rw [judged, Outcome.ok_bind, behind]
    exact ⟨_, rfl⟩

theorem isStale_eq_false {known : Cached} {value : Record} (present : known.value = some value)
    (kept : isStale catalog change known = .ok false) :
    known.selection.stale catalog change = .ok none ∨
      ∃ stale, known.selection.stale catalog change = .ok (some stale) ∧
        stale.execute value = .ok false := by
  unfold isStale at kept
  simp only [present] at kept
  obtain ⟨affected, computed, kept⟩ := Outcome.bind_eq_ok.mp kept
  cases affected with
  | none => exact Or.inl computed
  | some stale =>
    refine Or.inr ⟨stale, computed, ?_⟩
    simp only at kept
    cases executed : stale.execute value with
    | ok matched =>
      rw [executed] at kept
      exact kept
    | error =>
      rw [executed] at kept
      cases kept

/-- The cache without the changed instance. -/
def others (loader : Loader σ) (change : Change) (cache : Cache) : Cache :=
  if change.node.name = loader.node.name then cache.erase change.identifier.text else cache

theorem others_spec {loader : Loader σ} {cache : Cache} (unique : cache.keys.Nodup) :
    (loader.others change cache).keys.Nodup ∧ ∀ entry ∈ loader.others change cache,
      entry ∈ cache ∧ (loader.node.name = change.node.name →
        entry.1 ≠ change.identifier.text) := by
  unfold others
  by_cases here : change.node.name = loader.node.name
  · rw [if_pos here]
    exact ⟨Entries.nodup_erase unique, fun entry inside =>
      ⟨Entries.erase_sublist.subset inside, fun _ => Entries.ne_of_mem_erase unique inside⟩⟩
  · rw [if_neg here]
    exact ⟨unique, fun entry inside => ⟨inside, fun same => absurd same.symm here⟩⟩

theorem invalidate_eq (loader : Loader σ) (change : Change) (loading : Loading σ) :
    loader.invalidate change loading =
      match staleKeys loader.executor.catalog change (loader.others change loading.cache) with
      | .error error =>
        .error (.sql (.statement error)) ⟨loader.others change loading.cache, loading.store⟩
      | .ok keys =>
        .ok () ⟨keys.foldl Entries.erase (loader.others change loading.cache), loading.store⟩ := by
  have judged : ∀ now : Loading σ, (do
      let keys ← liftStatement (staleKeys loader.executor.catalog change (← get).cache)
      modify fun loading => { loading with cache := keys.foldl Entries.erase loading.cache } :
        LoadingSession σ Unit) now =
      match staleKeys loader.executor.catalog change now.cache with
      | .error error => .error (.sql (.statement error)) now
      | .ok keys => .ok () ⟨keys.foldl Entries.erase now.cache, now.store⟩ := by
    intro now
    rw [get_bind, liftStatement_bind]
    cases staleKeys loader.executor.catalog change now.cache <;> rfl
  unfold invalidate others
  by_cases here : change.node.name = loader.node.name
  · simp only [here, ↓reduceIte]
    exact judged { loading with cache := loading.cache.erase change.identifier.text }
  · simp only [here, ↓reduceIte]
    exact judged loading

/-- What an invalidation keeps is not the changed instance, and was not found stale. -/
theorem invalidate_spec {loader : Loader σ} {loading loading' : Loading σ}
    (unique : loading.cache.keys.Nodup)
    (done : loader.invalidate change loading = .ok () loading') :
    loading'.cache.keys.Nodup ∧ ∀ entry ∈ loading'.cache, entry ∈ loading.cache ∧
      isStale loader.executor.catalog change entry.2 = .ok false ∧
        (loader.node.name = change.node.name → entry.1 ≠ change.identifier.text) := by
  rw [invalidate_eq] at done
  obtain ⟨unique, among⟩ := others_spec unique
  cases computed : staleKeys loader.executor.catalog change
      (loader.others change loading.cache) with
  | error error =>
    rw [computed] at done
    cases done
  | ok keys =>
    rw [computed] at done
    cases done
    obtain ⟨unique, left⟩ := Entries.foldl_erase_spec unique
    refine ⟨unique, fun entry inside => ?_⟩
    obtain ⟨inside, kept⟩ := left entry inside
    exact ⟨(among entry inside).1, staleKeys_spec computed inside kept, (among entry inside).2⟩

end Loader

namespace Cached

variable {catalog : Catalog} {change : Change} {before after : Store} {node : Node}

/-- Where the affected filter rejects the cached value of a row, it rejects some record that shows
all of the row. -/
def Decides (catalog : Catalog) (change : Change) (store : Store) (row : Record) (known : Cached) :
    Prop :=
  ∃ record, known.selection.shown catalog store row record ∧
    ∀ value, known.value = some value → ∀ stale,
      known.selection.stale catalog change = .ok (some stale) →
        stale.execute value = .ok false → stale.execute record = .ok false

/-- A cached value that shows all of the row decides as such. -/
theorem decides_of_shown {store : Store} {row value : Record} {known : Cached}
    (present : known.value = some value) (shown : known.selection.shown catalog store row value) :
    known.Decides catalog change store row := by
  refine ⟨value, shown, fun other same stale _ rejected => ?_⟩
  rw [present, Option.some.injEq] at same
  exact same ▸ rejected

/-- The row of an entry, if the change leaves it in the store, is one whose windows are steady and
about which the cached value decides. -/
def Judged (catalog : Catalog) (change : Change) (node : Node) (before after : Store) (key : String)
    (known : Cached) : Prop :=
  ∀ row ∈ before node.name, row ∈ after node.name →
    (∃ id, node.identifierOf row = .ok id ∧ id.text = key) →
      SelectionField.steadyAll catalog change known.selection.fields before after row row ∧
        known.Decides catalog change before row

/-- A value that was found not to be stale is the one that the selection yields after the change. -/
theorem same_of_not_stale (transit : Transit catalog change before after) {known : Cached}
    {value row : Record} (fits : known.selection.fits catalog = true)
    (present : known.value = some value)
    (kept : Loader.isStale catalog change known = .ok false)
    (persists : Persists known.selection.node before after row row)
    (steady : SelectionField.steadyAll catalog change known.selection.fields before after row row)
    (decides : known.Decides catalog change before row)
    (same : Record.same value (before.selectedAll catalog known.selection.fields row) = true) :
    Record.same value (after.selectedAll catalog known.selection.fields row) = true := by
  obtain ⟨result, computed, covers⟩ := Selection.exists_stale transit.wellFormed transit.sound fits
  obtain ⟨record, shown, rejects⟩ := decides
  -- had the selected values moved, the affected filter would match every record that shows the row
  -- before the change, also the one that it rejects together with the cached value
  have still : Kept.selectedAll catalog change known.selection.fields before after row row := by
    by_contra lost
    obtain ⟨predicate, inside, matched⟩ := covers.detects transit persists lost (Or.inl shown)
    rw [Option.mem_toList] at inside
    rw [inside] at computed
    rcases Loader.isStale_eq_false present kept with none | ⟨stale, found, rejected⟩
    · rw [computed] at none
      cases none
    · have both := rejects value present stale found rejected
      rw [computed] at found
      cases found
      unfold Filter.execute at both
      rw [matched] at both
      cases both
  exact Value.sameFields_trans same (still steady)

/-- An entry that an invalidation keeps is what fetching its selection yields after the change. -/
theorem Exact.kept (transit : Transit catalog change before after)
    (preserves : ∀ row row', Persists change.node before after row row' →
      change.node.identifierOf row' = change.node.identifierOf row)
    (found : catalog.node? node.name = some node) {known : Cached} {key : String}
    (exact : known.Exact catalog node before key)
    (judged : known.Judged catalog change node before after key)
    (kept : Loader.isStale catalog change known = .ok false)
    (apart : node.name = change.node.name → key ≠ change.identifier.text) :
    known.Exact catalog node after key := by
  obtain ⟨on_node, fits, id, rfl, holds⟩ := exact
  have other : ∀ row, node.identifierOf row = .ok id → node.name = change.node.name →
      node.identifierOf row ≠ .ok change.identifier := by
    intro row named here changed
    rw [named, Except.ok.injEq] at changed
    exact apart here (congrArg Record.text changed)
  refine ⟨on_node, fits, id, rfl, ?_⟩
  unfold Holds at holds ⊢
  cases present : known.value with
  | none =>
    simp only [present] at holds
    intro row inside named
    exact holds row (transit.mem_before preserves found inside (other row named)) named
  | some value =>
    simp only [present] at holds
    obtain ⟨row, inside, named, same⟩ := holds
    have stays := transit.mem_after found inside (other row named)
    obtain ⟨steady, decides⟩ := judged row inside stays ⟨id, named, rfl⟩
    refine ⟨row, stays, named, same_of_not_stale transit fits present kept ?_ steady decides same⟩
    rw [on_node]
    exact ⟨inside, stays, rfl⟩

end Cached

/-- Every cached selection can be analysed, so that an invalidation always comes to its end. -/
theorem Loader.exists_invalidated {σ : Type} {loader : Loader σ} {change : Change}
    {before after : Store} (transit : Transit loader.executor.catalog change before after)
    {loading : Loading σ}
    (cached : loading.cache.Exact loader.executor.catalog loader.node before) :
    ∃ loading', loader.invalidate change loading = .ok () loading' := by
  have each : ∀ entry ∈ loader.others change loading.cache,
      ∃ stale, isStale loader.executor.catalog change entry.2 = .ok stale := by
    intro entry inside
    have fits := (cached.exact entry ((others_spec cached.unique).2 entry inside).1).fits
    obtain ⟨result, computed, -⟩ := Selection.exists_stale transit.wellFormed transit.sound fits
    unfold isStale
    cases entry.2.value with
    | none => exact ⟨false, rfl⟩
    | some value =>
      cases result with
      | none => exact ⟨false, by simp only [computed, Outcome.ok_bind]; rfl⟩
      | some predicate =>
        simp only [computed, Outcome.ok_bind, Option.map_some]
        cases Filter.execute ⟨entry.2.selection.node, predicate⟩ value with
        | ok matched => exact ⟨matched, rfl⟩
        | error => exact ⟨true, rfl⟩
  obtain ⟨keys, computed⟩ := exists_staleKeys each
  rw [invalidate_eq, computed]
  exact ⟨_, rfl⟩

/-- An invalidation comes to its end, and whatever it leaves in a cache that loads have filled is what
fetching would yield from the store after the change, as long as the windows below stay steady and
every cached value that the affected filter rejects is that of a row whose full record it rejects
too. -/
theorem Loader.exact_of_invalidate {σ : Type} {loader : Loader σ}
    {definitions : CatalogDefinition} (built : definitions.build = .ok loader.executor.catalog)
    (found : loader.executor.catalog.node? loader.node.name = some loader.node)
    {change : Change} {before after : Store}
    (commits : change.Commits loader.executor.catalog before after)
    (preserves : ∀ row row', Persists change.node before after row row' →
      change.node.identifierOf row' = change.node.identifierOf row)
    {loading : Loading σ} (reached : loader.Reached before loading) :
    ∃ loading', loader.invalidate change loading = .ok () loading' ∧
      ((∀ entry ∈ loading'.cache,
        entry.2.Judged loader.executor.catalog change loader.node before after entry.1) →
      loading'.cache.Exact loader.executor.catalog loader.node after) := by
  have wellFormed := CatalogDefinition.build_wellFormed built
  have cached := reached.exact wellFormed found commits.consistent
  obtain ⟨loading', done⟩ := exists_invalidated ⟨commits, wellFormed⟩ cached
  obtain ⟨unique, kept⟩ := invalidate_spec cached.unique done
  refine ⟨loading', done, fun judged => ⟨unique, fun entry inside => ?_⟩⟩
  obtain ⟨older, fresh, apart⟩ := kept entry inside
  exact (cached.exact entry older).kept ⟨commits, wellFormed⟩ preserves found
    (judged entry inside) fresh apart

namespace Samples

/-- People with their identifiers and their first tasks. -/
def rota : Selection := ⟨person, .leaf "id" ⟨"Person", "id", "id", .int, false⟩ :: duties.fields⟩

def idle (id : Int64) : Record := [("id", .int id), ("tasks", .list [])]

/-- A loader of people, before a store that always finds the two there are, without a task. -/
def loader : Loader Unit :=
  ⟨⟨boardCatalog, ⟨false, 100⟩, ⟨fun
    | .find (.direct _ _) => return [[("__id.id", .int 1), ("id", .int 1)],
        [("__id.id", .int 2), ("id", .int 2)]]
    | _ => return [], fun _ => return 0⟩⟩, person⟩

/-- What is known after both were looked for. -/
def known : Loading Unit :=
  ⟨[(ada.text, ⟨rota, some (idle 1)⟩), (grace.text, ⟨rota, some (idle 2)⟩)], ()⟩

theorem reached_known : loader.Reached (colleagues []) known := by
  have truthful : ∀ wide missed, loader.request [] [ada, grace] rota = .ok (wide, missed) →
      loader.Truthful (colleagues []) missed wide () := by
    intro wide missed asks merged filter asked values state answer
    cases asks
    cases asked
    cases answer
    exact ⟨[ada, grace], .refl _, .cons ⟨⟨ada, rfl, rfl⟩, rfl⟩ (.cons ⟨⟨grace, rfl, rfl⟩, rfl⟩ .nil)⟩
  exact .load (.empty ()) rfl [ada, grace] truthful

theorem idle_shown : rota.shown boardCatalog (colleagues []) grace (idle 2) :=
  ⟨identified_of_id rfl rfl, trivial, ⟨.list [], [], [], rfl, rfl, .refl _, .nil⟩, trivial⟩

end Samples

open Samples

/-- The first task of a person drops what is known of that person, and leaves what is known of the
other, who still has none. -/
theorem Loader.exact_of_first_task :
    ∃ left, loader.invalidate assignment known = .ok () left ∧
      left.cache = [(grace.text, ⟨rota, some (idle 2)⟩)] ∧
      left.cache.Exact boardCatalog person (colleagues [chore]) := by
  obtain ⟨left, done, exact⟩ := Loader.exact_of_invalidate build_board rfl
    commits_assignment_colleagues (fun _ _ persists => absurd persists.before List.not_mem_nil)
    reached_known
  cases done
  refine ⟨_, rfl, rfl, exact ?_⟩
  intro entry inside row stored _ named
  cases List.mem_singleton.mp inside
  rcases List.mem_pair.mp (show row ∈ [ada, grace] from stored) with rfl | rfl
  · obtain ⟨id, read, same⟩ := named
    cases read
    exact absurd same (by decide)
  · refine ⟨⟨trivial, fun node found => ⟨fun recounted => ?_, fun _ inside => ?_⟩, trivial⟩,
      Cached.decides_of_shown rfl idle_shown⟩
    · cases recounted
    · cases inside

end LiveQuery
