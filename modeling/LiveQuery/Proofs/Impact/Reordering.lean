import LiveQuery.Proofs.Impact.Staleness

set_option autoImplicit false

namespace LiveQuery

/-- An ordering that was made for a catalog. -/
def SortOrder.fits (catalog : Catalog) (order : SortOrder) : Bool :=
  catalog.node? order.node.name = some order.node &&
    order.expressions.all (·.fits catalog order.node.name)

/-- The record has what is sorted on: the row's leaf, or under the key of the count the number of
rows behind the relation. -/
def SortTarget.shown : SortTarget → View
  | .leaf field => fun _ row record =>
    ∃ value, row.get? field.name = some value ∧ record.get? field.name = some value
  | .count relation => fun store row record =>
    ∃ number : Int64, record.get? relation.countKey = some (.int number) ∧
      number.toInt = (store.children relation row).length

def SortOrder.shown (order : SortOrder) : View := fun store row record =>
  ∀ expression ∈ order.expressions, expression.target.shown store row record

section Parsing

variable {catalog : Catalog} {node : Node}

theorem SortExpression.fits_of_target? (found : catalog.node? node.name = some node) {name : String}
    {target : SortTarget} (named : SortExpression.target? node name = some target)
    (direction : Direction) : SortExpression.fits catalog node.name ⟨target, direction⟩ = true := by
  unfold SortExpression.target? at named
  split at named
  · rename_i field component
    cases named
    have fieldName : field.name = name := Node.name_of_component? component
    exact decide_eq_true (by rw [found, Option.bind_some, fieldName, component])
  · obtain ⟨stem, -, named⟩ := Option.bind_eq_some_iff.mp named
    obtain ⟨relation, related, named⟩ := Option.bind_eq_some_iff.mp named
    obtain ⟨_, -, same⟩ := Option.bind_eq_some_iff.mp named
    cases same
    have relationName : relation.name = stem := by simpa using List.find?_some related
    exact decide_eq_true (by rw [found, Option.bind_some, relationName, related])

/-- What is parsed sorts on leaves and reverse edges of the node. -/
theorem SortOrder.fits_of_parse (found : catalog.node? node.name = some node)
    {items : List String} {order : SortOrder} (parsed : parse node items = .ok order) :
    order.node = node ∧ order.fits catalog = true := by
  obtain ⟨expressions, mapped, made⟩ := Outcome.bind_eq_ok.mp parsed
  unfold make at made
  split at made
  · cases made
  · cases made
    refine ⟨rfl, ?_⟩
    rw [fits, Bool.and_eq_true, decide_eq_true_iff, List.all_eq_true]
    refine ⟨found, fun expression inside => ?_⟩
    obtain ⟨item, -, read⟩ := Outcome.exists_of_mem_mapM mapped inside
    unfold SortExpression.parse at read
    split at read
    · cases read
    · split at read
      · rename_i target named
        cases read
        exact SortExpression.fits_of_target? found named _
      · cases read

end Parsing

section Comparing

variable {store : Store} {row other record record' : Record}

/-- Records that show two rows compare as the rows do. -/
theorem SortExpression.compareRecords_of_shown {expression : SortExpression}
    (first : expression.target.shown store row record)
    (second : expression.target.shown store other record') :
    expression.compareRecords record record' = store.compareOn expression row other := by
  obtain ⟨target, direction⟩ := expression
  unfold compareRecords Store.compareOn
  congr 1
  cases target with
  | leaf field =>
    obtain ⟨value, stored, known⟩ := first
    obtain ⟨value', stored', known'⟩ := second
    simp only [SortExpression.key, SortTarget.key, stored, known, stored', known']
  | count relation =>
    obtain ⟨number, known, counted⟩ := first
    obtain ⟨number', known', counted'⟩ := second
    simp only [SortExpression.key, SortTarget.key, known, known', Option.getD_some]
    calc compareValues (.int number) (.int number')
        = compare number.toInt number'.toInt := rfl
      _ = compare (store.children relation row).length (store.children relation other).length := by
          rw [counted, counted']
          simp only [compare, compareOfLessAndEq, Int.ofNat_lt, Int.ofNat_inj]

theorem SortOrder.compareBy_of_shown {expressions : List SortExpression}
    (first : ∀ expression ∈ expressions, expression.target.shown store row record)
    (second : ∀ expression ∈ expressions, expression.target.shown store other record') :
    compareBy record record' expressions = store.compareRows expressions row other := by
  induction expressions with
  | nil => rfl
  | cons expression rest ih =>
    rw [List.forall_mem_cons] at first second
    rw [compareBy, Store.compareRows, SortExpression.compareRecords_of_shown first.1 second.1,
      ih first.2 second.2]

end Comparing

/-- A change after which two instances compare in another way is one that the ordering says affects
it. -/
theorem SortOrder.affectedBy_of_compare_ne {definitions : CatalogDefinition} {catalog : Catalog}
    (built : definitions.build = .ok catalog) {order : SortOrder}
    (fits : order.fits catalog = true) {change : Change} {before after : Store}
    (commits : change.Commits catalog before after) {x x' y y' : Record}
    (persists : Persists order.node before after x x')
    (persists' : Persists order.node before after y y') {a a' b b' : Record}
    (shownX : order.shown before x a) (shownX' : order.shown after x' a')
    (shownY : order.shown before y b) (shownY' : order.shown after y' b')
    (differs : order.compare a b ≠ order.compare a' b') : order.affectedBy change = true := by
  have transit : Transit catalog change before after :=
    ⟨commits, CatalogDefinition.build_wellFormed built⟩
  rw [SortOrder.fits, Bool.and_eq_true, decide_eq_true_iff, List.all_eq_true] at fits
  obtain ⟨found, fits⟩ := fits
  by_contra unaffected
  have still : ∀ expression ∈ order.expressions,
      expression.affectedBy order.node.name change = false := by
    rw [Bool.not_eq_true, SortOrder.affectedBy, List.any_eq_false] at unaffected
    exact fun expression inside => Bool.eq_false_iff.mpr (unaffected expression inside)
  have rows :
      before.compareRows order.expressions x y = after.compareRows order.expressions x' y' :=
    Store.compareRows_eq
      (fun expression inside => SortExpression.agrees_of_not_affected found (fits expression inside)
        (still expression inside) transit persists)
      (fun expression inside => SortExpression.agrees_of_not_affected found (fits expression inside)
        (still expression inside) transit persists')
  refine differs ?_
  calc order.compare a b = before.compareRows order.expressions x y :=
        compareBy_of_shown shownX shownY
    _ = after.compareRows order.expressions x' y' := rows
    _ = order.compare a' b' := (compareBy_of_shown shownX' shownY').symm

namespace Samples

def grace : Record := [("id", .int 2)]

/-- Two people, of whom the first may be given a task. -/
def colleagues (assigned : List Record) : Store
  | "Person" => [ada, grace]
  | "Task" => assigned
  | _ => []

theorem consistent_colleagues {assigned : List Record} (few : assigned = [] ∨ assigned = [chore]) :
    (colleagues assigned).Consistent boardCatalog := by
  have single := consistent_people few
  refine ⟨?_, ?_, ?_⟩ <;> intro name node found <;>
    rcases node?_cases found with ⟨rfl, rfl⟩ | ⟨rfl, rfl⟩
  · intro row inside component member
    cases List.mem_singleton.mp member
    rcases List.mem_pair.mp (show row ∈ [ada, grace] from inside) with rfl | rfl
    · exact ⟨.int 1, rfl, rfl⟩
    · exact ⟨.int 2, rfl, rfl⟩
  · exact single.complete found
  · intro row inside link member
    cases List.mem_singleton.mp member
  · intro row inside link member target leads
    obtain ⟨head, known, same⟩ := single.referential found row inside link member target leads
    have owns : link = owner := by simpa [task] using member
    subst owns
    exact ⟨head, List.mem_cons.mpr (Or.inl (List.mem_singleton.mp known)), same⟩
  · exact (by decide : ([ada, grace].map person.key).Nodup)
  · exact single.apart found

theorem commits_assignment_colleagues :
    assignment.Commits boardCatalog (colleagues []) (colleagues [chore]) := by
  refine ⟨consistent_colleagues (Or.inl rfl), consistent_colleagues (Or.inr rfl), [], [], none,
    some chore, ⟨rfl, rfl, ?_, rfl, rfl, .creation fun _ _ _ => id⟩, nofun⟩
  intro name other
  unfold colleagues
  split
  · rfl
  · exact absurd rfl other
  · rfl

/-- People by the number of their tasks. -/
def workload : SortOrder := ⟨person, [⟨.count tasks, .ascending⟩]⟩

/-- A person of whom it is known how many tasks there are. -/
def loaded (id number : Int64) : Record := [("id", .int id), ("tasksCount", .int number)]

end Samples

open Samples in
theorem SortOrder.affectedBy_of_first_task : workload.affectedBy assignment = true := by
  have shown {assigned : List Record} {row : Record} {id number : Int64}
      (counted : number.toInt = ((colleagues assigned).children tasks row).length) :
      workload.shown (colleagues assigned) row (loaded id number) := by
    intro expression inside
    cases List.mem_singleton.mp inside
    exact ⟨number, rfl, counted⟩
  have first : Persists person (colleagues []) (colleagues [chore]) ada ada :=
    ⟨.head _, .head _, rfl⟩
  have second : Persists person (colleagues []) (colleagues [chore]) grace grace :=
    ⟨.tail _ (.head _), .tail _ (.head _), rfl⟩
  have moved : workload.compare (loaded 1 0) (loaded 2 0) ≠
      workload.compare (loaded 1 1) (loaded 2 0) := by decide
  have parsed : SortOrder.parse person ["tasksCount_ASC"] = .ok workload := rfl
  have found : boardCatalog.node? person.name = some person := rfl
  have fits := (SortOrder.fits_of_parse found parsed).2
  exact SortOrder.affectedBy_of_compare_ne build_board fits commits_assignment_colleagues first
    second (shown rfl) (shown rfl) (shown rfl) (shown rfl) moved

end LiveQuery
