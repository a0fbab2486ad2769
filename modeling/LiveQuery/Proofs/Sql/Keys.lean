import LiveQuery.Proofs.Sql.Locating
import LiveQuery.Proofs.Sql.Placing
import LiveQuery.Proofs.Sql.Staging

set_option autoImplicit false

namespace LiveQuery

namespace Sql

/-- The sign between a relation and a key. -/
def keySign : Char := '#'

section Reading

variable {key key' : Option String} {name name' : String}

theorem toList_keyText : (keyText key).toList = (key.map (keySign :: ·.toList)).getD [] := by
  cases key with
  | none => rfl
  | some key => exact String.toList_append

theorem unmarked_append {first second : String} (plain : Unmarked first)
    (plain' : Unmarked second) : Unmarked (first ++ second) := by
  intro c inside
  rw [String.toList_append] at inside
  exact (List.mem_append.mp inside).elim (plain c) (plain' c)

theorem unmarked_keyText (unmarked : ∀ text ∈ key, Unmarked text) : Unmarked (keyText key) := by
  intro c inside
  rw [toList_keyText] at inside
  cases key with
  | none => cases inside
  | some text =>
    rcases List.mem_cons.mp inside with rfl | inside
    · rfl
    · exact unmarked text rfl c inside

theorem takeWhile_keyed (plain : keySign ∉ name.toList) :
    (name ++ keyText key).toList.takeWhile (· ≠ keySign) = name.toList := by
  rw [String.toList_append, List.takeWhile_append_of_pos fun c inside => by
    simpa using ne_of_mem_of_not_mem inside plain]
  cases key with
  | none => exact List.append_nil _
  | some key => simp [toList_keyText]

theorem eq_of_keyed (plain : keySign ∉ name.toList) (plain' : keySign ∉ name'.toList)
    (same : name ++ keyText key = name' ++ keyText key') : name = name' ∧ key = key' := by
  have names : name = name' := by
    apply String.toList_injective
    rw [← takeWhile_keyed plain, same, takeWhile_keyed plain']
  subst names
  have keys := congrArg String.toList same
  simp only [String.toList_append, List.append_cancel_left_eq, toList_keyText] at keys
  refine ⟨rfl, ?_⟩
  cases key with
  | none =>
    cases key' with
    | none => rfl
    | some => cases keys
  | some text =>
    cases key' with
    | none => cases keys
    | some text' => exact congrArg some (String.toList_injective (List.cons.inj keys).2)

theorem eq_of_segments {mark mark' : String} {rest rest' : List Char} (marks : Marks mark)
    (marks' : Marks mark') (plain : Unmarked name) (plain' : Unmarked name')
    (ends : ∀ c ∈ rest.head?, isMark c = true) (ends' : ∀ c ∈ rest'.head?, isMark c = true)
    (same : mark.toList ++ (name.toList ++ rest) = mark'.toList ++ (name'.toList ++ rest')) :
    mark = mark' ∧ name = name' ∧ rest = rest' := by
  obtain ⟨sign, -, signed⟩ := marks
  obtain ⟨sign', -, signed'⟩ := marks'
  simp only [signed, signed', List.singleton_append, List.cons.injEq] at same
  obtain ⟨rfl, behind⟩ := same
  have names : name = name' := by
    apply String.toList_injective
    rw [← takeWhile_unmarked plain ends, behind, takeWhile_unmarked plain' ends']
  subst names
  exact ⟨String.toList_injective (signed.trans signed'.symm), rfl, List.append_cancel_left behind⟩

end Reading

/-- A route that starts from a node, each relation being one of the node that it starts from. -/
def Route.From (catalog : Catalog) : Node → Route → Prop
  | _, [] => True
  | node, (relation, _) :: rest => relation.PartOf node ∧
    ∃ head, relation.head catalog = .ok head ∧ catalog.node? head.name = some head ∧
      Route.From catalog head rest

/-- No key along the route holds a mark. -/
def Route.Unmarked (route : Route) : Prop :=
  ∀ step ∈ route, ∀ key ∈ step.2, Sql.Unmarked key

theorem Route.toList_text {relation : JoinRelation} {key : Option String} {rest : Route} :
    (Route.text ((relation, key) :: rest)).toList = relation.mark.toList ++
      ((relation.name ++ keyText key).toList ++ (Route.text rest).toList) := by
  simp only [Route.text, stepText, String.toList_append, List.append_assoc]

theorem Route.marked_text (route : Route) :
    ∀ c ∈ (Route.text route).toList.head?, isMark c = true := by
  cases route with
  | nil => simp [Route.text]
  | cons step rest =>
    obtain ⟨relation, key⟩ := step
    obtain ⟨sign, marks, signed⟩ := relation.marks
    simp [Route.toList_text, signed, marks]

theorem Route.text_cons_ne {step : JoinRelation × Option String} {rest : Route} :
    Route.text (step :: rest) ≠ "" := by
  obtain ⟨relation, key⟩ := step
  obtain ⟨sign, -, signed⟩ := relation.marks
  intro empty
  have none := congrArg String.toList empty
  rw [Route.toList_text, signed] at none
  cases none

theorem keySign_not_mem {name : String} (named : isName name = true) : keySign ∉ name.toList :=
  fun inside => absurd (CatalogDefinition.isNameCharacter_of_isName named inside) (by decide)

/-- Routes from one node are told apart by what they add to an alias. -/
theorem Route.text_injective {definitions : CatalogDefinition} {catalog : Catalog}
    (built : definitions.build = .ok catalog) {node : Node}
    (found : catalog.node? node.name = some node) {route route' : Route}
    (starts : route.From catalog node) (starts' : route'.From catalog node)
    (unmarked : route.Unmarked) (unmarked' : route'.Unmarked)
    (same : Route.text route = Route.text route') : route = route' := by
  induction route generalizing node route' with
  | nil =>
    cases route' with
    | nil => rfl
    | cons => exact absurd same.symm Route.text_cons_ne
  | cons step rest ih =>
    cases route' with
    | nil => exact absurd same Route.text_cons_ne
    | cons step' rest' =>
      obtain ⟨relation, key⟩ := step
      obtain ⟨relation', key'⟩ := step'
      obtain ⟨part, head, leads, known, further⟩ := starts
      obtain ⟨part', head', leads', -, further'⟩ := starts'
      rw [Route.Unmarked, List.forall_mem_cons] at unmarked unmarked'
      have name := JoinRelation.isName_of_partOf built found part
      have name' := JoinRelation.isName_of_partOf built found part'
      have texts := congrArg String.toList same
      rw [Route.toList_text, Route.toList_text] at texts
      obtain ⟨mark, segment, behind⟩ := eq_of_segments relation.marks relation'.marks
        (unmarked_append (unmarked_of_isName name) (unmarked_keyText unmarked.1))
        (unmarked_append (unmarked_of_isName name') (unmarked_keyText unmarked'.1))
        (Route.marked_text rest) (Route.marked_text rest') texts
      obtain ⟨named, rfl⟩ := eq_of_keyed (keySign_not_mem name) (keySign_not_mem name') segment
      obtain rfl := JoinRelation.eq_of_partOf part part' mark named
      obtain rfl : head = head' := Except.ok.inj (leads.symm.trans leads')
      rw [ih known further further' unmarked.2 unmarked'.2 (String.toList_injective behind)]

/-- Joins one table after the other along a route. -/
def join (catalog : Catalog) : Route → Building Unit
  | [] => return ()
  | (relation, key) :: rest => Table.visit catalog relation key (join catalog rest)

/-- The table as joins along some routes leave it, one after the other. -/
def joinAll (catalog : Catalog) (routes : List Route) (table : Table) : Table :=
  routes.foldl (fun table route => (join catalog route).leaves table) table

/-- Each relation along the route is one of the node that it says it starts from. -/
def Route.Known (catalog : Catalog) (route : Route) : Prop :=
  ∀ step ∈ route, ∃ owner, catalog.node? step.1.owner = some owner ∧ step.1.PartOf owner

section Joining

variable {catalog : Catalog} {table : Table}

theorem JoinRelation.node?_of_head {relation : JoinRelation} {head : Node}
    (leads : relation.head catalog = .ok head) : catalog.node? head.name = some head := by
  cases relation with
  | edge link =>
    have known := SelectionField.node?_of_edgeHead leads
    rwa [← Catalog.name_of_node? known] at known
  | reverse relation =>
    have known := SelectionField.node?_of_reverseEdgeHead leads
    rwa [← Catalog.name_of_node? known] at known

theorem Building.leaves_visit {before behind : List Join} {joined : Table}
    {relation : JoinRelation} {key : Option String} {head : Node} {α : Type} (action : Building α)
    (stop : Stop catalog relation key table head before joined behind) :
    (Table.visit catalog relation key action).leaves table =
      table.withJoins (before ++ .make relation key (action.leaves joined) :: behind) := by
  unfold Building.leaves
  rw [stop.visits]
  unfold Table.within
  cases action joined <;> rfl

/-- Joins along a route give routes from the table's node and nothing else. -/
theorem grew_join {route : Route} (routed : Routed catalog table)
    (found : catalog.node? table.node.name = some table.node) (known : route.Known catalog) :
    ∃ added, Grew catalog table ((join catalog route).leaves table) added ∧
      ∀ further, added further → further.From catalog table.node := by
  induction route generalizing table with
  | nil => exact ⟨_, .refl routed, fun _ => False.elim⟩
  | cons step rest ih =>
    obtain ⟨relation, key⟩ := step
    rw [Route.Known, List.forall_mem_cons] at known
    obtain ⟨⟨owner, owned, part⟩, later⟩ := known
    by_cases passable : Passable catalog relation table.node
    · obtain ⟨starts, single, head, leads⟩ := passable
      obtain ⟨before, joined, behind, stop⟩ := routed.stop key starts single leads
      obtain rfl : owner = table.node := by
        rw [starts, found] at owned
        exact (Option.some.inj owned).symm
      have known := JoinRelation.node?_of_head leads
      have node : joined.node = head := stop.stands.node
      obtain ⟨added, grew, from_⟩ := ih stop.routed (node ▸ known) later
      rw [join, Building.leaves_visit _ stop]
      refine ⟨_, stop.grew routed leads grew, ?_⟩
      rintro _ ⟨tail, rfl, below⟩
      refine ⟨part, head, leads, known, ?_⟩
      rcases below with rfl | below
      · trivial
      · exact node ▸ from_ tail below
    · obtain ⟨error, fails⟩ := visit_of_not_passable table.label passable
      have stays : (join catalog ((relation, key) :: rest)).leaves table = table := by
        unfold Building.leaves
        rw [join, fails routed ⟨rfl, rfl⟩]
      rw [stays]
      exact ⟨_, .refl routed, fun _ => False.elim⟩

/-- Whatever was joined before, all that joins along known routes add starts from the node. -/
theorem grew_joinAll {routes : List Route} (routed : Routed catalog table)
    (found : catalog.node? table.node.name = some table.node)
    (known : ∀ route ∈ routes, route.Known catalog) :
    ∃ added, Grew catalog table (joinAll catalog routes table) added ∧
      ∀ route, added route → route.From catalog table.node := by
  induction routes generalizing table with
  | nil => exact ⟨_, .refl routed, fun _ => False.elim⟩
  | cons route rest ih =>
    rw [List.forall_mem_cons] at known
    obtain ⟨added, grew, starts⟩ := grew_join routed found known.1
    have node : ((join catalog route).leaves table).node = table.node := grew.stands.node
    obtain ⟨more, grew', starts'⟩ := ih grew.routed (node ▸ found) known.2
    refine ⟨_, grew.trans grew', fun further => ?_⟩
    rintro (early | late)
    · exact starts further early
    · exact node ▸ starts' further late

end Joining

/-- However tables are joined to a table, by any relations of their nodes and with any keys, a route
leads to one table, and two routes whose keys hold no marks lead to tables of different aliases. -/
theorem label_eq_iff_of_build {definitions : CatalogDefinition} {catalog : Catalog}
    (built : definitions.build = .ok catalog) {node : Node}
    (found : catalog.node? node.name = some node) (label : String) {routes : List Route}
    (known : ∀ route ∈ routes, route.Known catalog) {route route' : Route} {first second : Table}
    (leads : (joinAll catalog routes (.ofNode node label)).At route first)
    (leads' : (joinAll catalog routes (.ofNode node label)).At route' second)
    (unmarked : route.Unmarked) (unmarked' : route'.Unmarked) :
    (first.label = second.label ↔ route = route') ∧ (route = route' → first = second) := by
  obtain ⟨added, grew, starts⟩ := grew_joinAll (routed_ofNode label) found known
  have from_node {route : Route} {last : Table}
      (leads : (joinAll catalog routes (.ofNode node label)).At route last) :
      route.From catalog node := by
    rcases (grew.has route).mp (Table.has_iff_at.mpr ⟨last, leads⟩) with bare | inside
    · rw [Table.has_ofNode.mp bare]
      trivial
    · exact starts route inside
  have once := grew.once Table.once_ofNode
  refine ⟨⟨fun same => ?_, ?_⟩, ?_⟩
  · rw [grew.routed.label_at leads, grew.routed.label_at leads'] at same
    apply Route.text_injective built found (from_node leads) (from_node leads') unmarked unmarked'
    apply String.toList_injective
    have letters := congrArg String.toList same
    rwa [String.toList_append, String.toList_append, List.append_cancel_left_eq] at letters
  · rintro rfl
    rw [once.eq_of_at leads leads']
  · rintro rfl
    exact once.eq_of_at leads leads'

end Sql

namespace Samples

open Sql

/-- The owner of a task, joined plainly and under two keys. -/
def ownerJoins : List Route := [[(.edge owner, none)], [(.edge owner, some "a")],
  [(.edge owner, some "b")]]

theorem joinAll_ownerJoins :
    joinAll boardCatalog ownerJoins (.root task) = .make "tasks" "tasks" task
      [.make (.edge owner) none (.ofNode person "tasks>owner"),
        .make (.edge owner) (some "a") (.ofNode person "tasks>owner#a"),
        .make (.edge owner) (some "b") (.ofNode person "tasks>owner#b")] := rfl

theorem label_ne_of_owner_keys :
    ∃ first second,
      (joinAll boardCatalog ownerJoins (.root task)).At [(.edge owner, some "a")] first ∧
      (joinAll boardCatalog ownerJoins (.root task)).At [(.edge owner, some "b")] second ∧
      first.label ≠ second.label := by
  have first : (joinAll boardCatalog ownerJoins (.root task)).At [(.edge owner, some "a")]
      (.ofNode person "tasks>owner#a") := by
    rw [joinAll_ownerJoins]
    exact .along (.tail _ (.head _)) .here
  have second : (joinAll boardCatalog ownerJoins (.root task)).At [(.edge owner, some "b")]
      (.ofNode person "tasks>owner#b") := by
    rw [joinAll_ownerJoins]
    exact .along (.tail _ (.tail _ (.head _))) .here
  have known : ∀ route ∈ ownerJoins, route.Known boardCatalog := by
    have part : ∃ node, boardCatalog.node? "Task" = some node ∧
        (JoinRelation.edge owner).PartOf node := ⟨task, rfl, rfl⟩
    simp only [ownerJoins, List.forall_mem_cons, Route.Known]
    exact ⟨⟨part, by simp⟩, ⟨part, by simp⟩, ⟨part, by simp⟩, by simp⟩
  have unmarked : Route.Unmarked [(.edge owner, some "a")] ∧
      Route.Unmarked [(.edge owner, some "b")] := by
    simp [Route.Unmarked, Unmarked, isMark]
  have told := (label_eq_iff_of_build build_board rfl _ known first second unmarked.1 unmarked.2).1
  exact ⟨_, _, first, second, fun same => absurd (told.mp same) (by decide)⟩

end Samples

end LiveQuery
