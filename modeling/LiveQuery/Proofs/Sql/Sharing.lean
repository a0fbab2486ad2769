import LiveQuery.Proofs.Sql.Locating
import LiveQuery.Proofs.Sql.Placing
import LiveQuery.Proofs.Sql.Staging
import LiveQuery.Sql.Mutation

set_option autoImplicit false

namespace LiveQuery

namespace Sql

open Table (Stands)

section Actions

variable {α : Type} {catalog : Catalog} {action : Building α} {table other : Table}

theorem Steady.shares (steady : Steady catalog action) (routed : Routed catalog table)
    (routed' : Routed catalog other) (stands : Stands table other) :
    action.on table = action.on other ∧ ∃ added,
      Became catalog table (action.leaves table) added ∧
        Became catalog other (action.leaves other) added := by
  unfold Building.on Building.leaves
  cases ran : action table with
  | ok value after =>
    obtain ⟨after', added, ran', became, became'⟩ := steady.alike routed routed' stands ran
    rw [ran']
    exact ⟨rfl, added, became, became'⟩
  | error error after =>
    obtain ⟨after', added, ran', became, became'⟩ := steady.refused routed routed' stands ran
    rw [ran']
    exact ⟨rfl, added, became, became'⟩

end Actions

/-- What is rendered against a table. -/
inductive Part where
  | condition (filter : Filter)
  | order (expressions : List SortExpression)
  /-- An order with the identifier behind it. -/
  | sorting (expressions : List SortExpression)
  | columns (fields : List SelectionField)

/-- The text of a part, against a table that gets the joins that the part needs. -/
def Part.text (catalog : Catalog) (settings : Settings) : Part → Building String
  | .condition filter => Condition.text <$> Condition.ofNodeFilter catalog filter
  | .order expressions => SortItem.textAll <$> SortItem.ofExpressions catalog expressions
  | .sorting expressions => SortItem.textAll <$> orderOf catalog expressions
  | .columns fields => Selected.textAll <$> select catalog settings fields

/-- Renders parts one after the other. A part that fails leaves the joins that it came to. -/
def render (catalog : Catalog) (settings : Settings) (table : Table) :
    List Part → List (Except Error String) × Table
  | [] => ([], table)
  | part :: rest =>
    let text := part.text catalog settings
    let (texts, after) := render catalog settings (text.leaves table) rest
    (text.on table :: texts, after)

variable {catalog : Catalog} {settings : Settings} {node : Node} {label : String} {table : Table}

theorem Part.steady_text (part : Part) : Steady catalog (part.text catalog settings) := by
  cases part with
  | condition filter => exact (Condition.steady_ofNodeFilter filter).map _
  | order expressions =>
    exact (Steady.mapM fun expression => steady_ofExpression expression).map _
  | sorting expressions => exact (steady_orderOf expressions).map _
  | columns fields => exact (steady_select fields).map _

/-- What rendering parts against a table comes to: the texts that the parts have on their own, and
the joins that they need on their own beside those of the table. -/
structure Renders (catalog : Catalog) (settings : Settings) (fresh table : Table)
    (parts : List Part) (texts : List (Except Error String)) (after : Table) : Prop where
  texts : texts = parts.map fun part => (part.text catalog settings).on fresh
  joins : ∀ route, after.Has route ↔
    table.Has route ∨ ∃ part ∈ parts, ((part.text catalog settings).leaves fresh).Has route

theorem renders (settings : Settings) (routed : Routed catalog table)
    (stands : Stands table (.ofNode node label)) (parts : List Part) :
    Renders catalog settings (.ofNode node label) table parts
      (render catalog settings table parts).1 (render catalog settings table parts).2 ∧
    ∃ added, Became catalog table (render catalog settings table parts).2 added := by
  induction parts generalizing table with
  | nil => exact ⟨⟨rfl, by simp [render]⟩, _, .refl routed⟩
  | cons part rest ih =>
    have steady : Steady catalog (part.text catalog settings) := part.steady_text
    obtain ⟨same, added, became, alone⟩ := steady.shares routed (routed_ofNode label) stands
    obtain ⟨⟨texts, joins⟩, more, later⟩ := ih became.routed (became.stands.trans stands)
    refine ⟨⟨?_, fun route => ?_⟩, _, became.trans later⟩
    · rw [render, List.map_cons, ← texts, ← same]
    · -- The empty route is there from the start.
      have start : table.Has route ∨ route = [] ↔ table.Has route :=
        or_iff_left_of_imp fun empty => empty ▸ .here
      simp only [render, joins, became.has, List.exists_mem_cons_iff, alone.has, Table.has_ofNode]
      rw [← or_assoc, ← or_assoc, start]

/-- A table that grew from a bare one by joins without keys has each relation joined once. -/
theorem Became.nodup_relations {after last : Table} {added : Route → Prop} {route : Route}
    (became : Became catalog (.ofNode node label) after added) (leads : after.At route last) :
    (last.joins.map Join.relation).Nodup := by
  have plain : ∀ join ∈ last.joins, join.step = (join.relation, none) := by
    rintro ⟨relation, key, joined⟩ inside
    have has := Table.has_iff_at.mpr ⟨joined, leads.append inside⟩
    rcases (became.has _).mp has with bare | further
    · exact absurd (Table.has_ofNode.mp bare) (by simp)
    · have none_ : key = none := became.plain _ further (relation, key) (by simp)
      rw [none_]
      rfl
  have steps : last.joins.map Join.step = (last.joins.map Join.relation).map (·, none) := by
    rw [List.map_map]
    exact List.map_congr_left plain
  cases (became.once Table.once_ofNode).at leads with
  | make apart _ => exact (steps ▸ apart).of_map _

/-- The test that a statement makes of its rows. -/
def Statement.condition : Statement → Option Condition
  | .find (.direct _ listing) | .find (.staged _ listing _ _ _) => listing.condition
  | .find (.ranked ranking _ _ _ _ _ _) => ranking.condition
  | .count _ condition | .update _ _ condition | .delete _ condition => condition
  | .insert _ _ _ => none

/-- The statements for the instances of a node that a filter picks out. -/
inductive Picks (catalog : Catalog) (node : Node) (filter : Option Filter) : Statement → Prop
  | find {settings : Settings} {selection : Selection} {request : Request} {query : Find}
      (of : selection.node = node) (by_ : request.filter = filter)
      (made : find catalog settings selection request = .ok query) :
      Picks catalog node filter (.find query)
  | count {statement : Statement} (made : count catalog node filter = .ok statement) :
      Picks catalog node filter statement
  | update {record : Record} {statement : Statement}
      (made : update catalog node filter record = .ok statement) :
      Picks catalog node filter statement
  | delete {statement : Statement} (made : delete catalog node filter = .ok statement) :
      Picks catalog node filter statement

/-- Any statement that the action ends with makes the test. -/
def EndsWith (condition : Option Condition) (action : Building Statement) : Prop :=
  ∀ table statement after, action table = .ok statement after → statement.condition = condition

theorem EndsWith.pure {statement : Statement} {condition : Option Condition}
    (tests : statement.condition = condition) : EndsWith condition (pure statement) := by
  intro table made after finished
  cases finished
  exact tests

theorem EndsWith.bind {α : Type} {first : Building α} {next : α → Building Statement}
    {condition : Option Condition} (each : ∀ value, EndsWith condition (next value)) :
    EndsWith condition (first >>= next) := by
  intro table statement after ran
  obtain ⟨value, between, -, ran⟩ := Building.bind_eq_ok.mp ran
  exact each value between statement after ran

theorem condition_of_bind {filter : Option Filter} {next : Option Condition → Building Statement}
    {statement : Statement} (tests : ∀ condition, EndsWith condition (next condition))
    (made : (conditionOf catalog filter >>= next).on table = .ok statement) :
    (conditionOf catalog filter).on table = .ok statement.condition := by
  obtain ⟨after, ran⟩ := Building.on_eq_ok_iff.mp made
  obtain ⟨condition, between, filtered, ran⟩ := Building.bind_eq_ok.mp ran
  rw [tests condition between statement after ran]
  exact Building.on_eq_ok_iff.mpr ⟨between, filtered⟩

theorem condition_of_composed {selection : Selection} {filter : Option Filter}
    {columns : List Selected} {condition : Option Condition} {order : List SortItem}
    {expressions : List SortExpression}
    (composed : Composed catalog settings selection filter expressions columns condition order) :
    (conditionOf catalog filter).on (.root selection.node) = .ok condition := by
  obtain ⟨_, _, _, -, yields, -⟩ := composed.parts
  obtain ⟨after, ran, -⟩ := yields _ (routed_ofNode _) ⟨rfl, rfl⟩
  exact Building.on_eq_ok_iff.mpr ⟨after, ran⟩

/-- Whatever the statement does with its rows, it tests them as the filter alone would. -/
theorem condition_of_picks {filter : Option Filter} {statement : Statement}
    (picks : Picks catalog node filter statement) :
    (conditionOf catalog filter).on (.root node) = .ok statement.condition := by
  cases picks with
  | @find settings selection request query of by_ made =>
    subst of by_
    obtain ⟨staged, maxLimit⟩ := settings
    cases staged with
    | false =>
      obtain ⟨_, -, _, ran⟩ := find_plain_eq_ok.mp made
      obtain ⟨_, _, _, _, composed, rfl⟩ := composed_of_direct ran
      exact condition_of_composed composed
    | true =>
      obtain ⟨_, -, _, _, ⟨_, inner⟩, ⟨_, outer⟩⟩ := find_staged_eq_ok.mp made
      obtain ⟨_, _, _, _, composed, rfl, -, -, -, rfl⟩ := composed_of_staged inner outer
      exact condition_of_composed composed
  | count made =>
    obtain ⟨_, -, made⟩ := Outcome.bind_eq_ok.mp made
    refine condition_of_bind (fun condition => ?_) made
    exact .bind fun _ => .bind fun _ => .pure rfl
  | update made =>
    obtain ⟨_, -, made⟩ := Outcome.bind_eq_ok.mp made
    obtain ⟨_, -, made⟩ := Outcome.bind_eq_ok.mp made
    simp only at made
    split at made
    · cases made
    -- What is assigned is read from the table before the filter is rendered, and leaves it as it is.
    obtain ⟨after, ran⟩ := Building.on_eq_ok_iff.mp made
    rw [Building.get_bind] at ran
    obtain ⟨_, _, lifted, ran⟩ := Building.bind_eq_ok.mp ran
    obtain ⟨-, rfl⟩ := Building.lift_eq_ok.mp lifted
    refine condition_of_bind (fun condition => ?_) (Building.on_eq_ok_iff.mpr ⟨after, ran⟩)
    exact .bind fun _ => .bind fun _ => .pure rfl
  | delete made =>
    obtain ⟨_, -, made⟩ := Outcome.bind_eq_ok.mp made
    refine condition_of_bind (fun condition => ?_) made
    exact .bind fun _ => .bind fun _ => .bind fun _ => .bind fun _ => .pure rfl

/-- Parts that are rendered against a table come out as against a bare one of its alias, whatever
was rendered against it earlier. The table gets the joins that the parts need on their own, with no
relation twice in one place, and keeps the tables and aliases that it had; in another order the
parts have the same texts and leave the same joins. So one filter is one test in every statement. -/
theorem render_shared (catalog : Catalog) (settings : Settings) (node : Node) (label : String)
    (earlier parts : List Part) :
    let fresh := Table.ofNode node label
    let table := (render catalog settings fresh earlier).2
    let after := (render catalog settings table parts).2
    Renders catalog settings fresh table parts (render catalog settings table parts).1 after ∧
    (∀ route last, after.At route last → (last.joins.map Join.relation).Nodup) ∧
    (∀ route last, table.At route last → ∃ last', after.At route last' ∧
      last'.label = last.label ∧ last'.name = last.name ∧ last'.node = last.node) ∧
    (∀ others, others.Perm parts →
      (render catalog settings table others).1.Perm (render catalog settings table parts).1 ∧
        ∀ route, (render catalog settings table others).2.Has route ↔ after.Has route) ∧
    ∀ filter statement, Picks catalog node filter statement →
      (conditionOf catalog filter).on (.root node) = .ok statement.condition := by
  intro fresh table after
  obtain ⟨-, added, before⟩ :=
    renders settings (routed_ofNode label) ⟨rfl, rfl⟩ earlier
  have stands : Stands table fresh := before.stands
  obtain ⟨whole, more, later⟩ := renders settings before.routed stands parts
  refine ⟨whole, fun route last leads => (before.trans later).nodup_relations leads, ?_, ?_,
    fun filter statement => condition_of_picks⟩
  · intro route last leads
    obtain ⟨last', leads', alike, name⟩ := later.toGrew.kept before.routed leads
    exact ⟨last', leads', alike.label, name, alike.node⟩
  · intro others same
    obtain ⟨whole', -⟩ := renders settings before.routed stands others
    refine ⟨?_, fun route => ?_⟩
    · rw [whole'.texts, whole.texts]
      exact same.map _
    · have joins := whole'.joins route
      simp only [same.mem_iff] at joins
      exact joins.trans (whole.joins route).symm

end Sql

namespace Samples

open Sql

/-- A filter by the owner of a task and a selection through the owner need one join. -/
example :
    let id : Leaf := ⟨"Person", "id", "id", .int, false⟩
    let filter : Filter := ⟨task, .edge owner (some (.leaf id (.compared .eq) (.int 1)))⟩
    (render boardCatalog ⟨false, 1000⟩ (.root task)
      [.condition filter, .columns [.edge "owner" owner [.leaf "id" id]]]).2.joinCount = 1 := by
  rfl

end Samples

end LiveQuery
