import LiveQuery.Proofs.Sql.Routes

set_option autoImplicit false

namespace LiveQuery.Sql

open Table (Stands)

/-- A table that has got joins along further routes. -/
structure Grew (catalog : Catalog) (table after : Table) (added : Route → Prop) : Prop where
  routed : Routed catalog after
  stands : Stands after table
  name : after.name = table.name
  has : ∀ route, after.Has route ↔ table.Has route ∨ added route
  once : table.Once → after.Once

/-- A table that has got joins without keys along further routes. -/
structure Became (catalog : Catalog) (table after : Table) (added : Route → Prop) : Prop
    extends Grew catalog table after added where
  plain : ∀ route, added route → ∀ step ∈ route, step.2 = none

section Growth

variable {catalog : Catalog} {first second third : Table} {added more : Route → Prop}

theorem Grew.refl (routed : Routed catalog first) : Grew catalog first first fun _ => False :=
  ⟨routed, ⟨rfl, rfl⟩, rfl, fun _ => (or_false _).symm.to_iff, id⟩

theorem Grew.trans (grew : Grew catalog first second added)
    (grew' : Grew catalog second third more) :
    Grew catalog first third fun route => added route ∨ more route where
  routed := grew'.routed
  stands := grew'.stands.trans grew.stands
  name := grew'.name.trans grew.name
  has route := by rw [grew'.has, grew.has, or_assoc]
  once := grew'.once ∘ grew.once

theorem Became.refl (routed : Routed catalog first) : Became catalog first first fun _ => False :=
  ⟨.refl routed, fun _ => False.elim⟩

theorem Became.trans (became : Became catalog first second added)
    (became' : Became catalog second third more) :
    Became catalog first third fun route => added route ∨ more route :=
  ⟨became.toGrew.trans became'.toGrew, fun route => Or.rec (became.plain route) (became'.plain route)⟩

end Growth

variable {α β : Type}

/-- An action that ends alike on all tables of one label and node, with the same value or with the
same error, and adds the same routes. -/
structure Steady (catalog : Catalog) (action : Building α) : Prop where
  alike : ∀ {table other after : Table} {value : α}, Routed catalog table → Routed catalog other →
    Stands table other → action table = .ok value after →
      ∃ after' added, action other = .ok value after' ∧ Became catalog table after added ∧
        Became catalog other after' added
  refused : ∀ {table other after : Table} {error : Error}, Routed catalog table →
    Routed catalog other → Stands table other → action table = .error error after →
      ∃ after' added, action other = .error error after' ∧ Became catalog table after added ∧
        Became catalog other after' added

section Visits

variable {catalog : Catalog} {relation : JoinRelation} {key : Option String} {table : Table}
  {head : Node}

theorem Routed.put (routed : Routed catalog table) {before behind : List Join} {joined : Table}
    (around : ∀ join ∈ before ++ behind, join ∈ table.joins)
    (leads : relation.head catalog = .ok head) (name : joined.name = head.table)
    (stands : Stands joined (.ofNode head (table.joinAlias relation key)))
    (below : Routed catalog joined) :
    Routed catalog (table.withJoins (before ++ .make relation key joined :: behind)) := by
  cases routed with
  | make led routed =>
    have node : joined.node = head := stands.node
    have old {join : Join} (inside : join ∈ before ++ .make relation key joined :: behind) :
        join = .make relation key joined ∨ join ∈ before ++ behind := by
      simp only [List.mem_append, List.mem_cons] at inside ⊢
      tauto
    refine .make (fun relation' key' joined' inside => ?_) fun relation' key' joined' inside => ?_
    · rcases old inside with same | there
      · cases same
        exact ⟨node ▸ leads, node ▸ name, stands.label⟩
      · exact led relation' key' joined' (around _ there)
    · rcases old inside with same | there
      · cases same
        exact below
      · exact routed relation' key' joined' (around _ there)

/-- Where a visit goes on: with a joined table that stands for the relation's head, among the other
joins. -/
structure Stop (catalog : Catalog) (relation : JoinRelation) (key : Option String)
    (table : Table) (head : Node) (before : List Join) (joined : Table) (behind : List Join) :
    Prop where
  routed : Routed catalog joined
  name : joined.name = head.table
  stands : Stands joined (.ofNode head (table.joinAlias relation key))
  around : ∀ join ∈ before ++ behind, join ∈ table.joins
  has : ∀ route, (table.withJoins (before ++ .make relation key joined :: behind)).Has route ↔
    table.Has route ∨ route = [(relation, key)]
  once : table.Once →
    joined.Once ∧ ((before ++ .make relation key joined :: behind).map Join.step).Nodup
  visits : ∀ {γ : Type} (action : Building γ), Table.visit catalog relation key action table =
    Table.within relation key before behind joined action table

theorem Routed.stop (routed : Routed catalog table) (key : Option String)
    (owner : relation.owner = table.node.name) (single : relation.check = .ok ())
    (leads : relation.head catalog = .ok head) :
    ∃ before joined behind, Stop catalog relation key table head before joined behind := by
  cases split : Table.splitAt? relation key table.joins with
  | some parts =>
    obtain ⟨before, joined, behind⟩ := parts
    have splits := splitAt?_eq_some split
    have inside : Join.make relation key joined ∈ table.joins := by simp [splits]
    cases routed with
    | make led below =>
      obtain ⟨leads', name, label⟩ := led relation key joined inside
      cases leads.symm.trans leads'
      refine ⟨before, joined, behind, below relation key joined inside, name, ⟨label, rfl⟩,
        fun join there => ?_, fun route => Table.has_of_splits splits, fun once => ?_,
        fun action => visit_of_split owner single split⟩
      · rw [splits]
        simp only [List.mem_append, List.mem_cons] at there ⊢
        tauto
      · cases once with
        | make apart below => exact ⟨below relation key joined inside, splits ▸ apart⟩
  | none =>
    refine ⟨table.joins, _, [], .make (by simp) (by simp), rfl, ⟨rfl, rfl⟩, by simp,
      fun route => Table.has_of_new, fun once => ⟨Table.once_ofNode, ?_⟩,
      fun action => visit_of_new owner single split leads⟩
    cases once with
    | make apart _ =>
      rw [List.map_append, List.nodup_append]
      refine ⟨apart, List.nodup_singleton _, fun step inside last single equal => ?_⟩
      obtain ⟨⟨present, presentKey, other⟩, member, rfl⟩ := List.mem_map.mp inside
      rw [List.mem_singleton.mp single] at equal
      exact splitAt?_eq_none split present presentKey other member (Prod.mk.inj equal)

/-- What grows where a visit went on grows the table that it started from. -/
theorem Stop.grew {before behind : List Join} {joined grown : Table} {added : Route → Prop}
    (stop : Stop catalog relation key table head before joined behind)
    (routed : Routed catalog table) (leads : relation.head catalog = .ok head)
    (grew : Grew catalog joined grown added) :
    Grew catalog table (table.withJoins (before ++ .make relation key grown :: behind))
      fun route => ∃ tail, route = (relation, key) :: tail ∧ (tail = [] ∨ added tail) where
  routed := routed.put stop.around leads (grew.name.trans stop.name)
    (grew.stands.trans stop.stands) grew.routed
  stands := by
    cases table
    exact ⟨rfl, rfl⟩
  name := by
    cases table
    rfl
  has route := Table.has_put (stop.has route) grew.has
  once single := by
    obtain ⟨below, apart⟩ := stop.once single
    refine single.put stop.around ?_ (grew.once below)
    simpa only [List.map_append, List.map_cons, Join.step] using apart

theorem Stop.became {before behind : List Join} {joined grown : Table} {added : Route → Prop}
    (stop : Stop catalog relation none table head before joined behind)
    (routed : Routed catalog table) (leads : relation.head catalog = .ok head)
    (became : Became catalog joined grown added) :
    Became catalog table (table.withJoins (before ++ .make relation none grown :: behind))
      fun route => ∃ tail, route = (relation, none) :: tail ∧ (tail = [] ∨ added tail) := by
  refine ⟨stop.grew routed leads became.toGrew, ?_⟩
  rintro _ ⟨tail, rfl, below⟩
  refine List.forall_mem_cons.mpr ⟨rfl, ?_⟩
  rcases below with rfl | below
  · exact List.forall_mem_nil _
  · exact became.plain tail below

/-- What has to be the case for a visit that goes on. -/
def Passable (catalog : Catalog) (relation : JoinRelation) (node : Node) : Prop :=
  relation.owner = node.name ∧ relation.check = .ok () ∧ ∃ head, relation.head catalog = .ok head

theorem stood_of_visit (routed : Routed catalog table) {action : Building α} {value : α}
    {after : Table} (ran : Table.visit catalog relation key action table = .ok value after) :
    Passable catalog relation table.node := by
  obtain ⟨_, _, got, visited⟩ := Building.bind_eq_ok.mp ran
  cases got
  split at visited
  · cases visited
  · rename_i owned
    obtain ⟨_, _, lifted, -⟩ := Building.bind_eq_ok.mp visited
    refine ⟨not_not.mp owned, (Building.lift_eq_ok.mp lifted).1, ?_⟩
    cases went_of_visit ran with
    | @back before behind joined joined' splits _ =>
      cases routed with
      | make led below =>
        obtain rfl : _ = before ++ _ := splits
        exact ⟨_, (led relation key joined (by simp)).1⟩
    | anew _ looked _ => exact ⟨_, liftCatalog_eq_ok.mp looked⟩

/-- A visit that cannot go on fails at once, on tables of one label and node with one error. -/
theorem visit_of_not_passable {node : Node} (label : String)
    (impassable : ¬Passable catalog relation node) : ∃ error, ∀ {table : Table},
      Routed catalog table → Stands table (.ofNode node label) → ∀ (action : Building α),
        Table.visit catalog relation key action table = .error error table := by
  by_cases owner : relation.owner = node.name
  · cases checked : relation.check with
    | error error =>
      refine ⟨error, fun {table} _ stands action => ?_⟩
      have owner' : relation.owner = table.node.name := stands.node ▸ owner
      unfold Table.visit
      rw [Building.get_bind]
      simp only [owner', ne_eq, not_true_eq_false, if_false, checked]
      rfl
    | ok =>
      cases leads : relation.head catalog with
      | ok head => exact absurd ⟨owner, checked, head, leads⟩ impassable
      | error error =>
        refine ⟨.statement (.catalog error), fun {table} routed stands action => ?_⟩
        have owner' : relation.owner = table.node.name := stands.node ▸ owner
        -- Had the table such a join, the relation would lead somewhere.
        have split : Table.splitAt? relation key table.joins = none := by
          by_contra found
          obtain ⟨⟨before, joined, behind⟩, split⟩ := Option.ne_none_iff_exists'.mp found
          have splits := splitAt?_eq_some split
          cases routed with
          | make led _ =>
            obtain rfl : _ = before ++ _ := splits
            cases leads.symm.trans (led relation key joined (by simp)).1
        unfold Table.visit
        rw [Building.get_bind]
        simp only [owner', ne_eq, not_true_eq_false, if_false, checked, split, leads]
        rfl
  · refine ⟨.unexpected s!"join from `{label}`" relation.name, fun {table} _ stands action => ?_⟩
    have owner' : relation.owner ≠ table.node.name := stands.node ▸ owner
    have label' : table.label = label := stands.label
    unfold Table.visit
    rw [Building.get_bind]
    simp only [owner', ne_eq, not_false_eq_true, if_true, label']
    rfl

end Visits

namespace Steady

variable {catalog : Catalog}

theorem pure (value : α) : Steady catalog (Pure.pure value : Building α) := by
  constructor
  · intro table other after value routed routed' stands ran
    cases ran
    exact ⟨other, _, rfl, .refl routed, .refl routed'⟩
  · intro table other after error _ _ _ ran
    cases ran

theorem lift (attempt : Except Error α) : Steady catalog (liftM attempt : Building α) := by
  constructor
  · intro table other after value routed routed' stands ran
    obtain ⟨made, rfl⟩ := Building.lift_eq_ok.mp ran
    exact ⟨other, _, Building.lift_eq_ok.mpr ⟨made, rfl⟩, .refl routed, .refl routed'⟩
  · intro table other after error routed routed' stands ran
    obtain ⟨failed, rfl⟩ := Building.lift_eq_error.mp ran
    exact ⟨other, _, Building.lift_eq_error.mpr ⟨failed, rfl⟩, .refl routed, .refl routed'⟩

theorem throw (error : Error) : Steady catalog (MonadExcept.throw error : Building α) :=
  lift (.error error)

theorem bind {action : Building α} {step : α → Building β} (first : Steady catalog action)
    (behind : ∀ value, Steady catalog (step value)) : Steady catalog (action >>= step) := by
  -- The step runs on tables that stand for one another again.
  have between_stands {table other between between' : Table} {added : Route → Prop}
      (stands : Stands table other) (became : Became catalog table between added)
      (became' : Became catalog other between' added) : Stands between between' :=
    (became.stands.trans stands).trans became'.stands.symm
  constructor
  · intro table other after result routed routed' stands ran
    obtain ⟨value, between, ran, further⟩ := Building.bind_eq_ok.mp ran
    obtain ⟨between', added, ran', became, became'⟩ := first.alike routed routed' stands ran
    obtain ⟨after', more, further', later, later'⟩ := (behind value).alike became.routed
      became'.routed (between_stands stands became became') further
    exact ⟨after', _, Building.bind_eq_ok.mpr ⟨value, between', ran', further'⟩,
      became.trans later, became'.trans later'⟩
  · intro table other after error routed routed' stands ran
    rcases Building.bind_eq_error.mp ran with failed | ⟨value, between, ran, further⟩
    · obtain ⟨after', added, failed', became, became'⟩ := first.refused routed routed' stands failed
      exact ⟨after', added, Building.bind_eq_error.mpr (Or.inl failed'), became, became'⟩
    · obtain ⟨between', added, ran', became, became'⟩ := first.alike routed routed' stands ran
      obtain ⟨after', more, further', later, later'⟩ := (behind value).refused became.routed
        became'.routed (between_stands stands became became') further
      exact ⟨after', _, Building.bind_eq_error.mpr (Or.inr ⟨value, between', ran', further'⟩),
        became.trans later, became'.trans later'⟩

theorem map {action : Building α} (change : α → β) (steady : Steady catalog action) :
    Steady catalog (change <$> action) := by
  rw [map_eq_pure_bind]
  exact steady.bind fun _ => .pure _

/-- What is read of a table is its label and its node. -/
theorem reading {step : Table → Building β}
    (alike : ∀ {table other : Table}, Stands table other → step table = step other)
    (behind : ∀ table, Steady catalog (step table)) :
    Steady catalog (MonadState.get >>= step) := by
  constructor
  · intro table other after result routed routed' stands ran
    rw [Building.get_bind, ← alike stands]
    exact (behind table).alike routed routed' stands ran
  · intro table other after error routed routed' stands ran
    rw [Building.get_bind, ← alike stands]
    exact (behind table).refused routed routed' stands ran

theorem mapM {items : List α} {step : α → Building β} (each : ∀ item, Steady catalog (step item)) :
    Steady catalog (items.mapM step) := by
  induction items with
  | nil => exact .pure []
  | cons item rest ih =>
    rw [List.mapM_cons]
    exact (each item).bind fun _ => ih.bind fun _ => .pure _

theorem visit {relation : JoinRelation} {action : Building α} (inner : Steady catalog action) :
    Steady catalog (Table.visit catalog relation none action) := by
  -- Both tables are left to the tables that the relation leads to, which stand for one another.
  have stops {table other : Table} (routed : Routed catalog table) (routed' : Routed catalog other)
      (stands : Stands table other) (passable : Passable catalog relation table.node) :
      ∃ head before joined behind before' joined' behind', relation.head catalog = .ok head ∧
        Stop catalog relation none table head before joined behind ∧
        Stop catalog relation none other head before' joined' behind' ∧ Stands joined joined' := by
    obtain ⟨owner, single, head, leads⟩ := passable
    obtain ⟨before, joined, behind, here⟩ := routed.stop none owner single leads
    obtain ⟨before', joined', behind', there⟩ :=
      routed'.stop none (stands.node ▸ owner) single leads
    exact ⟨head, before, joined, behind, before', joined', behind', leads, here, there,
      here.stands.trans (stands.joinAlias ▸ there.stands.symm)⟩
  constructor
  · intro table other after value routed routed' stands ran
    obtain ⟨head, before, joined, behind, before', joined', behind', leads, here, there, stands'⟩ :=
      stops routed routed' stands (stood_of_visit routed ran)
    rw [here.visits] at ran
    obtain ⟨grown, went, rfl⟩ := within_eq_ok ran
    obtain ⟨grown', added, ran', became, became'⟩ :=
      inner.alike here.routed there.routed stands' went
    refine ⟨other.withJoins (before' ++ .make relation none grown' :: behind'), _, ?_,
      here.became routed leads became, there.became routed' leads became'⟩
    rw [there.visits]
    unfold Table.within
    rw [ran']
  · intro table other after error routed routed' stands ran
    by_cases passable : Passable catalog relation table.node
    · obtain ⟨head, before, joined, behind, before', joined', behind', leads, here, there,
        stands'⟩ := stops routed routed' stands passable
      rw [here.visits] at ran
      obtain ⟨grown, went, rfl⟩ := within_eq_error ran
      obtain ⟨grown', added, ran', became, became'⟩ :=
        inner.refused here.routed there.routed stands' went
      refine ⟨other.withJoins (before' ++ .make relation none grown' :: behind'), _, ?_,
        here.became routed leads became, there.became routed' leads became'⟩
      rw [there.visits]
      unfold Table.within
      rw [ran']
    · obtain ⟨error', fails⟩ := visit_of_not_passable table.label passable
      cases ran.symm.trans (fails routed ⟨rfl, rfl⟩ action)
      exact ⟨other, _, fails routed' ⟨stands.label.symm, stands.node.symm⟩ action, .refl routed,
        .refl routed'⟩

/-- Child rows are tested against a table of their own. -/
theorem children {relation : ReverseEdge} {filter : Building (Option Condition)} :
    Steady catalog (Sql.children catalog relation filter) := by
  refine reading (fun stands => ?_) fun parent => ?_
  · simp only [stands.headAlias, stands.correlate]
  · refine (lift _).bind fun head => (lift _).bind fun matching => ?_
    split
    · exact (lift _).bind fun source => pure _
    · exact throw _

end Steady

section Conditions

variable {catalog : Catalog} {table other : Table}

namespace Condition

theorem ofLeaf_of_stands (stands : Stands table other) :
    ofLeaf table = ofLeaf other := by
  funext field operator value
  unfold ofLeaf
  rw [stands.column]

theorem guards_of_stands (stands : Stands table other) : guards table = guards other := by
  funext link
  unfold guards
  simp only [stands.column]

theorem steady_ofPredicates {operands : List Predicate}
    (each : ∀ operand ∈ operands, Steady catalog (ofPredicate catalog operand)) :
    Steady catalog (ofPredicates catalog operands) := by
  induction operands with
  | nil => exact .pure []
  | cons operand rest ih =>
    rw [List.forall_mem_cons] at each
    exact each.1.bind fun _ => (ih each.2).bind fun _ => .pure _

theorem steady_ofHead {link : Edge} {head : Option Predicate}
    (each : ∀ inner, head = some inner → Steady catalog (ofPredicate catalog inner)) :
    Steady catalog (ofHead catalog link head) := by
  cases head with
  | none => exact .pure none
  | some inner => exact (each inner rfl).visit.map some

theorem steady_ofPredicate (predicate : Predicate) :
    Steady catalog (ofPredicate catalog predicate) := by
  induction predicate with
  | constant value => exact .pure _
  | junction kind operands ih => exact (steady_ofPredicates ih).bind fun _ => .pure _
  | negation operand ih => exact ih.bind fun _ => .pure _
  | leaf field operator value =>
    exact Steady.reading (fun stands => by rw [ofLeaf_of_stands stands]) fun _ => .lift _
  | edge link head ih =>
    unfold ofPredicate
    split
    · refine Steady.reading (fun stands => by rw [guards_of_stands stands]) fun _ => ?_
      exact (Steady.lift _).bind fun _ => (steady_ofHead ih).bind fun _ => .pure _
    · exact (steady_ofHead ih).bind fun _ => .pure _
  | reverse relation head ih => exact Steady.children.bind fun _ => .pure _
  | count relation comparison number => exact Steady.children.bind fun _ => .pure _
  | raw sql =>
    refine Steady.reading (fun stands => by rw [stands.label]) fun _ => ?_
    exact (Steady.lift _).bind fun _ => .pure _

theorem steady_ofNodeFilter (filter : Filter) : Steady catalog (ofNodeFilter catalog filter) := by
  refine Steady.reading (fun stands => by simp only [stands.node]) fun table => ?_
  dsimp only
  split
  · exact (Steady.throw _).bind fun _ => steady_ofPredicate filter.predicate
  · exact steady_ofPredicate filter.predicate

end Condition

theorem steady_conditionOf (filter : Option Filter) :
    Steady catalog (conditionOf catalog filter) := by
  cases filter with
  | none => exact .pure none
  | some filter =>
    change Steady catalog (if _ then _ else _)
    split
    · exact .pure none
    · exact (Condition.steady_ofNodeFilter filter.reduced).map some

theorem steady_ofExpression (expression : SortExpression) :
    Steady catalog (SortItem.ofExpression catalog expression) := by
  refine Steady.reading (fun stands => ?_) fun table => ?_
  · simp only [stands.node, stands.column]
  · split
    · split
      · exact .throw _
      · exact (Steady.lift _).bind fun _ => .pure _
    · exact Steady.children.bind fun _ => .pure _

theorem steady_orderOf (expressions : List SortExpression) :
    Steady catalog (orderOf catalog expressions) := by
  refine (Steady.mapM fun expression => steady_ofExpression expression).bind fun items => ?_
  refine Steady.reading (fun stands => ?_) fun table => ?_
  · simp only [stands.node, stands.column]
  · exact (Steady.mapM fun _ => (Steady.lift _).bind fun _ => .pure _).bind fun _ => .pure _

end Conditions

section Selections

variable {catalog : Catalog} {settings : Settings} {table other : Table}

theorem selectColumn_of_stands (stands : Stands table other) :
    selectColumn table = selectColumn other := by
  funext column path
  unfold selectColumn
  rw [stands.column]

theorem selectIdentifier_of_stands (stands : Stands table other) :
    selectIdentifier table = selectIdentifier other := by
  funext path
  unfold selectIdentifier
  rw [stands.node, selectColumn_of_stands stands]

theorem steady_selectOwn (path : List String) (field : SelectionField) :
    Steady catalog (selectOwn catalog path field) := by
  cases field with
  | leaf key field =>
    refine Steady.reading (fun stands => by rw [selectColumn_of_stands stands]) fun _ => ?_
    exact (Steady.lift _).bind fun _ => .pure _
  | count key relation filter =>
    exact Steady.children.bind fun _ => (Steady.lift _).bind fun _ => .pure _
  | edge | unique | multiple => exact .pure _

theorem steady_selectWith {path : List String} {fields : List SelectionField}
    {heads : Building (List Selected)} (below : Steady catalog heads) :
    Steady catalog (selectWith catalog path fields heads) := by
  refine Steady.reading (fun stands => by rw [selectIdentifier_of_stands stands]) fun _ => ?_
  refine (Steady.lift _).bind fun _ => ?_
  refine (Steady.mapM fun field => steady_selectOwn path field).bind fun _ => ?_
  exact below.bind fun _ => .pure _

mutual

theorem steady_selectHead : ∀ (path : List String) (field : SelectionField),
    Steady catalog (selectHead catalog settings path field)
  | _, .leaf _ _ | _, .count _ _ _ => .pure _
  | _, .multiple _ _ _ _ => (Steady.lift _).bind fun _ => .pure _
  | path, .edge key _ head | path, .unique key _ head =>
    (steady_selectWith (steady_selectHeads (path ++ [key]) head)).visit

theorem steady_selectHeads : ∀ (path : List String) (fields : List SelectionField),
    Steady catalog (selectHeads catalog settings path fields)
  | _, [] => .pure _
  | path, field :: rest =>
    (steady_selectHead path field).bind fun _ => (steady_selectHeads path rest).bind fun _ => .pure _

end

theorem steady_select (fields : List SelectionField) :
    Steady catalog (select catalog settings fields) :=
  steady_selectWith (steady_selectHeads [] fields)

end Selections

end LiveQuery.Sql
