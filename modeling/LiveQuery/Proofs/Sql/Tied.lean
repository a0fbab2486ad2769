import LiveQuery.Proofs.Filter.Shrinking
import LiveQuery.Proofs.Sql.Agreement
import LiveQuery.Proofs.Sql.Resolving
import LiveQuery.Proofs.Sql.Routes

set_option autoImplicit false

namespace LiveQuery.Sql

open Table (Stands)

/-- The edge that rows follow along a relation. -/
def JoinRelation.link : JoinRelation → Edge
  | .edge link => link
  | .reverse relation => relation.edge

/-- Rows are joined by some column at least. -/
def Source.Tied (source : Source) : Prop := ∀ join ∈ source.joins, join.matching ≠ []

structure Children.Tied (children : Children) : Prop where
  source : children.source.Tied
  matching : children.matching ≠ []

mutual

/-- Whatever a condition looks at behind an edge is tied to the row by some column at least. -/
def Condition.Tied : Condition → Prop
  | .junction _ operands => Condition.TiedAll operands
  | .negation operand => Condition.Tied operand
  | .linked foreignKey head => foreignKey ≠ [] ∧ Condition.TiedOption head
  | .anyChild children filter => children.Tied ∧ Condition.TiedOption filter
  | .childCount children _ _ => children.Tied
  | _ => True

def Condition.TiedAll : List Condition → Prop
  | [] => True
  | operand :: rest => Condition.Tied operand ∧ Condition.TiedAll rest

def Condition.TiedOption : Option Condition → Prop
  | none => True
  | some condition => Condition.Tied condition

end

def Term.Tied : Term → Prop
  | .column _ => True
  | .count children filter => children.Tied ∧ Condition.TiedOption filter

structure Listing.Tied (listing : Listing) : Prop where
  source : listing.source.Tied
  condition : Condition.TiedOption listing.condition
  order : ∀ item ∈ listing.order, item.term.Tied

/-- The rows of a ranking are those that refer to its parents, by some column at least. -/
structure Ranking.Tied (ranking : Ranking) : Prop where
  source : ranking.source.Tied
  foreignKey : ranking.foreignKey ≠ []
  parents : ∀ key ∈ ranking.parents, key ≠ []
  condition : Condition.TiedOption ranking.condition
  order : ∀ item ∈ ranking.order, item.term.Tied

def Find.Tied : Find → Prop
  | .direct columns listing => (∀ selected ∈ columns, selected.term.Tied) ∧ listing.Tied
  | .staged _ listing columns source order =>
    listing.Tied ∧ (∀ selected ∈ columns, selected.term.Tied) ∧ source.Tied ∧
      ∀ item ∈ order, item.term.Tied
  | .ranked ranking columns joins foreignKey _ _ _ =>
    ranking.Tied ∧ (∀ selected ∈ columns, selected.term.Tied) ∧
      (∀ join ∈ joins, join.matching ≠ []) ∧ foreignKey ≠ []

def Statement.Tied : Statement → Prop
  | .find query => query.Tied
  | .count source condition | .update source _ condition | .delete source condition =>
    source.Tied ∧ Condition.TiedOption condition
  | .insert _ _ _ => True

/-- Rows of a node, which an alias stands for, are sorted on something, and on every column of their
identifier. -/
structure Orders (node : Node) (label : Alias) (order : List SortItem) : Prop where
  some_ : order ≠ []
  covers : ∀ component ∈ node.identifierComponents, ∀ name ∈ component.columns,
    ∃ item ∈ order, ∃ column : Column, item.term = .column column ∧ column.table = label ∧
      column.name.text = name

/-- Every list that a statement sorts on covers the identifier. The rows of a follow-up come by
their parents and then by the numbers that they got in such an order. -/
def Find.Ordered (node : Node) : Find → Prop
  | .direct _ listing => Orders node listing.source.table.label listing.order
  | .staged _ listing _ source order =>
    Orders node listing.source.table.label listing.order ∧ Orders node source.table.label order
  | .ranked ranking _ _ foreignKey rank _ _ =>
    Orders node ranking.source.table.label ranking.order ∧ foreignKey ≠ [] ∧
      foreignKey = ranking.foreignKey ∧ rank = ⟨ranking.source.table.label, Ranking.rankName⟩

theorem Condition.tiedAll_iff {operands : List Condition} :
    Condition.TiedAll operands ↔ ∀ operand ∈ operands, operand.Tied := by
  induction operands with
  | nil => simp [Condition.TiedAll]
  | cons operand rest ih => rw [Condition.TiedAll, ih, List.forall_mem_cons]

theorem Tests.tied {column : Column} {condition : Condition} (tests : Tests column condition) :
    condition.Tied := by
  induction tests with
  | junction kind _ ih => exact Condition.tiedAll_iff.mpr ih
  | negation _ ih => exact ih
  | constant | compared | isNull | isSet | among | fullText => trivial

/-- A table whose joins follow edges that have columns. -/
inductive Table.Tied : Table → Prop
  | make {label name : String} {node : Node} {joins : List Join}
      (each : ∀ relation key joined, .make relation key joined ∈ joins →
        relation.link.columns ≠ [])
      (below : ∀ relation key joined, .make relation key joined ∈ joins → Tied joined) :
      Tied (.make label name node joins)

section Tables

variable {table joined target : Table} {relation : JoinRelation} {link : Edge}
  {key : Option String} {pairs : List Match}

theorem Pairs.ne_nil (paired : Pairs link joined target pairs) (some_ : link.columns ≠ []) :
    pairs ≠ [] := by
  rintro rfl
  exact some_ (List.forall₂_nil_right_iff.mp paired)

theorem matching_ne_nil_of_link (some_ : relation.link.columns ≠ [])
    (matched : table.matching joined relation = .ok pairs) : pairs ≠ [] := by
  cases relation with
  | edge link => exact (pairs_of_correlate matched).ne_nil some_
  | reverse relation => exact (pairs_of_correlate matched).ne_nil some_

namespace Table.Tied

theorem alone (label name : String) (node : Node) : Tied (.make label name node []) :=
  .make (by simp) (by simp)

theorem of_mem (tied : table.Tied) (inside : .make relation key joined ∈ table.joins) :
    joined.Tied := by
  cases tied with
  | make _ below => exact below relation key joined inside

theorem put (tied : table.Tied) {before behind : List Join}
    (joins : ∀ join ∈ before ++ behind, join ∈ table.joins) (some_ : relation.link.columns ≠ [])
    (inner : joined.Tied) : (table.withJoins (before ++ .make relation key joined :: behind)).Tied := by
  cases tied with
  | make each below =>
    have old {join : Join} (inside : join ∈ before ++ .make relation key joined :: behind) :
        join = .make relation key joined ∨ join ∈ before ++ behind := by
      simp only [List.mem_append, List.mem_cons] at inside ⊢
      tauto
    refine .make (fun relation' key' other inside => ?_) fun relation' key' other inside => ?_
    · rcases old inside with same | there
      · cases same
        exact some_
      · exact each relation' key' other (joins _ there)
    · rcases old inside with same | there
      · cases same
        exact inner
      · exact below relation' key' other (joins _ there)

/-- Every join is written with what it matches. -/
theorem leftJoins (tied : table.Tied) {written : List LeftJoin}
    (made : table.leftJoins = .ok written) : ∀ join ∈ written, join.matching ≠ [] := by
  induction tied generalizing written with
  | @make label name node joins each below ih =>
    change Table.leftJoinsAll (.make label name node []) joins = .ok written at made
    clear below
    induction joins generalizing written with
    | nil =>
      cases made
      exact List.forall_mem_nil _
    | cons join rest behind =>
      obtain ⟨relation, key, joined⟩ := join
      obtain ⟨join, inner, others, first, later, rfl, -, -, matched⟩ :=
        leftJoinsAll_cons_eq_ok made
      refine List.forall_mem_cons.mpr ⟨?_, List.forall_mem_append.mpr ⟨?_, ?_⟩⟩
      · exact matching_ne_nil_of_link (each relation key joined (List.mem_cons_self ..)) matched
      · exact ih relation key joined (List.mem_cons_self ..) first
      · exact behind (fun _ key _ inside => each _ key _ (List.mem_cons_of_mem _ inside))
          (fun _ key _ inside => ih _ key _ (List.mem_cons_of_mem _ inside)) later

theorem source (tied : table.Tied) {source : Source} (written : table.source = .ok source) :
    source.Tied ∧ Alias.ofText table.label = .ok source.table.label := by
  obtain ⟨named, first, written⟩ := Outcome.bind_eq_ok.mp written
  obtain ⟨joins, joined, written⟩ := Outcome.bind_eq_ok.mp written
  obtain ⟨name, -, first⟩ := Outcome.bind_eq_ok.mp first
  obtain ⟨label, labelled, first⟩ := Outcome.bind_eq_ok.mp first
  cases first
  cases written
  exact ⟨tied.leftJoins joined, labelled⟩

end Table.Tied

end Tables

section Steps

variable {α β : Type} {catalog : Catalog} {base : Table}

/-- An action that keeps the joins of a table tied and the table standing for the same, and of whose
values something holds. -/
structure Ties (base : Table) (action : Building α) (gives : α → Prop) : Prop where
  ran : ∀ {table after : Table} {value : α}, table.Tied → Stands table base →
    action table = .ok value after → after.Tied ∧ Stands after base ∧ gives value

namespace Ties

variable {gives : α → Prop} {then_ : β → Prop}

theorem pure {value : α} (so : gives value) : Ties base (Pure.pure value) gives := by
  refine ⟨fun {table after value} tied stands made => ?_⟩
  cases made
  exact ⟨tied, stands, so⟩

theorem lift {attempt : Except Error α} (so : ∀ value, attempt = .ok value → gives value) :
    Ties base (liftM attempt) gives := by
  refine ⟨fun {table after value} tied stands made => ?_⟩
  obtain ⟨succeeds, rfl⟩ := Building.lift_eq_ok.mp made
  exact ⟨tied, stands, so value succeeds⟩

theorem attempted {attempt : Except Error α} :
    Ties base (liftM attempt) fun value => attempt = .ok value :=
  lift fun _ => id

theorem bind {action : Building α} {step : α → Building β} (first : Ties base action gives)
    (behind : ∀ value, gives value → Ties base (step value) then_) :
    Ties base (action >>= step) then_ := by
  refine ⟨fun {table after result} tied stands made => ?_⟩
  obtain ⟨value, between, ran, made⟩ := Building.bind_eq_ok.mp made
  obtain ⟨tied', stands', so⟩ := first.ran tied stands ran
  exact (behind value so).ran tied' stands' made

theorem reading {step : Table → Building β}
    (behind : ∀ table, table.Tied → Stands table base → Ties base (step table) then_) :
    Ties base (MonadState.get >>= step) then_ := by
  refine ⟨fun {table after result} tied stands made => ?_⟩
  rw [Building.get_bind] at made
  exact (behind table tied stands).ran tied stands made

theorem map {action : Building α} {change : α → β} (ties : Ties base action gives)
    (so : ∀ value, gives value → then_ (change value)) :
    Ties base (change <$> action) then_ := by
  rw [map_eq_pure_bind]
  exact ties.bind fun value holds => .pure (so value holds)

theorem mapM {items : List α} {step : α → Building β} {gives : α → β → Prop}
    (each : ∀ item ∈ items, Ties base (step item) (gives item)) :
    Ties base (items.mapM step) (List.Forall₂ gives items) := by
  induction items with
  | nil => exact .pure .nil
  | cons item rest ih =>
    rw [List.forall_mem_cons] at each
    rw [List.mapM_cons]
    exact each.1.bind fun first so => (ih each.2).bind fun others behind => .pure (.cons so behind)

theorem thrown {error : Error} {step : α → Building β} :
    Ties base (MonadExcept.throw error >>= step) then_ := by
  refine ⟨fun _ _ made => ?_⟩
  cases made

theorem visit {relation : JoinRelation} {key : Option String} {action : Building α}
    (some_ : relation.link.columns ≠ []) (inner : ∀ base, Ties base action gives) :
    Ties base (Table.visit catalog relation key action) gives := by
  have same (table : Table) (joins : List Join) : Stands (table.withJoins joins) table := by
    cases table
    exact ⟨rfl, rfl⟩
  refine ⟨fun {table after value} tied stands visited => ?_⟩
  cases went_of_visit visited with
  | @back before behind joined joined' joins ran =>
    have inside : Join.make relation key joined ∈ table.joins := by simp [joins]
    obtain ⟨tied', -, so⟩ := (inner joined).ran (tied.of_mem inside) ⟨rfl, rfl⟩ ran
    refine ⟨tied.put (fun join inside => ?_) some_ tied', (same _ _).trans stands, so⟩
    rw [joins]
    simp only [List.mem_append, List.mem_cons] at inside ⊢
    tauto
  | anew _ _ ran =>
    obtain ⟨tied', -, so⟩ := (inner _).ran (.alone ..) ⟨rfl, rfl⟩ ran
    refine ⟨tied.put (fun join inside => ?_) some_ tied', (same _ _).trans stands, so⟩
    rwa [List.append_nil] at inside

/-- Child rows are those that refer to the row by an edge that has columns. -/
theorem children {relation : ReverseEdge} {filter : Building (Option Condition)}
    {gives : Option Condition → Prop} (some_ : relation.edge.columns ≠ [])
    (inner : ∀ base, Ties base filter gives) :
    Ties base (Sql.children catalog relation filter)
      fun result => result.1.Tied ∧ gives result.2 := by
  refine ⟨fun {table after result} tied stands made => ?_⟩
  obtain ⟨rfl, head, child, -, filtered, written, paired⟩ := children_eq_ok made
  obtain ⟨tied', -, so⟩ := (inner _).ran (.alone ..) ⟨rfl, rfl⟩ filtered
  exact ⟨tied, stands, ⟨(tied'.source written).1, paired.ne_nil some_⟩, so⟩

/-- The source is written under the alias of the table. -/
theorem source {finish : Source → α} (so : ∀ source : Source, source.Tied →
      Alias.ofText base.label = .ok source.table.label → gives (finish source)) :
    Ties base (do return finish (← (← get).source)) gives := by
  refine .reading fun table tied stands => attempted.bind fun source written => .pure ?_
  obtain ⟨tied', labelled⟩ := tied.source written
  exact so source tied' (stands.label ▸ labelled)

/-- What is so of all that an action gives is so of what it gave. -/
theorem result {action : Building α} {value : α} (ties : Ties base action gives)
    (tied : base.Tied) (ran : Building.on base action = .ok value) : gives value := by
  obtain ⟨_, made⟩ := Building.on_eq_ok ran
  exact (ties.ran tied ⟨rfl, rfl⟩ made).2.2

end Ties

end Steps

section Conditions

variable {catalog : Catalog} {base : Table} {name : String}

theorem columns_of_edge (keyed : catalog.Keyed) {link : Edge}
    (known : (catalog.node? name).bind (·.component? link.name) = some (.edge link)) :
    link.columns ≠ [] := by
  obtain ⟨node, found, part⟩ := Option.bind_eq_some_iff.mp known
  exact keyed found link (Node.mem_of_component? part)

theorem columns_of_reverseEdge (wellFormed : catalog.WellFormed) (keyed : catalog.Keyed)
    {relation : ReverseEdge}
    (known : (catalog.node? name).bind (·.reverseEdge? relation.name) = some relation) :
    relation.edge.columns ≠ [] := by
  obtain ⟨node, found, part⟩ := Option.bind_eq_some_iff.mp known
  obtain ⟨-, head, found', holds⟩ :=
    wellFormed.relations found relation (List.mem_of_find?_eq_some part)
  exact keyed found' _ holds

namespace Condition

/-- A predicate on any table is compiled to a condition that is tied. -/
def Bound (catalog : Catalog) (predicate : Predicate) : Prop :=
  ∀ base, Ties base (ofPredicate catalog predicate) Tied

theorem ties_ofPredicates {operands : List Predicate}
    (each : ∀ operand ∈ operands, Bound catalog operand) :
    Ties base (ofPredicates catalog operands) TiedAll := by
  induction operands with
  | nil => exact .pure trivial
  | cons operand rest ih =>
    rw [List.forall_mem_cons] at each
    exact (each.1 base).bind fun condition tied => (ih each.2).bind fun others behind =>
      .pure ⟨tied, behind⟩

theorem ties_ofHead {link : Edge} (some_ : link.columns ≠ []) {head : Option Predicate}
    (each : ∀ inner, head = some inner → Bound catalog inner) :
    Ties base (ofHead catalog link head) TiedOption := by
  cases head with
  | none => exact .pure trivial
  | some inner =>
    have follows : (JoinRelation.edge link).link.columns ≠ [] := some_
    exact (Ties.visit follows (each inner rfl)).map fun _ => id

theorem ties_ofFilter {head : Option Predicate}
    (each : ∀ inner, head = some inner → Bound catalog inner) :
    Ties base (ofFilter catalog head) TiedOption := by
  cases head with
  | none => exact .pure trivial
  | some inner =>
    rw [ofFilter]
    split
    · exact .pure trivial
    · exact (each inner rfl base).map fun _ => id

theorem guards_ne_nil {table : Table} {link : Edge} (some_ : link.columns ≠ [])
    {columns : List Column} (made : guards table link = .ok columns) : columns ≠ [] := by
  rintro rfl
  exact some_ (Outcome.eq_nil_of_mapM made)

variable (wellFormed : catalog.WellFormed) (keyed : catalog.Keyed)

include wellFormed keyed

theorem bound {predicate : Predicate} (charted : predicate.charted catalog name = true) :
    Bound catalog predicate := by
  induction predicate generalizing name with
  | constant value => exact fun base => .pure trivial
  | junction kind operands ih =>
    rw [Predicate.charted, Predicate.chartedAll_iff] at charted
    exact fun base => (ties_ofPredicates fun operand inside =>
      ih operand inside (charted operand inside)).bind fun _ tied => .pure tied
  | negation operand ih => exact fun base => (ih charted base).bind fun _ tied => .pure tied
  | leaf field operator value =>
    refine fun base => .reading fun table _ _ => .lift fun condition made => ?_
    obtain ⟨column, -, tests⟩ := tests_ofLeaf made
    exact tests.tied
  | edge link head ih =>
    rw [Predicate.charted, Bool.and_eq_true, decide_eq_true_iff] at charted
    have some_ := columns_of_edge keyed charted.1
    have below : ∀ inner, head = some inner → Bound catalog inner := by
      rintro inner rfl
      exact ih inner rfl charted.2
    intro base
    rw [ofPredicate]
    split
    · exact .reading fun table _ _ => Ties.attempted.bind fun columns made =>
        (ties_ofHead some_ below).bind fun condition tied =>
          .pure ⟨guards_ne_nil some_ made, tied⟩
    · refine (ties_ofHead some_ below).bind fun condition tied => .pure ?_
      cases condition with
      | none => trivial
      | some condition => exact tied
  | reverse relation head ih =>
    rw [Predicate.charted, Bool.and_eq_true, decide_eq_true_iff] at charted
    have some_ := columns_of_reverseEdge wellFormed keyed charted.1
    have below : ∀ inner, head = some inner → Bound catalog inner := by
      rintro inner rfl
      exact ih inner rfl charted.2
    refine fun base => (Ties.children some_ fun base => ties_ofFilter below).bind ?_
    rintro ⟨children, filter⟩ tied
    exact .pure tied
  | count relation comparison number =>
    rw [Predicate.charted, decide_eq_true_iff] at charted
    have some_ := columns_of_reverseEdge wellFormed keyed charted
    have all (base : Table) : Ties base (Pure.pure none) TiedOption := .pure trivial
    refine fun base => (Ties.children some_ all).bind ?_
    rintro ⟨children, _⟩ tied
    exact .pure tied.1
  | raw sql =>
    exact fun base => .reading fun table _ _ => Ties.attempted.bind fun _ _ => .pure trivial

theorem ties_ofReduced {filter : Option Predicate}
    (charted : Predicate.chartedHead catalog name filter = true) :
    Ties base (ofFilter catalog (filter.map (·.reduced))) TiedOption := by
  refine ties_ofFilter fun inner same => ?_
  cases filter with
  | none => cases same
  | some predicate =>
    cases same
    exact bound wellFormed keyed (Predicate.charted_reduced wellFormed charted)

end Condition

end Conditions

end LiveQuery.Sql
