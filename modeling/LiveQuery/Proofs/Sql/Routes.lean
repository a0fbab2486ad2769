import LiveQuery.Proofs.Sql.Columns

set_option autoImplicit false

namespace LiveQuery.Sql

/-- The relations and keys of joins, each join hanging on the one before. -/
abbrev Route := List (JoinRelation × Option String)

namespace Table

/-- Tables that are alike but for their names and joins: their columns are written alike. -/
structure Stands (first second : Table) : Prop where
  label : first.label = second.label
  node : first.node = second.node

/-- The joins along a route are there. -/
inductive Has : Table → Route → Prop
  | here {table : Table} : table.Has []
  | along {table joined : Table} {relation : JoinRelation} {key : Option String} {rest : Route}
      (inside : .make relation key joined ∈ table.joins) (further : joined.Has rest) :
      table.Has ((relation, key) :: rest)

end Table

/-- What tells the joins of one table apart. -/
def Join.step : Join → JoinRelation × Option String
  | .make relation key _ => (relation, key)

/-- Nowhere are two tables joined to one table by the same relation and key. -/
inductive Table.Once : Table → Prop
  | make {label name : String} {node : Node} {joins : List Join}
      (apart : (joins.map Join.step).Nodup)
      (below : ∀ relation key joined, .make relation key joined ∈ joins → Once joined) :
      Once (.make label name node joins)

/-- A route starts with one of the joins. -/
def Along (joins : List Join) (route : Route) : Prop :=
  ∃ relation key joined rest, .make relation key joined ∈ joins ∧ route = (relation, key) :: rest ∧
    joined.Has rest

section Routes

variable {relation : JoinRelation} {key : Option String} {joined table : Table} {route : Route}

theorem Table.has_iff : table.Has route ↔ route = [] ∨ Along table.joins route := by
  constructor
  · rintro (_ | ⟨inside, further⟩)
    · exact Or.inl rfl
    · exact Or.inr ⟨_, _, _, _, inside, rfl, further⟩
  · rintro (rfl | ⟨_, _, _, _, inside, rfl, further⟩)
    · exact .here
    · exact .along inside further

theorem along_append {first second : List Join} :
    Along (first ++ second) route ↔ Along first route ∨ Along second route := by
  simp only [Along, List.mem_append, or_and_right, exists_or]

theorem along_cons {rest : List Join} :
    Along (.make relation key joined :: rest) route ↔
      (∃ tail, route = (relation, key) :: tail ∧ joined.Has tail) ∨ Along rest route := by
  rw [← List.singleton_append, along_append]
  refine or_congr_left ⟨?_, ?_⟩
  · rintro ⟨_, _, _, tail, inside, starts, further⟩
    cases List.mem_singleton.mp inside
    exact ⟨tail, starts, further⟩
  · rintro ⟨tail, starts, further⟩
    exact ⟨_, _, _, tail, List.mem_singleton_self _, starts, further⟩

theorem not_along_nil : ¬Along [] route := by
  rintro ⟨_, _, _, _, inside, -⟩
  cases inside

theorem Table.has_ofNode {node : Node} {label : String} :
    (Table.ofNode node label).Has route ↔ route = [] := by
  rw [Table.has_iff]
  exact or_iff_left not_along_nil

theorem Table.joins_withJoins (table : Table) (joins : List Join) :
    (table.withJoins joins).joins = joins := by
  cases table
  rfl

theorem Table.has_put {before behind : List Join} {joined' : Table} {added : Route → Prop}
    (there : (table.withJoins (before ++ .make relation key joined :: behind)).Has route ↔
      table.Has route ∨ route = [(relation, key)])
    (grown : ∀ tail, joined'.Has tail ↔ joined.Has tail ∨ added tail) :
    (table.withJoins (before ++ .make relation key joined' :: behind)).Has route ↔
      table.Has route ∨ ∃ tail, route = (relation, key) :: tail ∧ (tail = [] ∨ added tail) := by
  rw [Table.has_iff, Table.joins_withJoins, along_append, along_cons] at there ⊢
  simp only [grown, and_or_left, exists_or, exists_eq_right]
  rw [← or_assoc (a := table.Has route), ← there]
  exact Iff.of_eq (by ac_rfl)

theorem Table.has_of_splits {before behind : List Join}
    (splits : table.joins = before ++ .make relation key joined :: behind) :
    (table.withJoins (before ++ .make relation key joined :: behind)).Has route ↔
      table.Has route ∨ route = [(relation, key)] := by
  have present : Along table.joins [(relation, key)] :=
    ⟨relation, key, joined, [], by simp [splits], rfl, .here⟩
  rw [← splits, Table.has_iff, Table.joins_withJoins, ← Table.has_iff]
  refine ⟨Or.inl, ?_⟩
  rintro (has | rfl)
  · exact has
  · exact Table.has_iff.mpr (Or.inr present)

theorem Table.has_of_new {node : Node} {label : String} :
    (table.withJoins (table.joins ++ [.make relation key (.ofNode node label)])).Has route ↔
      table.Has route ∨ route = [(relation, key)] := by
  rw [Table.has_iff, Table.joins_withJoins, along_append, along_cons, Table.has_iff]
  simp only [Table.has_ofNode, exists_eq_right, not_along_nil, or_false, or_assoc]

theorem Table.once_ofNode {node : Node} {label : String} : (Table.ofNode node label).Once :=
  .make List.nodup_nil (by simp)

theorem Table.Once.put (once : table.Once) {before behind : List Join}
    (around : ∀ join ∈ before ++ behind, join ∈ table.joins)
    (apart : ((before ++ .make relation key joined :: behind).map Join.step).Nodup)
    (below : joined.Once) :
    (table.withJoins (before ++ .make relation key joined :: behind)).Once := by
  cases once with
  | make _ each =>
    refine .make apart fun relation' key' joined' inside => ?_
    rcases List.mem_append.mp inside with first | later
    · exact each relation' key' joined' (around _ (List.mem_append_left _ first))
    · rcases List.mem_cons.mp later with same | last
      · cases same
        exact below
      · exact each relation' key' joined' (around _ (List.mem_append_right _ last))

end Routes

section Writing

variable {catalog : Catalog} {relation : JoinRelation} {key : Option String}
  {table other joined joined' : Table} {route : Route}

namespace Table

theorem Stands.column (stands : Stands table other) (name : String) :
    table.column name = other.column name := by
  unfold Table.column
  rw [stands.label]

theorem Stands.headAlias (stands : Stands table other) (mark relation : String) :
    table.headAlias mark relation = other.headAlias mark relation := by
  unfold Table.headAlias
  rw [stands.label]

theorem Stands.joinAlias (stands : Stands table other) :
    table.joinAlias relation key = other.joinAlias relation key := by
  unfold Table.joinAlias
  rw [stands.headAlias]

theorem Stands.correlate (stands : Stands table other) (link : Edge) (child : Table) :
    Table.correlate link child table = Table.correlate link child other := by
  unfold Table.correlate
  simp only [stands.node, stands.column]

theorem Stands.matching (stands : Stands table other) (below : Stands joined joined') :
    table.matching joined relation = other.matching joined' relation := by
  cases relation with
  | edge link => simp only [Table.matching, stands.column, below.column, below.node]
  | reverse relation =>
    simp only [Table.matching, Table.correlate, stands.node, stands.column, below.column]

theorem Stands.symm (stands : Stands table other) : Stands other table :=
  ⟨stands.label.symm, stands.node.symm⟩

theorem Stands.trans (stands : Stands table other) (stands' : Stands other joined) :
    Stands table joined :=
  ⟨stands.label.trans stands'.label, stands.node.trans stands'.node⟩

end Table

/-- Every join along a route can be written. -/
def Writable (catalog : Catalog) : Table → Route → Prop
  | _, [] => True
  | table, (relation, key) :: rest =>
    ∀ head, relation.head catalog = .ok head →
      let joined := Table.ofNode head (table.joinAlias relation key)
      (∃ named, joined.named = .ok named) ∧ (∃ pairs, table.matching joined relation = .ok pairs) ∧
        Writable catalog joined rest

theorem Table.Stands.writable (stands : Stands table other) :
    Writable catalog table route ↔ Writable catalog other route := by
  cases route with
  | nil => exact Iff.rfl
  | cons step rest =>
    obtain ⟨relation, key⟩ := step
    simp only [Writable, stands.joinAlias, stands.matching ⟨rfl, rfl⟩]

/-- A table that grew by visits: each join leads to the table of its relation's head. -/
inductive Routed (catalog : Catalog) : Table → Prop
  | make {label name : String} {node : Node} {joins : List Join}
      (led : ∀ relation key joined, .make relation key joined ∈ joins →
        relation.head catalog = .ok joined.node ∧ joined.name = joined.node.table ∧
          joined.label = (Table.make label name node []).joinAlias relation key)
      (below : ∀ relation key joined, .make relation key joined ∈ joins → Routed catalog joined) :
      Routed catalog (.make label name node joins)

theorem Table.leftJoinsAll_eq_ok {joins : List Join} :
    (∃ written, table.leftJoinsAll joins = .ok written) ↔
      ∀ relation key joined, .make relation key joined ∈ joins →
        (∃ named, joined.named = .ok named) ∧ (∃ pairs, table.matching joined relation = .ok pairs) ∧
          ∃ further, joined.leftJoins = .ok further := by
  induction joins with
  | nil => simp [leftJoinsAll]
  | cons join rest ih =>
    obtain ⟨relation, key, joined⟩ := join
    constructor
    · rintro ⟨written, made⟩
      obtain ⟨named, first, made⟩ := Outcome.bind_eq_ok.mp made
      obtain ⟨pairs, second, made⟩ := Outcome.bind_eq_ok.mp made
      obtain ⟨further, third, made⟩ := Outcome.bind_eq_ok.mp made
      obtain ⟨others, fourth, -⟩ := Outcome.bind_eq_ok.mp made
      intro relation' key' joined' inside
      rcases List.mem_cons.mp inside with same | later
      · cases same
        exact ⟨⟨named, first⟩, ⟨pairs, second⟩, ⟨further, third⟩⟩
      · exact ih.mp ⟨others, fourth⟩ relation' key' joined' later
    · intro each
      obtain ⟨⟨named, first⟩, ⟨pairs, second⟩, ⟨further, third⟩⟩ :=
        each relation key joined (List.mem_cons_self ..)
      obtain ⟨others, fourth⟩ := ih.mpr fun relation' key' joined' later =>
        each relation' key' joined' (List.mem_cons_of_mem _ later)
      refine ⟨⟨named, pairs⟩ :: further ++ others, ?_⟩
      rw [leftJoinsAll, first, second, third, fourth]
      rfl

/-- The joins of a table can be written if each route can. -/
theorem Routed.leftJoins_eq_ok (routed : Routed catalog table) :
    (∃ written, table.leftJoins = .ok written) ↔
      ∀ route, table.Has route → Writable catalog table route := by
  induction routed with
  | @make label name node joins led below ih =>
    change (∃ written, Table.leftJoinsAll (.make label name node []) joins = .ok written) ↔ _
    rw [Table.leftJoinsAll_eq_ok]
    -- What is joined is written as the bare table of the relation's head is.
    have bare {relation : JoinRelation} {key : Option String} {joined : Table}
        (inside : .make relation key joined ∈ joins) : ∃ head, relation.head catalog = .ok head ∧
          Table.Stands joined (.ofNode head (Table.joinAlias (.make label name node joins)
            relation key)) ∧ joined.named = (Table.ofNode head
              (Table.joinAlias (.make label name node joins) relation key)).named := by
      obtain ⟨leads, named, labelled⟩ := led relation key joined inside
      refine ⟨joined.node, leads, ⟨labelled, rfl⟩, ?_⟩
      unfold Table.named
      rw [named, labelled]
      rfl
    have same : Table.Stands (.make label name node []) (.make label name node joins) := ⟨rfl, rfl⟩
    constructor
    · intro each route has
      cases has with
      | here => trivial
      | @along _ joined relation key rest inside further =>
        obtain ⟨named, pairs, deeper⟩ := each relation key joined inside
        obtain ⟨head, leads, stands, written⟩ := bare inside
        intro head' leads'
        cases leads.symm.trans leads'
        refine ⟨written ▸ named, same.matching stands ▸ pairs, stands.writable.mp ?_⟩
        exact (ih relation key joined inside).mp deeper rest further
    · intro each relation key joined inside
      obtain ⟨head, leads, stands, written⟩ := bare inside
      have writable (rest : Route) (further : joined.Has rest) :=
        each ((relation, key) :: rest) (.along inside further) head leads
      obtain ⟨named, pairs, -⟩ := writable [] .here
      refine ⟨written ▸ named, same.matching stands ▸ pairs, ?_⟩
      exact (ih relation key joined inside).mpr fun rest further =>
        stands.writable.mpr (writable rest further).2.2

end Writing

end LiveQuery.Sql
