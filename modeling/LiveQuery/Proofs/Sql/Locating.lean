import LiveQuery.Proofs.Sql.Steady

set_option autoImplicit false

namespace LiveQuery.Sql

namespace Table

/-- The table that the joins along a route lead to. -/
inductive At : Table → Route → Table → Prop
  | here {table : Table} : table.At [] table
  | along {table joined last : Table} {relation : JoinRelation} {key : Option String} {rest : Route}
      (inside : .make relation key joined ∈ table.joins) (further : joined.At rest last) :
      table.At ((relation, key) :: rest) last

variable {table first second : Table} {route : Route}

theorem has_iff_at : table.Has route ↔ ∃ last, table.At route last := by
  constructor
  · intro has
    induction has with
    | here => exact ⟨_, .here⟩
    | along inside _ ih =>
      obtain ⟨last, further⟩ := ih
      exact ⟨last, .along inside further⟩
  · rintro ⟨last, leads⟩
    induction leads with
    | here => exact .here
    | along inside _ ih => exact .along inside ih

theorem At.append {relation : JoinRelation} {key : Option String} (leads : table.At route first)
    (inside : .make relation key second ∈ first.joins) :
    table.At (route ++ [(relation, key)]) second := by
  induction leads with
  | here => exact .along inside .here
  | along inside' _ ih => exact .along inside' (ih inside)

theorem Once.at (once : table.Once) (leads : table.At route first) : first.Once := by
  induction leads with
  | here => exact once
  | along inside _ ih =>
    cases once with
    | make _ below => exact ih (below _ _ _ inside)

theorem Once.eq_of_at (once : table.Once) (leads : table.At route first)
    (leads' : table.At route second) : first = second := by
  induction leads with
  | here =>
    cases leads'
    rfl
  | along inside further ih =>
    cases leads' with
    | along inside' further' =>
      cases once with
      | make apart below =>
        cases List.inj_on_of_nodup_map apart inside inside' rfl
        exact ih (below _ _ _ inside) further'

end Table

def keyText : Option String → String
  | some key => "#" ++ key
  | none => ""

/-- What a join adds to the alias of the table that it hangs on. -/
def stepText (relation : JoinRelation) (key : Option String) : String :=
  relation.mark ++ (relation.name ++ keyText key)

/-- What the joins along a route add to the alias of the table that they start from. -/
def Route.text : Route → String
  | [] => ""
  | (relation, key) :: rest => stepText relation key ++ Route.text rest

theorem Table.joinAlias_eq (table : Table) (relation : JoinRelation) (key : Option String) :
    table.joinAlias relation key = table.label ++ stepText relation key := by
  cases key <;> simp only [Table.joinAlias, Table.headAlias, stepText, keyText, String.append_assoc]

section Routed

open Table (Stands)

variable {catalog : Catalog} {table other last last' : Table} {route : Route}

theorem Routed.at (routed : Routed catalog table) (leads : table.At route last) :
    Routed catalog last := by
  induction leads with
  | here => exact routed
  | along inside _ ih =>
    cases routed with
    | make led below => exact ih (below _ _ _ inside)

/-- The alias of a joined table is spelled by the route that leads to it. -/
theorem Routed.label_at (routed : Routed catalog table) (leads : table.At route last) :
    last.label = table.label ++ Route.text route := by
  induction leads with
  | here => exact (String.append_empty).symm
  | @along table joined last relation key rest inside further ih =>
    cases routed with
    | make led below =>
      obtain ⟨-, -, label⟩ := led relation key joined inside
      rw [ih (below _ _ _ inside), label, Table.joinAlias_eq, Route.text, String.append_assoc]
      rfl

/-- One route leads to like tables in tables that are alike. -/
theorem Routed.stands_at (routed : Routed catalog table) (routed' : Routed catalog other)
    (stands : Stands table other) (name : table.name = other.name) (leads : table.At route last)
    (leads' : other.At route last') : Stands last last' ∧ last.name = last'.name := by
  induction leads generalizing other with
  | here =>
    cases leads'
    exact ⟨stands, name⟩
  | @along table joined last relation key rest inside further ih =>
    cases leads' with
    | @along _ joined' _ _ _ _ inside' further' =>
      cases routed with
      | make led below =>
        cases routed' with
        | make led' below' =>
          obtain ⟨head, named, label⟩ := led relation key joined inside
          obtain ⟨head', named', label'⟩ := led' relation key joined' inside'
          have node : joined.node = joined'.node := Except.ok.inj (head.symm.trans head')
          refine ih (below _ _ _ inside) (below' _ _ _ inside') ⟨?_, node⟩ ?_ further'
          · rw [label, label']
            exact Stands.joinAlias ⟨stands.label, stands.node⟩
          · rw [named, named', node]

end Routed

/-- The table as an action leaves it, whether or not the action succeeds. -/
def Building.leaves {α : Type} (action : Building α) (table : Table) : Table :=
  match action table with
  | .ok _ after | .error _ after => after

/-- What a table has at the end of a route is still there when the table has grown. -/
theorem Grew.kept {catalog : Catalog} {table after last : Table} {added : Route → Prop}
    {route : Route} (grew : Grew catalog table after added) (routed : Routed catalog table)
    (leads : table.At route last) :
    ∃ last', after.At route last' ∧ Table.Stands last' last ∧ last'.name = last.name := by
  have has := (grew.has route).mpr (Or.inl (Table.has_iff_at.mpr ⟨last, leads⟩))
  obtain ⟨last', leads'⟩ := Table.has_iff_at.mp has
  exact ⟨last', leads', grew.routed.stands_at routed grew.stands grew.name leads' leads⟩

end LiveQuery.Sql
