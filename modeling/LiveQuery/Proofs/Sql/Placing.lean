import LiveQuery.Proofs.Sql.Aliases
import LiveQuery.Proofs.Sql.Scoping

set_option autoImplicit false

namespace LiveQuery.Sql

namespace Table

mutual

/-- What a table and all that is joined to it declare. -/
def declared (route : List JoinRelation) : Table → Frame
  | .make label _ node joins => ⟨label, node, route⟩ :: declaredAll route joins

def declaredAll (route : List JoinRelation) : List Join → Frame
  | [] => []
  | .make relation _ joined :: rest =>
    declared (route ++ [relation]) joined ++ declaredAll route rest

end

theorem declaredAll_append (route : List JoinRelation) (joins others : List Join) :
    declaredAll route (joins ++ others) = declaredAll route joins ++ declaredAll route others := by
  induction joins with
  | nil => rfl
  | cons join rest ih =>
    cases join
    rw [List.cons_append, declaredAll, declaredAll, ih, List.append_assoc]

theorem mem_declaredAll {route : List JoinRelation} {joins : List Join}
    {declaration : Declaration} : declaration ∈ declaredAll route joins ↔
      ∃ relation key joined, .make relation key joined ∈ joins ∧
        declaration ∈ declared (route ++ [relation]) joined := by
  induction joins with
  | nil => simp [declaredAll]
  | cons join rest ih =>
    obtain ⟨relation, key, joined⟩ := join
    rw [declaredAll, List.mem_append, ih]
    constructor
    · rintro (here | ⟨relation', key', joined', inside, behind⟩)
      · exact ⟨relation, key, joined, List.mem_cons_self .., here⟩
      · exact ⟨relation', key', joined', List.mem_cons_of_mem _ inside, behind⟩
    · rintro ⟨relation', key', joined', inside, behind⟩
      rcases List.mem_cons.mp inside with same | later
      · cases same
        exact Or.inl behind
      · exact Or.inr ⟨relation', key', joined', later, behind⟩

theorem declared_eq (route : List JoinRelation) (table : Table) :
    table.declared route = ⟨table.label, table.node, route⟩ :: declaredAll route table.joins := by
  cases table
  rfl

end Table

def Join.relation : Join → JoinRelation
  | .make relation _ _ => relation

/-- How a table is joined to another one. -/
structure Attached (catalog : Catalog) (label : String) (node : Node) (relation : JoinRelation)
    (key : Option String) (joined : Table) : Prop where
  plain : key = none
  part : relation.PartOf node
  head : catalog.node? relation.headName = some joined.node
  name : joined.name = joined.node.table
  label : joined.label = label ++ relation.mark ++ relation.name

/-- A table to which others are joined by relations of its node, each relation once. -/
inductive Tidy (catalog : Catalog) : Table → Prop
  | make {label name : String} {node : Node} {joins : List Join}
      (found : catalog.node? node.name = some node)
      (each : ∀ relation key joined, .make relation key joined ∈ joins →
        Attached catalog label node relation key joined)
      (below : ∀ relation key joined, .make relation key joined ∈ joins → Tidy catalog joined)
      (apart : joins.Pairwise fun join other => join.relation ≠ other.relation) :
      Tidy catalog (.make label name node joins)

section Tables

variable {catalog : Catalog} {table after : Table}

theorem Tidy.found (tidy : Tidy catalog table) :
    catalog.node? table.node.name = some table.node := by
  cases tidy
  assumption

theorem Tidy.alone {node : Node} (found : catalog.node? node.name = some node)
    (label name : String) : Tidy catalog (.make label name node []) :=
  .make found (by simp) (by simp) .nil

/-- What a table declares is declared under aliases that go on from its own. -/
theorem Tidy.within (tidy : Tidy catalog table) {route : List JoinRelation}
    {declaration : Declaration} (declared : declaration ∈ table.declared route) :
    Within table.label declaration.label := by
  induction tidy generalizing route with
  | @make label name node joins found each below apart ih =>
    rw [Table.declared, List.mem_cons, Table.mem_declaredAll] at declared
    rcases declared with rfl | ⟨relation, key, joined, inside, behind⟩
    · exact Or.inl rfl
    · have onward : Onward label joined.label :=
        (each relation key joined inside).label ▸ onward_append relation.marks label relation.name
      exact Or.inr (onward.trans (ih relation key joined inside behind))

/-- A catalog whose relations hang together, and have no mark in their names. -/
structure Orderly (catalog : Catalog) : Prop where
  wellFormed : catalog.WellFormed
  unmarked : ∀ {name node}, catalog.node? name = some node → ∀ relation : JoinRelation,
    relation.PartOf node → Unmarked relation.name

/-- The node behind a reverse edge holds the edge. -/
theorem Orderly.holds (orderly : Orderly catalog) {node head : Node} {relation : ReverseEdge}
    (found : catalog.node? node.name = some node)
    (part : node.reverseEdge? relation.name = some relation)
    (known : catalog.node? relation.head = some head) : .edge relation.edge ∈ head.components := by
  obtain ⟨-, holder, known', holds⟩ := orderly.wellFormed.relations found relation
    (Catalog.WellFormed.mem_of_reverseEdge? part).1
  rw [known, Option.some.injEq] at known'
  exact known' ▸ holds

theorem JoinRelation.eq_of_partOf {node : Node} {relation relation' : JoinRelation}
    (part : relation.PartOf node) (part' : relation'.PartOf node)
    (mark : relation.mark = relation'.mark) (name : relation.name = relation'.name) :
    relation = relation' := by
  cases relation with
  | edge link =>
    cases relation' with
    | edge link' =>
      have first : node.component? link.name = some (.edge link) := part
      have second : node.component? link'.name = some (.edge link') := part'
      rw [show link.name = link'.name from name, second] at first
      cases first
      rfl
    | reverse => exact absurd mark (by decide : ">" ≠ "<")
  | reverse relation =>
    cases relation' with
    | edge => exact absurd mark (by decide : "<" ≠ ">")
    | reverse relation' =>
      have first : node.reverseEdge? relation.name = some relation := part
      have second : node.reverseEdge? relation'.name = some relation' := part'
      rw [show relation.name = relation'.name from name, second] at first
      cases first
      rfl

theorem JoinRelation.isName_of_partOf {definitions : CatalogDefinition}
    (built : definitions.build = .ok catalog) {node : Node} {relation : JoinRelation}
    (found : catalog.node? node.name = some node) (part : relation.PartOf node) :
    isName relation.name = true := by
  cases relation with
  | edge link => exact CatalogDefinition.isName_of_build built found (Node.mem_of_component? part)
  | reverse relation =>
    exact CatalogDefinition.isName_reverse_of_build built found
      (Catalog.WellFormed.mem_of_reverseEdge? part).1

/-- Tables behind two relations of one table have no alias in common. -/
theorem Attached.apart (orderly : Orderly catalog) {label : String} {node : Node}
    {relation relation' : JoinRelation} {key key' : Option String} {joined joined' : Table}
    (found : catalog.node? node.name = some node)
    (first : Attached catalog label node relation key joined)
    (second : Attached catalog label node relation' key' joined') (differs : relation ≠ relation')
    (tidy : Tidy catalog joined) (tidy' : Tidy catalog joined') {route route' : List JoinRelation}
    {declaration declaration' : Declaration} (inside : declaration ∈ joined.declared route)
    (inside' : declaration' ∈ joined'.declared route') :
    declaration.label ≠ declaration'.label := by
  intro same
  have within := tidy.within inside
  have within' := tidy'.within inside'
  rw [first.label, same] at within
  rw [second.label] at within'
  obtain ⟨mark, named⟩ := eq_of_within relation.marks relation'.marks
    (orderly.unmarked found relation first.part) (orderly.unmarked found relation' second.part)
    within within'
  exact differs (JoinRelation.eq_of_partOf first.part second.part mark named)

/-- No alias is declared twice. -/
theorem Tidy.distinct (orderly : Orderly catalog) (tidy : Tidy catalog table)
    (route : List JoinRelation) : ((table.declared route).map (·.label)).Nodup := by
  induction tidy generalizing route with
  | @make label name node joins found each below apart ih =>
    have onward (declaration : Declaration)
        (inside : declaration ∈ Table.declaredAll route joins) :
        Onward label declaration.label := by
      obtain ⟨relation, key, joined, member, behind⟩ := Table.mem_declaredAll.mp inside
      have first : Onward label joined.label :=
        (each relation key joined member).label ▸ onward_append relation.marks label relation.name
      exact first.trans ((below relation key joined member).within behind)
    -- The table's own alias is shorter than all behind it.
    rw [Table.declared, List.map_cons, List.nodup_cons]
    constructor
    · intro again
      obtain ⟨declaration, inside, same⟩ := List.mem_map.mp again
      exact (onward declaration inside).ne same
    clear onward
    induction joins with
    | nil => exact List.nodup_nil
    | cons join rest behind =>
      obtain ⟨relation, key, joined⟩ := join
      obtain ⟨differs, apart⟩ := List.pairwise_cons.mp apart
      have first := each relation key joined (List.mem_cons_self ..)
      rw [Table.declaredAll, List.map_append, List.nodup_append]
      refine ⟨ih relation key joined (List.mem_cons_self ..) _, ?_, ?_⟩
      · exact behind (fun relation key joined later => each _ key _ (List.mem_cons_of_mem _ later))
          (fun relation key joined later => below _ key _ (List.mem_cons_of_mem _ later)) apart
          fun relation key joined later => ih _ key _ (List.mem_cons_of_mem _ later)
      · intro alias_ here other there
        obtain ⟨declaration, inside, rfl⟩ := List.mem_map.mp here
        obtain ⟨declaration', inside', rfl⟩ := List.mem_map.mp there
        obtain ⟨relation', key', joined', later, declared⟩ := Table.mem_declaredAll.mp inside'
        exact Attached.apart orderly found first (each _ key' _ (List.mem_cons_of_mem _ later))
          (differs _ later) (below _ key _ (List.mem_cons_self ..))
          (below _ key' _ (List.mem_cons_of_mem _ later)) inside declared

end Tables

section Columns

variable {node : Node}

theorem Node.mem_columns {component : Component} {name : String}
    (part : component ∈ node.components) (inside : name ∈ component.columns) :
    name ∈ node.columns := List.mem_flatMap.mpr ⟨component, part, inside⟩

theorem Node.mem_columns_of_leaf {field : Leaf} (part : .leaf field ∈ node.components) :
    field.column ∈ node.columns := Node.mem_columns part (List.mem_singleton_self _)

theorem Node.mem_columns_of_edge {link : Edge} (part : .edge link ∈ node.components)
    {foreignKey : ForeignKeyColumn} (inside : foreignKey ∈ link.columns) :
    foreignKey.column ∈ node.columns := Node.mem_columns part (List.mem_map_of_mem inside)

end Columns

section Sites

variable {catalog : Catalog} {table after : Table} {frame : Frame} {outer : List Frame}
  {declaration : Declaration} {site : Site} {link : Edge}

theorem resolve?_inside (distinct : (frame.map (·.label)).Nodup) (inside : declaration ∈ frame) :
    resolve? (frame :: outer) declaration.label = some (0, declaration) := by
  have found : frame.find? (·.label = declaration.label) = some declaration :=
    Lists.find?_name_eq_some distinct inside
  rw [resolve?, found]

theorem resolve?_outside {depth : Nat} {label : String}
    (absent : ∀ other ∈ frame, other.label ≠ label)
    (known : resolve? outer label = some (depth, declaration)) :
    resolve? (frame :: outer) label = some (depth + 1, declaration) := by
  have missing : frame.find? (·.label = label) = none := by
    rw [List.find?_eq_none]
    exact fun other inside => by simpa using absent other inside
  rw [resolve?, missing, known]
  rfl

theorem correlates_of_pairs {holder target : Table} {pairs : List Match}
    {held targeted : Nat × Declaration} (matched : Pairs link holder target pairs)
    (node : targeted.2.node = target.node)
    (stored : ∀ foreignKey ∈ link.columns, foreignKey.column ∈ held.2.node.columns)
    (resolved : resolve? (site.frame :: site.outer) holder.label = some held)
    (resolved' : resolve? (site.frame :: site.outer) target.label = some targeted) :
    site.Correlates link held targeted pairs := by
  refine (Lists.forall₂_mem matched).imp fun foreignKey pair both => ?_
  obtain ⟨⟨label, name, label', field, known, name'⟩, inside, -⟩ := both
  refine ⟨⟨label ▸ resolved, name, stored foreignKey inside⟩, field, node ▸ known,
    ⟨label' ▸ resolved', name', ?_⟩⟩
  rw [node]
  exact Node.mem_columns_of_leaf (Node.mem_of_leaf known).2

/-- All that a table declares is known at the place, under aliases of one meaning, and the place
speaks of the table. -/
structure Covers (table : Table) (site : Site) : Prop where
  label : site.here.label = table.label
  node : site.here.node = table.node
  declared : ∀ declaration ∈ table.declared site.here.route, declaration ∈ site.frame
  distinct : (site.frame.map (·.label)).Nodup

/-- A table that may have got more joins. -/
structure Extends (table after : Table) : Prop where
  label : after.label = table.label
  name : after.name = table.name
  node : after.node = table.node
  declared : ∀ route, ∀ declaration ∈ table.declared route, declaration ∈ after.declared route

theorem Extends.refl (table : Table) : Extends table table := ⟨rfl, rfl, rfl, fun _ _ => id⟩

theorem Extends.trans {last : Table} (first : Extends table after) (second : Extends after last) :
    Extends table last :=
  ⟨second.label.trans first.label, second.name.trans first.name, second.node.trans first.node,
    fun route _ inside => second.declared route _ (first.declared route _ inside)⟩

namespace Covers

theorem of_extends (covers : Covers after site) (extends_ : Extends table after) :
    Covers table site :=
  ⟨covers.label.trans extends_.label, covers.node.trans extends_.node,
    fun _ inside => covers.declared _ (extends_.declared _ _ inside), covers.distinct⟩

theorem here_mem (covers : Covers table site) : site.here ∈ site.frame := by
  refine covers.declared _ ?_
  rw [Table.declared_eq, ← covers.label, ← covers.node]
  exact List.mem_cons_self ..

theorem resolved (covers : Covers table site) :
    resolve? (site.frame :: site.outer) table.label = some (0, site.here) :=
  covers.label ▸ resolve?_inside covers.distinct covers.here_mem

theorem denotes (covers : Covers table site) {name : String} {column : Column}
    (made : table.column name = .ok column) (stored : name ∈ table.node.columns) :
    site.Denotes 0 site.here name column := by
  obtain ⟨label, named⟩ := Table.column_eq_ok made
  exact ⟨label ▸ covers.resolved, named, covers.node ▸ stored⟩

theorem refers (covers : Covers table site) {columns : List Column}
    (made : link.columns.mapM (fun foreignKey => table.column foreignKey.column) = .ok columns)
    (part : .edge link ∈ table.node.components) : site.Refers link columns := by
  refine (Lists.forall₂_mem (Outcome.mapM_eq_ok_iff.mp made)).imp fun foreignKey column both => ?_
  exact covers.denotes both.1 (Node.mem_columns_of_edge part both.2.1)

end Covers

end Sites

section Joins

variable {catalog : Catalog} {table : Table}

theorem Introduces.append {first second third : Frame} {joins others : List LeftJoin}
    (introduces : Introduces catalog first joins second)
    (behind : Introduces catalog second others third) :
    Introduces catalog first (joins ++ others) third := by
  induction introduces with
  | nil => exact behind
  | cons hangs part head route fresh table label matching _ ih =>
    exact .cons hangs part head route fresh table label matching (ih behind)

theorem leftJoinsAll_cons_eq_ok {joined : Table} {relation : JoinRelation} {key : Option String}
    {rest : List Join} {joins : List LeftJoin}
    (made : Table.leftJoinsAll table (.make relation key joined :: rest) = .ok joins) :
    ∃ join inner others, joined.leftJoins = .ok inner ∧ table.leftJoinsAll rest = .ok others ∧
      joins = join :: (inner ++ others) ∧ join.table.table.text = joined.name ∧
      join.table.label.text = joined.label ∧
      Table.matching table joined relation = .ok join.matching := by
  obtain ⟨named, written, made⟩ := Outcome.bind_eq_ok.mp made
  obtain ⟨pairs, matched, made⟩ := Outcome.bind_eq_ok.mp made
  obtain ⟨inner, below, made⟩ := Outcome.bind_eq_ok.mp made
  obtain ⟨others, behind, made⟩ := Outcome.bind_eq_ok.mp made
  obtain ⟨name, identifier, written⟩ := Outcome.bind_eq_ok.mp written
  obtain ⟨label, labelled, written⟩ := Outcome.bind_eq_ok.mp written
  cases written
  cases made
  exact ⟨⟨⟨name, label⟩, pairs⟩, inner, others, below, behind, rfl, Name.ofText_eq_ok identifier,
    Name.ofText_eq_ok labelled, matched⟩

/-- What a join matches is known at the place behind it. -/
theorem Orderly.matches (orderly : Orderly catalog) (table : Table) {relation : JoinRelation}
    {joined : Table} {parent target : Declaration} {frame : Frame} {pairs : List Match}
    (found : catalog.node? table.node.name = some table.node) (part : relation.PartOf table.node)
    (head : catalog.node? relation.headName = some joined.node)
    (label : parent.label = table.label) (node : parent.node = table.node)
    (label' : target.label = joined.label) (node' : target.node = joined.node)
    (distinct : (frame.map (·.label)).Nodup) (inside : parent ∈ frame) (inside' : target ∈ frame)
    (matched : Table.matching table joined relation = .ok pairs) :
    Site.Matches ⟨target, frame, []⟩ parent target relation pairs := by
  have resolved : resolve? (frame :: []) table.label = some (0, parent) :=
    label ▸ resolve?_inside distinct inside
  have resolved' : resolve? (frame :: []) joined.label = some (0, target) :=
    label' ▸ resolve?_inside distinct inside'
  cases relation with
  | edge link =>
    refine correlates_of_pairs (pairs_of_correlate matched) node' (fun foreignKey member => ?_)
      resolved resolved'
    exact Node.mem_columns_of_edge (node ▸ Node.mem_of_component? part) member
  | reverse relation =>
    have holds := orderly.holds found part head
    refine correlates_of_pairs (pairs_of_correlate matched) node (fun foreignKey member => ?_)
      resolved' resolved
    exact Node.mem_columns_of_edge (node' ▸ holds) member

/-- The joins of a table introduce what is joined to it, each table behind the one it hangs on. -/
theorem Tidy.introduces (orderly : Orderly catalog) (tidy : Tidy catalog table)
    {route : List JoinRelation} {joins : List LeftJoin} {earlier : Frame}
    (made : table.leftJoins = .ok joins) (inside : ⟨table.label, table.node, route⟩ ∈ earlier)
    (distinct : ((earlier ++ Table.declaredAll route table.joins).map (·.label)).Nodup) :
    Introduces catalog earlier joins (earlier ++ Table.declaredAll route table.joins) := by
  induction tidy generalizing route joins earlier with
  | @make label name node tables found each below apart ih =>
    change Table.leftJoinsAll (.make label name node []) tables = .ok joins at made
    clear apart below
    simp only [Table.joins, Table.label, Table.node] at inside distinct ⊢
    induction tables generalizing joins earlier with
    | nil =>
      cases made
      rw [Table.declaredAll, List.append_nil]
      exact .nil earlier
    | cons join rest behind =>
      obtain ⟨relation, key, joined⟩ := join
      obtain ⟨join, inner, others, made_inner, made_others, rfl, table, labelled, matched⟩ :=
        leftJoinsAll_cons_eq_ok made
      have attached := each relation key joined (List.mem_cons_self ..)
      let target : Declaration := ⟨joined.label, joined.node, route ++ [relation]⟩
      have split : earlier ++ Table.declaredAll route (.make relation key joined :: rest) =
          earlier ++ [target] ++ Table.declaredAll (route ++ [relation]) joined.joins ++
            Table.declaredAll route rest := by
        rw [Table.declaredAll, Table.declared_eq]
        simp only [target, List.append_assoc, List.cons_append, List.nil_append]
      rw [split] at distinct ⊢
      -- First the joined table, then what hangs on it, then what else hangs on the first table.
      have upTo : ((earlier ++ [target] ++
          Table.declaredAll (route ++ [relation]) joined.joins).map (·.label)).Nodup :=
        distinct.sublist ((List.sublist_append_left _ _).map _)
      have known : ((earlier ++ [target]).map (·.label)).Nodup :=
        upTo.sublist ((List.sublist_append_left _ _).map _)
      have hung : target ∈ earlier ++ [target] :=
        List.mem_append_right _ (List.mem_singleton_self _)
      have first := ih relation key joined (List.mem_cons_self ..) made_inner hung upTo
      have others := behind (fun _ key _ later => each _ key _ (List.mem_cons_of_mem _ later))
        (fun _ key _ later => ih _ key _ (List.mem_cons_of_mem _ later))
        (List.mem_append_left _ (List.mem_append_left _ inside)) distinct made_others
      refine .cons inside attached.part attached.head rfl (fun declaration member same => ?_)
        (table.trans attached.name) labelled ?_ (first.append others)
      · rw [List.map_append, List.nodup_append] at known
        exact known.2.2 _ (List.mem_map_of_mem member) _ (by simp) same
      · exact orderly.matches (.make label name node []) found attached.part attached.head rfl rfl
          rfl rfl known (List.mem_append_left _ inside) hung matched

theorem Tidy.declares (orderly : Orderly catalog) (tidy : Tidy catalog table) {label : Alias}
    {joins : List LeftJoin} (labelled : label.text = table.label)
    (made : table.leftJoins = .ok joins) (outer : List Frame) :
    Declares catalog label joins table.node
      ⟨⟨table.label, table.node, []⟩, table.declared [], outer⟩ := by
  refine ⟨labelled, rfl, rfl, ?_⟩
  have distinct := tidy.distinct orderly []
  rw [Table.declared_eq] at distinct ⊢
  exact tidy.introduces orderly made (List.mem_singleton_self _) distinct

theorem Tidy.opens (orderly : Orderly catalog) (tidy : Tidy catalog table) {source : Source}
    (made : table.source = .ok source) (outer : List Frame) :
    source.Opens catalog table.name table.node
      ⟨⟨table.label, table.node, []⟩, table.declared [], outer⟩ := by
  obtain ⟨name, label, joins⟩ := source_eq_ok made
  exact ⟨name, tidy.declares orderly label joins outer⟩

/-- What a table declares is known in the query that its source opens. -/
theorem Tidy.covers (orderly : Orderly catalog) (tidy : Tidy catalog table) (outer : List Frame) :
    Covers table ⟨⟨table.label, table.node, []⟩, table.declared [], outer⟩ :=
  ⟨rfl, rfl, fun _ => id, tidy.distinct orderly []⟩

end Joins

section Visits

variable {catalog : Catalog} {table after joined joined' : Table} {relation : JoinRelation}

theorem Extends.put {label name : String} {node : Node} {before behind : List Join}
    {key : Option String} (extends_ : Extends joined joined') :
    Extends (.make label name node (before ++ .make relation key joined :: behind))
      (.make label name node (before ++ .make relation key joined' :: behind)) := by
  refine ⟨rfl, rfl, rfl, fun route declaration inside => ?_⟩
  simp only [Table.declared, Table.declaredAll_append, Table.declaredAll, List.mem_cons,
    List.mem_append] at inside ⊢
  rcases inside with here | front | inner | back
  · exact Or.inl here
  · exact Or.inr (Or.inl front)
  · exact Or.inr (Or.inr (Or.inl (extends_.declared _ _ inner)))
  · exact Or.inr (Or.inr (Or.inr back))

theorem Extends.push {label name : String} {node : Node} {joins : List Join} {join : Join} :
    Extends (.make label name node joins) (.make label name node (joins ++ [join])) := by
  refine ⟨rfl, rfl, rfl, fun route declaration inside => ?_⟩
  simp only [Table.declared, Table.declaredAll_append, List.mem_cons, List.mem_append] at inside ⊢
  exact inside.imp_right Or.inl

theorem declared_of_join {label name : String} {node : Node} {joins : List Join}
    (inside : .make relation none joined ∈ joins) (route : List JoinRelation) :
    ∀ declaration ∈ joined.declared (route ++ [relation]),
      declaration ∈ (Table.make label name node joins).declared route :=
  fun _ member => List.mem_cons_of_mem _
    (Table.mem_declaredAll.mpr ⟨relation, none, joined, inside, member⟩)

section Nodes

variable {label name : String} {node : Node} {before behind joins : List Join}

theorem Attached.extend (attached : Attached catalog label node relation none joined)
    (extends_ : Extends joined joined') : Attached catalog label node relation none joined' :=
  ⟨rfl, attached.part, extends_.node ▸ attached.head,
    extends_.name.trans (attached.name.trans (congrArg Node.table extends_.node.symm)),
    extends_.label.trans attached.label⟩

theorem Tidy.put
    (tidy : Tidy catalog (.make label name node (before ++ .make relation none joined :: behind)))
    (tidy' : Tidy catalog joined') (extends_ : Extends joined joined') :
    Tidy catalog (.make label name node (before ++ .make relation none joined' :: behind)) := by
  cases tidy with
  | make found each below apart =>
    have kept {join : Join}
        (inside : join ∈ before ++ .make relation none joined' :: behind) :
        join = .make relation none joined' ∨
          join ∈ before ++ .make relation none joined :: behind := by
      simp only [List.mem_append, List.mem_cons] at inside ⊢
      tauto
    refine .make found (fun relation' key other inside => ?_)
      (fun relation' key other inside => ?_) ?_
    · rcases kept inside with same | old
      · cases same
        exact (each relation none joined (by simp)).extend extends_
      · exact each relation' key other old
    · rcases kept inside with same | old
      · cases same
        exact tidy'
      · exact below relation' key other old
    · have relations (found : Table) :
          (before ++ Join.make relation none found :: behind).map Join.relation =
            before.map Join.relation ++ relation :: behind.map Join.relation := by
        rw [List.map_append, List.map_cons]
        rfl
      rw [← List.pairwise_map (f := Join.relation) (R := fun a b => a ≠ b), relations] at apart ⊢
      exact apart

theorem Tidy.push (tidy : Tidy catalog (.make label name node joins))
    (attached : Attached catalog label node relation none joined) (tidy' : Tidy catalog joined)
    (new : ∀ join ∈ joins, join.relation ≠ relation) :
    Tidy catalog (.make label name node (joins ++ [.make relation none joined])) := by
  cases tidy with
  | make found each below apart =>
    refine .make found (fun relation' key other inside => ?_)
      (fun relation' key other inside => ?_) ?_
    · rcases List.mem_append.mp inside with old | last
      · exact each relation' key other old
      · cases List.mem_singleton.mp last
        exact attached
    · rcases List.mem_append.mp inside with old | last
      · exact below relation' key other old
      · cases List.mem_singleton.mp last
        exact tidy'
    · refine List.pairwise_append.mpr
        ⟨apart, List.pairwise_singleton _ _, fun join old last inside => ?_⟩
      rw [List.mem_singleton.mp inside]
      exact new join old

end Nodes

/-- What a visit does: it runs in the table that the relation leads to, which may get more joins. -/
structure Visit (catalog : Catalog) (relation : JoinRelation) (table after joined joined' : Table) :
    Prop where
  tidy : Tidy catalog joined
  head : catalog.node? relation.headName = some joined.node
  after_tidy : Tidy catalog joined' → Extends joined joined' → Tidy catalog after
  extends_ : Extends joined joined' → Extends table after
  declared : ∀ route, ∀ declaration ∈ joined'.declared (route ++ [relation]),
    declaration ∈ after.declared route

theorem Tidy.visit (tidy : Tidy catalog table) (part : relation.PartOf table.node) {α : Type}
    {action : Building α} {value : α}
    (visited : Table.visit catalog relation none action table = .ok value after) :
    ∃ joined joined', action joined = .ok value joined' ∧
      Visit catalog relation table after joined joined' := by
  cases table with
  | make label name node joins =>
    cases went_of_visit visited with
    | @back before behind joined joined' listed ran =>
      obtain rfl : joins = _ := listed
      have known : Tidy catalog joined ∧ catalog.node? relation.headName = some joined.node := by
        cases tidy with
        | make found each below apart =>
          exact ⟨below relation none joined (by simp), (each relation none joined (by simp)).head⟩
      exact ⟨joined, joined', ran, known.1, known.2, tidy.put, Extends.put,
        declared_of_join (by simp)⟩
    | @anew head joined' new looked ran =>
      have known : catalog.node? relation.headName = some head := Linked.node?_of_head looked
      have named := Catalog.name_of_node? known
      have attached : Attached catalog label node relation none
          (.ofNode head (Table.joinAlias (.make label name node joins) relation none)) :=
        ⟨rfl, part, known, rfl, String.append_empty⟩
      have fresh : ∀ join ∈ joins, join.relation ≠ relation := by
        intro join inside same
        obtain ⟨present, key, other⟩ := join
        have plain : key = none := by
          cases tidy with
          | make found each below apart => exact (each present key other inside).plain
        exact new present key other inside ⟨same, plain⟩
      exact ⟨_, joined', ran, .alone (named ▸ known) _ _, known,
        fun tidy' extends_ => tidy.push (attached.extend extends_) tidy' fresh, fun _ => .push,
        declared_of_join (by simp)⟩

end Visits

end LiveQuery.Sql
