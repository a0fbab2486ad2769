import LiveQuery.Proofs.Sql.Aliases
import LiveQuery.Proofs.Sql.Storing

set_option autoImplicit false

namespace LiveQuery.Sql

/-- The aliases of what hangs on a table. -/
def Below (label other : String) : Prop := ∃ rest, other = label ++ ">" ++ rest

/-- The aliases of a table and of what hangs on it. -/
def Under (label other : String) : Prop := other = label ∨ Below label other

section Aliases

variable {label name name' other : String}

theorem below_of_under (under : Under (label ++ ">" ++ name) other) : Below label other := by
  rcases under with rfl | ⟨rest, rfl⟩
  · exact ⟨name, rfl⟩
  · exact ⟨name ++ ">" ++ rest, by simp only [String.append_assoc]⟩

theorem Below.onward (below : Below label other) : Onward label other := by
  obtain ⟨rest, rfl⟩ := below
  exact onward_append marks_edge label rest

theorem Under.within (under : Under label other) : Within label other :=
  under.imp_right Below.onward

theorem not_under {mark : String} (marks : Marks mark) (label name : String) :
    ¬Under (label ++ mark ++ name) label :=
  fun under => ((onward_append marks label name).trans under.within).ne rfl

theorem eq_of_under (plain : Unmarked name) (plain' : Unmarked name')
    (first : Under (label ++ ">" ++ name) other) (second : Under (label ++ ">" ++ name') other) :
    name = name' :=
  (eq_of_within marks_edge marks_edge plain plain' first.within second.within).2

end Aliases

def Join.ofHead (head : Edge × Table) : Join := .make (.edge head.1) none head.2

/-- How the head of an edge is joined to a table of a node. -/
structure Hangs (label : String) (node : Node) (head : Edge × Table) : Prop where
  part : .edge head.1 ∈ node.components
  node : head.2.node.name = head.1.head
  label : head.2.label = label ++ ">" ++ head.1.name

/-- A table to which heads of edges are joined, each edge once. -/
inductive Sound (catalog : Catalog) : Table → Prop
  | make {label : String} {node : Node} {heads : List (Edge × Table)}
      (found : catalog.node? node.name = some node)
      (hangs : ∀ head ∈ heads, Hangs label node head)
      (apart : (heads.map (·.1.name)).Nodup)
      (below : ∀ head ∈ heads, Sound catalog head.2) :
      Sound catalog (.make label node.table node (heads.map Join.ofHead))

/-- The aliases of a table stand for the row of a record and for the rows of the heads that the
record leads to. -/
inductive Placed (store : Store) (scope : Scope) : Table → Record → Prop
  | make {label name : String} {node : Node} {joins : List Join} {record : Record}
      (inside : record ∈ store node.name) (stored : node.StoredAs record (scope label))
      (below : ∀ link key joined, .make (.edge link) key joined ∈ joins →
        ∀ other ∈ store link.head, link.refers record other = true →
          Placed store scope joined other) :
      Placed store scope (.make label name node joins) record

/-- The row under an alias is that of a record, or one of nulls where there is none. -/
def Anchored (store : Store) (scope : Scope) (label : String) (node : Node) :
    Option Record → Prop
  | none => scope label = Row.null
  | some record => record ∈ store node.name ∧ node.StoredAs record (scope label)

theorem Sound.ofNode {catalog : Catalog} {node : Node}
    (found : catalog.node? node.name = some node) (label : String) :
    Sound catalog (Table.ofNode node label) := by
  have alone : Sound catalog (.make label node.table node (([] : List (Edge × Table)).map
      Join.ofHead)) := .make found (by simp) List.nodup_nil (by simp)
  exact alone

section Placed

variable {catalog : Catalog} {store : Store} {scope scope' : Scope} {table : Table}
  {record : Record}

theorem Sound.found (sound : Sound catalog table) :
    catalog.node? table.node.name = some table.node := by
  cases sound with
  | make found => exact found

theorem Sound.name_eq (sound : Sound catalog table) : table.name = table.node.table := by
  cases sound
  rfl

theorem Placed.anchored (placed : Placed store scope table record) :
    Anchored store scope table.label table.node (some record) := by
  cases placed with
  | make inside stored => exact ⟨inside, stored⟩

/-- Only the aliases of the table itself matter. -/
theorem Placed.congr (sound : Sound catalog table) (placed : Placed store scope table record)
    (same : ∀ other, Under table.label other → scope' other = scope other) :
    Placed store scope' table record := by
  induction sound generalizing record with
  | @make label node heads found hangs apart below ih =>
    cases placed with
    | make inside stored heads_placed =>
      have here : scope' label = scope label := same label (Or.inl rfl)
      refine .make inside (here ▸ stored) fun link key joined member other inside' refers => ?_
      obtain ⟨head, within, made⟩ := List.mem_map.mp member
      cases made
      refine ih head within (heads_placed _ _ _ member other inside' refers) fun alias_ under => ?_
      rw [(hangs head within).label] at under
      exact same alias_ (Or.inr (below_of_under under))

end Placed

/-- What is relied on of a catalog and of a database with the rows of a store. -/
structure Serves (catalog : Catalog) (store : Store) (database : Database) : Prop where
  wellFormed : catalog.WellFormed
  named : ∀ {name node}, catalog.node? name = some node → ∀ component ∈ node.components,
    isName component.name = true
  keyed : catalog.Keyed
  consistent : store.Consistent catalog
  stores : database.Stores catalog store

section Joins

variable {catalog : Catalog} {store : Store} {database : Database} {scope : Scope}

/-- A join, and the tables that it connects. -/
structure Connects (link : Edge) (holder target : Table) (join : LeftJoin) : Prop where
  table : join.table.table.text = target.name
  label : join.table.label.text = target.label
  pairs : Pairs link holder target join.matching
  apart : holder.label ≠ target.label

theorem LeftJoin.extend_of_nil {join : LeftJoin} (alone : join.partners database scope = []) :
    join.extend database scope = [Function.update scope join.table.label.text Row.null] := by
  rw [extend, alone]
  rfl

theorem LeftJoin.extend_of_singleton {join : LeftJoin} {row : Row}
    (single : join.partners database scope = [row]) :
    join.extend database scope = [Function.update scope join.table.label.text row] := by
  rw [extend, single]
  rfl

section Partners

variable {link : Edge} {holder target : Table} {join : LeftJoin}

theorem Connects.update_holder (connects : Connects link holder target join) (row : Row) :
    Function.update scope target.label row holder.label = scope holder.label :=
  Function.update_of_ne connects.apart ..

theorem Connects.partners_eq_nil (connects : Connects link holder target join)
    (filled : link.columns ≠ []) (null : scope holder.label = Row.null) :
    join.partners database scope = [] := by
  obtain ⟨column, inside⟩ := List.exists_mem_of_ne_nil _ filled
  rw [LeftJoin.partners, List.filter_eq_nil_iff, connects.label]
  intro row _
  have cell : Function.update scope target.label row holder.label column.column = .null := by
    rw [connects.update_holder, null]
    rfl
  rw [connects.pairs.select_eq_false ⟨column, inside, cell⟩]
  exact Bool.false_ne_true

/-- The partners of a record's row are the rows that the record refers to. -/
theorem Serves.partners (serves : Serves catalog store database)
    (connects : Connects link holder target join)
    (found : catalog.node? holder.node.name = some holder.node)
    (part : .edge link ∈ holder.node.components) (head : target.node.name = link.head)
    (sound : Sound catalog target) {record : Record}
    (anchored : Anchored store scope holder.label holder.node (some record)) :
    ∃ rows, rows.Perm (join.partners database scope) ∧
      List.Forall₂ target.node.StoredAs ((store link.head).filter (link.refers record)) rows := by
  obtain ⟨inside, stored⟩ := anchored
  obtain ⟨node, leads⟩ := serves.wellFormed.heads found link part
  have lookup : catalog.node? link.head = some target.node := head ▸ sound.found
  obtain ⟨rows, permuted, paired⟩ := serves.stores.filter lookup (link.refers record)
    (fun row => Truth.select
      (join.matching.map (Match.truth (Function.update scope target.label row)))) (by
      intro other _ row stored'
      refine connects.pairs.select_eq part ?_ ?_ fun atoms leads =>
        serves.consistent.target_not_null serves.wellFormed found inside part leads
      · rwa [connects.update_holder]
      · rwa [Function.update_self])
  rw [← sound.name_eq, ← connects.table, ← connects.label, ← LeftJoin.partners] at permuted
  exact ⟨rows, permuted, paired⟩

/-- A join finds the head that the row refers to, or puts nulls in its place. -/
theorem Serves.extend (serves : Serves catalog store database)
    (connects : Connects link holder target join)
    (found : catalog.node? holder.node.name = some holder.node)
    (part : .edge link ∈ holder.node.components) (head : target.node.name = link.head)
    (sound : Sound catalog target) {source : Option Record}
    (anchored : Anchored store scope holder.label holder.node source) :
    ∃ row next, join.extend database scope = [Function.update scope target.label row] ∧
      Anchored store (Function.update scope target.label row) target.label target.node next ∧
      ∀ record, source = some record → ∀ other ∈ store link.head,
        link.refers record other = true → next = some other := by
  have target_row (row : Row) : Function.update scope target.label row target.label = row :=
    Function.update_self ..
  rw [← connects.label] at target_row ⊢
  cases source with
  | none =>
    have alone : join.partners database scope = [] :=
      connects.partners_eq_nil (serves.keyed found link part) anchored
    exact ⟨Row.null, none, LeftJoin.extend_of_nil alone, target_row _, by simp⟩
  | some record =>
    obtain ⟨node, leads⟩ := serves.wellFormed.heads found link part
    obtain ⟨rows, permuted, paired⟩ := serves.partners connects found part head sound anchored
    by_cases reached : ∃ other ∈ store link.head, link.refers record other = true
    · obtain ⟨other, member, refers⟩ := reached
      rw [serves.consistent.filter_refers leads member refers] at paired
      obtain ⟨row, rest, stored, none, rfl⟩ := List.forall₂_cons_left_iff.mp paired
      cases none
      refine ⟨row, some other, LeftJoin.extend_of_singleton (List.singleton_perm.mp permuted).symm,
        ⟨head ▸ member, ?_⟩, ?_⟩
      · rwa [target_row]
      · rintro _ ⟨⟩ again member' refers'
        rw [serves.consistent.eq_of_refers leads member' member refers' refers]
    · have none_referred : (store link.head).filter (link.refers record) = [] := by
        rw [List.filter_eq_nil_iff]
        exact fun other member refers => reached ⟨other, member, refers⟩
      rw [none_referred] at paired
      cases paired
      refine ⟨Row.null, none, LeftJoin.extend_of_nil (List.nil_perm.mp permuted), target_row _, ?_⟩
      rintro _ ⟨⟩ other member refers
      exact absurd ⟨other, member, refers⟩ reached

end Partners

/-- What the joins of a table make of a row under its alias: one row, in which nothing has changed
but what hangs on the table. -/
structure Joined (database : Database) (store : Store) (scope : Scope) (table : Table)
    (joins : List LeftJoin) (source : Option Record) (result : Scope) : Prop where
  extended : LeftJoin.extendAll database joins scope = [result]
  elsewhere : ∀ other, ¬Below table.label other → result other = scope other
  placed : ∀ record, source = some record → Placed store result table record

theorem leftJoinsAll_cons {table joined : Table} {link : Edge} {rest : List Join}
    {joins : List LeftJoin}
    (made : Table.leftJoinsAll table (Join.ofHead (link, joined) :: rest) = .ok joins) :
    ∃ join inner others, joined.leftJoins = .ok inner ∧ table.leftJoinsAll rest = .ok others ∧
      joins = join :: inner ++ others ∧ join.table.table.text = joined.name ∧
      join.table.label.text = joined.label ∧ Pairs link table joined join.matching := by
  obtain ⟨named, written, made⟩ := Outcome.bind_eq_ok.mp made
  obtain ⟨pairs, matched, made⟩ := Outcome.bind_eq_ok.mp made
  obtain ⟨inner, below, made⟩ := Outcome.bind_eq_ok.mp made
  obtain ⟨others, behind, made⟩ := Outcome.bind_eq_ok.mp made
  obtain ⟨name, identifier, written⟩ := Outcome.bind_eq_ok.mp written
  obtain ⟨label, labelled, written⟩ := Outcome.bind_eq_ok.mp written
  cases written
  cases made
  exact ⟨⟨⟨name, label⟩, pairs⟩, inner, others, below, behind, rfl, Name.ofText_eq_ok identifier,
    Name.ofText_eq_ok labelled, pairs_of_correlate matched⟩

theorem Serves.not_under_both (serves : Serves catalog store database) {label : String}
    {node : Node} {head head' : Edge × Table} (found : catalog.node? node.name = some node)
    (hangs : Hangs label node head) (hangs' : Hangs label node head')
    (distinct : head'.1.name ≠ head.1.name) {other : String} (under : Under head.2.label other) :
    ¬Under head'.2.label other := by
  intro under'
  rw [hangs.label] at under
  rw [hangs'.label] at under'
  exact distinct (eq_of_under (unmarked_of_isName (serves.named found _ hangs'.part))
    (unmarked_of_isName (serves.named found _ hangs.part)) under' under)

/-- What is below a table is joined head by head; each leaves the aliases of the others alone. -/
theorem Serves.extendHeads (serves : Serves catalog store database) {label : String} {node : Node}
    {heads : List (Edge × Table)} (found : catalog.node? node.name = some node)
    (hangs : ∀ head ∈ heads, Hangs label node head) (apart : (heads.map (·.1.name)).Nodup)
    (sound : ∀ head ∈ heads, Sound catalog head.2) {source : Option Record}
    (each : ∀ head ∈ heads, ∀ {joins : List LeftJoin}, head.2.leftJoins = .ok joins →
      ∀ {scope : Scope} {next : Option Record}, Anchored store scope head.2.label head.2.node next →
        ∃ result, Joined database store scope head.2 joins next result)
    {joins : List LeftJoin} {scope : Scope} (anchored : Anchored store scope label node source)
    (made : Table.leftJoinsAll (.make label node.table node []) (heads.map Join.ofHead) =
      .ok joins) :
    ∃ result, LeftJoin.extendAll database joins scope = [result] ∧
      (∀ other, (∀ head ∈ heads, ¬Under head.2.label other) → result other = scope other) ∧
      ∀ record, source = some record → ∀ head ∈ heads, ∀ other ∈ store head.1.head,
        head.1.refers record other = true → Placed store result head.2 other := by
  induction heads generalizing joins scope with
  | nil =>
    cases made
    exact ⟨scope, rfl, fun _ _ => rfl, by simp⟩
  | cons head rest behind =>
    obtain ⟨join, inner, others, made_inner, made_others, rfl, table, labelled, pairs⟩ :=
      leftJoinsAll_cons made
    rw [List.forall_mem_cons] at hangs sound each
    rw [List.map_cons, List.nodup_cons] at apart
    have outside : ¬Under head.2.label label :=
      hangs.1.label ▸ not_under marks_edge label head.1.name
    have apart_label : label ≠ head.2.label := fun same => outside (Or.inl same)
    obtain ⟨row, next, extended, anchored', reaches⟩ :=
      serves.extend ⟨table, labelled, pairs, apart_label⟩ found hangs.1.part hangs.1.node sound.1
        anchored
    obtain ⟨between, joined⟩ := each.1 made_inner anchored'
    have unmoved (other : String) (outside : ¬Under head.2.label other) :
        between other = scope other := by
      rw [joined.elsewhere other fun below => outside (Or.inr below),
        Function.update_of_ne fun same => outside (Or.inl same)]
    have still : Anchored store between label node source := by
      cases source <;> simpa only [Anchored, unmoved label outside] using anchored
    obtain ⟨result, extended', elsewhere, placed⟩ :=
      behind hangs.2 apart.2 sound.2 each.2 still made_others
    refine ⟨result, ?_, fun other apart_other => ?_, fun record from_ => ?_⟩
    · rw [List.cons_append, LeftJoin.extendAll, extended, List.flatMap_singleton,
        LeftJoin.extendAll_append, joined.extended, List.flatMap_singleton, extended']
    · rw [List.forall_mem_cons] at apart_other
      rw [elsewhere other apart_other.2, unmoved other apart_other.1]
    · rw [List.forall_mem_cons]
      refine ⟨fun other inside refers => ?_, placed record from_⟩
      refine (joined.placed other (reaches record from_ other inside refers)).congr sound.1 ?_
      refine fun other under => elsewhere other fun head' within => ?_
      refine serves.not_under_both found hangs.1 (hangs.2 head' within) (fun same => ?_) under
      exact apart.1 (same ▸ List.mem_map_of_mem within)

/-- The joins of a table extend a row in one way, and what they add is where the records lead. -/
theorem Serves.extendAll (serves : Serves catalog store database) {table : Table}
    (sound : Sound catalog table) {joins : List LeftJoin} (made : table.leftJoins = .ok joins)
    {scope : Scope} {source : Option Record}
    (anchored : Anchored store scope table.label table.node source) :
    ∃ result, Joined database store scope table joins source result := by
  induction sound generalizing joins scope source with
  | @make label node heads found hangs apart below ih =>
    obtain ⟨result, extended, elsewhere, placed⟩ :=
      serves.extendHeads found hangs apart below ih anchored made
    have above (other : String) (outside : ¬Below label other) : result other = scope other := by
      refine elsewhere other fun head within under => outside ?_
      rw [(hangs head within).label] at under
      exact below_of_under under
    refine ⟨result, extended, above, ?_⟩
    rintro record rfl
    have here : result label = scope label := above label fun below => below.onward.ne rfl
    refine .make anchored.1 (here ▸ anchored.2) fun link key joined member other inside refers => ?_
    obtain ⟨head, within, made⟩ := List.mem_map.mp member
    cases made
    exact placed record rfl head within other inside refers

end Joins

section Sources

variable {catalog : Catalog} {store : Store} {database : Database} {table : Table}

theorem source_eq_ok {source : Source} (made : table.source = .ok source) :
    source.table.table.text = table.name ∧ source.table.label.text = table.label ∧
      table.leftJoins = .ok source.joins := by
  obtain ⟨named, written, made⟩ := Outcome.bind_eq_ok.mp made
  obtain ⟨joins, joined, made⟩ := Outcome.bind_eq_ok.mp made
  obtain ⟨name, identifier, written⟩ := Outcome.bind_eq_ok.mp written
  obtain ⟨label, labelled, written⟩ := Outcome.bind_eq_ok.mp written
  cases written
  cases made
  exact ⟨Name.ofText_eq_ok identifier, Name.ofText_eq_ok labelled, joined⟩

theorem Serves.scopes (serves : Serves catalog store database) (sound : Sound catalog table)
    {source : Source} (made : table.source = .ok source) (outer : Scope) :
    ∃ scopes, scopes.Perm (source.scopes database outer) ∧
      List.Forall₂ (fun record inner => Placed store inner table record ∧
        ∀ other, ¬Under table.label other → inner other = outer other)
        (store table.node.name) scopes := by
  obtain ⟨name, label, made_joins⟩ := source_eq_ok made
  obtain ⟨rows, permuted, paired⟩ := serves.stores.tables sound.found
  rw [← sound.name_eq, ← name] at permuted
  refine ⟨_, permuted.flatMap_right _, Lists.forall₂_flatMap (Lists.forall₂_mem paired) ?_⟩
  rintro record row ⟨stored, inside, -⟩
  have anchored : Anchored store (Function.update outer table.label row) table.label table.node
      (some record) := ⟨inside, by rwa [Function.update_self]⟩
  obtain ⟨inner, joined⟩ := serves.extendAll sound made_joins anchored
  refine ⟨inner, label ▸ joined.extended, joined.placed record rfl, fun other outside => ?_⟩
  rw [joined.elsewhere other fun below => outside (Or.inr below),
    Function.update_of_ne fun same => outside (Or.inl same)]

/-- Of the child rows the server selects those that refer to the row and pass the tests. -/
theorem Serves.length_selected (serves : Serves catalog store database) {parent child : Table}
    {relation : ReverseEdge} {children : Children} (sound : Sound catalog child)
    (made : child.source = .ok children.source)
    (pairs : Pairs relation.edge child parent children.matching)
    (head : child.node.name = relation.head) (part : .edge relation.edge ∈ child.node.components)
    (outside : ¬Under child.label parent.label) {scope : Scope} {row : Record}
    (anchored : Anchored store scope parent.label parent.node (some row))
    {tests : Scope → List Truth} {answer : Record → Bool}
    (tested : ∀ record inner, Placed store inner child record →
      Truth.select (tests inner) = answer record) :
    (children.selected database tests scope).length =
      ((store.children relation row).filter answer).length := by
  obtain ⟨scopes, permuted, paired⟩ := serves.scopes sound made scope
  have same : ∀ record inner, (Placed store inner child record ∧
        ∀ other, ¬Under child.label other → inner other = scope other) →
      (answer record && relation.edge.refers record row) =
        Truth.select (children.matching.map (Match.truth inner) ++ tests inner) := by
    rintro record inner ⟨placed, elsewhere⟩
    obtain ⟨inside, stored⟩ := placed.anchored
    have stored' : parent.node.StoredAs row (inner parent.label) := by
      rw [elsewhere parent.label outside]
      exact anchored.2
    have matched := pairs.select_eq part stored stored' fun atoms leads =>
      serves.consistent.target_not_null serves.wellFormed sound.found inside part leads
    rw [Truth.select_append, matched, tested record inner placed, Bool.and_comm]
  rw [Children.selected, ← (permuted.filter _).length_eq,
    ← (Lists.forall₂_filter paired same).length_eq, Store.children, List.filter_filter, head]

end Sources

end LiveQuery.Sql
