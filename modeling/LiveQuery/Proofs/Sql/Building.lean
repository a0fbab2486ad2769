import LiveQuery.Proofs.Sql.Joining

set_option autoImplicit false

namespace LiveQuery.Sql

namespace Building

variable {α β : Type} {table after : Table}

theorem bind_eq_ok {first : Building α} {next : α → Building β} {result : β} :
    (first >>= next) table = .ok result after ↔
      ∃ value between, first table = .ok value between ∧ next value between = .ok result after := by
  cases ran : first table with
  | ok value between =>
    have settled : (first >>= next) table = next value between := by
      simp only [bind, EStateM.bind, ran]
    rw [settled]
    constructor
    · exact fun behind => ⟨value, between, rfl, behind⟩
    · rintro ⟨_, _, same, behind⟩
      cases same
      exact behind
  | error error between =>
    have settled : (first >>= next) table = .error error between := by
      simp only [bind, EStateM.bind, ran]
    rw [settled]
    constructor
    · intro impossible
      cases impossible
    · rintro ⟨_, _, impossible, -⟩
      cases impossible

theorem map_eq_ok {change : α → β} {action : Building α} {result : β} :
    (change <$> action) table = .ok result after ↔
      ∃ value, action table = .ok value after ∧ result = change value := by
  rw [map_eq_pure_bind, bind_eq_ok]
  constructor
  · rintro ⟨value, between, ran, same⟩
    cases same
    exact ⟨value, ran, rfl⟩
  · rintro ⟨value, ran, rfl⟩
    exact ⟨value, after, ran, rfl⟩

theorem lift_eq_ok {attempt : Except Error α} {value : α} :
    (liftM attempt : Building α) table = .ok value after ↔ attempt = .ok value ∧ table = after := by
  cases attempt with
  | ok found =>
    constructor
    · intro same
      cases same
      exact ⟨rfl, rfl⟩
    · rintro ⟨same, rfl⟩
      cases same
      rfl
  | error =>
    constructor
    · intro impossible
      cases impossible
    · rintro ⟨impossible, -⟩
      cases impossible

theorem get_bind (step : Table → Building β) :
    (MonadState.get >>= step) table = step table table := rfl

/-- A sequence of steps fails where one of them fails. -/
theorem bind_eq_error {first : Building α} {next : α → Building β} {error : Error} :
    (first >>= next) table = .error error after ↔ first table = .error error after ∨
      ∃ value between, first table = .ok value between ∧
        next value between = .error error after := by
  cases ran : first table with
  | ok value between =>
    have settled : (first >>= next) table = next value between := by
      simp only [bind, EStateM.bind, ran]
    rw [settled]
    constructor
    · exact fun behind => Or.inr ⟨value, between, rfl, behind⟩
    · rintro (impossible | ⟨_, _, same, behind⟩)
      · cases impossible
      · cases same
        exact behind
  | error found between =>
    have settled : (first >>= next) table = .error found between := by
      simp only [bind, EStateM.bind, ran]
    rw [settled]
    constructor
    · intro same
      cases same
      exact Or.inl rfl
    · rintro (same | ⟨_, _, impossible, -⟩)
      · cases same
        rfl
      · cases impossible

theorem bind_congr {first first' : Building α} {next next' : α → Building β}
    (same : first table = first' table)
    (behind : ∀ value between, first table = .ok value between →
      next value between = next' value between) :
    (first >>= next) table = (first' >>= next') table := by
  cases ran : first table with
  | ok value between =>
    simp only [bind, EStateM.bind, ← same, ran]
    exact behind value between ran
  | error error between => simp only [bind, EStateM.bind, ← same, ran]

theorem lift_eq_error {attempt : Except Error α} {error : Error} :
    (liftM attempt : Building α) table = .error error after ↔
      attempt = .error error ∧ table = after := by
  cases attempt with
  | ok =>
    constructor
    · intro impossible
      cases impossible
    · rintro ⟨impossible, -⟩
      cases impossible
  | error found =>
    constructor
    · intro same
      cases same
      exact ⟨rfl, rfl⟩
    · rintro ⟨same, rfl⟩
      cases same
      rfl

end Building

/-- A table as it has become by further joins. -/
structure Grown (store : Store) (before after : Table) : Prop where
  label : after.label = before.label
  node : after.node = before.node
  placed : ∀ {scope record}, Placed store scope after record → Placed store scope before record

namespace Grown

variable {store : Store} {first second third : Table}

theorem refl (table : Table) : Grown store table table := ⟨rfl, rfl, id⟩

theorem trans (growth : Grown store first second) (more : Grown store second third) :
    Grown store first third :=
  ⟨more.label.trans growth.label, more.node.trans growth.node,
    fun placed => growth.placed (more.placed placed)⟩

end Grown

section Visits

variable {α : Type} {relation : JoinRelation} {key : Option String} {joins : List Join}

theorem splitAt?_eq_some {before behind : List Join} {joined : Table}
    (split : Table.splitAt? relation key joins = some (before, joined, behind)) :
    joins = before ++ .make relation key joined :: behind := by
  induction joins generalizing before with
  | nil => cases split
  | cons join rest ih =>
    obtain ⟨present, presentKey, table⟩ := join
    rw [Table.splitAt?] at split
    split at split
    · rename_i same
      obtain ⟨rfl, rfl⟩ := same
      cases split
      rfl
    · obtain ⟨⟨before', joined', behind'⟩, found, same⟩ := Option.map_eq_some_iff.mp split
      cases same
      rw [ih found, List.cons_append]

theorem splitAt?_eq_none (split : Table.splitAt? relation key joins = none) :
    ∀ present presentKey other, .make present presentKey other ∈ joins →
      ¬(present = relation ∧ presentKey = key) := by
  induction joins with
  | nil => simp
  | cons join rest ih =>
    obtain ⟨first, firstKey, found⟩ := join
    rw [Table.splitAt?] at split
    split at split
    · cases split
    · rename_i differs
      intro present presentKey other inside
      rcases List.mem_cons.mp inside with same | later
      · cases same
        exact differs
      · exact ih (Option.map_eq_none_iff.mp split) present presentKey other later

theorem within_eq_ok {before behind : List Join} {joined table after : Table}
    {action : Building α} {value : α}
    (ran : Table.within relation key before behind joined action table = .ok value after) :
    ∃ joined', action joined = .ok value joined' ∧
      after = table.withJoins (before ++ .make relation key joined' :: behind) := by
  unfold Table.within at ran
  cases inner : action joined with
  | ok found joined' =>
    rw [inner] at ran
    cases ran
    exact ⟨joined', rfl, rfl⟩
  | error =>
    rw [inner] at ran
    cases ran

theorem within_eq_error {before behind : List Join} {joined table after : Table}
    {action : Building α} {error : Error}
    (ran : Table.within relation key before behind joined action table = .error error after) :
    ∃ joined', action joined = .error error joined' ∧
      after = table.withJoins (before ++ .make relation key joined' :: behind) := by
  unfold Table.within at ran
  cases inner : action joined with
  | ok =>
    rw [inner] at ran
    cases ran
  | error found joined' =>
    rw [inner] at ran
    cases ran
    exact ⟨joined', rfl, rfl⟩

theorem visit_of_split {catalog : Catalog} {before behind : List Join} {table joined : Table}
    {action : Building α} (owner : relation.owner = table.node.name)
    (checked : relation.check = .ok ())
    (split : Table.splitAt? relation key table.joins = some (before, joined, behind)) :
    Table.visit catalog relation key action table =
      Table.within relation key before behind joined action table := by
  unfold Table.visit
  rw [Building.get_bind]
  simp only [owner, ne_eq, not_true_eq_false, if_false, checked, split]
  rfl

theorem visit_of_new {catalog : Catalog} {table : Table} {head : Node} {action : Building α}
    (owner : relation.owner = table.node.name) (checked : relation.check = .ok ())
    (split : Table.splitAt? relation key table.joins = none)
    (looked : relation.head catalog = .ok head) :
    Table.visit catalog relation key action table =
      Table.within relation key table.joins []
        (.ofNode head (table.joinAlias relation key)) action table := by
  unfold Table.visit
  rw [Building.get_bind]
  simp only [owner, ne_eq, not_true_eq_false, if_false, checked, split, looked]
  rfl

/-- What a visit that succeeds has done: it went on with a table that was joined before, or joined
the table of the relation's head. -/
inductive Went (catalog : Catalog) (relation : JoinRelation) (key : Option String)
    (action : Building α) (value : α) (table : Table) : Table → Prop
  | back {before behind : List Join} {joined joined' : Table}
      (joins : table.joins = before ++ .make relation key joined :: behind)
      (ran : action joined = .ok value joined') :
      Went catalog relation key action value table
        (table.withJoins (before ++ .make relation key joined' :: behind))
  | anew {head : Node} {joined' : Table}
      (new : ∀ present presentKey other, .make present presentKey other ∈ table.joins →
        ¬(present = relation ∧ presentKey = key))
      (looked : (liftM (relation.head catalog) : Except Error Node) = .ok head)
      (ran : action (.ofNode head (table.joinAlias relation key)) = .ok value joined') :
      Went catalog relation key action value table
        (table.withJoins (table.joins ++ [.make relation key joined']))

theorem went_of_visit {catalog : Catalog} {action : Building α} {value : α} {table after : Table}
    (visited : Table.visit catalog relation key action table = .ok value after) :
    Went catalog relation key action value table after := by
  obtain ⟨_, _, got, visited⟩ := Building.bind_eq_ok.mp visited
  cases got
  split at visited
  · cases visited
  obtain ⟨_, _, lifted, visited⟩ := Building.bind_eq_ok.mp visited
  obtain ⟨-, rfl⟩ := Building.lift_eq_ok.mp lifted
  cases split : Table.splitAt? relation key table.joins with
  | some parts =>
    obtain ⟨before, joined, behind⟩ := parts
    simp only [split] at visited
    obtain ⟨joined', ran, rfl⟩ := within_eq_ok visited
    exact .back (splitAt?_eq_some split) ran
  | none =>
    simp only [split] at visited
    obtain ⟨head, _, lifted, visited⟩ := Building.bind_eq_ok.mp visited
    obtain ⟨looked, rfl⟩ := Building.lift_eq_ok.mp lifted
    obtain ⟨joined', ran, rfl⟩ := within_eq_ok visited
    exact .anew (splitAt?_eq_none split) looked ran

theorem visit_ran {catalog : Catalog} {action : Building α} {value : α} {table after : Table}
    (visited : Table.visit catalog relation key action table = .ok value after) :
    ∃ joined joined', action joined = .ok value joined' := by
  cases went_of_visit visited with
  | back _ ran => exact ⟨_, _, ran⟩
  | anew _ _ ran => exact ⟨_, _, ran⟩

end Visits

section Visiting

variable {catalog : Catalog} {store : Store} {link : Edge} {heads : List (Edge × Table)}

theorem Grown.put {label name : String} {node : Node} {front back : List (Edge × Table)}
    {joined joined' : Table} (growth : Grown store joined joined') :
    Grown store (.make label name node ((front ++ (link, joined) :: back).map Join.ofHead))
      (.make label name node ((front ++ (link, joined') :: back).map Join.ofHead)) := by
  refine ⟨rfl, rfl, fun placed => ?_⟩
  cases placed with
  | make inside stored below =>
    refine .make inside stored fun link' key table member other inside' refers => ?_
    rw [List.map_append, List.map_cons, List.mem_append, List.mem_cons] at member
    rcases member with before | same | behind
    · refine below link' key table ?_ other inside' refers
      rw [List.map_append]
      exact List.mem_append_left _ before
    · cases same
      refine growth.placed (below link none joined' ?_ other inside' refers)
      exact List.mem_map.mpr ⟨(link, joined'), by simp, rfl⟩
    · refine below link' key table ?_ other inside' refers
      rw [List.map_append, List.map_cons]
      exact List.mem_append_right _ (List.mem_cons_of_mem _ behind)

theorem Grown.push {label name : String} {node : Node} {joined : Table} :
    Grown store (.make label name node (heads.map Join.ofHead))
      (.make label name node ((heads ++ [(link, joined)]).map Join.ofHead)) := by
  refine ⟨rfl, rfl, fun placed => ?_⟩
  cases placed with
  | make inside stored below =>
    refine .make inside stored fun link' key table member => below link' key table ?_
    rw [List.map_append]
    exact List.mem_append_left _ member

theorem Placed.of_mem {label name : String} {node : Node} {joined : Table} {scope : Scope}
    {record other : Record}
    (placed : Placed store scope (.make label name node (heads.map Join.ofHead)) record)
    (member : (link, joined) ∈ heads) (inside : other ∈ store link.head)
    (refers : link.refers record other = true) : Placed store scope joined other := by
  cases placed with
  | make _ _ below =>
    exact below link none joined (List.mem_map.mpr ⟨_, member, rfl⟩) other inside refers

/-- What a visit to the head of an edge does. The visitor may let the head's table grow. -/
structure Visited (catalog : Catalog) (store : Store) (link : Edge) (table after joined joined' :
    Table) : Prop where
  sound : Sound catalog joined
  head : joined.node.name = link.head
  after_sound : Sound catalog joined' → Grown store joined joined' → Sound catalog after
  grown : Grown store joined joined' → Grown store table after
  placed : ∀ {scope record other}, Placed store scope after record → other ∈ store link.head →
    link.refers record other = true → Placed store scope joined' other

section Nodes

variable {label : String} {node : Node}

theorem Visited.put {front back : List (Edge × Table)} {joined joined' : Table}
    (found : catalog.node? node.name = some node)
    (hangs : ∀ head ∈ front ++ (link, joined) :: back, Hangs label node head)
    (apart : ((front ++ (link, joined) :: back).map (·.1.name)).Nodup)
    (below : ∀ head ∈ front ++ (link, joined) :: back, Sound catalog head.2) :
    Visited catalog store link
      (.make label node.table node ((front ++ (link, joined) :: back).map Join.ofHead))
      (.make label node.table node ((front ++ (link, joined') :: back).map Join.ofHead))
      joined joined' := by
  rw [List.forall_mem_append, List.forall_mem_cons] at hangs below
  obtain ⟨hangs_front, here, hangs_back⟩ := hangs
  refine ⟨below.2.1, here.node, fun sound growth => .make found ?_ ?_ ?_, Grown.put, ?_⟩
  · rw [List.forall_mem_append, List.forall_mem_cons]
    exact ⟨hangs_front, ⟨here.part, (congrArg Node.name growth.node).trans here.node,
      growth.label.trans here.label⟩, hangs_back⟩
  · simpa only [List.map_append, List.map_cons] using apart
  · rw [List.forall_mem_append, List.forall_mem_cons]
    exact ⟨below.1, sound, below.2.2⟩
  · exact fun placed => placed.of_mem (by simp)

theorem Visited.push (wellFormed : catalog.WellFormed) {target : Node} {joined' : Table}
    (leads : catalog.Leads link target) (part : .edge link ∈ node.components)
    (found : catalog.node? node.name = some node)
    (hangs : ∀ head ∈ heads, Hangs label node head) (apart : (heads.map (·.1.name)).Nodup)
    (below : ∀ head ∈ heads, Sound catalog head.2) (new : ∀ head ∈ heads, head.1 ≠ link) :
    Visited catalog store link (.make label node.table node (heads.map Join.ofHead))
      (.make label node.table node ((heads ++ [(link, joined')]).map Join.ofHead))
      (Table.ofNode target (label ++ ">" ++ link.name)) joined' := by
  have named : target.name = link.head := Catalog.name_of_node? leads.node
  refine ⟨.ofNode (named ▸ leads.node) _, named, fun sound growth => .make found ?_ ?_ ?_,
    fun _ => Grown.push, ?_⟩
  · rw [List.forall_mem_append, List.forall_mem_singleton]
    exact ⟨hangs, part, (congrArg Node.name growth.node).trans named, growth.label⟩
  · rw [List.map_append, List.nodup_append]
    refine ⟨apart, List.nodup_singleton _, ?_⟩
    intro name inside other single same
    cases List.mem_singleton.mp single
    obtain ⟨head, member, rfl⟩ := List.mem_map.mp inside
    -- One name belongs to one component of the node.
    have first := wellFormed.components found _ (hangs head member).part
    have second := wellFormed.components found _ part
    rw [Component.name] at first second
    rw [same, second] at first
    exact new head member (by cases first; rfl)
  · rw [List.forall_mem_append, List.forall_mem_singleton]
    exact ⟨below, sound⟩
  · exact fun placed => placed.of_mem (by simp)

end Nodes

theorem Sound.visit (wellFormed : catalog.WellFormed) (store : Store) {table : Table}
    (sound : Sound catalog table) (part : .edge link ∈ table.node.components) {α : Type}
    {action : Building α} {value : α} {after : Table}
    (visited : Table.visit catalog (.edge link) none action table = .ok value after) :
    ∃ joined joined', action joined = .ok value joined' ∧
      Visited catalog store link table after joined joined' := by
  cases sound with
  | @make label node heads found hangs apart below =>
    obtain ⟨target, leads⟩ := wellFormed.heads found link part
    cases went_of_visit visited with
    | @back before behind joined joined' joins ran =>
      obtain ⟨front, _, rfl, rfl, listed⟩ := List.map_eq_append_iff.mp joins
      obtain ⟨⟨link, joined⟩, back, rfl, same, rfl⟩ := List.map_eq_cons_iff.mp listed
      cases same
      have made : Join.make (.edge link) none joined' = Join.ofHead (link, joined') := rfl
      rw [made, ← List.map_cons, ← List.map_append]
      exact ⟨joined, joined', ran, Visited.put found hangs apart below⟩
    | @anew head joined' new looked ran =>
      rw [JoinRelation.head, leads.edgeHead_eq] at looked
      cases looked
      rw [Table.joinAlias, String.append_empty] at ran
      have made : Join.make (.edge link) none joined' = Join.ofHead (link, joined') := rfl
      have fresh : ∀ head ∈ heads, head.1 ≠ link := fun head inside same =>
        new _ _ _ (List.mem_map_of_mem inside) ⟨congrArg JoinRelation.edge same, rfl⟩
      rw [Table.joins, made, ← List.map_nil (f := Join.ofHead), ← List.map_cons,
        ← List.map_append]
      exact ⟨_, joined', ran, Visited.push wellFormed leads part found hangs apart below fresh⟩

end Visiting

end LiveQuery.Sql
