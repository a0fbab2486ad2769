import LiveQuery.Proofs.Sql.Steady

set_option autoImplicit false

namespace LiveQuery

namespace Sql

open Table (Stands)

/-- An action gives one result on all tables that stand for this one, and adds one set of routes. -/
def Yields {α : Type} (catalog : Catalog) (table : Table) (action : Building α) (value : α)
    (added : Route → Prop) : Prop :=
  ∀ other, Routed catalog other → Stands other table →
    ∃ after, action other = .ok value after ∧ Became catalog other after added

section Yielding

variable {α : Type} {catalog : Catalog} {node : Node} {table after : Table} {action : Building α}
  {value : α}

theorem routed_ofNode (label : String) : Routed catalog (.ofNode node label) :=
  .make (by simp) (by simp)

/-- What succeeds once succeeds alike on all tables of the label and node. -/
theorem Steady.yields (steady : Steady catalog action) {label : String}
    (routed : Routed catalog table) (stands : Stands table (.ofNode node label))
    (ran : action table = .ok value after) :
    ∃ added, Yields catalog (.ofNode node label) action value added ∧
      Became catalog table after added := by
  obtain ⟨bare, -, ran', -, -⟩ := steady.alike routed (routed_ofNode label) stands ran
  have yields : Yields catalog (.ofNode node label) action value bare.Has := by
    intro other routed' stands'
    obtain ⟨after', added, ran'', became, became'⟩ :=
      steady.alike (routed_ofNode label) routed' stands'.symm ran'
    have gained (route : Route) : bare.Has route ↔ route = [] ∨ added route := by
      rw [became.has, Table.has_ofNode]
    refine ⟨after', ran'', ⟨became'.routed, became'.stands, became'.name, fun route => ?_,
      became'.once⟩, fun route has => ?_⟩
    · rw [became'.has, gained, or_left_comm]
      refine (or_iff_right_of_imp ?_).symm
      rintro rfl
      exact Or.inl .here
    · rcases (gained route).mp has with rfl | inside
      · exact List.forall_mem_nil _
      · exact became.plain route inside
  obtain ⟨after', ran'', became⟩ := yields table routed stands
  cases ran.symm.trans ran''
  exact ⟨bare.Has, yields, became⟩

theorem Table.source_eq_ok : (∃ source, table.source = .ok source) ↔
    (∃ named, table.named = .ok named) ∧ ∃ written, table.leftJoins = .ok written := by
  constructor
  · rintro ⟨source, made⟩
    obtain ⟨named, first, made⟩ := Outcome.bind_eq_ok.mp made
    obtain ⟨written, second, -⟩ := Outcome.bind_eq_ok.mp made
    exact ⟨⟨named, first⟩, ⟨written, second⟩⟩
  · rintro ⟨⟨named, first⟩, ⟨written, second⟩⟩
    refine ⟨⟨named, written⟩, ?_⟩
    rw [Table.source, first, second]
    rfl

theorem Became.source_eq_ok {added : Route → Prop} (became : Became catalog table after added)
    (bare : ∀ route, table.Has route ↔ route = []) :
    (∃ source, after.source = .ok source) ↔ (∃ named, table.named = .ok named) ∧
      ∀ route, added route → Writable catalog table route := by
  have named : after.named = table.named := by
    unfold Table.named
    rw [became.name, became.stands.label]
  rw [Table.source_eq_ok, became.routed.leftJoins_eq_ok, named]
  refine and_congr_right fun _ => forall_congr' fun route => ?_
  rw [became.has, bare, became.stands.writable]
  refine ⟨fun writable inside => writable (Or.inr inside), fun writable => ?_⟩
  rintro (rfl | inside)
  · trivial
  · exact writable inside

end Yielding

section Stages

variable {catalog : Catalog} {settings : Settings} {selection : Selection} {filter : Option Filter}
  {expressions : List SortExpression} {limit : Option Limit} {columns : List Selected}
  {condition : Option Condition} {order : List SortItem}

/-- What statements for a selection, filter and ordering are made of, whichever way they are put
together. -/
structure Composed (catalog : Catalog) (settings : Settings) (selection : Selection)
    (filter : Option Filter) (expressions : List SortExpression) (columns : List Selected)
    (condition : Option Condition) (order : List SortItem) : Prop where
  named : ∃ named, (Table.root selection.node).named = .ok named
  parts : ∃ selected filtered sorted,
    Yields catalog (.root selection.node) (select catalog settings selection.fields) columns
      selected ∧
    Yields catalog (.root selection.node) (conditionOf catalog filter) condition filtered ∧
    Yields catalog (.root selection.node) (orderOf catalog expressions) order sorted ∧
    ∀ route, selected route ∨ filtered route ∨ sorted route →
      Writable catalog (.root selection.node) route

theorem composed_of_direct {query : Find} {after : Table}
    (ran : findDirect catalog settings selection filter expressions limit
      (.root selection.node) = .ok query after) :
    ∃ columns condition order source,
      Composed catalog settings selection filter expressions columns condition order ∧
        query = .direct columns ⟨source, condition, order, limit⟩ := by
  obtain ⟨columns, first, selected, ran⟩ := Building.bind_eq_ok.mp ran
  obtain ⟨condition, second, filtered, ran⟩ := Building.bind_eq_ok.mp ran
  obtain ⟨order, third, sorted, ran⟩ := Building.bind_eq_ok.mp ran
  obtain ⟨_, _, got, ran⟩ := Building.bind_eq_ok.mp ran
  cases got
  obtain ⟨source, _, lifted, finished⟩ := Building.bind_eq_ok.mp ran
  cases finished
  obtain ⟨sourced, rfl⟩ := Building.lift_eq_ok.mp lifted
  have root : Routed catalog (.root selection.node) := routed_ofNode _
  obtain ⟨_, yields, became⟩ := (steady_select _).yields root ⟨rfl, rfl⟩ selected
  obtain ⟨_, yields', became'⟩ :=
    (steady_conditionOf _).yields became.routed became.stands filtered
  have both := became.trans became'
  obtain ⟨_, yields'', became''⟩ := (steady_orderOf _).yields both.routed both.stands sorted
  have all := both.trans became''
  obtain ⟨named, writable⟩ := (all.source_eq_ok fun _ => Table.has_ofNode).mp ⟨source, sourced⟩
  refine ⟨columns, condition, order, source, ⟨named, _, _, _, yields, yields', yields'', ?_⟩, rfl⟩
  intro route inside
  exact writable route (or_assoc.mpr inside)

theorem direct_of_composed
    (composed : Composed catalog settings selection filter expressions columns condition order) :
    ∃ source after, findDirect catalog settings selection filter expressions limit
      (.root selection.node) = .ok (.direct columns ⟨source, condition, order, limit⟩) after := by
  obtain ⟨named, selected, filtered, sorted, yields, yields', yields'', writable⟩ := composed
  have root : Routed catalog (.root selection.node) := routed_ofNode _
  obtain ⟨first, ran, became⟩ := yields _ root ⟨rfl, rfl⟩
  obtain ⟨second, ran', became'⟩ := yields' first became.routed became.stands
  have both := became.trans became'
  obtain ⟨third, ran'', became''⟩ := yields'' second both.routed both.stands
  have all := both.trans became''
  obtain ⟨source, sourced⟩ := (all.source_eq_ok fun _ => Table.has_ofNode).mpr
    ⟨named, fun route inside => writable route (or_assoc.mp inside)⟩
  refine ⟨source, third, ?_⟩
  refine Building.bind_eq_ok.mpr ⟨columns, first, ran, ?_⟩
  refine Building.bind_eq_ok.mpr ⟨condition, second, ran', ?_⟩
  refine Building.bind_eq_ok.mpr ⟨order, third, ran'', ?_⟩
  refine Building.bind_eq_ok.mpr ⟨third, third, rfl, ?_⟩
  exact Building.bind_eq_ok.mpr ⟨source, third, Building.lift_eq_ok.mpr ⟨sourced, rfl⟩, rfl⟩

/-- The table that the rows of a stage stand for. -/
def staged (node : Node) : Table := (Table.root node).withName (stageName node)

theorem stands_staged (node : Node) : Stands (staged node) (.root node) := ⟨rfl, rfl⟩

theorem routed_staged (node : Node) : Routed catalog (staged node) := .make (by simp) (by simp)

theorem has_staged {node : Node} {route : Route} : (staged node).Has route ↔ route = [] :=
  Table.has_iff.trans (or_iff_left not_along_nil)

theorem composed_of_staged {stage : Identifier} {listing : Listing} {query : Find}
    {listed after : Table}
    (inner : listStage catalog selection.node filter expressions limit (.root selection.node) =
      .ok (stage, listing) listed)
    (outer : findStaged catalog settings selection expressions stage listing
      (staged selection.node) = .ok query after) :
    ∃ columns condition order source,
      Composed catalog settings selection filter expressions columns condition order ∧
        listing.condition = condition ∧ listing.order = order ∧ listing.limit = limit ∧
        Identifier.ofText (stageName selection.node) = .ok stage ∧
        query = .staged stage listing columns source order := by
  obtain ⟨condition, first, filtered, inner⟩ := Building.bind_eq_ok.mp inner
  obtain ⟨order, second, sorted, inner⟩ := Building.bind_eq_ok.mp inner
  obtain ⟨named, _, lifted, inner⟩ := Building.bind_eq_ok.mp inner
  obtain ⟨staging, rfl⟩ := Building.lift_eq_ok.mp lifted
  obtain ⟨_, _, got, inner⟩ := Building.bind_eq_ok.mp inner
  cases got
  obtain ⟨_, _, lifted, inner⟩ := Building.bind_eq_ok.mp inner
  obtain ⟨-, rfl⟩ := Building.lift_eq_ok.mp lifted
  obtain ⟨_, _, got, inner⟩ := Building.bind_eq_ok.mp inner
  cases got
  obtain ⟨source, _, lifted, finished⟩ := Building.bind_eq_ok.mp inner
  cases finished
  obtain ⟨sourced, rfl⟩ := Building.lift_eq_ok.mp lifted
  obtain ⟨columns, third, selected, outer⟩ := Building.bind_eq_ok.mp outer
  obtain ⟨_, fourth, resorted, outer⟩ := Building.bind_eq_ok.mp outer
  obtain ⟨_, _, got, outer⟩ := Building.bind_eq_ok.mp outer
  cases got
  obtain ⟨source', _, lifted, finished⟩ := Building.bind_eq_ok.mp outer
  cases finished
  obtain ⟨sourced', rfl⟩ := Building.lift_eq_ok.mp lifted
  have root : Routed catalog (.root selection.node) := routed_ofNode _
  obtain ⟨_, yields, became⟩ := (steady_conditionOf _).yields root ⟨rfl, rfl⟩ filtered
  obtain ⟨_, yields', became'⟩ :=
    (steady_orderOf _).yields became.routed became.stands sorted
  obtain ⟨_, yields'', selecting⟩ :=
    (steady_select _).yields (routed_staged _) (stands_staged _) selected
  -- The order comes out as in the listing, and adds the same routes.
  obtain ⟨_, again, sorting⟩ := yields' third selecting.routed
    (selecting.stands.trans (stands_staged _))
  cases resorted.symm.trans again
  obtain ⟨named, writable⟩ :=
    ((became.trans became').source_eq_ok fun _ => Table.has_ofNode).mp ⟨source, sourced⟩
  obtain ⟨-, writable'⟩ :=
    ((selecting.trans sorting).source_eq_ok fun _ => has_staged).mp ⟨source', sourced'⟩
  refine ⟨columns, condition, order, source', ⟨named, _, _, _, yields'', yields, yields', ?_⟩,
    rfl, rfl, rfl, staging, rfl⟩
  rintro route (inside | inside | inside)
  · exact (stands_staged _).writable.mp (writable' route (Or.inl inside))
  · exact writable route (Or.inl inside)
  · exact writable route (Or.inr inside)

theorem staged_of_composed {stage : Identifier}
    (composed : Composed catalog settings selection filter expressions columns condition order)
    (staging : Identifier.ofText (stageName selection.node) = .ok stage) (limit : Option Limit) :
    ∃ source source' listed after,
      listStage catalog selection.node filter expressions limit (.root selection.node) =
        .ok (stage, ⟨source, condition, order, limit⟩) listed ∧
      findStaged catalog settings selection expressions stage ⟨source, condition, order, limit⟩
        (staged selection.node) =
          .ok (.staged stage ⟨source, condition, order, limit⟩ columns source' order) after := by
  obtain ⟨named, selected, filtered, sorted, yields, yields', yields'', writable⟩ := composed
  have root : Routed catalog (.root selection.node) := routed_ofNode _
  obtain ⟨first, ran, became⟩ := yields' _ root ⟨rfl, rfl⟩
  obtain ⟨second, ran', became'⟩ := yields'' first became.routed became.stands
  obtain ⟨third, ran'', selecting⟩ := yields _ (routed_staged _) (stands_staged _)
  obtain ⟨fourth, resorted, sorting⟩ :=
    yields'' third selecting.routed (selecting.stands.trans (stands_staged _))
  have all := became.trans became'
  obtain ⟨label, labelled⟩ : ∃ label, Alias.ofText (Table.root selection.node).label = .ok label := by
    obtain ⟨_, made⟩ := named
    obtain ⟨_, -, made⟩ := Outcome.bind_eq_ok.mp made
    obtain ⟨label, labelled, -⟩ := Outcome.bind_eq_ok.mp made
    exact ⟨label, labelled⟩
  have named' : ∃ named, (staged selection.node).named = .ok named := by
    refine ⟨⟨stage, label⟩, Outcome.bind_eq_ok.mpr ⟨stage, staging, ?_⟩⟩
    exact Outcome.bind_eq_ok.mpr ⟨label, labelled, rfl⟩
  obtain ⟨source, sourced⟩ := (all.source_eq_ok fun _ => Table.has_ofNode).mpr
    ⟨named, fun route inside => writable route (Or.inr inside)⟩
  obtain ⟨source', sourced'⟩ := ((selecting.trans sorting).source_eq_ok fun _ => has_staged).mpr
    ⟨named', fun route inside => (stands_staged _).writable.mpr
      (writable route (inside.imp_right Or.inr))⟩
  refine ⟨source, source', second, fourth, ?_, ?_⟩
  · refine Building.bind_eq_ok.mpr ⟨condition, first, ran, ?_⟩
    refine Building.bind_eq_ok.mpr ⟨order, second, ran', ?_⟩
    refine Building.bind_eq_ok.mpr ⟨stage, second, Building.lift_eq_ok.mpr ⟨staging, rfl⟩, ?_⟩
    refine Building.bind_eq_ok.mpr ⟨second, second, rfl, ?_⟩
    refine Building.bind_eq_ok.mpr ⟨label, second, Building.lift_eq_ok.mpr ⟨?_, rfl⟩, ?_⟩
    · exact all.stands.label ▸ labelled
    refine Building.bind_eq_ok.mpr ⟨second, second, rfl, ?_⟩
    exact Building.bind_eq_ok.mpr ⟨source, second, Building.lift_eq_ok.mpr ⟨sourced, rfl⟩, rfl⟩
  · refine Building.bind_eq_ok.mpr ⟨columns, third, ran'', ?_⟩
    refine Building.bind_eq_ok.mpr ⟨order, fourth, resorted, ?_⟩
    refine Building.bind_eq_ok.mpr ⟨fourth, fourth, rfl, ?_⟩
    exact Building.bind_eq_ok.mpr ⟨source', fourth, Building.lift_eq_ok.mpr ⟨sourced', rfl⟩, rfl⟩

end Stages

section Statements

variable {catalog : Catalog} {maxLimit : Nat} {selection : Selection} {request : Request}

mutual

theorem selectHead_of_staged (catalog : Catalog) (maxLimit : Nat) :
    ∀ (path : List String) (field : SelectionField),
      selectHead catalog ⟨true, maxLimit⟩ path field = selectHead catalog ⟨false, maxLimit⟩ path field
  | _, .leaf _ _ | _, .count _ _ _ | _, .multiple _ _ _ _ => rfl
  | path, .edge key _ head | path, .unique key _ head => by
    rw [selectHead, selectHead, selectHeads_of_staged catalog maxLimit]

theorem selectHeads_of_staged (catalog : Catalog) (maxLimit : Nat) :
    ∀ (path : List String) (fields : List SelectionField),
      selectHeads catalog ⟨true, maxLimit⟩ path fields =
        selectHeads catalog ⟨false, maxLimit⟩ path fields
  | _, [] => rfl
  | path, field :: rest => by
    rw [selectHeads, selectHeads, selectHead_of_staged catalog maxLimit,
      selectHeads_of_staged catalog maxLimit]

end

theorem composed_congr {filter : Option Filter} {expressions : List SortExpression}
    {columns : List Selected} {condition : Option Condition} {order : List SortItem} :
    Composed catalog ⟨true, maxLimit⟩ selection filter expressions columns condition order ↔
      Composed catalog ⟨false, maxLimit⟩ selection filter expressions columns condition order := by
  have same (fields : List SelectionField) :
      select catalog ⟨true, maxLimit⟩ fields = select catalog ⟨false, maxLimit⟩ fields := by
    rw [select, select, selectHeads_of_staged]
  constructor
  · rintro ⟨named, parts⟩
    exact ⟨named, same selection.fields ▸ parts⟩
  · rintro ⟨named, parts⟩
    exact ⟨named, (same selection.fields).symm ▸ parts⟩

theorem Identifier.ofText_eq_ok {text : String} :
    (∃ identifier, Identifier.ofText text = .ok identifier) ↔ Name.fault? 64 text = none := by
  unfold Identifier.ofText Name.ofText
  split
  · rename_i valid
    exact iff_of_true ⟨_, rfl⟩ valid
  · rename_i fault refused
    refine iff_of_false ?_ (by simp [refused])
    rintro ⟨_, impossible⟩
    cases impossible

theorem Name.fault?_eq_none {limit : Nat} {text : String} : Name.fault? limit text = none ↔
    text.isEmpty = false ∧ '\x00' ∉ text.toList ∧ text.length ≤ limit := by
  unfold Name.fault?
  split
  · rename_i empty
    simp [empty]
  · split
    · rename_i nul
      simp_all
    · split <;> simp_all

theorem stageName_fits {node : Node} (valid : Name.fault? 64 node.table = none) :
    Name.fault? 64 (stageName node) = none ↔ node.table.length ≤ 60 := by
  rw [Name.fault?_eq_none] at valid ⊢
  have length : (stageName node).length = 4 + node.table.length := String.length_append ..
  have characters : '\x00' ∉ (stageName node).toList := by
    simp [stageName, valid.2.1]
  have filled : (stageName node).isEmpty = false := by
    simp [stageName]
  simp only [filled, characters, length, not_false_eq_true, true_and]
  omega

theorem Building.on_eq_ok_iff {α : Type} {table : Table} {action : Building α} {value : α} :
    action.on table = .ok value ↔ ∃ after, action table = .ok value after := by
  refine ⟨Building.on_eq_ok, ?_⟩
  rintro ⟨after, ran⟩
  unfold Building.on
  rw [ran]

/-- What is checked of a request before anything is compiled. -/
structure Admitted (maxLimit : Nat) (node : Node) (request : Request) (limit : Option Limit) :
    Prop where
  filter : checkOwner node (request.filter.map (·.node)) = .ok ()
  ordering : checkOwner node (request.ordering.map (·.node)) = .ok ()
  limit : limitOf ⟨false, maxLimit⟩ request = .ok limit

/-- What a request sorts on. -/
def requestedOrder (request : Request) : List SortExpression :=
  ((request.ordering.map (·.reduced)).map (·.expressions)).getD []

theorem find_plain_eq_ok {query : Find} :
    find catalog ⟨false, maxLimit⟩ selection request = .ok query ↔
      ∃ limit, Admitted maxLimit selection.node request limit ∧
        ∃ after, findDirect catalog ⟨false, maxLimit⟩ selection request.filter
          (requestedOrder request) limit (.root selection.node) = .ok query after := by
  constructor
  · intro made
    obtain ⟨_, filter, made⟩ := Outcome.bind_eq_ok.mp made
    obtain ⟨_, ordering, made⟩ := Outcome.bind_eq_ok.mp made
    obtain ⟨limit, limited, made⟩ := Outcome.bind_eq_ok.mp made
    exact ⟨limit, ⟨filter, ordering, limited⟩, Building.on_eq_ok_iff.mp made⟩
  · rintro ⟨limit, ⟨filter, ordering, limited⟩, ran⟩
    refine Outcome.bind_eq_ok.mpr ⟨(), filter, ?_⟩
    refine Outcome.bind_eq_ok.mpr ⟨(), ordering, ?_⟩
    exact Outcome.bind_eq_ok.mpr ⟨limit, limited, Building.on_eq_ok_iff.mpr ran⟩

theorem find_staged_eq_ok {query : Find} :
    find catalog ⟨true, maxLimit⟩ selection request = .ok query ↔
      ∃ limit, Admitted maxLimit selection.node request limit ∧ ∃ stage listing,
        (∃ listed, listStage catalog selection.node request.filter (requestedOrder request) limit
          (.root selection.node) = .ok (stage, listing) listed) ∧
        ∃ after, findStaged catalog ⟨true, maxLimit⟩ selection (requestedOrder request) stage
          listing (staged selection.node) = .ok query after := by
  constructor
  · intro made
    obtain ⟨_, filter, made⟩ := Outcome.bind_eq_ok.mp made
    obtain ⟨_, ordering, made⟩ := Outcome.bind_eq_ok.mp made
    obtain ⟨limit, limited, made⟩ := Outcome.bind_eq_ok.mp made
    obtain ⟨⟨stage, listing⟩, inner, outer⟩ := Outcome.bind_eq_ok.mp made
    exact ⟨limit, ⟨filter, ordering, limited⟩, stage, listing, Building.on_eq_ok_iff.mp inner,
      Building.on_eq_ok_iff.mp outer⟩
  · rintro ⟨limit, ⟨filter, ordering, limited⟩, stage, listing, inner, outer⟩
    refine Outcome.bind_eq_ok.mpr ⟨(), filter, ?_⟩
    refine Outcome.bind_eq_ok.mpr ⟨(), ordering, ?_⟩
    refine Outcome.bind_eq_ok.mpr ⟨limit, limited, ?_⟩
    exact Outcome.bind_eq_ok.mpr
      ⟨(stage, listing), Building.on_eq_ok_iff.mpr inner, Building.on_eq_ok_iff.mpr outer⟩

/-- A statement in two stages that says what one in a single stage says: the same columns under the
same labels, and rows that meet the same condition, in the same order and up to the same limit. -/
inductive Restages : Find → Find → Prop
  | make {stage : Identifier} {columns : List Selected} {whole listing : Listing} {source : Source}
      (condition : listing.condition = whole.condition) (order : listing.order = whole.order)
      (limit : listing.limit = whole.limit) :
      Restages (.direct columns whole) (.staged stage listing columns source whole.order)

theorem Composed.fault?_eq_none {filter : Option Filter} {expressions : List SortExpression}
    {columns : List Selected} {condition : Option Condition} {order : List SortItem}
    {settings : Settings}
    (composed : Composed catalog settings selection filter expressions columns condition order) :
    Name.fault? 64 selection.node.table = none := by
  obtain ⟨_, named⟩ := composed.named
  obtain ⟨identifier, named, -⟩ := Outcome.bind_eq_ok.mp named
  exact Identifier.ofText_eq_ok.mp ⟨identifier, named⟩

theorem staged_of_plain {query : Find}
    (made : find catalog ⟨false, maxLimit⟩ selection request = .ok query)
    (short : selection.node.table.length ≤ 60) :
    ∃ query', find catalog ⟨true, maxLimit⟩ selection request = .ok query' ∧
      Restages query query' := by
  obtain ⟨limit, admitted, after, ran⟩ := find_plain_eq_ok.mp made
  obtain ⟨columns, condition, order, source, composed, rfl⟩ := composed_of_direct ran
  obtain ⟨stage, staging⟩ :=
    Identifier.ofText_eq_ok.mpr ((stageName_fits composed.fault?_eq_none).mpr short)
  obtain ⟨listed, source', _, _, inner, outer⟩ :=
    staged_of_composed (composed_congr.mpr composed) staging limit
  exact ⟨_, find_staged_eq_ok.mpr ⟨limit, admitted, stage, _, ⟨_, inner⟩, ⟨_, outer⟩⟩,
    .make rfl rfl rfl⟩

theorem plain_of_staged {query : Find}
    (made : find catalog ⟨true, maxLimit⟩ selection request = .ok query) :
    selection.node.table.length ≤ 60 ∧
      ∃ query', find catalog ⟨false, maxLimit⟩ selection request = .ok query' := by
  obtain ⟨limit, admitted, stage, listing, ⟨_, inner⟩, ⟨_, outer⟩⟩ := find_staged_eq_ok.mp made
  obtain ⟨columns, condition, order, _, composed, -, -, -, staging, -⟩ :=
    composed_of_staged inner outer
  obtain ⟨source, after, ran⟩ := direct_of_composed (composed_congr.mp composed)
  exact ⟨(stageName_fits composed.fault?_eq_none).mp (Identifier.ofText_eq_ok.mp ⟨stage, staging⟩),
    _, find_plain_eq_ok.mpr ⟨limit, admitted, after, ran⟩⟩

/-- A statement for a request, and what it leaves to be read later. -/
def reading (catalog : Catalog) (settings : Settings) (selection : Selection) (request : Request) :
    Except Error (Find × List Followup) :=
  return (← find catalog settings selection request, selection.followups)

theorem reading_eq_ok {settings : Settings} {query : Find} {followups : List Followup} :
    reading catalog settings selection request = .ok (query, followups) ↔
      find catalog settings selection request = .ok query ∧ selection.followups = followups := by
  constructor
  · intro made
    obtain ⟨_, found, same⟩ := Outcome.bind_eq_ok.mp made
    cases same
    exact ⟨found, rfl⟩
  · rintro ⟨found, rfl⟩
    exact Outcome.bind_eq_ok.mpr ⟨query, found, rfl⟩

/-- Statements in one stage and in two agree. The name of the stage is all that can be in the way:
the mark before the table's name takes four of the characters that a name may have. -/
theorem reading_staged (catalog : Catalog) (maxLimit : Nat) (selection : Selection)
    (request : Request) :
    ((∃ plan, reading catalog ⟨true, maxLimit⟩ selection request = .ok plan) ↔
      (∃ plan, reading catalog ⟨false, maxLimit⟩ selection request = .ok plan) ∧
        selection.node.table.length ≤ 60) ∧
    ∀ query followups query' followups',
      reading catalog ⟨false, maxLimit⟩ selection request = .ok (query, followups) →
      reading catalog ⟨true, maxLimit⟩ selection request = .ok (query', followups') →
        followups' = followups ∧ Restages query query' := by
  refine ⟨⟨?_, ?_⟩, ?_⟩
  · rintro ⟨⟨query, followups⟩, made⟩
    obtain ⟨found, same⟩ := reading_eq_ok.mp made
    obtain ⟨short, query', found'⟩ := plain_of_staged found
    exact ⟨⟨(query', followups), reading_eq_ok.mpr ⟨found', same⟩⟩, short⟩
  · rintro ⟨⟨⟨query, followups⟩, made⟩, short⟩
    obtain ⟨found, same⟩ := reading_eq_ok.mp made
    obtain ⟨query', found', -⟩ := staged_of_plain found short
    exact ⟨(query', followups), reading_eq_ok.mpr ⟨found', same⟩⟩
  · intro query followups query' followups' made made'
    obtain ⟨found, same⟩ := reading_eq_ok.mp made
    obtain ⟨found', same'⟩ := reading_eq_ok.mp made'
    obtain ⟨short, -⟩ := plain_of_staged found'
    obtain ⟨query'', found'', restages⟩ := staged_of_plain found short
    cases found'.symm.trans found''
    exact ⟨same'.symm.trans same, restages⟩

end Statements

end Sql

open Samples in
/-- Tasks with their owners, and ten tasks of each owner that are read later. -/
def Samples.tasksWithOwners : Selection :=
  ⟨task, [.edge "owner" owner [.leaf "id" ⟨"Person", "id", "id", .int, false⟩,
    .multiple "tasks" tasks ⟨none, none, 0, 10⟩ [.leaf "id" ⟨"Task", "id", "id", .int, false⟩]]]⟩

open Samples in
/-- Tasks with their owners can be listed in one stage and in two. -/
theorem Sql.reading_staged_tasks : ∃ query query' followups,
    reading boardCatalog ⟨false, 1000⟩ tasksWithOwners ⟨none, none, 0, some 5⟩ =
      .ok (query, followups) ∧
    reading boardCatalog ⟨true, 1000⟩ tasksWithOwners ⟨none, none, 0, some 5⟩ =
      .ok (query', followups) ∧
    followups ≠ [] ∧ Restages query query' := by
  obtain ⟨modes, parts⟩ := reading_staged boardCatalog 1000 tasksWithOwners ⟨none, none, 0, some 5⟩
  obtain ⟨⟨query, followups⟩, made⟩ : ∃ plan, reading boardCatalog ⟨false, 1000⟩ tasksWithOwners
    ⟨none, none, 0, some 5⟩ = .ok plan := ⟨_, rfl⟩
  obtain ⟨⟨query', followups'⟩, made'⟩ := modes.mpr ⟨⟨_, made⟩, by decide⟩
  obtain ⟨rfl, restages⟩ := parts _ _ _ _ made made'
  refine ⟨query, query', followups', made, made', ?_, restages⟩
  rw [← (reading_eq_ok.mp made).2]
  exact List.cons_ne_nil _ _

/-- A table whose name leaves no room for the mark of a stage. -/
def Samples.laboratories : CatalogDefinition := [
  ⟨"Reading", "readings_of_the_laboratories_for_experimental_particle_physics",
    [field "id" .int], [unique ["id"]], []⟩]

namespace Sql

/-- The readings of laboratories can be listed in one stage but not in two. -/
theorem reading_long_name :
    ∃ catalog node selection, Samples.laboratories.build = .ok catalog ∧
      catalog.node "Reading" = .ok node ∧
      Selection.parse catalog node (.object [("id", .boolean true)]) = .ok selection ∧
      (∃ plan, reading catalog ⟨false, 1000⟩ selection ⟨none, none, 0, none⟩ = .ok plan) ∧
      ¬∃ plan, reading catalog ⟨true, 1000⟩ selection ⟨none, none, 0, none⟩ = .ok plan := by
  refine ⟨_, _, _, rfl, rfl, rfl, ⟨_, rfl⟩, ?_⟩
  rintro ⟨_, impossible⟩
  cases impossible

end Sql

end LiveQuery
