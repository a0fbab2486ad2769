import LiveQuery.Proofs.Catalog.Identifying
import LiveQuery.Proofs.Filter.Typed
import LiveQuery.Proofs.Sql.Resolving

set_option autoImplicit false

namespace LiveQuery.Sql

/-- An error about a name that cannot be quoted: as a name of a table or column, or as an alias. -/
inductive Error.OfName : Error → Prop
  | identifier {name : String} {fault : NameFault} (refused : Name.fault? 64 name = some fault) :
    OfName (.invalidName name fault)
  | label {name : String} {fault : NameFault} (refused : Name.fault? 256 name = some fault) :
    OfName (.invalidName name fault)

/-- An attempt that fails on names only. -/
def NamesOnly {α : Type} (attempt : Except Error α) : Prop :=
  ∀ error, attempt = .error error → error.OfName

namespace NamesOnly

variable {α β : Type}

theorem ok (value : α) : NamesOnly (.ok value) := by
  intro error impossible
  cases impossible

theorem bind {first : Except Error α} {next : α → Except Error β} (fails : NamesOnly first)
    (behind : ∀ value, first = .ok value → NamesOnly (next value)) :
    NamesOnly (first >>= next) := by
  cases ran : first with
  | error error =>
    rintro _ ⟨⟩
    exact fails error ran
  | ok value => exact behind value ran

theorem mapM {items : List α} {step : α → Except Error β}
    (each : ∀ item ∈ items, NamesOnly (step item)) : NamesOnly (items.mapM step) := by
  induction items with
  | nil => exact ok []
  | cons item rest ih =>
    rw [List.forall_mem_cons] at each
    rw [List.mapM_cons]
    exact each.1.bind fun _ _ => (ih each.2).bind fun _ _ => ok _

theorem identifier (text : String) : NamesOnly (Identifier.ofText text) := by
  intro error failed
  unfold Identifier.ofText Name.ofText at failed
  split at failed
  · cases failed
  · rename_i refused
    cases failed
    exact .identifier refused

theorem label (text : String) : NamesOnly (Alias.ofText text) := by
  intro error failed
  unfold Alias.ofText Name.ofText at failed
  split at failed
  · cases failed
  · rename_i refused
    cases failed
    exact .label refused

theorem column (table : Table) (name : String) : NamesOnly (table.column name) :=
  (label table.label).bind fun _ _ => (identifier name).bind fun _ _ => ok _

theorem named (table : Table) : NamesOnly table.named :=
  (identifier table.name).bind fun _ _ => (label table.label).bind fun _ _ => ok _

theorem correlate {link : Edge} {child parent : Table}
    (leaves : ∀ foreignKey ∈ link.columns,
      ∃ field, parent.node.leaf foreignKey.headLeaf = .ok field) :
    NamesOnly (Table.correlate link child parent) := by
  apply mapM
  intro foreignKey inside
  obtain ⟨field, known⟩ := leaves foreignKey inside
  simp only [known]
  exact (column child _).bind fun _ _ => (column parent _).bind fun _ _ => ok _

end NamesOnly

section Leaves

variable {field : Leaf} {value : Value} {column : Column}

/-- What a type keeps can be written as a literal of the type. -/
theorem Literal.ofValue_of_keeps {type : LeafType} (kept : type.Keeps value) :
    ∃ literal, Literal.ofValue type value = .ok literal := by
  have has := LeafType.has_of_coerce? kept
  cases type <;> cases value <;> simp only [LeafType.Has] at has
  case float.float number =>
    simp only [LeafType.Keeps, LeafType.coerce?] at kept
    split at kept
    · rename_i finite
      exact ⟨.float number, if_pos finite⟩
    · cases kept
  all_goals exact ⟨_, rfl⟩

theorem NamesOnly.of_keeps {type : LeafType} (kept : type.Keeps value) :
    NamesOnly (Literal.ofValue type value) := by
  obtain ⟨literal, made⟩ := Literal.ofValue_of_keeps kept
  rw [made]
  exact .ok literal

namespace Condition

theorem namesOnly_ofComparison {comparison : Comparison}
    (admits : field.Admits (.compared comparison) value) :
    NamesOnly (ofComparison field column comparison value) := by
  cases admits with
  | equality unordered kept =>
    rcases kept with rfl | kept
    · cases comparison with
      | eq | ne => exact .ok _
      | _ => cases unordered
    · have literal := NamesOnly.of_keeps kept
      unfold ofComparison
      simp only [kept.isNull_eq, Bool.false_eq_true, if_false]
      cases comparison with
      | eq => exact literal.bind fun _ _ => .ok _
      | ne =>
        dsimp only
        split <;> exact literal.bind fun _ _ => .ok _
      | _ => cases unordered
  | order ordered comparable kept =>
    have literal := NamesOnly.of_keeps kept
    cases comparison with
    | eq | ne => cases ordered
    | _ => exact literal.bind fun _ _ => .ok _

theorem namesOnly_ofItems {items : List Value}
    (kept : ∀ item ∈ items, item = .null ∨ field.type.Keeps item) :
    NamesOnly (ofItems field column items) := by
  have literals : NamesOnly ((items.filter (!·.isNull)).mapM (Literal.ofValue field.type)) := by
    apply NamesOnly.mapM
    intro item inside
    obtain ⟨member, set⟩ := List.mem_filter.mp inside
    rcases kept item member with rfl | kept
    · cases set
    · exact .of_keeps kept
  refine literals.bind fun _ _ => ?_
  dsimp only
  split <;> exact .ok _

theorem namesOnly_ofLeaf {table : Table} {operator : LeafOperator}
    (admits : field.Admits operator value) :
    NamesOnly (ofLeaf table field operator value) := by
  refine (NamesOnly.column table field.column).bind fun column _ => ?_
  cases operator with
  | compared comparison => exact namesOnly_ofComparison admits
  | among => cases admits with | among kept => exact namesOnly_ofItems kept
  | notAmong =>
    cases admits with
    | notAmong kept => exact (namesOnly_ofItems kept).bind fun _ _ => .ok _
  | fullText => cases admits with | fullText text type => exact .ok _

end Condition

end Leaves

section Relations

variable {catalog : Catalog} {definitions : CatalogDefinition} {node head : Node} {link : Edge}
  {relation : ReverseEdge}

theorem edgeConsistent_of_part (consistent : catalog.Consistent definitions)
    (found : catalog.node? node.name = some node)
    (part : node.component? link.name = some (.edge link)) : catalog.EdgeConsistent node link :=
  (consistent.nodes node (List.mem_of_find?_eq_some found)).edges link
    (Node.mem_of_component? part)

theorem reverseEdgeConsistent_of_part (consistent : catalog.Consistent definitions)
    (found : catalog.node? node.name = some node)
    (part : node.reverseEdge? relation.name = some relation) :
    catalog.ReverseEdgeConsistent node relation :=
  (consistent.nodes node (List.mem_of_find?_eq_some found)).reverseEdges relation
    (Catalog.WellFormed.mem_of_reverseEdge? part).1

theorem leaf_of_edge (consistent : catalog.Consistent definitions)
    (found : catalog.node? node.name = some node)
    (part : node.component? link.name = some (.edge link))
    (reached : catalog.node? link.head = some head) :
    ∀ foreignKey ∈ link.columns, ∃ field, head.leaf foreignKey.headLeaf = .ok field := by
  intro foreignKey inside
  obtain ⟨head', -, leads, -, -, each⟩ := (edgeConsistent_of_part consistent found part).head
  rw [SelectionField.node?_of_edgeHead leads] at reached
  cases reached
  obtain ⟨field, known, -⟩ := each foreignKey inside
  exact ⟨field, known⟩

theorem leaf_of_reverseEdge (consistent : catalog.Consistent definitions)
    (found : catalog.node? node.name = some node)
    (part : node.reverseEdge? relation.name = some relation) :
    ∀ foreignKey ∈ relation.edge.columns, ∃ field, node.leaf foreignKey.headLeaf = .ok field := by
  have reverse := reverseEdgeConsistent_of_part consistent found part
  obtain ⟨holder, member, -, -, holds, -⟩ := reverse.head
  have found' := (consistent.nodes holder member).found
  apply leaf_of_edge consistent (Catalog.node_eq_ok_iff.mp found') (Filter.component?_of_edge holds)
  rw [reverse.back, found]

namespace JoinRelation

variable {relation : JoinRelation}

theorem owner_of_partOf (consistent : catalog.Consistent definitions)
    (found : catalog.node? node.name = some node) (part : relation.PartOf node) :
    relation.owner = node.name := by
  cases relation with
  | edge link => exact (edgeConsistent_of_part consistent found part).owner
  | reverse relation => exact (reverseEdgeConsistent_of_part consistent found part).owner

theorem head_of_partOf (consistent : catalog.Consistent definitions)
    (found : catalog.node? node.name = some node) (part : relation.PartOf node) :
    ∃ head, relation.head catalog = .ok head ∧ catalog.node? relation.headName = some head := by
  cases relation with
  | edge link =>
    obtain ⟨head, -, leads, -⟩ := (edgeConsistent_of_part consistent found part).head
    exact ⟨head, leads, SelectionField.node?_of_edgeHead leads⟩
  | reverse relation =>
    obtain ⟨head, -, leads, -⟩ := (reverseEdgeConsistent_of_part consistent found part).head
    exact ⟨head, leads, SelectionField.node?_of_reverseEdgeHead leads⟩

end JoinRelation

theorem namesOnly_matching (consistent : catalog.Consistent definitions) (table : Table)
    {joined : Table} {relation : JoinRelation}
    (found : catalog.node? table.node.name = some table.node)
    (part : relation.PartOf table.node)
    (reached : catalog.node? relation.headName = some joined.node) :
    NamesOnly (Table.matching table joined relation) := by
  cases relation with
  | edge link => exact .correlate (leaf_of_edge consistent found part reached)
  | reverse relation => exact .correlate (leaf_of_reverseEdge consistent found part)

end Relations

section Tables

variable {catalog : Catalog} {definitions : CatalogDefinition} {table : Table} {node head : Node}

/-- A table whose joins follow relations of their nodes. -/
inductive Follows (catalog : Catalog) : Table → Prop
  | make {label name : String} {node : Node} {joins : List Join}
      (found : catalog.node? node.name = some node)
      (part : ∀ relation key joined, .make relation key joined ∈ joins →
        relation.PartOf node ∧ catalog.node? relation.headName = some joined.node)
      (below : ∀ relation key joined, .make relation key joined ∈ joins → Follows catalog joined) :
      Follows catalog (.make label name node joins)

theorem Follows.alone (found : catalog.node? node.name = some node) (label name : String) :
    Follows catalog (.make label name node []) :=
  .make found (by simp) (by simp)

theorem Follows.namesOnly_leftJoins (consistent : catalog.Consistent definitions)
    (follows : Follows catalog table) : NamesOnly table.leftJoins := by
  induction follows with
  | @make label name node joins found part below ih =>
    change NamesOnly (Table.leftJoinsAll (.make label name node []) joins)
    induction joins with
    | nil => exact .ok []
    | cons join rest behind =>
      obtain ⟨relation, key, joined⟩ := join
      have here := part relation key joined (List.mem_cons_self ..)
      refine (NamesOnly.named joined).bind fun _ _ => ?_
      refine (namesOnly_matching consistent (.make label name node []) found here.1
        here.2).bind fun _ _ => ?_
      refine (ih relation key joined (List.mem_cons_self ..)).bind fun _ _ => ?_
      refine NamesOnly.bind ?_ fun _ _ => .ok _
      exact behind (fun _ key _ later => part _ key _ (List.mem_cons_of_mem _ later))
        (fun _ key _ later => below _ key _ (List.mem_cons_of_mem _ later))
        fun _ key _ later => ih _ key _ (List.mem_cons_of_mem _ later)

theorem Follows.namesOnly_source (consistent : catalog.Consistent definitions)
    (follows : Follows catalog table) : NamesOnly table.source :=
  (NamesOnly.named table).bind fun _ _ =>
    (follows.namesOnly_leftJoins consistent).bind fun _ _ => .ok _

/-- A joined table may be replaced by one of the same node. -/
theorem Follows.put (follows : Follows catalog table) {relation : JoinRelation}
    {key : Option String} {before behind : List Join} {joined' : Table}
    (joins : ∀ join ∈ before ++ behind, join ∈ table.joins) (part : relation.PartOf table.node)
    (reached : catalog.node? relation.headName = some joined'.node)
    (follows' : Follows catalog joined') :
    Follows catalog (table.withJoins (before ++ .make relation key joined' :: behind)) := by
  cases follows with
  | make found parts below =>
    simp only [Table.joins, List.mem_append] at joins
    refine .make found (fun relation' key' other inside => ?_) fun relation' key' other inside => ?_
    · rcases List.mem_append.mp inside with first | later
      · exact parts relation' key' other (joins _ (Or.inl first))
      · rcases List.mem_cons.mp later with same | last
        · cases same
          exact ⟨part, reached⟩
        · exact parts relation' key' other (joins _ (Or.inr last))
    · rcases List.mem_append.mp inside with first | later
      · exact below relation' key' other (joins _ (Or.inl first))
      · rcases List.mem_cons.mp later with same | last
        · cases same
          exact follows'
        · exact below relation' key' other (joins _ (Or.inr last))

theorem Follows.of_mem (follows : Follows catalog table) {relation : JoinRelation}
    {key : Option String} {joined : Table} (inside : .make relation key joined ∈ table.joins) :
    Follows catalog joined := by
  cases follows with
  | make _ _ below => exact below relation key joined inside

end Tables

/-- A table that may have got more joins, all of them along relations of the catalog if those before
were. -/
structure Kept (catalog : Catalog) (before after : Table) : Prop where
  node : after.node = before.node
  linked : Linked catalog after
  follows : Follows catalog before → Follows catalog after

namespace Kept

variable {catalog : Catalog} {first second third : Table}

theorem refl (linked : Linked catalog first) : Kept catalog first first := ⟨rfl, linked, id⟩

theorem trans (kept : Kept catalog first second) (more : Kept catalog second third) :
    Kept catalog first third :=
  ⟨more.node.trans kept.node, more.linked, more.follows ∘ kept.follows⟩

end Kept

variable {α β : Type}

/-- An action on tables of a node that fails on names only. Whether it fails or not, the table keeps
its node and its relations. -/
structure Robust (catalog : Catalog) (node : Node) (action : Building α) : Prop where
  done : ∀ {table after : Table} {value : α}, Linked catalog table → table.node = node →
    action table = .ok value after → Kept catalog table after
  failed : ∀ {table after : Table} {error : Error}, Linked catalog table → table.node = node →
    action table = .error error after → error.OfName ∧ Kept catalog table after

namespace Robust

variable {catalog : Catalog} {definitions : CatalogDefinition} {node : Node}

theorem pure (value : α) : Robust catalog node (Pure.pure value) := by
  constructor
  · intro table after result linked _ made
    cases made
    exact .refl linked
  · intro table after error _ _ made
    cases made

theorem lift {attempt : Except Error α} (fails : NamesOnly attempt) :
    Robust catalog node (liftM attempt) := by
  constructor
  · intro table after value linked _ made
    obtain ⟨-, rfl⟩ := Building.lift_eq_ok.mp made
    exact .refl linked
  · intro table after error linked _ made
    obtain ⟨failed, rfl⟩ := Building.lift_eq_error.mp made
    exact ⟨fails error failed, .refl linked⟩

theorem bind {action : Building α} {step : α → Building β} (first : Robust catalog node action)
    (behind : ∀ value, Robust catalog node (step value)) :
    Robust catalog node (action >>= step) := by
  constructor
  · intro table after result linked known made
    obtain ⟨value, between, ran, made⟩ := Building.bind_eq_ok.mp made
    have kept := first.done linked known ran
    exact kept.trans ((behind value).done kept.linked (kept.node.trans known) made)
  · intro table after error linked known made
    rcases Building.bind_eq_error.mp made with here | ⟨value, between, ran, made⟩
    · exact first.failed linked known here
    · have kept := first.done linked known ran
      obtain ⟨name, more⟩ := (behind value).failed kept.linked (kept.node.trans known) made
      exact ⟨name, kept.trans more⟩

/-- A step that reads the table runs on a table of the node. -/
theorem reading {step : Table → Building β}
    (behind : ∀ table, Linked catalog table → table.node = node →
      Robust catalog node (step table)) :
    Robust catalog node (MonadState.get >>= step) := by
  constructor
  · intro table after result linked known made
    obtain ⟨_, _, got, made⟩ := Building.bind_eq_ok.mp made
    cases got
    exact (behind table linked known).done linked known made
  · intro table after error linked known made
    rcases Building.bind_eq_error.mp made with impossible | ⟨_, _, got, made⟩
    · cases impossible
    · cases got
      exact (behind table linked known).failed linked known made

theorem map {action : Building α} (change : α → β) (robust : Robust catalog node action) :
    Robust catalog node (change <$> action) := by
  rw [map_eq_pure_bind]
  exact robust.bind fun _ => .pure _

theorem kept_put {table joined joined' : Table} {relation : JoinRelation} {key : Option String}
    {before behind : List Join} (linked : Linked catalog table)
    (joins : ∀ join ∈ before ++ behind, join ∈ table.joins) (part : relation.PartOf table.node)
    (reached : catalog.node? relation.headName = some joined.node)
    (kept : Kept catalog joined joined')
    (below : Follows catalog table → Follows catalog joined) :
    Kept catalog table (table.withJoins (before ++ .make relation key joined' :: behind)) := by
  have reached' : catalog.node? relation.headName = some joined'.node := kept.node ▸ reached
  refine ⟨Linked.node_withJoins _ _, ?_, fun follows => ?_⟩
  · exact linked.put joins (Catalog.name_of_node? reached') kept.linked
  · exact follows.put joins part reached' (kept.follows (below follows))

/-- A visit along a relation of the node goes on with a table of the relation's head: one that is
joined already, or one without joins of its own. -/
theorem visit_stands (consistent : catalog.Consistent definitions) {table : Table} {head : Node}
    {relation : JoinRelation} (key : Option String) (linked : Linked catalog table)
    (part : relation.PartOf table.node) (single : relation.check = .ok ())
    (reached : catalog.node? relation.headName = some head) :
    ∃ before joined behind, (∀ join ∈ before ++ behind, join ∈ table.joins) ∧
      Linked catalog joined ∧ joined.node = head ∧
      (Follows catalog table → Follows catalog joined) ∧
      ∀ {γ : Type} (action : Building γ), Table.visit catalog relation key action table =
        Table.within relation key before behind joined action table := by
  have owner := JoinRelation.owner_of_partOf consistent linked.found part
  cases split : Table.splitAt? relation key table.joins with
  | some parts =>
    obtain ⟨before, joined, behind⟩ := parts
    have joins := splitAt?_eq_some split
    have inside : Join.make relation key joined ∈ table.joins := by
      rw [joins]
      simp
    have there : Linked catalog joined ∧ joined.node.name = relation.headName := by
      cases linked with
      | make _ names below => exact ⟨below _ _ _ inside, names _ _ _ inside⟩
    have found' := there.1.found
    rw [there.2, reached] at found'
    refine ⟨before, joined, behind, ?_, there.1, (Option.some.inj found').symm,
      fun follows => follows.of_mem inside, fun action => visit_of_split owner single split⟩
    intro join member
    rw [joins]
    rcases List.mem_append.mp member with first | last
    · exact List.mem_append_left _ first
    · exact List.mem_append_right _ (List.mem_cons_of_mem _ last)
  | none =>
    have named := Catalog.name_of_node? reached
    obtain ⟨head', looked, reached'⟩ := JoinRelation.head_of_partOf consistent linked.found part
    obtain rfl : head = head' := Option.some.inj (reached.symm.trans reached')
    refine ⟨table.joins, _, [], ?_, .alone (named ▸ reached) _ _, rfl,
      fun _ => .alone (named ▸ reached) _ _, fun action => visit_of_new owner single split looked⟩
    intro join member
    rwa [List.append_nil] at member

/-- A visit along a relation of the node fails on nothing but what is done there fails on. -/
theorem visit (consistent : catalog.Consistent definitions)
    (found : catalog.node? node.name = some node) {relation : JoinRelation} {key : Option String}
    {action : Building α} (part : relation.PartOf node) (single : relation.check = .ok ())
    (inner : ∀ head, catalog.node? relation.headName = some head → Robust catalog head action) :
    Robust catalog node (Table.visit catalog relation key action) := by
  obtain ⟨head, -, reached⟩ := JoinRelation.head_of_partOf consistent found part
  have robust := inner head reached
  constructor
  · intro table after value linked known made
    subst known
    obtain ⟨before, joined, behind, joins, linked', node', below, visited⟩ :=
      visit_stands consistent key linked part single reached
    obtain ⟨joined', ran, rfl⟩ := within_eq_ok ((visited action).symm.trans made)
    exact kept_put linked joins part (node' ▸ reached) (robust.done linked' node' ran) below
  · intro table after error linked known made
    subst known
    obtain ⟨before, joined, behind, joins, linked', node', below, visited⟩ :=
      visit_stands consistent key linked part single reached
    obtain ⟨joined', ran, rfl⟩ := within_eq_error ((visited action).symm.trans made)
    obtain ⟨name, kept⟩ := robust.failed linked' node' ran
    exact ⟨name, kept_put linked joins part (node' ▸ reached) kept below⟩

theorem throw {error : Error} (name : error.OfName) :
    Robust catalog node (MonadExcept.throw error : Building α) := by
  constructor
  · intro table after value _ _ made
    cases made
  · intro table after error' linked _ made
    cases made
    exact ⟨name, .refl linked⟩

theorem attempting {attempt : Except Error α} {step : α → Building β} (fails : NamesOnly attempt)
    (behind : ∀ value, attempt = .ok value → Robust catalog node (step value)) :
    Robust catalog node (liftM attempt >>= step) := by
  cases tried : attempt with
  | error error =>
    have failing := fails error tried
    constructor
    · intro table after value _ _ made
      obtain ⟨_, _, impossible, -⟩ := Building.bind_eq_ok.mp made
      cases impossible
    · intro table after error' linked _ made
      rcases Building.bind_eq_error.mp made with here | ⟨_, _, impossible, -⟩
      · cases here
        exact ⟨failing, .refl linked⟩
      · cases impossible
  | ok value =>
    have robust := behind value tried
    exact ⟨fun linked known made => robust.done linked known made,
      fun linked known made => robust.failed linked known made⟩

/-- A query for child rows fails on names, or on what its filter fails on. -/
theorem children (consistent : catalog.Consistent definitions)
    (found : catalog.node? node.name = some node) {relation : ReverseEdge}
    {filter : Building (Option Condition)}
    (part : node.reverseEdge? relation.name = some relation)
    (inner : ∀ head, catalog.node? relation.head = some head → Robust catalog head filter) :
    Robust catalog node (Sql.children catalog relation filter) := by
  obtain ⟨head, looked, reached⟩ :=
    JoinRelation.head_of_partOf consistent found
      (show (JoinRelation.reverse relation).PartOf node from part)
  have named := Catalog.name_of_node? reached
  have robust := inner head reached
  have lifted : (liftM (catalog.reverseEdgeHead relation) : Except Error Node) = .ok head := by
    rw [show catalog.reverseEdgeHead relation = .ok head from looked]
    rfl
  unfold Sql.children
  rw [lifted]
  refine reading fun parent linked known => ?_
  refine attempting (.ok head) fun head' same => ?_
  cases same
  have leaves := leaf_of_reverseEdge consistent found part
  refine attempting (.correlate (known ▸ leaves)) fun matching _ => ?_
  have bare : Linked catalog (.ofNode head (parent.headAlias "<" relation.name)) :=
    .alone (named ▸ reached) _ _
  split
  · rename_i condition child filtered
    have kept := robust.done bare rfl filtered
    have follows := kept.follows (.alone (named ▸ reached) _ _)
    exact attempting (follows.namesOnly_source consistent) fun source _ => pure _
  · rename_i error child failed
    exact throw (robust.failed bare rfl failed).1

end Robust

namespace Condition

variable {catalog : Catalog} {definitions : CatalogDefinition} {node : Node}

/-- A predicate that fails on names only, wherever it is typed. -/
def Fine (catalog : Catalog) (predicate : Predicate) : Prop :=
  ∀ {node : Node}, catalog.node? node.name = some node → predicate.Typed catalog node.name →
    Robust catalog node (ofPredicate catalog predicate)

theorem robust_ofPredicates (found : catalog.node? node.name = some node)
    {operands : List Predicate} (each : ∀ operand ∈ operands, Fine catalog operand)
    (typed : ∀ operand ∈ operands, operand.Typed catalog node.name) :
    Robust catalog node (ofPredicates catalog operands) := by
  induction operands with
  | nil => exact .pure []
  | cons operand rest ih =>
    rw [List.forall_mem_cons] at each typed
    exact (each.1 found typed.1).bind fun _ => (ih each.2 typed.2).bind fun _ => .pure _

theorem robust_ofHead (consistent : catalog.Consistent definitions)
    (found : catalog.node? node.name = some node) {link : Edge} {head : Option Predicate}
    (part : node.component? link.name = some (.edge link))
    (each : ∀ inner, head = some inner → Fine catalog inner)
    (typed : ∀ inner, head = some inner → inner.Typed catalog link.head) :
    Robust catalog node (ofHead catalog link head) := by
  cases head with
  | none => exact .pure none
  | some inner =>
    have leads : (JoinRelation.edge link).PartOf node := part
    refine (Robust.visit consistent found leads rfl ?_).map some
    intro target reached
    have named : target.name = link.head := Catalog.name_of_node? reached
    exact each inner rfl (named ▸ reached) (named ▸ typed inner rfl)

theorem robust_ofFilter (found : catalog.node? node.name = some node) {filter : Option Predicate}
    (each : ∀ inner, filter = some inner → Fine catalog inner)
    (typed : ∀ inner, filter = some inner → inner.Typed catalog node.name) :
    Robust catalog node (ofFilter catalog filter) := by
  cases filter with
  | none => exact .pure none
  | some inner =>
    unfold ofFilter
    split
    · exact .pure none
    · exact (each inner rfl found (typed inner rfl)).map some

theorem robust_edge (consistent : catalog.Consistent definitions)
    (found : catalog.node? node.name = some node) {link : Edge} {head : Option Predicate}
    (each : ∀ inner, head = some inner → Fine catalog inner)
    (typed : (Predicate.edge link head).Typed catalog node.name) :
    Robust catalog node (ofPredicate catalog (.edge link head)) := by
  obtain ⟨home, found', part, below⟩ := typed.of_edge
  obtain rfl : node = home := Option.some.inj (found.symm.trans found')
  have headed := robust_ofHead consistent found part each below
  unfold ofPredicate
  split
  · refine Robust.reading fun table _ _ => ?_
    have columns : NamesOnly (guards table link) := .mapM fun _ _ => .column table _
    exact (Robust.lift columns).bind fun _ => headed.bind fun _ => .pure _
  · exact headed.bind fun _ => .pure _

theorem robust_reverse (consistent : catalog.Consistent definitions)
    (found : catalog.node? node.name = some node) {relation : ReverseEdge}
    {head : Option Predicate} (each : ∀ inner, head = some inner → Fine catalog inner)
    (typed : (Predicate.reverse relation head).Typed catalog node.name) :
    Robust catalog node (ofPredicate catalog (.reverse relation head)) := by
  obtain ⟨home, found', part, below⟩ := typed.of_reverse
  obtain rfl : node = home := Option.some.inj (found.symm.trans found')
  refine (Robust.children consistent found part fun target reached => ?_).bind fun _ => .pure _
  have named : target.name = relation.head := Catalog.name_of_node? reached
  exact robust_ofFilter (named ▸ reached) each (named ▸ below)

/-- A typed predicate fails on names only. -/
theorem robust_ofPredicate (consistent : catalog.Consistent definitions) (predicate : Predicate) :
    Fine catalog predicate := by
  induction predicate with
  | constant value => exact fun _ _ => .pure _
  | junction kind operands ih =>
    exact fun found typed =>
      (robust_ofPredicates found ih typed.of_junction).bind fun _ => .pure _
  | negation operand ih =>
    exact fun found typed => (ih found typed.of_negation).bind fun _ => .pure _
  | leaf field operator value =>
    intro node found typed
    obtain ⟨_, -, -, admits⟩ := typed.of_leaf
    exact Robust.reading fun table _ _ => .lift (namesOnly_ofLeaf admits)
  | edge link head ih => exact fun found typed => robust_edge consistent found ih typed
  | reverse relation head ih => exact fun found typed => robust_reverse consistent found ih typed
  | count relation comparison number =>
    intro node found typed
    obtain ⟨home, found', part⟩ := typed.of_count
    obtain rfl : node = home := Option.some.inj (found.symm.trans found')
    exact (Robust.children consistent found part fun _ _ => .pure none).bind fun _ => .pure _
  | raw sql =>
    intro node found typed
    exact Robust.reading fun table _ _ => (Robust.lift (.label table.label)).bind fun _ => .pure _

end Condition

end LiveQuery.Sql
