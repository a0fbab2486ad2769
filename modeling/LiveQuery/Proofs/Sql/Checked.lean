import LiveQuery.Proofs.Sql.Naming

set_option autoImplicit false

namespace LiveQuery.Sql

namespace Condition

/-- Only a table of this node will do. -/
def requireNode (node : String) : Building Unit := do
  let table ← get
  if node ≠ table.node.name then throw (.statement (.nodeMismatch table.node.name node))

mutual

/-- A condition on a node, every part of which is compiled against a table of its own node or not
at all. -/
def checked (catalog : Catalog) (node : String) : Predicate → Building Condition
  | .constant value => do
    requireNode node
    return .constant value
  | .junction kind operands => do
    requireNode node
    return .junction kind (← checkedAll catalog node operands)
  | .negation operand => do
    requireNode node
    return .negation (← checked catalog node operand)
  | .leaf field operator value => do
    requireNode node
    ofLeaf (← get) field operator value
  | .edge link head => do
    requireNode node
    if link.nullable then
      let columns ← guards (← get) link
      return .linked columns (← checkedHead catalog link head)
    else return (← checkedHead catalog link head).getD (.constant true)
  | .reverse relation head => do
    requireNode node
    let (children, filter) ←
      children catalog relation (checkedFilter catalog relation.head head)
    return .anyChild children filter
  | .count relation comparison number => do
    requireNode node
    let (children, _) ← children catalog relation (return none)
    return .childCount children comparison number
  | .raw sql => do
    requireNode node
    return .raw sql (← Alias.ofText (← get).label)

def checkedAll (catalog : Catalog) (node : String) : List Predicate → Building (List Condition)
  | [] => return []
  | operand :: rest => do
    let condition ← checked catalog node operand
    return condition :: (← checkedAll catalog node rest)

def checkedHead (catalog : Catalog) (link : Edge) : Option Predicate → Building (Option Condition)
  | none => return none
  | some head => some <$> Table.visit catalog (.edge link) none (checked catalog link.head head)

def checkedFilter (catalog : Catalog) (node : String) :
    Option Predicate → Building (Option Condition)
  | none => return none
  | some filter => if filter.isTrue then return none else some <$> checked catalog node filter

end

end Condition

variable {α β : Type}

/-- Two actions that do the same on the tables of a node. -/
def Same (catalog : Catalog) (node : Node) (first second : Building α) : Prop :=
  ∀ table, Linked catalog table → table.node = node → first table = second table

namespace Same

variable {catalog : Catalog} {definitions : CatalogDefinition} {node : Node}

theorem refl (action : Building α) : Same catalog node action action := fun _ _ _ => rfl

theorem bind {first first' : Building α} {next next' : α → Building β}
    (robust : Robust catalog node first') (same : Same catalog node first first')
    (behind : ∀ value, Same catalog node (next value) (next' value)) :
    Same catalog node (first >>= next) (first' >>= next') := by
  intro table linked known
  apply Building.bind_congr (same table linked known)
  intro value between ran
  have kept := robust.done linked known ((same table linked known).symm.trans ran)
  exact behind value between kept.linked (kept.node.trans known)

theorem reading {next next' : Table → Building β}
    (behind : ∀ table, table.node = node → Same catalog node (next table) (next' table)) :
    Same catalog node (MonadState.get >>= next) (MonadState.get >>= next') := by
  intro table linked known
  apply Building.bind_congr rfl
  intro value between got
  cases got
  exact behind table known table linked known

theorem map {first first' : Building α} (change : α → β) (robust : Robust catalog node first')
    (same : Same catalog node first first') :
    Same catalog node (change <$> first) (change <$> first') := by
  rw [map_eq_pure_bind, map_eq_pure_bind]
  exact bind robust same fun _ => refl _

/-- On tables of a node it does not matter that the node is asked for. -/
theorem required {first second : Building α} (same : Same catalog node first second) :
    Same catalog node (do Condition.requireNode node.name; first) second := by
  intro table linked known
  have passed : Condition.requireNode node.name table = .ok () table := by
    subst known
    change (if table.node.name ≠ table.node.name then _ else pure () : Building Unit) table = _
    rw [if_neg (not_not.mpr rfl)]
    rfl
  rw [← same table linked known]
  change EStateM.bind (Condition.requireNode node.name) (fun _ => first) table = _
  simp only [EStateM.bind, passed]

theorem visit (consistent : catalog.Consistent definitions)
    (found : catalog.node? node.name = some node) {relation : JoinRelation} {key : Option String}
    {first second : Building α} (part : relation.PartOf node) (single : relation.check = .ok ())
    (same : ∀ head, catalog.node? relation.headName = some head →
      Same catalog head first second) :
    Same catalog node (Table.visit catalog relation key first)
      (Table.visit catalog relation key second) := by
  intro table linked known
  subst known
  obtain ⟨head, -, reached⟩ := JoinRelation.head_of_partOf consistent found part
  obtain ⟨before, joined, behind, -, linked', node', -, visited⟩ :=
    Robust.visit_stands consistent key linked part single reached
  rw [visited, visited]
  unfold Table.within
  rw [same head reached joined linked' node']

theorem children (consistent : catalog.Consistent definitions)
    (found : catalog.node? node.name = some node) {relation : ReverseEdge}
    {first second : Building (Option Condition)}
    (part : node.reverseEdge? relation.name = some relation)
    (same : ∀ head, catalog.node? relation.head = some head → Same catalog head first second) :
    Same catalog node (Sql.children catalog relation first)
      (Sql.children catalog relation second) := by
  obtain ⟨head, looked, reached⟩ :=
    JoinRelation.head_of_partOf consistent found
      (show (JoinRelation.reverse relation).PartOf node from part)
  have named := Catalog.name_of_node? reached
  have lifted : (liftM (catalog.reverseEdgeHead relation) : Except Error Node) = .ok head := by
    rw [show catalog.reverseEdgeHead relation = .ok head from looked]
    rfl
  unfold Sql.children
  rw [lifted]
  refine reading fun parent _ table _ _ => ?_
  refine Building.bind_congr rfl fun head' _ got => ?_
  obtain ⟨led, -⟩ := Building.lift_eq_ok.mp got
  cases led
  refine Building.bind_congr rfl fun matching _ _ => ?_
  rw [same head reached (.ofNode head (parent.headAlias "<" relation.name))
    (.alone (named ▸ reached) _ _) rfl]

end Same

namespace Condition

variable {catalog : Catalog} {definitions : CatalogDefinition} {node : Node}

/-- A predicate for which it makes no difference that nodes are asked for. -/
def Unchecked (catalog : Catalog) (predicate : Predicate) : Prop :=
  ∀ {node : Node}, catalog.node? node.name = some node → predicate.Typed catalog node.name →
    Same catalog node (checked catalog node.name predicate) (ofPredicate catalog predicate)

theorem same_checkedAll (consistent : catalog.Consistent definitions)
    (found : catalog.node? node.name = some node) {operands : List Predicate}
    (each : ∀ operand ∈ operands, Unchecked catalog operand)
    (typed : ∀ operand ∈ operands, operand.Typed catalog node.name) :
    Same catalog node (checkedAll catalog node.name operands) (ofPredicates catalog operands) := by
  induction operands with
  | nil => exact .refl _
  | cons operand rest ih =>
    rw [List.forall_mem_cons] at each typed
    refine Same.bind (robust_ofPredicate consistent operand found typed.1)
      (each.1 found typed.1) fun _ => ?_
    have robust := robust_ofPredicates found
      (fun operand _ => robust_ofPredicate consistent operand) typed.2
    exact Same.bind robust (ih each.2 typed.2) fun _ => .refl _

theorem same_checkedHead (consistent : catalog.Consistent definitions)
    (found : catalog.node? node.name = some node) {link : Edge} {head : Option Predicate}
    (part : node.component? link.name = some (.edge link))
    (each : ∀ inner, head = some inner → Unchecked catalog inner)
    (typed : ∀ inner, head = some inner → inner.Typed catalog link.head) :
    Same catalog node (checkedHead catalog link head) (ofHead catalog link head) := by
  cases head with
  | none => exact .refl _
  | some inner =>
    have named {target : Node} : catalog.node? link.head = some target → target.name = link.head :=
      Catalog.name_of_node?
    have leads : (JoinRelation.edge link).PartOf node := part
    refine Same.map some ?_ ?_
    · refine Robust.visit consistent found leads rfl fun target reached => ?_
      exact robust_ofPredicate consistent inner (named reached ▸ reached)
        (named reached ▸ typed inner rfl)
    · refine Same.visit consistent found leads rfl fun target reached => ?_
      rw [← named reached]
      exact each inner rfl (named reached ▸ reached) (named reached ▸ typed inner rfl)

theorem same_checkedFilter (consistent : catalog.Consistent definitions)
    (found : catalog.node? node.name = some node) {filter : Option Predicate}
    (each : ∀ inner, filter = some inner → Unchecked catalog inner)
    (typed : ∀ inner, filter = some inner → inner.Typed catalog node.name) :
    Same catalog node (checkedFilter catalog node.name filter) (ofFilter catalog filter) := by
  cases filter with
  | none => exact .refl _
  | some inner =>
    unfold checkedFilter ofFilter
    split
    · exact .refl _
    · exact Same.map some (robust_ofPredicate consistent inner found (typed inner rfl))
        (each inner rfl found (typed inner rfl))

theorem unchecked_edge (consistent : catalog.Consistent definitions) {link : Edge}
    {head : Option Predicate} (each : ∀ inner, head = some inner → Unchecked catalog inner) :
    Unchecked catalog (.edge link head) := by
  intro node found typed
  obtain ⟨home, found', part, below⟩ := typed.of_edge
  obtain rfl : node = home := Option.some.inj (found.symm.trans found')
  have same := same_checkedHead consistent found part each below
  have robust := robust_ofHead consistent found part
    (fun inner _ => robust_ofPredicate consistent inner) below
  unfold checked ofPredicate
  apply Same.required
  split
  · refine Same.reading fun table _ => ?_
    have columns : NamesOnly (guards table link) := .mapM fun _ _ => .column table _
    exact Same.bind (.lift columns) (.refl _) fun _ => Same.bind robust same fun _ => .refl _
  · exact Same.bind robust same fun _ => .refl _

theorem unchecked_reverse (consistent : catalog.Consistent definitions) {relation : ReverseEdge}
    {head : Option Predicate} (each : ∀ inner, head = some inner → Unchecked catalog inner) :
    Unchecked catalog (.reverse relation head) := by
  intro node found typed
  obtain ⟨home, found', part, below⟩ := typed.of_reverse
  obtain rfl : node = home := Option.some.inj (found.symm.trans found')
  have named {target : Node} : catalog.node? relation.head = some target →
      target.name = relation.head := Catalog.name_of_node?
  unfold checked ofPredicate
  apply Same.required
  refine Same.bind ?_ ?_ fun _ => .refl _
  · refine Robust.children consistent found part fun target reached => ?_
    exact robust_ofFilter (named reached ▸ reached)
      (fun inner _ => robust_ofPredicate consistent inner) (named reached ▸ below)
  · refine Same.children consistent found part fun target reached => ?_
    rw [← named reached]
    exact same_checkedFilter consistent (named reached ▸ reached) each (named reached ▸ below)

/-- Asking for the nodes makes no difference to a typed predicate. -/
theorem same_checked (consistent : catalog.Consistent definitions) (predicate : Predicate) :
    Unchecked catalog predicate := by
  induction predicate with
  | constant value => exact fun _ _ => Same.required (.refl _)
  | junction kind operands ih =>
    intro node found typed
    refine Same.required (Same.bind ?_ (same_checkedAll consistent found ih typed.of_junction)
      fun _ => .refl _)
    exact robust_ofPredicates found (fun operand _ => robust_ofPredicate consistent operand)
      typed.of_junction
  | negation operand ih =>
    intro node found typed
    exact Same.required (Same.bind (robust_ofPredicate consistent operand found typed.of_negation)
      (ih found typed.of_negation) fun _ => .refl _)
  | leaf field operator value => exact fun _ _ => Same.required (.refl _)
  | edge link head ih => exact unchecked_edge consistent ih
  | reverse relation head ih => exact unchecked_reverse consistent ih
  | count relation comparison number => exact fun _ _ => Same.required (.refl _)
  | raw sql => exact fun _ _ => Same.required (.refl _)

theorem ofNodeFilter_eq_ofPredicate {filter : Filter} {table : Table}
    (same : table.node.name = filter.node.name) :
    ofNodeFilter catalog filter table = ofPredicate catalog filter.predicate table := by
  unfold ofNodeFilter
  rw [Building.get_bind]
  simp only [same, ne_eq, not_true_eq_false, if_false]

/-- A filter on a node of a catalog, compiled against a table of the node, fails on a name that
cannot be quoted or not at all. Its parts come to stand against tables of their own nodes, so that
asking for them everywhere makes no difference; and whether compilation fails or not, the table can
be used further. -/
theorem ofNodeFilter_fails_on_names {filter : Filter} {table : Table}
    (built : definitions.build = .ok catalog) (arises : Filter.Arises catalog filter)
    (linked : Linked catalog table) (same : table.node.name = filter.node.name) :
    ofNodeFilter catalog filter table = checked catalog filter.node.name filter.predicate table ∧
      match ofNodeFilter catalog filter table with
      | .ok _ after => Linked catalog after ∧ after.node = table.node
      | .error error after => error.OfName ∧ Linked catalog after ∧ after.node = table.node := by
  have consistent := CatalogDefinition.consistent_of_build built
  have typed : filter.predicate.Typed catalog table.node.name :=
    same ▸ Filter.typed_of_arises arises
  have robust := robust_ofPredicate consistent filter.predicate linked.found typed
  rw [ofNodeFilter_eq_ofPredicate same]
  refine ⟨?_, ?_⟩
  · rw [← same]
    exact (same_checked consistent filter.predicate linked.found typed table linked rfl).symm
  · cases ran : ofPredicate catalog filter.predicate table with
    | ok condition after =>
      have kept := robust.done linked rfl ran
      exact ⟨kept.linked, kept.node⟩
    | error error after =>
      obtain ⟨name, kept⟩ := robust.failed linked rfl ran
      exact ⟨name, kept.linked, kept.node⟩

end Condition

open Samples in
/-- The tasks of the person with number 1. -/
theorem Condition.ofNodeFilter_owned :
    ∃ filter, Filter.parse boardCatalog task (.object [("owner", .object [("id", .integer 1)])]) =
      .ok filter ∧
      ofNodeFilter boardCatalog filter (.root task) =
        checked boardCatalog "Task" filter.predicate (.root task) ∧
      match ofNodeFilter boardCatalog filter (.root task) with
      | .ok _ after => Linked boardCatalog after ∧ after.node = task
      | .error error after => error.OfName ∧ Linked boardCatalog after ∧ after.node = task := by
  have read : Filter.parse boardCatalog task (.object [("owner", .object [("id", .integer 1)])]) =
    .ok _ := rfl
  exact ⟨_, read, ofNodeFilter_fails_on_names build_board (.parse rfl read) (.alone rfl _ _) rfl⟩

end LiveQuery.Sql
