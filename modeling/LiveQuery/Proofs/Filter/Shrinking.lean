import LiveQuery.Proofs.Dependency.Join
import LiveQuery.Proofs.Filter.Footprint
import LiveQuery.Proofs.Filter.Reduction

set_option autoImplicit false

namespace LiveQuery

namespace DependencyGraph

variable {catalog : Catalog} {node : String}

theorem union_within {graphs : List DependencyGraph} {other : DependencyGraph}
    (named : other.node = node) (ordered : other.Ordered)
    (each : ∀ graph ∈ graphs, graph.Ordered ∧ Within graph other) :
    Within (union node graphs) other := by
  have general : ∀ {start : DependencyGraph}, Within start other →
      Within (graphs.foldl merge start) other := by
    induction graphs with
    | nil => exact id
    | cons graph rest ih =>
      rw [List.forall_mem_cons] at each
      exact fun start => ih each.2 (merge_within each.1.1 ordered start each.1.2)
  exact general (empty_within named)

theorem mergeHead_mono {start : DependencyGraph} {head head' : Option DependencyGraph}
    (here : At catalog node start) (ordered : start.Ordered)
    (below : ∀ more, head = some more → At catalog node more)
    (listed : ∀ more, head = some more → more.Ordered)
    (listed' : ∀ more, head' = some more → more.Ordered)
    (smaller : ∀ less, head' = some less → ∃ more, head = some more ∧ Within less more) :
    Within (start.mergeHead head') (start.mergeHead head) := by
  obtain ⟨grows, within⟩ := here.mergeHead below
  cases head' with
  | none => exact grows.within
  | some less =>
    obtain ⟨more, same, inside⟩ := smaller less rfl
    exact merge_within (listed' less rfl) (ordered_mergeHead ordered listed) grows.within
      (inside.trans (within more same))

theorem addEdge_empty (link : Edge) (head : Option DependencyGraph) :
    (empty node).addEdge link head =
      ⟨node, false, [], [(link.name, (empty link.head).mergeHead head)], []⟩ := rfl

theorem addReverseEdge_empty (relation : ReverseEdge) (head : Option DependencyGraph) :
    (empty node).addReverseEdge relation head = ⟨node, false, [], [],
      [(relation.name, ((empty relation.head).addEdge relation.edge none).mergeHead head)]⟩ := rfl

end DependencyGraph

namespace Predicate

open DependencyGraph

variable {catalog : Catalog}

/-- What a predicate reads of a node is contained in the graph that is given for the node. -/
def Bounded (catalog : Catalog) (place : (node : String) × Extent catalog node)
    (predicate : Predicate) : Prop :=
  predicate.charted catalog place.1 = true ∧
    Within (predicate.dependencies place.1) place.2.graph

/-- A head that is bounded wherever another is reads what the other reads, or less. -/
theorem Replaces.within (wellFormed : catalog.WellFormed) {node : String}
    {head head' : Option Predicate} (kept : Replaces (Bounded catalog) head head')
    (charted : chartedHead catalog node head = true) : chartedHead catalog node head' = true ∧
      ∀ less, dependenciesHead node head' = some less →
        ∃ more, dependenciesHead node head = some more ∧ Within less more := by
  cases head' with
  | none => exact ⟨rfl, by rintro _ ⟨⟩⟩
  | some inner' =>
    obtain ⟨inner, rfl, keeps⟩ := kept inner' rfl
    obtain ⟨charted', within⟩ := keeps ⟨node, inner.dependencies node,
      at_dependencies wellFormed charted, ordered_dependencies inner node⟩ ⟨charted, .refl _⟩
    refine ⟨charted', ?_⟩
    rintro _ ⟨⟩
    exact ⟨_, rfl, within⟩

theorem inherited_bounded (wellFormed : catalog.WellFormed) : Inherited (Bounded catalog) where
  constant {place} _ := ⟨rfl, empty_within place.2.here.node⟩
  junction {place kind operands} := by
    unfold Bounded
    rw [charted, chartedAll_iff, dependencies, dependenciesAll_eq_map]
    constructor
    · rintro ⟨charted, within⟩ operand inside
      have each := (at_union (List.forall_mem_map.mpr fun operand inside =>
        at_dependencies wellFormed (charted operand inside))).2
      exact ⟨charted operand inside, (each _ (List.mem_map_of_mem inside)).trans within⟩
    · refine fun each => ⟨fun operand inside => (each operand inside).1, ?_⟩
      refine union_within place.2.here.node place.2.ordered (List.forall_mem_map.mpr ?_)
      exact fun operand inside => ⟨ordered_dependencies operand _, (each operand inside).2⟩
  negation := Iff.rfl
  among := id
  notAmong := id
  edge {place link head head'} held kept := by
    obtain ⟨charted, within⟩ := held
    rw [Predicate.charted, Bool.and_eq_true] at charted
    obtain ⟨charted', smaller⟩ := kept.within wellFormed charted.2
    refine ⟨Bool.and_eq_true _ _ ▸ ⟨charted.1, charted'⟩, Within.trans ?_ within⟩
    have nested := mergeHead_mono (at_empty link.head) (ordered_empty link.head)
      (at_dependenciesHead wellFormed charted.2) ordered_dependenciesHead ordered_dependenciesHead
      smaller
    rw [dependencies, dependencies, addEdge_empty, addEdge_empty]
    exact ⟨rfl, (absurd · Bool.false_ne_true), List.forall_mem_nil _,
      ⟨⟨_, List.mem_singleton_self _, nested⟩, trivial⟩, trivial⟩
  reverse {place relation head head'} held kept := by
    obtain ⟨charted, within⟩ := held
    rw [Predicate.charted, Bool.and_eq_true] at charted
    obtain ⟨charted', smaller⟩ := kept.within wellFormed charted.2
    refine ⟨Bool.and_eq_true _ _ ▸ ⟨charted.1, charted'⟩, Within.trans ?_ within⟩
    have known := edgeNode?_of_known wellFormed (of_decide_eq_true charted.1)
    have here := (at_empty relation.head).grow
      (addEdge_spec (at_empty relation.head).rooted known at_nothing).1
    have ordered := ordered_addEdge (ordered_empty relation.head) relation.edge ordered_nothing
    have nested := mergeHead_mono here ordered (at_dependenciesHead wellFormed charted.2)
      ordered_dependenciesHead ordered_dependenciesHead smaller
    rw [dependencies, dependencies, addReverseEdge_empty, addReverseEdge_empty]
    exact ⟨rfl, (absurd · Bool.false_ne_true), List.forall_mem_nil _, trivial,
      ⟨_, List.mem_singleton_self _, nested⟩, trivial⟩

theorem charted_reduced (wellFormed : catalog.WellFormed) {predicate : Predicate} {node : String}
    (charted : predicate.charted catalog node = true) :
    predicate.reduced.charted catalog node = true :=
  ((inherited_bounded wellFormed).reduced ⟨node, predicate.dependencies node,
    at_dependencies wellFormed charted, ordered_dependencies predicate node⟩ ⟨charted, .refl _⟩).1

end Predicate

namespace DependencyGraph

mutual

/-- The record has every component and relation that the graph lists, and the heads behind each
relation carry what the graph lists of them. -/
def Carries : DependencyGraph → Record → Prop
  | ⟨_, _, leaves, edges, reverseEdges⟩, record =>
    (∀ leaf ∈ leaves, ∃ value, record.get? leaf = some value) ∧
      CarriesBehind edges record ∧ CarriesBehind reverseEdges record

def CarriesBehind : List (String × DependencyGraph) → Record → Prop
  | [], _ => True
  | (name, graph) :: rest, record =>
    (∃ value, record.get? name = some value ∧
      ∀ head, Predicate.HoldsHead value head → Carries graph head) ∧ CarriesBehind rest record

end

theorem carriesBehind_iff {relations : List (String × DependencyGraph)} {record : Record} :
    CarriesBehind relations record ↔ ∀ entry ∈ relations,
      ∃ value, record.get? entry.1 = some value ∧
        ∀ head, Predicate.HoldsHead value head → entry.2.Carries head := by
  induction relations with
  | nil => simp [CarriesBehind]
  | cons entry rest ih => rw [CarriesBehind, ih, List.forall_mem_cons]

/-- A record that carries what a graph lists carries what any graph inside it lists. -/
theorem Carries.of_within {graph other : DependencyGraph} {record : Record}
    (carries : other.Carries record) (within : Within graph other) : graph.Carries record := by
  induction graph generalizing other record with
  | mk node hidden leaves edges reverseEdges behind behind' =>
    cases other with
    | mk node' hidden' leaves' edges' reverseEdges' =>
      have nested {relations others : List (String × DependencyGraph)}
          (each : ∀ entry ∈ relations, ∀ {other : DependencyGraph} {record : Record},
            other.Carries record → Within entry.2 other → entry.2.Carries record)
          (carried : CarriesBehind others record) (inside : WithinRelations relations others) :
          CarriesBehind relations record := by
        rw [withinRelations_iff] at inside
        rw [carriesBehind_iff] at carried ⊢
        intro entry member
        obtain ⟨other, member', smaller⟩ := inside entry member
        obtain ⟨value, found, heads⟩ := carried _ member'
        exact ⟨value, found, fun head held => each entry member (heads head held) smaller⟩
      exact ⟨fun leaf inside => carries.1 leaf (within.2.2.1 leaf inside),
        nested behind carries.2.1 within.2.2.2.1, nested behind' carries.2.2 within.2.2.2.2⟩

end DependencyGraph

namespace Outcome

variable {α β : Type}

/-- The computation does not fail for want of a key. -/
def Supplied (outcome : Except StatementError α) : Prop :=
  ∀ node key, outcome ≠ .error (.missingValue node key)

theorem supplied_ok (value : α) : Supplied (.ok value) := by
  rintro node key ⟨⟩

theorem Supplied.bind {first : Except StatementError α} {next : α → Except StatementError β}
    (supplied : Supplied first) (behind : ∀ value, first = .ok value → Supplied (next value)) :
    Supplied (first >>= next) := by
  cases first with
  | ok value => exact behind value rfl
  | error error => exact fun node key same => supplied node key (by cases same; rfl)

end Outcome

namespace Predicate

open DependencyGraph Outcome

section Heads

variable {node key : String} {test : Record → Except StatementError Bool}

theorem supplied_require_bind {α : Type} {record : Record} {value : Value}
    {next : Value → Except StatementError α} (found : record.get? key = some value)
    (behind : Supplied (next value)) : Supplied (record.require node key >>= next) := by
  unfold Record.require
  rw [found]
  exact behind

theorem supplied_testHead {value : Value} (tests : ∀ head, value = .record head →
    Supplied (test head)) : Supplied (testHead node key test value) := by
  cases value with
  | record head => exact tests head rfl
  | _ => rintro _ _ ⟨⟩

theorem supplied_testSome {items : List Value} (tests : ∀ head, .record head ∈ items →
    Supplied (test head)) : Supplied (testSome node key test items) := by
  induction items with
  | nil => exact supplied_ok false
  | cons item rest ih =>
    refine Supplied.bind (supplied_testHead ?_) fun found _ => ?_
    · rintro head rfl
      exact tests head (List.mem_cons_self ..)
    · cases found with
      | true => exact supplied_ok true
      | false => exact ih fun head member => tests head (List.mem_cons_of_mem _ member)

theorem supplied_testRelation {relation : ReverseEdge} {value : Value}
    (tests : ∀ head, HoldsHead value head → Supplied (test head)) :
    Supplied (testRelation node relation test value) := by
  unfold testRelation
  cases relation.multiplicity with
  | unique => exact supplied_testHead fun head same => tests head (Or.inl same)
  | multiple =>
    cases value with
    | list items =>
      exact supplied_testSome fun head member => tests head (Or.inr ⟨items, rfl, member⟩)
    | _ => rintro _ _ ⟨⟩

theorem supplied_countOf {relation : ReverseEdge} {record : Record} {value : Value}
    (found : record.get? relation.name = some value) : Supplied (countOf node relation record) := by
  unfold countOf
  cases record.get? relation.countKey with
  | none => exact supplied_require_bind found (by cases value <;> rintro _ _ ⟨⟩)
  | some count =>
    cases count with
    | int number => by_cases counts : 0 ≤ number.toInt <;> simp only [counts] <;> rintro _ _ ⟨⟩
    | _ => rintro _ _ ⟨⟩

end Heads

variable {catalog : Catalog}

theorem supplied_evaluateAll {node : String} {kind : Junction} {operands : List Predicate}
    {record : Record} (each : ∀ operand ∈ operands, Supplied (evaluate node operand record)) :
    Supplied (evaluateAll node kind operands record) := by
  induction operands with
  | nil => exact supplied_ok _
  | cons operand rest ih =>
    rw [List.forall_mem_cons] at each
    rw [evaluateAll_cons]
    refine each.1.bind fun value _ => ?_
    split
    · exact ih each.2
    · exact supplied_ok _

/-- A record that carries what a predicate lists lacks nothing to evaluate it on. -/
theorem supplied_evaluate (wellFormed : catalog.WellFormed) {predicate : Predicate} {node : String}
    {record : Record} (charted : predicate.charted catalog node = true)
    (carries : (predicate.dependencies node).Carries record) :
    Supplied (evaluate node predicate record) := by
  -- What is carried behind a relation is carried for the condition on its heads.
  have heads {node : String} {head : Option Predicate} {start : DependencyGraph} {record : Record}
      (each : ∀ inner, head = some inner → ∀ {node : String} {record : Record},
        inner.charted catalog node = true → (inner.dependencies node).Carries record →
          Supplied (evaluate node inner record))
      (charted : chartedHead catalog node head = true) (here : At catalog node start)
      (carried : (start.mergeHead (dependenciesHead node head)).Carries record) :
      Supplied (evaluateHead node head record) := by
    cases head with
    | none => exact supplied_ok true
    | some inner =>
      exact each inner rfl charted (carried.of_within
        ((here.mergeHead (at_dependenciesHead wellFormed charted)).2 _ rfl))
  induction predicate generalizing node record with
  | constant value => exact supplied_ok value
  | junction kind operands ih =>
    rw [Predicate.charted, chartedAll_iff] at charted
    rw [dependencies, dependenciesAll_eq_map] at carries
    have each := (at_union (List.forall_mem_map.mpr fun operand inside =>
      at_dependencies wellFormed (charted operand inside))).2
    exact supplied_evaluateAll fun operand inside => ih operand inside (charted operand inside)
      (carries.of_within (each _ (List.mem_map_of_mem inside)))
  | negation operand ih => exact (ih charted carries).bind fun value _ => supplied_ok _
  | leaf field operator expected =>
    obtain ⟨value, found⟩ := carries.1 field.name (List.mem_singleton_self _)
    exact supplied_require_bind found (supplied_ok _)
  | edge link head ih =>
    rw [Predicate.charted, Bool.and_eq_true] at charted
    obtain ⟨⟨value, found, carried⟩, -⟩ := carries.2.1
    refine supplied_require_bind found (supplied_testHead ?_)
    rintro inner rfl
    exact heads ih charted.2 (at_empty link.head) (carried inner (Or.inl rfl))
  | reverse relation head ih =>
    rw [Predicate.charted, Bool.and_eq_true] at charted
    obtain ⟨⟨value, found, carried⟩, -⟩ := carries.2.2
    have known := edgeNode?_of_known wellFormed (of_decide_eq_true charted.1)
    have here := (at_empty relation.head).grow
      (addEdge_spec (at_empty relation.head).rooted known at_nothing).1
    refine supplied_require_bind found (supplied_testRelation fun inner held => ?_)
    exact heads ih charted.2 here (carried inner held)
  | count relation comparison number =>
    obtain ⟨⟨value, found, -⟩, -⟩ := carries.2.2
    exact (supplied_countOf found).bind fun number _ => supplied_ok _
  | raw sql => rintro _ _ ⟨⟩

end Predicate

open DependencyGraph

/-- A reduced filter reads no more than the filter: its graph is contained in the filter's at every
level. So what touches the one touches the other, and a record that carries what the filter lists
carries what the reduced filter lists, and lacks nothing to evaluate it on. -/
theorem Filter.dependencies_reduced {definitions : CatalogDefinition} {catalog : Catalog}
    (built : definitions.build = .ok catalog) {filter : Filter}
    (charted : filter.charted catalog = true) :
    Within filter.reduced.dependencies filter.dependencies ∧
      (∀ change, filter.reduced.dependencies.touchedBy change = true →
        filter.dependencies.touchedBy change = true) ∧
      ∀ record, filter.dependencies.Carries record →
        filter.reduced.dependencies.Carries record ∧
          ∀ node key, filter.reduced.execute record ≠ .error (.missingValue node key) := by
  have wellFormed := CatalogDefinition.build_wellFormed built
  have own : Predicate.Bounded catalog ⟨filter.node.name, filter.dependencies,
      Predicate.at_dependencies wellFormed charted, Predicate.ordered_dependencies _ _⟩
      filter.predicate := ⟨charted, .refl _⟩
  obtain ⟨charted', within⟩ := (Predicate.inherited_bounded wellFormed).reduced _ own
  refine ⟨within, fun change => touchedBy_of_within within, fun record carries => ?_⟩
  exact ⟨carries.of_within within,
    Predicate.supplied_evaluate wellFormed charted' (carries.of_within within)⟩

namespace Samples

def seventh : Filter := ⟨task, .leaf ⟨"Task", "id", "id", .int, false⟩ (.compared .eq) (.int 7)⟩

def seventhOrAny : Filter := ⟨task, .junction .any [seventh.predicate, .constant true]⟩

/-- The people with a task of any number at all. -/
def occupied : Filter := ⟨person, .reverse tasks (some seventhOrAny.predicate)⟩

theorem made_occupied : Filter.Made boardCatalog occupied := by
  have numbered : Filter.leaf task "id" (.compared .eq) (.int 7) = .ok seventh := rfl
  have joined : Filter.junction task .any [seventh, .constant task true] = .ok seventhOrAny := rfl
  have related : Filter.reverse person "tasks" (some seventhOrAny) = .ok occupied := rfl
  refine .reverse rfl related fun inner same => ?_
  cases same
  refine .junction joined fun operand inside => ?_
  rcases List.mem_pair.mp inside with rfl | rfl
  · exact .leaf numbered
  · exact .constant true

theorem dependencies_occupied : occupied.dependencies =
    ⟨"Person", false, [], [], [("tasks",
      ⟨"Task", false, ["id"], [("owner", .empty "Person")], []⟩)]⟩ := rfl

theorem carries_occupied : occupied.dependencies.Carries workingAda := by
  rw [dependencies_occupied]
  refine ⟨List.forall_mem_nil _, trivial, ⟨_, rfl, fun head held => ?_⟩, trivial⟩
  have task : head = chore := by
    rcases held with same | ⟨items, same, inside⟩
    · cases same
    · cases same
      exact Value.record.inj (List.mem_singleton.mp inside)
  subst task
  refine ⟨fun leaf inside => ?_, ⟨⟨_, rfl, fun _ _ => ?_⟩, trivial⟩, trivial⟩
  · rw [List.mem_singleton.mp inside]
    exact ⟨.int 7, rfl⟩
  · exact ⟨List.forall_mem_nil _, trivial, trivial⟩

/-- The number of the task is no longer read. -/
theorem dependencies_reduced_occupied :
    occupied.charted boardCatalog = true ∧
      occupied.reduced.dependencies = ⟨"Person", false, [], [], [("tasks",
        ⟨"Task", false, [], [("owner", .empty "Person")], []⟩)]⟩ ∧
      Within occupied.reduced.dependencies occupied.dependencies ∧
      occupied.dependencies.Carries workingAda ∧
        occupied.reduced.dependencies.Carries workingAda :=
  have charted := Filter.charted_of_made made_occupied
  have settled := Filter.dependencies_reduced build_board charted
  ⟨charted, rfl, settled.1, carries_occupied, (settled.2.2 workingAda carries_occupied).1⟩

end Samples

end LiveQuery
