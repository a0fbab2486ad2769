import LiveQuery.Proofs.Filter.Kept
import LiveQuery.Proofs.Filter.Typed
import LiveQuery.Proofs.Selection.Made

set_option autoImplicit false

namespace LiveQuery

namespace Predicate

section Collecting

variable {kept seen operands others front middle back : List Predicate} {operand p q : Predicate}

/-- The operands behind others, of which none are added that equal an earlier one. -/
def collect (kept operands : List Predicate) : List Predicate :=
  operands.foldl (fun kept operand => if member operand kept then kept else kept ++ [operand]) kept

theorem distinct_eq_collect (operands : List Predicate) : distinct operands = collect [] operands :=
  rfl

theorem collect_cons (kept : List Predicate) (operand : Predicate) (rest : List Predicate) :
    collect kept (operand :: rest) =
      collect (if member operand kept then kept else kept ++ [operand]) rest := rfl

theorem collect_append (kept operands others : List Predicate) :
    collect kept (operands ++ others) = collect (collect kept operands) others :=
  List.foldl_append

theorem member_append (operand : Predicate) (operands others : List Predicate) :
    member operand (operands ++ others) = (member operand operands || member operand others) :=
  List.any_append

theorem member_of_same (inside : member p operands = true) (equal : same p q = true) :
    member q operands = true := by
  obtain ⟨other, here, early⟩ := member_iff.mp inside
  exact member_iff.mpr ⟨other, here, same_trans early equal⟩

theorem member_collect (operand : Predicate) (kept operands : List Predicate) :
    member operand (collect kept operands) = (member operand kept || member operand operands) := by
  induction operands generalizing kept with
  | nil => exact (Bool.or_false _).symm
  | cons first rest ih =>
    have spread : member operand (first :: rest) =
        (same first operand || member operand rest) := rfl
    rw [collect_cons, ih, spread, ← Bool.or_assoc]
    congr 1
    by_cases known : member first kept = true
    · rw [if_pos known]
      cases equal : same first operand with
      | false => exact (Bool.or_false _).symm
      | true => rw [member_of_same known equal, Bool.true_or]
    · rw [if_neg known, member_append]
      exact congrArg (member operand kept || ·) (Bool.or_false _)

theorem collect_of_known (known : ∀ operand ∈ operands, member operand kept = true) :
    collect kept operands = kept := by
  induction operands with
  | nil => rfl
  | cons operand rest ih =>
    rw [List.forall_mem_cons] at known
    rw [collect_cons, if_pos known.1, ih known.2]

theorem collect_collect (kept seen operands : List Predicate) :
    collect kept (collect seen operands) = collect (collect kept seen) operands := by
  induction operands generalizing seen with
  | nil => rfl
  | cons operand rest ih =>
    rw [collect_cons, collect_cons, ih]
    congr 1
    by_cases known : member operand seen = true
    · rw [if_pos known, member_collect, known, Bool.or_true, if_pos rfl]
    · rw [if_neg known, collect_append]
      rfl

theorem distinct_nested (front middle back : List Predicate) :
    distinct (front ++ distinct middle ++ back) = distinct (front ++ middle ++ back) := by
  simp only [distinct_eq_collect, collect_append, collect_collect]
  rfl

theorem distinct_repeated (known : ∀ operand ∈ middle, member operand front = true) :
    distinct (front ++ middle ++ back) = distinct (front ++ back) := by
  have collected : ∀ operand ∈ middle, member operand (collect [] front) = true := by
    intro operand inside
    rw [member_collect, known operand inside, Bool.or_true]
  simp only [distinct_eq_collect, collect_append, collect_of_known collected]

theorem contradicts_iff_member : contradicts operands = true ↔
    ∃ inner, member (.negation inner) operands = true ∧ member inner operands = true := by
  rw [contradicts_eq_true_iff]
  constructor
  · rintro ⟨inner, negated, operand, inside, equal⟩
    have self : same inner inner = true := same_trans (same_symm equal) equal
    exact ⟨inner, member_iff.mpr ⟨_, negated, self⟩, member_iff.mpr ⟨operand, inside, equal⟩⟩
  · rintro ⟨inner, negated, inside⟩
    obtain ⟨other, here, shape⟩ := member_iff.mp negated
    obtain ⟨inner', rfl, equal⟩ := negation_of_same shape
    obtain ⟨operand, there, equal'⟩ := member_iff.mp inside
    exact ⟨inner', here, operand, there, same_trans equal' (same_symm equal)⟩

theorem contradicts_of_members (contradiction : contradicts operands = true)
    (members : ∀ operand, member operand operands = true → member operand others = true) :
    contradicts others = true := by
  obtain ⟨inner, negated, inside⟩ := contradicts_iff_member.mp contradiction
  exact contradicts_iff_member.mpr ⟨inner, members _ negated, members _ inside⟩

theorem contradicts_distinct (operands : List Predicate) :
    contradicts (distinct operands) = contradicts operands := by
  have members (operand : Predicate) :
      member operand (distinct operands) = member operand operands := by
    rw [distinct_eq_collect, member_collect]
    rfl
  refine Bool.eq_iff_iff.mpr ⟨fun found => ?_, fun found => ?_⟩
  · exact contradicts_of_members found fun operand inside => members operand ▸ inside
  · exact contradicts_of_members found fun operand inside => (members operand).symm ▸ inside

end Collecting

section Joining

variable {kind : Junction} {operands others : List Predicate} {operand : Predicate}

theorem absorbed_append (operands others : List Predicate) :
    absorbed kind (operands ++ others) = (absorbed kind operands || absorbed kind others) := by
  rw [absorbed, List.flatMap_append, List.any_append]
  rfl

theorem varying_append (operands others : List Predicate) :
    varying kind (operands ++ others) = varying kind operands ++ varying kind others := by
  rw [varying, List.flatMap_append, List.filter_append]
  rfl

theorem joinReduced_congr (same : absorbed kind operands = absorbed kind others)
    (left : distinct (varying kind operands) = distinct (varying kind others)) :
    joinReduced kind operands = joinReduced kind others := by
  rw [joinReduced_eq, joinReduced_eq, same, left]

theorem joinReduced_of_absorbed (decided : absorbed kind operands = true) :
    joinReduced kind operands = .constant (!kind.unit) := by
  rw [joinReduced_eq, if_pos decided]

theorem joinReduced_of_contradicts (contradiction : contradicts (varying kind operands) = true) :
    joinReduced kind operands = .constant (!kind.unit) := by
  rw [joinReduced_eq, contradicts_distinct, if_pos contradiction, ite_self]

theorem joinReduced_of_open (undecided : absorbed kind operands = false)
    (consistent : contradicts (varying kind operands) = false) :
    joinReduced kind operands = assemble kind (distinct (varying kind operands)) := by
  rw [joinReduced_eq, contradicts_distinct, undecided, consistent]
  rfl

theorem absorbed_constant (kind : Junction) : absorbed kind [.constant (!kind.unit)] = true := by
  cases kind <;> rfl

theorem flatMap_spread_junction (kind : Junction) (operands : List Predicate)
    (stay : ∀ operand ∈ operands, operand.Stays kind) :
    [Predicate.junction kind operands].flatMap (spread kind) = operands.flatMap (spread kind) := by
  rw [flatMap_spread_of_stays stay, List.flatMap_singleton]
  simp only [spread, ↓reduceIte]

theorem assemble_spec (stay : ∀ operand ∈ operands, operand.Stays kind) :
    absorbed kind [assemble kind operands] = false ∧
      varying kind [assemble kind operands] = operands := by
  match operands, stay with
  | [], _ => cases kind <;> exact ⟨rfl, rfl⟩
  | [single], stay => exact ⟨absorbed_of_stays stay, varying_of_stays stay⟩
  | first :: second :: rest, stay =>
    have opened := flatMap_spread_junction kind (first :: second :: rest) stay
    constructor
    · exact (congrArg (List.any · _) opened).trans (absorbed_of_stays stay)
    · exact (congrArg (List.filter _ ·) opened).trans (varying_of_stays stay)

/-- A junction of the kind may be opened before or after it is reduced. -/
theorem joinReduced_nested (each : ∀ operand ∈ operands, operand.Normal)
    (front back : List Predicate) :
    joinReduced kind (front ++ [joinReduced kind operands] ++ back) =
      joinReduced kind (front ++ operands ++ back) := by
  cases decided : absorbed kind operands with
  | true =>
    rw [joinReduced_of_absorbed decided, joinReduced_of_absorbed, joinReduced_of_absorbed] <;>
      simp only [absorbed_append, decided, absorbed_constant, Bool.or_true, Bool.true_or]
  | false =>
    cases contradiction : contradicts (varying kind operands) with
    | true =>
      have wider : contradicts (varying kind (front ++ operands ++ back)) = true := by
        refine contradicts_of_members contradiction fun operand inside => ?_
        simp only [varying_append, member_append, inside, Bool.or_true, Bool.true_or]
      rw [joinReduced_of_contradicts contradiction, joinReduced_of_contradicts wider,
        joinReduced_of_absorbed]
      simp only [absorbed_append, absorbed_constant, Bool.or_true, Bool.true_or]
    | false =>
      have stay : ∀ part ∈ distinct (varying kind operands), part.Stays kind :=
        fun part inside => (normal_of_mem_varying each part (mem_of_mem_distinct inside)).2
      obtain ⟨undecided, same⟩ := assemble_spec stay
      rw [joinReduced_of_open decided contradiction]
      refine joinReduced_congr ?_ ?_
      · simp only [absorbed_append, undecided, decided]
      · simp only [varying_append, same, distinct_nested]

theorem joinReduced_unit (front back : List Predicate) :
    joinReduced kind (front ++ [.constant kind.unit] ++ back) =
      joinReduced kind (front ++ back) := by
  have neutral : absorbed kind [.constant kind.unit] = false ∧
      varying kind [.constant kind.unit] = [] := by
    cases kind <;> exact ⟨rfl, rfl⟩
  refine joinReduced_congr ?_ ?_
  · simp only [absorbed_append, neutral.1, Bool.or_false]
  · simp only [varying_append, neutral.2, List.append_nil]

theorem joinReduced_absorbing (front back : List Predicate) :
    joinReduced kind (front ++ [.constant (!kind.unit)] ++ back) = .constant (!kind.unit) := by
  refine joinReduced_of_absorbed ?_
  simp only [absorbed_append, absorbed_constant, Bool.or_true, Bool.true_or]

theorem joinReduced_repeated {front : List Predicate} (known : operand ∈ front)
    (self : ∀ part ∈ varying kind [operand], same part part = true) (back : List Predicate) :
    joinReduced kind (front ++ [operand] ++ back) = joinReduced kind (front ++ back) := by
  obtain ⟨first, behind, rfl⟩ := List.append_of_mem known
  have whole : first ++ operand :: behind = first ++ [operand] ++ behind := by
    rw [List.append_assoc, List.singleton_append]
  rw [whole]
  refine joinReduced_congr ?_ ?_
  · simp only [absorbed_append]
    cases absorbed kind [operand] <;> simp
  · simp only [varying_append]
    refine distinct_repeated fun part inside => ?_
    have here : member part (varying kind [operand]) = true :=
      member_iff.mpr ⟨part, inside, self part inside⟩
    simp only [member_append, here, Bool.or_true, Bool.true_or]

theorem contradicts_singleton (normal : operand.Normal) : contradicts [operand] = false := by
  refine Bool.eq_false_iff.mpr fun found => ?_
  obtain ⟨inner, negated, other, inside, equal⟩ := contradicts_eq_true_iff.mp found
  cases List.mem_singleton.mp inside
  cases List.mem_singleton.mp negated
  obtain ⟨_, rfl, -⟩ := negation_of_same (same_symm equal)
  exact (normal_negation_iff.mp normal).1 .negatedNegation

theorem joinReduced_singleton (normal : operand.Normal) : joinReduced kind [operand] = operand := by
  by_cases constant : ∃ value, operand = .constant value
  · obtain ⟨value, rfl⟩ := constant
    cases kind <;> cases value <;> rfl
  by_cases nested : ∃ operands, operand = .junction kind operands
  · obtain ⟨operands, rfl⟩ := nested
    have stay := (not_reducible_junction_iff.mp (normal_junction_iff.mp normal).1).2.1
    have opened := flatMap_spread_junction kind operands stay
    calc joinReduced kind [.junction kind operands] = joinReduced kind operands := by
          simp only [joinReduced, opened]
      _ = .junction kind operands := joinReduced_of_normal normal
  · have stay : ∀ part ∈ [operand], part.Stays kind := by
      rw [List.forall_mem_singleton]
      exact ⟨fun value same => constant ⟨value, same⟩, fun inner same => nested ⟨inner, same⟩⟩
    have kept := varying_of_stays stay
    have consistent : contradicts (varying kind [operand]) = false := by
      rw [kept]
      exact contradicts_singleton normal
    rw [joinReduced_of_open (absorbed_of_stays stay) consistent, kept]
    rfl

theorem negateReduced_negateReduced (normal : operand.Normal) :
    negateReduced (negateReduced operand) = operand := by
  cases operand with
  | constant value => exact congrArg Predicate.constant (Bool.not_not value)
  | negation inner => exact negateReduced_of_normal normal
  | _ => rfl

end Joining

end Predicate

section Reflexive

variable {catalog : Catalog} {name : String}

theorem LeafType.Keeps.same_self {type : LeafType} {value : Value} (kept : type.Keeps value) :
    value.same value = true :=
  (Value.Alike.refl (LeafType.atom?_isSome_of_coerce? kept)).same

theorem Leaf.Admits.same_self {field : Leaf} {operator : LeafOperator} {value : Value}
    (admits : field.Admits operator value) : value.same value = true := by
  have scalar {item : Value} (kept : item = .null ∨ field.type.Keeps item) :
      item.same item = true := by
    rcases kept with rfl | kept
    · rfl
    · exact kept.same_self
  cases admits with
  | equality _ kept => exact scalar kept
  | order _ _ kept => exact kept.same_self
  | among kept | notAmong kept =>
    rw [Value.same]
    exact Value.sameItems_self fun item inside => scalar (kept item inside)
  | fullText text => exact decide_eq_true rfl

theorem Predicate.Typed.same_self {predicate : Predicate} (typed : predicate.Typed catalog name) :
    predicate.same predicate = true := by
  induction typed with
  | constant | raw => exact decide_eq_true rfl
  | junction _ ih => exact Predicate.same_junction _ ih
  | negation _ ih => exact ih
  | leaf _ _ admits =>
    rw [Predicate.same, decide_eq_true rfl, decide_eq_true rfl]
    exact admits.same_self
  | @edge _ link head _ _ _ ih =>
    cases head with
    | none => exact Predicate.same_edge link rfl
    | some inner => exact Predicate.same_edge link (ih inner rfl)
  | @reverse _ relation head _ _ _ ih =>
    cases head with
    | none => exact Predicate.same_reverse relation rfl
    | some inner => exact Predicate.same_reverse relation (ih inner rfl)
  | count => exact Predicate.same_count _ _ _

theorem Predicate.Typed.of_mem_varying {kind : Junction} {operand : Predicate}
    (typed : operand.Typed catalog name) :
    ∀ part ∈ Predicate.varying kind [operand], part.Typed catalog name := by
  intro part inside
  obtain ⟨inside, -⟩ := List.mem_filter.mp inside
  rw [List.flatMap_singleton] at inside
  cases operand with
  | junction inner operands =>
    rw [Predicate.spread] at inside
    split at inside
    · exact typed.of_junction part inside
    · exact List.mem_singleton.mp inside ▸ typed
  | _ => exact List.mem_singleton.mp inside ▸ typed

end Reflexive

namespace Filter

/-- The operands make a junction, which is reduced to this filter. -/
def JoinsTo (node : Node) (kind : Junction) (operands : List Filter) (result : Filter) : Prop :=
  ∃ joined, junction node kind operands = .ok joined ∧ joined.reduced = result

/-- The operands of both lists make junctions, which are reduced to one filter. -/
def JoinAlike (node : Node) (kind : Junction) (operands others : List Filter) : Prop :=
  ∃ result, JoinsTo node kind operands result ∧ JoinsTo node kind others result

section Joining

variable {node : Node} {kind : Junction} {operands others : List Filter}

theorem junction_of_node (here : ∀ operand ∈ operands, operand.node = node) :
    junction node kind operands = .ok ⟨node, .junction kind (operands.map (·.predicate))⟩ := by
  have checked : operands.forM (checkNode node.name) = .ok () := by
    refine Outcome.forM_eq_ok fun operand inside => ?_
    unfold checkNode
    rw [here operand inside, if_pos rfl]
  unfold junction
  rw [checked]
  rfl

theorem joinsTo_of_node (here : ∀ operand ∈ operands, operand.node = node) {result : Predicate}
    (joined : Predicate.joinReduced kind (operands.map (·.predicate.reduced)) = result) :
    JoinsTo node kind operands ⟨node, result⟩ := by
  refine ⟨_, junction_of_node here, ?_⟩
  rw [reduced, Predicate.reduced, Predicate.reducedAll_eq_map, List.map_map]
  exact congrArg (Filter.mk node) joined

theorem joinAlike_of_node (here : ∀ operand ∈ operands, operand.node = node)
    (here' : ∀ operand ∈ others, operand.node = node)
    (same : Predicate.joinReduced kind (operands.map (·.predicate.reduced)) =
      Predicate.joinReduced kind (others.map (·.predicate.reduced))) :
    JoinAlike node kind operands others :=
  ⟨_, joinsTo_of_node here same, joinsTo_of_node here' rfl⟩

section Laws

variable {x : Filter} {xs ys zs middle : List Filter}

theorem node_around (hereXs : ∀ filter ∈ xs, filter.node = node)
    (inside : ∀ filter ∈ middle, filter.node = node) (hereYs : ∀ filter ∈ ys, filter.node = node) :
    ∀ filter ∈ xs ++ middle ++ ys, filter.node = node := by
  simp only [List.forall_mem_append]
  exact ⟨⟨hereXs, inside⟩, hereYs⟩

variable (hereXs : ∀ filter ∈ xs, filter.node = node) (hereYs : ∀ filter ∈ ys, filter.node = node)

include hereXs hereYs

theorem joinAlike_nested (hereZs : ∀ filter ∈ zs, filter.node = node) :
    ∃ nested, junction node kind zs = .ok nested ∧
      JoinAlike node kind (xs ++ [nested] ++ ys) (xs ++ zs ++ ys) := by
  refine ⟨_, junction_of_node hereZs, joinAlike_of_node
    (node_around hereXs (List.forall_mem_singleton.mpr rfl) hereYs)
    (node_around hereXs hereZs hereYs) ?_⟩
  simp only [List.map_append, List.map_cons, List.map_nil, Predicate.reduced,
    Predicate.reducedAll_eq_map, List.map_map]
  exact Predicate.joinReduced_nested
    (List.forall_mem_map.mpr fun filter _ => Predicate.normal_reduced filter.predicate) _ _

theorem joinAlike_unit :
    JoinAlike node kind (xs ++ [constant node kind.unit] ++ ys) (xs ++ ys) := by
  refine joinAlike_of_node (node_around hereXs (List.forall_mem_singleton.mpr rfl) hereYs)
    (List.forall_mem_append.mpr ⟨hereXs, hereYs⟩) ?_
  simp only [List.map_append]
  exact Predicate.joinReduced_unit _ _

theorem joinsTo_absorbing :
    JoinsTo node kind (xs ++ [constant node (!kind.unit)] ++ ys) (constant node (!kind.unit)) := by
  refine joinsTo_of_node (node_around hereXs (List.forall_mem_singleton.mpr rfl) hereYs) ?_
  simp only [List.map_append]
  exact Predicate.joinReduced_absorbing _ _

theorem joinAlike_repeated {catalog : Catalog} (typed : x.Typed catalog) (known : x ∈ xs) :
    JoinAlike node kind (xs ++ [x] ++ ys) (xs ++ ys) := by
  refine joinAlike_of_node
    (node_around hereXs (List.forall_mem_singleton.mpr (hereXs x known)) hereYs)
    (List.forall_mem_append.mpr ⟨hereXs, hereYs⟩) ?_
  simp only [List.map_append, List.map_cons, List.map_nil]
  refine Predicate.joinReduced_repeated (List.mem_map_of_mem known) (fun part inside => ?_) _
  exact ((Predicate.Typed.reduced typed).of_mem_varying part inside).same_self

theorem joinAlike_reduced (hereX : x.node = node) :
    JoinAlike node kind (xs ++ [x.reduced] ++ ys) (xs ++ [x] ++ ys) := by
  refine joinAlike_of_node (node_around hereXs (List.forall_mem_singleton.mpr hereX) hereYs)
    (node_around hereXs (List.forall_mem_singleton.mpr hereX) hereYs) ?_
  simp only [List.map_append, List.map_cons, List.map_nil, reduced,
    Predicate.reduced_of_normal (Predicate.normal_reduced x.predicate)]

omit hereXs hereYs

theorem joinsTo_single (hereX : x.node = node) : JoinsTo node kind [x] x.reduced := by
  subst hereX
  exact joinsTo_of_node (List.forall_mem_singleton.mpr rfl)
    (Predicate.joinReduced_singleton (Predicate.normal_reduced x.predicate))

theorem reduced_negation_negation (x : Filter) : x.negation.negation.reduced = x.reduced :=
  congrArg (Filter.mk x.node)
    (Predicate.negateReduced_negateReduced (Predicate.normal_reduced x.predicate))

end Laws

end Joining

/-- Whatever stands around them, operands of a junction may be joined among themselves, units and
repetitions may be left out, and each operand may be reduced; an absorbing constant decides. A
junction of one operand and a double negation are reduced to what the operand is reduced to. -/
theorem reduced_composition {catalog : Catalog} {node : Node} (kind : Junction)
    {xs ys zs : List Filter} {x : Filter} (arises : Arises catalog x)
    (here : ∀ filter ∈ [x] ++ xs ++ ys ++ zs, filter.node = node) :
    (∃ nested, junction node kind zs = .ok nested ∧
      JoinAlike node kind (xs ++ [nested] ++ ys) (xs ++ zs ++ ys)) ∧
    JoinAlike node kind (xs ++ [constant node kind.unit] ++ ys) (xs ++ ys) ∧
    JoinsTo node kind (xs ++ [constant node (!kind.unit)] ++ ys) (constant node (!kind.unit)) ∧
    JoinAlike node kind (xs ++ [x] ++ ys ++ [x] ++ zs) (xs ++ [x] ++ ys ++ zs) ∧
    JoinAlike node kind (xs ++ [x.reduced] ++ ys) (xs ++ [x] ++ ys) ∧
    JoinsTo node kind [x] x.reduced ∧
    x.negation.negation.reduced = x.reduced := by
  simp only [List.forall_mem_append, List.forall_mem_singleton] at here
  obtain ⟨⟨⟨hereX, hereXs⟩, hereYs⟩, hereZs⟩ := here
  have behind : ∀ filter ∈ xs ++ [x] ++ ys, filter.node = node :=
    node_around hereXs (List.forall_mem_singleton.mpr hereX) hereYs
  exact ⟨joinAlike_nested hereXs hereYs hereZs, joinAlike_unit hereXs hereYs,
    joinsTo_absorbing hereXs hereYs,
    joinAlike_repeated behind hereZs (typed_of_arises arises) (by simp),
    joinAlike_reduced hereXs hereYs hereX, joinsTo_single hereX, reduced_negation_negation x⟩

end Filter

namespace Samples

/-- People numbered from one. -/
def counted : Filter :=
  ⟨person, .leaf ⟨"Person", "id", "id", .int, false⟩ (.compared .ge) (.int 1)⟩

/-- People with tasks. -/
def employed : Filter := ⟨person, .reverse tasks none⟩

end Samples

open Samples in
theorem Filter.reduced_composition_people :
    (∃ nested, junction person .any [employed, counted] = .ok nested ∧
      JoinAlike person .any ([counted] ++ [nested] ++ [employed.negation])
        ([counted] ++ [employed, counted] ++ [employed.negation])) ∧
    JoinAlike person .any
      ([counted] ++ [counted] ++ [employed.negation] ++ [counted] ++ [employed, counted])
      ([counted] ++ [counted] ++ [employed.negation] ++ [employed, counted]) := by
  have found : boardCatalog.node? person.name = some person := rfl
  have made : leaf person "id" (.compared .ge) (.int 1) = .ok counted := rfl
  have here : ∀ filter ∈ [counted] ++ [counted] ++ [employed.negation] ++ [employed, counted],
      filter.node = person := by simp [counted, employed, negation]
  obtain ⟨nested, -, -, repeated, -⟩ := Filter.reduced_composition .any (.leaf found made) here
  exact ⟨nested, repeated⟩

end LiveQuery
