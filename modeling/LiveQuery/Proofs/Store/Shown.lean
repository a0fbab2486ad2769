import LiveQuery.Proofs.Filter.Reduction
import LiveQuery.Proofs.Store.Basic

set_option autoImplicit false

namespace LiveQuery

/-- When a record shows a row of a store. -/
abbrev View := Store → Record → Record → Prop

namespace View

/-- The record names the instance of the row. -/
def identified (catalog : Catalog) (node : String) : View := fun _ row record =>
  ∀ definition, catalog.node? node = some definition →
    catalog.Names definition record ∧ definition.key record = definition.key row

/-- The record shows the head of an edge, or that there is none. -/
def edge (link : Edge) (head : View) : View := fun store row record =>
  (link.nullable = true ∧ link.target row = none ∧ record.get? link.name = some .null) ∨
    ∃ other ∈ store link.head, link.refers row other = true ∧
      ∃ shown, record.get? link.name = some (.record shown) ∧ head store other shown

end View

namespace ReverseEdge

/-- The records that a related value holds. -/
def Lists (relation : ReverseEdge) (value : Value) (heads : List Record) : Prop :=
  match relation.multiplicity with
  | .unique => (value = .null ∧ heads = []) ∨ ∃ head, value = .record head ∧ heads = [head]
  | .multiple => value = .list (heads.map .record)

theorem Lists.mem_of_holdsHead {relation : ReverseEdge} {value : Value} {heads : List Record}
    (lists : relation.Lists value heads) {head : Record}
    (held : Predicate.HoldsHead value head) : head ∈ heads := by
  unfold Lists at lists
  cases multiplicity : relation.multiplicity with
  | unique =>
    rw [multiplicity] at lists
    rcases lists with ⟨rfl, rfl⟩ | ⟨only, rfl, rfl⟩ <;>
      rcases held with same | ⟨items, same, -⟩ <;> cases same
    exact List.mem_singleton_self _
  | multiple =>
    rw [multiplicity] at lists
    subst lists
    rcases held with same | ⟨items, same, inside⟩
    · cases same
    · cases same
      obtain ⟨other, member, same⟩ := List.mem_map.mp inside
      cases same
      exact member

/-- A test that tells of every listed head what holds of its row finds whether it holds of some
row. -/
theorem Lists.testRelation_eq {relation : ReverseEdge} {value : Value} {heads rows : List Record}
    (lists : relation.Lists value heads) {node : String}
    {test : Record → Except StatementError Bool} {answer : Record → Bool}
    (each : List.Forall₂ (fun row head => test head = .ok (answer row)) rows heads) :
    Predicate.testRelation node relation test value = .ok (rows.any answer) := by
  unfold Lists at lists
  unfold Predicate.testRelation
  cases multiplicity : relation.multiplicity with
  | unique =>
    rw [multiplicity] at lists
    rcases lists with ⟨rfl, rfl⟩ | ⟨only, rfl, rfl⟩
    · cases each
      rfl
    · obtain ⟨row, rest, tested, none, rfl⟩ := List.forall₂_cons_right_iff.mp each
      cases none
      rw [List.any_cons, List.any_nil, Bool.or_false]
      exact tested
  | multiple =>
    rw [multiplicity] at lists
    subst lists
    simp only
    clear multiplicity
    induction each with
    | nil => rfl
    | @cons row head rows heads tested _ ih =>
      simp only [List.map_cons, Predicate.testSome, Predicate.testHead, tested, Outcome.ok_bind,
        ih, List.any_cons]
      cases answer row <;> rfl

end ReverseEdge

namespace View

/-- The record lists the rows that refer to a row, each shown. -/
def children (relation : ReverseEdge) (head : View) : View := fun store row record =>
  ∃ value rows shown, record.get? relation.name = some value ∧ relation.Lists value shown ∧
    rows.Perm (store.children relation row) ∧ List.Forall₂ (head store) rows shown

/-- Where the record has a count of its own, it is the number of the rows that refer to the row. -/
def counted (relation : ReverseEdge) : View := fun store row record =>
  ∀ value, record.get? relation.countKey = some value →
    ∃ number : Int64, value = .int number ∧
      number.toInt = (store.children relation row).length

/-- Nothing is asked of the record. -/
def anything : View := fun _ _ _ => True

def both (first second : View) : View := fun store row record =>
  first store row record ∧ second store row record

end View

namespace Predicate

mutual

/-- The record has all that the predicate looks at: the row's leaves, and under every relation the
related instances with their identifiers. -/
def shown (catalog : Catalog) : Predicate → View
  | .constant _ => View.anything
  | .junction _ operands => shownAll catalog operands
  | .negation operand => shown catalog operand
  | .leaf field _ _ => fun _ row record =>
    ∃ value, row.get? field.name = some value ∧ record.get? field.name = some value
  | .edge link head =>
    .edge link (.both (.identified catalog link.head) (shownHead catalog head))
  | .reverse relation head =>
    .children relation (.both (.identified catalog relation.head) (shownHead catalog head))
  | .count relation _ _ => .both (.children relation .anything) (.counted relation)
  | .raw _ => View.anything

def shownAll (catalog : Catalog) : List Predicate → View
  | [] => View.anything
  | operand :: rest => .both (shown catalog operand) (shownAll catalog rest)

def shownHead (catalog : Catalog) : Option Predicate → View
  | none => View.anything
  | some head => shown catalog head

end

theorem shownAll_iff {catalog : Catalog} {operands : List Predicate} {store : Store}
    {row record : Record} : shownAll catalog operands store row record ↔
      ∀ operand ∈ operands, operand.shown catalog store row record := by
  induction operands with
  | nil => simp [shownAll, View.anything]
  | cons operand rest ih => rw [shownAll, View.both, ih, List.forall_mem_cons]

theorem fits_edge {catalog : Catalog} {node : String} {link : Edge} {head : Option Predicate}
    (fits : (Predicate.edge link head).fits catalog node = true) :
    (∃ definition, catalog.node? node = some definition ∧
      definition.component? link.name = some (.edge link)) ∧
      fitsHead catalog link.head head = true := by
  rw [Predicate.fits, Bool.and_eq_true, decide_eq_true_iff, Option.bind_eq_some_iff] at fits
  exact fits

theorem fits_reverse {catalog : Catalog} {node : String} {relation : ReverseEdge}
    {head : Option Predicate} (fits : (Predicate.reverse relation head).fits catalog node = true) :
    (∃ definition, catalog.node? node = some definition ∧
      definition.reverseEdge? relation.name = some relation) ∧
      fitsHead catalog relation.head head = true := by
  rw [Predicate.fits, Bool.and_eq_true, decide_eq_true_iff, Option.bind_eq_some_iff] at fits
  exact fits

theorem fitsHead_replace {catalog : Catalog} {node : String} {head head' : Option Predicate}
    (fits : fitsHead catalog node head = true)
    (kept : Replaces (fun node predicate => predicate.fits catalog node = true) head head') :
    fitsHead catalog node head' = true := by
  cases head' with
  | none => rfl
  | some inner' =>
    obtain ⟨inner, rfl, keeps⟩ := kept inner' rfl
    exact keeps node fits

theorem inherited_fits (catalog : Catalog) : Inherited fun (node : String) predicate =>
    predicate.fits catalog node = true where
  constant _ := rfl
  junction := fitsAll_iff
  negation := Iff.rfl
  among fits := fits
  notAmong fits := fits
  edge fits kept := by
    rw [Predicate.fits, Bool.and_eq_true] at fits ⊢
    exact ⟨fits.1, fitsHead_replace fits.2 kept⟩
  reverse fits kept := by
    rw [Predicate.fits, Bool.and_eq_true] at fits ⊢
    exact ⟨fits.1, fitsHead_replace fits.2 kept⟩

/-- Reduction reads nothing that the catalog does not have. -/
theorem fits_reduced {catalog : Catalog} {predicate : Predicate} {node : String}
    (fits : predicate.fits catalog node = true) : predicate.reduced.fits catalog node = true :=
  (inherited_fits catalog).reduced node fits

/-- What a predicate evaluates to on a record is what it means for a row, and every edge that it
reads on the way is set if it must be. -/
def Faithful (store : Store) (node : String) (predicate : Predicate) (row record : Record) : Prop :=
  evaluate node predicate record = .ok (store.holds predicate row) ∧ predicate.Respects record

def FaithfulHead (store : Store) (node : String) (head : Option Predicate) (row record : Record) :
    Prop :=
  evaluateHead node head record = .ok (store.holdsHead head row) ∧ RespectsHead head record

section Faithful

variable {catalog : Catalog} {store : Store} {node : String} {row record : Record}

theorem faithful_junction {kind : Junction} {operands : List Predicate}
    (each : ∀ operand ∈ operands, operand.Faithful store node row record) :
    (Predicate.junction kind operands).Faithful store node row record := by
  refine ⟨?_, respectsAll_iff.mpr fun operand inside => (each operand inside).2⟩
  rw [evaluate_junction, Store.holds]
  induction operands with
  | nil => rfl
  | cons operand rest ih =>
    rw [List.forall_mem_cons] at each
    rw [evaluateAll_cons, each.1.1, Outcome.ok_bind, Store.holdsAll, ih each.2]
    by_cases open_ : store.holds operand row = kind.unit
    · rw [if_pos open_, if_pos open_]
    · have settled : store.holds operand row = !kind.unit :=
        (kind.eq_unit_or (store.holds operand row)).resolve_left open_
      rw [if_neg open_, if_neg open_, settled]

theorem faithful_leaf {field : Leaf} {operator : LeafOperator} {expected : Value}
    (shown : (Predicate.leaf field operator expected).shown catalog store row record) :
    (Predicate.leaf field operator expected).Faithful store node row record := by
  obtain ⟨value, stored, known⟩ := shown
  refine ⟨?_, trivial⟩
  rw [evaluate, require_eq_ok.mpr known, Store.holds, stored]
  rfl

theorem faithful_edge_of_null {link : Edge} {head : Option Predicate}
    (nullable : link.nullable = true) (nowhere : link.target row = none)
    (null : record.get? link.name = some .null) :
    (Predicate.edge link head).Faithful store node row record := by
  refine ⟨?_, fun required => ?_, fun inner known => ?_⟩
  · rw [Store.holds_edge_of_target_eq_none nowhere]
    exact evaluate_edge_eq_ok.mpr ⟨_, null, rfl⟩
  · rw [nullable] at required
    cases required
  · rw [null] at known
    cases known

theorem faithful_edge {definition : Node} (consistent : store.Consistent catalog) {link : Edge}
    (leads : catalog.Leads link definition) {view : View} {head : Option Predicate}
    (shown : View.edge link view store row record)
    (below : ∀ other inner, view store other inner →
      FaithfulHead store link.head head other inner) :
    (Predicate.edge link head).Faithful store node row record := by
  rcases shown with ⟨nullable, nowhere, null⟩ | ⟨other, inside, refers, inner, known, seen⟩
  · exact faithful_edge_of_null nullable nowhere null
  · have tested := below other inner seen
    refine ⟨?_, fun _ null => ?_, fun inner' same => ?_⟩
    · rw [consistent.holds_edge_of_refers leads inside refers]
      exact evaluate_edge_eq_ok.mpr ⟨_, known, tested.1⟩
    · rw [known] at null
      cases null
    · rw [known] at same
      cases same
      exact tested.2

theorem faithful_reverse {relation : ReverseEdge} {view : View} {head : Option Predicate}
    (shown : View.children relation view store row record)
    (below : ∀ child inner, view store child inner →
      FaithfulHead store relation.head head child inner) :
    (Predicate.reverse relation head).Faithful store node row record := by
  obtain ⟨value, rows, heads, known, lists, permuted, paired⟩ := shown
  refine ⟨?_, fun value' same inner held => ?_⟩
  · have tested : List.Forall₂ (fun child inner =>
        evaluateHead relation.head head inner = .ok (store.holdsHead head child)) rows heads :=
      paired.imp fun child inner seen => (below child inner seen).1
    rw [evaluate_reverse_eq_ok, Store.holds, ← permuted.any_eq]
    exact ⟨value, known, lists.testRelation_eq tested⟩
  · rw [known] at same
    cases same
    obtain ⟨child, -, seen⟩ := Lists.exists_left_of_forall₂ paired (lists.mem_of_holdsHead held)
    exact (below child inner seen).2

theorem countOf_eq {relation : ReverseEdge} (multiple : relation.multiplicity = .multiple)
    {view : View} (shown : View.children relation view store row record)
    (counted : View.counted relation store row record) :
    countOf node relation record = .ok (store.children relation row).length := by
  obtain ⟨value, rows, heads, known, lists, permuted, paired⟩ := shown
  unfold countOf
  cases count : record.get? relation.countKey with
  | none =>
    unfold ReverseEdge.Lists at lists
    rw [multiple] at lists
    subst lists
    rw [require_eq_ok.mpr known, ← permuted.length_eq, paired.length_eq, ← List.length_map]
    rfl
  | some stored =>
    obtain ⟨number, rfl, same⟩ := counted stored count
    have positive : 0 ≤ number.toInt := by omega
    have exact : number.toInt.toNat = (store.children relation row).length := by omega
    simp only [if_pos positive]
    exact congrArg Except.ok exact

theorem faithful_count {relation : ReverseEdge} {comparison : Comparison} {number : Nat}
    (multiple : relation.multiplicity = .multiple) {view : View}
    (shown : View.children relation view store row record)
    (counted : View.counted relation store row record) :
    (Predicate.count relation comparison number).Faithful store node row record := by
  refine ⟨?_, trivial⟩
  rw [evaluate, countOf_eq multiple shown counted, Store.holds]
  rfl

end Faithful

/-- On a record that shows a row, every predicate that fits the catalog is faithful to the row. -/
theorem faithful_of_shown {catalog : Catalog} (wellFormed : catalog.WellFormed) {store : Store}
    (consistent : store.Consistent catalog) {predicate : Predicate} {node : String}
    (fits : predicate.fits catalog node = true) {row record : Record}
    (shown : predicate.shown catalog store row record) :
    predicate.Faithful store node row record := by
  induction predicate generalizing node row record with
  | constant value => exact ⟨rfl, trivial⟩
  | junction kind operands ih =>
    rw [Predicate.fits, fitsAll_iff] at fits
    rw [Predicate.shown, shownAll_iff] at shown
    exact faithful_junction fun operand inside =>
      ih operand inside (fits operand inside) (shown operand inside)
  | negation operand ih =>
    obtain ⟨evaluated, respected⟩ := ih fits shown
    refine ⟨?_, respected⟩
    rw [evaluate, evaluated]
    rfl
  | leaf field operator expected => exact faithful_leaf shown
  | edge link head ih =>
    obtain ⟨⟨definition, found, component⟩, fits⟩ := fits_edge fits
    obtain ⟨target, leads⟩ := wellFormed.heads found link (Node.mem_of_component? component)
    refine faithful_edge consistent leads shown fun other inner seen => ?_
    cases head with
    | none => exact ⟨rfl, trivial⟩
    | some head => exact ih head rfl fits seen.2
  | reverse relation head ih =>
    obtain ⟨-, fits⟩ := fits_reverse fits
    refine faithful_reverse shown fun child inner seen => ?_
    cases head with
    | none => exact ⟨rfl, trivial⟩
    | some head => exact ih head rfl fits seen.2
  | count relation comparison number =>
    rw [Predicate.fits, Bool.and_eq_true, decide_eq_true_iff, decide_eq_true_iff] at fits
    exact faithful_count fits.2 shown.1 shown.2
  | raw => cases fits

end Predicate

namespace View

variable {store : Store} {row record : Record} {first second : View}

theorem edge_mono {link : Edge} (shown : View.edge link first store row record)
    (weaker : ∀ other inner, first store other inner → second store other inner) :
    View.edge link second store row record := by
  rcases shown with null | ⟨other, inside, refers, inner, known, seen⟩
  · exact Or.inl null
  · exact Or.inr ⟨other, inside, refers, inner, known, weaker other inner seen⟩

theorem children_mono {relation : ReverseEdge}
    (shown : View.children relation first store row record)
    (weaker : ∀ other inner, first store other inner → second store other inner) :
    View.children relation second store row record := by
  obtain ⟨value, rows, heads, known, lists, permuted, paired⟩ := shown
  exact ⟨value, rows, heads, known, lists, permuted, paired.imp weaker⟩

end View

namespace Predicate

variable {catalog : Catalog} {store : Store}

theorem shownHead_replace {head head' : Option Predicate} {row record : Record}
    (shown : shownHead catalog head store row record)
    (kept : Replaces (fun (place : Record × Record) predicate =>
      predicate.shown catalog store place.1 place.2) head head') :
    shownHead catalog head' store row record := by
  cases head' with
  | none => trivial
  | some inner' =>
    obtain ⟨inner, rfl, keeps⟩ := kept inner' rfl
    exact keeps (row, record) shown

theorem inherited_shown (catalog : Catalog) (store : Store) :
    Inherited fun (place : Record × Record) predicate =>
      predicate.shown catalog store place.1 place.2 where
  constant _ := trivial
  junction := shownAll_iff
  negation := Iff.rfl
  among shown := shown
  notAmong shown := shown
  edge shown kept := View.edge_mono shown fun _ _ seen => ⟨seen.1, shownHead_replace seen.2 kept⟩
  reverse shown kept :=
    View.children_mono shown fun _ _ seen => ⟨seen.1, shownHead_replace seen.2 kept⟩

/-- Reduction looks at nothing that the predicate does not look at. -/
theorem shown_reduced {predicate : Predicate} {row record : Record}
    (shown : predicate.shown catalog store row record) :
    predicate.reduced.shown catalog store row record :=
  (inherited_shown catalog store).reduced (row, record) shown

/-- Reduction keeps what a predicate means for the rows that some record shows. -/
theorem holds_reduced (wellFormed : catalog.WellFormed) (consistent : store.Consistent catalog)
    {predicate : Predicate} {node : String} (fits : predicate.fits catalog node = true)
    {row record : Record} (shown : predicate.shown catalog store row record) :
    store.holds predicate.reduced row = store.holds predicate row := by
  obtain ⟨evaluated, respected⟩ := faithful_of_shown wellFormed consistent fits shown
  obtain ⟨reduced, -⟩ :=
    faithful_of_shown wellFormed consistent (fits_reduced fits) (shown_reduced shown)
  rw [evaluate_reduced evaluated respected, Except.ok.injEq] at reduced
  exact reduced.symm

end Predicate

/-- A record with the identifier of a row names its instance. -/
theorem Samples.identified_of_id {name : String} {store : Store} {row record : Record} {id : Int64}
    (stored : row.get? "id" = some (.int id)) (shown : record.get? "id" = some (.int id)) :
    View.identified boardCatalog name store row record := by
  intro node found
  have atom : record.atom? "id" = row.atom? "id" := by
    unfold Record.atom?
    rw [stored, shown]
  have key : ∀ field : Leaf, field.name = "id" →
      (Component.leaf field).key record = (Component.leaf field).key row := by
    intro field named
    simp only [Component.key, named, atom]
  rcases node?_cases found with ⟨-, rfl⟩ | ⟨-, rfl⟩ <;>
    refine ⟨fun component inside => ?_, Lists.mapM_congr fun component inside => ?_⟩ <;>
    cases List.mem_singleton.mp inside
  · exact ⟨.int id, shown, rfl⟩
  · exact key _ rfl
  · exact ⟨.int id, shown, rfl⟩
  · exact key _ rfl

end LiveQuery
