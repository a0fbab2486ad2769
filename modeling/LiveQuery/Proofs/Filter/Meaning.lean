import LiveQuery.Proofs.Filter.Keys
import LiveQuery.Proofs.Store.Shown

set_option autoImplicit false

namespace LiveQuery

/-- Whether a stored value passes a test against a given one. Nothing is greater or less than null,
and a list is passed by what it lists. -/
def LeafOperator.Passes (stored given : Value) : LeafOperator → Prop
  | .compared .eq => stored.looselyEqual given
  | .compared .ne => ¬stored.looselyEqual given
  | .compared .gt => stored.isNull = false ∧ stored.compare? given = some .gt
  | .compared .ge => stored.isNull = false ∧
    (stored.compare? given = some .gt ∨ stored.compare? given = some .eq)
  | .compared .lt => stored.isNull = false ∧ stored.compare? given = some .lt
  | .compared .le => stored.isNull = false ∧
    (stored.compare? given = some .lt ∨ stored.compare? given = some .eq)
  | .among => ∃ items, given = .list items ∧ ∃ item ∈ items, item.looselyEqual stored
  | .notAmong => ¬∃ items, given = .list items ∧ ∃ item ∈ items, item.looselyEqual stored
  | .fullText => ∃ text terms, stored = .string text ∧ given = .string terms ∧
    Text.matchesQuery text terms

theorem LeafOperator.listHas_iff {list value : Value} : listHas list value = true ↔
    ∃ items, list = .list items ∧ ∃ item ∈ items, item.looselyEqual value := by
  cases list <;> simp [listHas]

theorem LeafOperator.holds_iff {operator : LeafOperator} {stored given : Value} :
    operator.holds stored given = true ↔ operator.Passes stored given := by
  cases operator with
  | compared comparison =>
    cases comparison <;> simp only [holds, Passes, Bool.not_eq_true', Bool.not_eq_true]
    all_goals
      unfold Value.ordered
      cases stored.compare? given with
      | none => simp
      | some order => cases order <;> simp [Comparison.holds]
  | among => exact listHas_iff
  | notAmong =>
    rw [Passes, ← listHas_iff]
    simp [holds]
  | fullText => cases stored <;> cases given <;> simp [holds, Passes]

/-- How two numbers compare. -/
def Comparison.Between (first second : Nat) : Comparison → Prop
  | .eq => first = second
  | .ne => first ≠ second
  | .gt => second < first
  | .ge => second ≤ first
  | .lt => first < second
  | .le => first ≤ second

theorem Comparison.holds_iff {comparison : Comparison} {first second : Nat} :
    comparison.holds (compare first second) = true ↔ comparison.Between first second := by
  cases comparison <;> simp [holds, Between, Nat.compare_eq_gt, Nat.compare_eq_lt,
    Nat.isLE_compare, Nat.isGE_compare]

/-- Whether as many heads as a quantifier wants are of a kind. -/
def Quantifier.Over (heads : List Record) (among : Record → Prop) : Quantifier → Prop
  | .some => ∃ head ∈ heads, among head
  | .every => ∀ head ∈ heads, among head
  | .none => ¬∃ head ∈ heads, among head

namespace WhereInput

/-- The heads that a record lists. -/
def Listed (record : Record) (relation : ReverseEdge) (heads : List Record) : Prop :=
  record.get? relation.name = some (.list (heads.map .record))

theorem Listed.unique {record : Record} {relation : ReverseEdge} {heads heads' : List Record}
    (listed : Listed record relation heads) (listed' : Listed record relation heads') :
    heads = heads' := by
  have same := listed.symm.trans listed'
  rw [Option.some.injEq, Value.list.injEq] at same
  exact List.map_injective_iff.mpr (fun _ _ => Value.record.inj) same

/-- What is asked of a relation to at most one head: with null, that there is none, and else, that
there is one which meets what is given. -/
def AsksHead (catalog : Catalog) (record : Record) (name headName : String) (value : Json)
    (meets : Node → Record → Prop) : Prop :=
  if value.isNull then record.get? name = some .null
  else ∃ node head, catalog.node? headName = some node ∧ record.get? name = some (.record head) ∧
    meets node head

/-- What an entry asks of a record of a node, going by what its key means. `meets` tells whether a
record meets the entry's value, and `joins` whether the record meets all or any of the objects that
the value consists of. -/
def Asks (catalog : Catalog) (node : Node) (record : Record) (value : Json)
    (meets : Node → Record → Prop) (joins : Junction → Prop) : FilterKey → Prop
  | .junction kind => joins kind
  | .negation => ¬meets node record
  | .leaf field operator => ∃ stored given, record.get? field.name = some stored ∧
    Filter.operand field operator (.ofJson value) = .ok given ∧ operator.Passes stored given
  | .edge link false => AsksHead catalog record link.name link.head value meets
  | .edge link true => ¬AsksHead catalog record link.name link.head value meets
  | .uniqueReverse relation => AsksHead catalog record relation.name relation.head value meets
  | .quantified relation quantifier => ∃ node heads, catalog.node? relation.head = some node ∧
    Listed record relation heads ∧ quantifier.Over heads (meets node)
  | .count relation comparison => ∃ (heads : List Record) (number : Nat),
    Listed record relation heads ∧ value = .integer number ∧
      comparison.Between heads.length number

mutual

/-- A record of a node meets an input. Null asks for nothing, and an object for all its entries. -/
def Met (catalog : Catalog) (node : Node) (record : Record) : Json → Prop
  | .null => True
  | .object entries => MetEntries catalog node record entries
  | _ => False

def MetEntries (catalog : Catalog) (node : Node) (record : Record) : List (String × Json) → Prop
  | [] => True
  | (key, value) :: rest =>
    (∃ reading, FilterKey.Means node key reading ∧
      Asks catalog node record value (fun head found => Met catalog head found value)
        (fun kind => MetOperands catalog node record kind value) reading) ∧
    MetEntries catalog node record rest

/-- All or any of the objects in a list are met; an object by itself is a list of one. -/
def MetOperands (catalog : Catalog) (node : Node) (record : Record) (kind : Junction) : Json → Prop
  | .array items => MetItems catalog node record kind items
  | .object entries => MetEntries catalog node record entries
  | _ => False

def MetItems (catalog : Catalog) (node : Node) (record : Record) (kind : Junction) :
    List Json → Prop
  | [] => kind = .all
  | item :: rest =>
    match kind with
    | .all => Met catalog node record item ∧ MetItems catalog node record kind rest
    | .any => Met catalog node record item ∨ MetItems catalog node record kind rest

end

section

variable {catalog : Catalog} {node : Node} {record : Record}

theorem metEntries_cons {key : String} {value : Json} {rest : List (String × Json)}
    {reading : FilterKey} (means : FilterKey.Means node key reading) :
    MetEntries catalog node record ((key, value) :: rest) ↔
      Asks catalog node record value (fun head found => Met catalog head found value)
        (fun kind => MetOperands catalog node record kind value) reading ∧
      MetEntries catalog node record rest := by
  rw [MetEntries]
  refine and_congr_left fun _ => ⟨?_, fun asks => ⟨reading, means, asks⟩⟩
  rintro ⟨other, means', asks⟩
  rwa [means.unique means']

end

mutual

/-- How deep objects are nested in an input. -/
def depth : Json → Nat
  | .object entries => depthEntries entries + 1
  | .array items => depthItems items
  | _ => 0

def depthEntries : List (String × Json) → Nat
  | [] => 0
  | (_, value) :: rest => max (depth value) (depthEntries rest)

def depthItems : List Json → Nat
  | [] => 0
  | item :: rest => max (depth item) (depthItems rest)

end

/-- A record holds null, or one head that is as `below` says. -/
def HoldsOne (catalog : Catalog) (below : Node → Record → Prop) (record : Record)
    (name headName : String) : Prop :=
  record.get? name = some .null ∨ ∃ head, record.get? name = some (.record head) ∧
    ∀ node, catalog.node? headName = some node → below node head

/-- A record with an entry for everything that its node has. Heads are as `below` says; of many
heads there is a list, and no count besides. -/
structure Populated (catalog : Catalog) (below : Node → Record → Prop) (node : Node)
    (record : Record) : Prop where
  leaf : ∀ field, .leaf field ∈ node.components → ∃ value, record.get? field.name = some value
  edge : ∀ link, .edge link ∈ node.components →
    HoldsOne catalog below record link.name link.head
  unique : ∀ relation ∈ node.reverseEdges, relation.multiplicity = .unique →
    HoldsOne catalog below record relation.name relation.head
  multiple : ∀ relation ∈ node.reverseEdges, relation.multiplicity = .multiple →
    record.get? relation.countKey = none ∧ ∃ heads, Listed record relation heads ∧
      ∀ node, catalog.node? relation.head = some node → ∀ head ∈ heads, below node head

/-- A record that is populated so many levels deep: itself, its heads, their heads and so on. -/
def Conforms (catalog : Catalog) : Nat → Node → Record → Prop
  | 0, _, _ => True
  | levels + 1, node, record => Populated catalog (Conforms catalog levels) node record

end WhereInput

end LiveQuery
