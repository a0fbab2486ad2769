import LiveQuery.Proofs.Store.Children
import LiveQuery.Proofs.Store.Shown
import Mathlib.Data.List.Sort

set_option autoImplicit false

namespace LiveQuery

@[induction_eliminator]
theorem SelectionField.induction {motive : SelectionField → Prop}
    (leaf : ∀ key field, motive (.leaf key field))
    (edge : ∀ key link head, (∀ field ∈ head, motive field) → motive (.edge key link head))
    (unique : ∀ key relation head, (∀ field ∈ head, motive field) →
      motive (.unique key relation head))
    (multiple : ∀ key relation window head, (∀ field ∈ head, motive field) →
      motive (.multiple key relation window head))
    (count : ∀ key relation filter, motive (.count key relation filter))
    (field : SelectionField) : motive field := by
  refine @SelectionField.rec motive (fun fields => ∀ field ∈ fields, motive field)
    leaf edge unique multiple count ?_ ?_ field
  · simp
  · intro field rest first behind other member
    rcases List.mem_cons.mp member with rfl | member
    · exact first
    · exact behind other member

deriving instance Ord for Instant

deriving instance Ord for Atom

namespace Store

variable (store : Store)

/-- What one sort key says of two rows; a count is the number of rows behind its relation. -/
def compareOn (expression : SortExpression) (a b : Record) : Ordering :=
  expression.direction.apply <|
    match expression.target with
    | .leaf field =>
      SortExpression.compareValues ((a.get? field.name).getD .null) ((b.get? field.name).getD .null)
    | .count relation =>
      compare (store.children relation a).length (store.children relation b).length

def compareRows : List SortExpression → Record → Record → Ordering
  | [], _, _ => .eq
  | expression :: rest, a, b => (store.compareOn expression a b).then (compareRows rest a b)

/-- The order of the rows of a node: that of the sort keys, and where they leave it open that of the
identifiers. -/
def precedes (node : Node) (ordering : List SortExpression) (a b : Record) : Prop :=
  (store.compareRows ordering a b).then (compare (node.key a) (node.key b)) ≠ .gt

instance (node : Node) (ordering : List SortExpression) :
    DecidableRel (store.precedes node ordering) :=
  fun _ _ => inferInstanceAs (Decidable (_ ≠ _))

/-- The rows in a window. -/
def windowed (node : Node) (window : Window) (rows : List Record) : List Record :=
  (((rows.filter (store.holdsHead window.filter)).insertionSort
    (store.precedes node (window.ordering.getD []))).drop window.offset).take window.limit

mutual

/-- The value of a field for a row. -/
def selected (catalog : Catalog) : SelectionField → Record → Value
  | .leaf _ field, row => (row.get? field.name).getD .null
  | .edge _ link head, row =>
    match (store link.head).find? (link.refers row) with
    | some other => .record (selectedAll catalog head other)
    | none => .null
  | .unique _ relation head, row =>
    match (store.children relation row).head? with
    | some child => .record (selectedAll catalog head child)
    | none => .null
  | .multiple _ relation window head, row =>
    match catalog.node? relation.head with
    | some node => .list ((store.windowed node window (store.children relation row)).map fun child =>
        .record (selectedAll catalog head child))
    | none => .null
  | .count _ relation filter, row =>
    .int (.ofNat ((store.children relation row).filter (store.holdsHead filter)).length)

/-- The values of a row under the keys of a selection. -/
def selectedAll (catalog : Catalog) : List SelectionField → Record → Record
  | [], _ => []
  | field :: rest, row => (field.key, selected catalog field row) :: selectedAll catalog rest row

end

end Store

namespace SortExpression

/-- Whether what is sorted on is a component or a reverse edge of the node. -/
def fits (catalog : Catalog) (node : String) (expression : SortExpression) : Bool :=
  match expression.target with
  | .leaf field => (catalog.node? node).bind (·.component? field.name) = some (.leaf field)
  | .count relation =>
    (catalog.node? node).bind (·.reverseEdge? relation.name) = some relation

/-- A number of rows of the very node whose rows are sorted. -/
def countsOwn (node : String) (expression : SortExpression) : Bool :=
  match expression.target with
  | .leaf _ => false
  | .count relation => relation.head = node

end SortExpression

namespace Window

def fits (catalog : Catalog) (node : String) (window : Window) : Bool :=
  Predicate.fitsHead catalog node window.filter &&
    (window.ordering.getD []).all (·.fits catalog node)

/-- Whether a change may alter counts that rows of the changed node are sorted by. -/
def recounted (node : String) (window : Window) (change : Change) : Bool :=
  (window.ordering.getD []).any fun expression =>
    expression.countsOwn node && expression.affectedBy node change

/-- A row behind a relation before and after the change, which is not the changed one. -/
structure Sibling (change : Change) (relation : ReverseEdge) (head : Node) (window : Window)
    (before after : Store) (row row' sibling sibling' : Record) : Prop where
  inside : sibling ∈ before.children relation row
  inside' : sibling' ∈ after.children relation row'
  matching : before.holdsHead window.filter sibling = true
  persists : Persists head before after sibling sibling'
  other : head.key sibling ≠ head.key change.identifier

/-- Where rows are sorted by counts of rows of their own node, and the change may alter such counts,
it leaves alone in which order the rows other than the changed one come. -/
def steady (change : Change) (relation : ReverseEdge) (head : Node) (window : Window) : Kept :=
  fun before after row row' => window.recounted head.name change = true →
    ∀ a a' b b', Sibling change relation head window before after row row' a a' →
      Sibling change relation head window before after row row' b b' →
        before.compareRows (window.ordering.getD []) a b =
          after.compareRows (window.ordering.getD []) a' b'

end Window

namespace SelectionField

mutual

/-- Whether a field reads only what the catalog says the node has. -/
def fits (catalog : Catalog) (node : String) : SelectionField → Bool
  | .leaf _ field => (catalog.node? node).bind (·.component? field.name) = some (.leaf field)
  | .edge _ link head =>
    (catalog.node? node).bind (·.component? link.name) = some (.edge link) &&
      fitsAll catalog link.head head
  | .unique _ relation head =>
    (catalog.node? node).bind (·.reverseEdge? relation.name) = some relation &&
      fitsAll catalog relation.head head
  | .multiple _ relation window head =>
    (catalog.node? node).bind (·.reverseEdge? relation.name) = some relation &&
      window.fits catalog relation.head && fitsAll catalog relation.head head
  | .count _ relation filter =>
    (catalog.node? node).bind (·.reverseEdge? relation.name) = some relation &&
      Predicate.fitsHead catalog relation.head filter

def fitsAll (catalog : Catalog) (node : String) : List SelectionField → Bool
  | [] => true
  | field :: rest => fits catalog node field && fitsAll catalog node rest

end

mutual

/-- The record has all that decides about the field: the row's instance, and under every relation
the related instances in full. -/
def shown (catalog : Catalog) : SelectionField → View
  | .leaf _ _ => View.anything
  | .edge _ link head => .edge link (.both (.identified catalog link.head) (shownAll catalog head))
  | .unique _ relation head =>
    .children relation (.both (.identified catalog relation.head) (shownAll catalog head))
  | .multiple _ relation window head =>
    .children relation (.both (.identified catalog relation.head)
      (.both (Predicate.shownHead catalog window.filter) (shownAll catalog head)))
  | .count _ relation filter =>
    .children relation
      (.both (.identified catalog relation.head) (Predicate.shownHead catalog filter))

def shownAll (catalog : Catalog) : List SelectionField → View
  | [] => View.anything
  | field :: rest => .both (shown catalog field) (shownAll catalog rest)

end

mutual

/-- Every window below is steady, wherever it is read. -/
def steady (catalog : Catalog) (change : Change) : SelectionField → Kept
  | .leaf _ _ | .count _ _ _ => fun _ _ _ _ => True
  | .edge _ link head => fun before after row row' =>
    ∀ node, catalog.node? link.head = some node →
      Kept.edge link node (steadyAll catalog change head) before after row row'
  | .unique _ relation head => fun before after row row' =>
    ∀ node, catalog.node? relation.head = some node →
      Kept.behind relation node (steadyAll catalog change head) before after row row'
  | .multiple _ relation window head => fun before after row row' =>
    ∀ node, catalog.node? relation.head = some node →
      window.steady change relation node before after row row' ∧
        Kept.behind relation node (steadyAll catalog change head) before after row row'

def steadyAll (catalog : Catalog) (change : Change) : List SelectionField → Kept
  | [] => fun _ _ _ _ => True
  | field :: rest => fun before after row row' =>
    steady catalog change field before after row row' ∧
      steadyAll catalog change rest before after row row'

end

end SelectionField

/-- A selection that was made for a catalog. -/
def Selection.fits (catalog : Catalog) (selection : Selection) : Bool :=
  catalog.node? selection.node.name = some selection.node &&
    SelectionField.fitsAll catalog selection.node.name selection.fields

end LiveQuery
