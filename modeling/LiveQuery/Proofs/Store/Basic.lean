import LiveQuery.Catalog.Definition
import LiveQuery.Filter.Evaluation
import LiveQuery.Proofs.Store.Identity
import Mathlib.Data.List.Nodup

set_option autoImplicit false

namespace LiveQuery

/-- The rows of every node. -/
abbrev Store := String → List Record

namespace Store

/-- Rows are complete and canonical, no two rows have one key, and no reference dangles. -/
structure Consistent (catalog : Catalog) (store : Store) : Prop where
  complete : ∀ {name node}, catalog.node? name = some node → ∀ row ∈ store name,
    ∀ component ∈ node.components, catalog.Holds component row
  referential : ∀ {name node}, catalog.node? name = some node → ∀ row ∈ store name,
    ∀ link, .edge link ∈ node.components → ∀ target, link.target row = some target →
      ∃ head ∈ store link.head, link.columnsOf head = some target
  apart : ∀ {name node}, catalog.node? name = some node → ((store name).map node.key).Nodup

/-- The rows that refer to a row through the edge behind a relation. -/
def children (store : Store) (relation : ReverseEdge) (row : Record) : List Record :=
  (store relation.head).filter fun child => relation.edge.refers child row

mutual

/-- Whether a row meets a condition, by the rows that it is related to. -/
def holds (store : Store) : Predicate → Record → Bool
  | .constant value, _ => value
  | .junction kind operands, row => holdsAll store kind operands row
  | .negation operand, row => !holds store operand row
  | .leaf field operator expected, row =>
    operator.holds ((row.get? field.name).getD .null) expected
  | .edge link head, row =>
    (store link.head).any fun other => link.refers row other && holdsHead store head other
  | .reverse relation head, row =>
    (store.children relation row).any fun child => holdsHead store head child
  | .count relation comparison number, row =>
    comparison.holds (compare (store.children relation row).length number)
  | .raw _, _ => false

def holdsAll (store : Store) (kind : Junction) : List Predicate → Record → Bool
  | [], _ => kind.unit
  | operand :: rest, row =>
    if holds store operand row = kind.unit then holdsAll store kind rest row else !kind.unit

def holdsHead (store : Store) : Option Predicate → Record → Bool
  | none, _ => true
  | some head, row => holds store head row

end

end Store

namespace Predicate

mutual

/-- Whether a predicate on a node reads only what the catalog says the node has, and no plain
SQL. -/
def fits (catalog : Catalog) (node : String) : Predicate → Bool
  | .constant _ => true
  | .junction _ operands => fitsAll catalog node operands
  | .negation operand => fits catalog node operand
  | .leaf field _ _ =>
    (catalog.node? node).bind (·.component? field.name) = some (.leaf field)
  | .edge link head =>
    (catalog.node? node).bind (·.component? link.name) = some (.edge link) &&
      fitsHead catalog link.head head
  | .reverse relation head =>
    (catalog.node? node).bind (·.reverseEdge? relation.name) = some relation &&
      fitsHead catalog relation.head head
  | .count relation _ _ =>
    (catalog.node? node).bind (·.reverseEdge? relation.name) = some relation &&
      relation.multiplicity = .multiple
  | .raw _ => false

def fitsAll (catalog : Catalog) (node : String) : List Predicate → Bool
  | [] => true
  | operand :: rest => fits catalog node operand && fitsAll catalog node rest

def fitsHead (catalog : Catalog) (node : String) : Option Predicate → Bool
  | none => true
  | some head => fits catalog node head

end

theorem fitsAll_iff {catalog : Catalog} {node : String} {operands : List Predicate} :
    fitsAll catalog node operands = true ↔ ∀ operand ∈ operands, fits catalog node operand = true := by
  induction operands with
  | nil => simp [fitsAll]
  | cons operand rest ih => rw [fitsAll, Bool.and_eq_true, ih, List.forall_mem_cons]

end Predicate

/-- A filter that was made for a catalog. -/
def Filter.fits (catalog : Catalog) (filter : Filter) : Bool :=
  catalog.node? filter.node.name = some filter.node &&
    filter.predicate.fits catalog filter.node.name

namespace Store

variable {catalog : Catalog} {store : Store} {node : Node} {name : String} {row other : Record}

theorem Consistent.names (consistent : store.Consistent catalog)
    (found : catalog.node? name = some node) (inside : row ∈ store name) :
    catalog.Names node row :=
  fun component part => consistent.complete found row inside component (Node.mem_of_identifier part)

theorem Consistent.eq_of_key_eq (consistent : store.Consistent catalog)
    (found : catalog.node? name = some node) (inside : row ∈ store name)
    (inside' : other ∈ store name) (same : node.key row = node.key other) : row = other :=
  List.inj_on_of_nodup_map (consistent.apart found) inside inside' same

theorem Consistent.eq_of_refers (consistent : store.Consistent catalog) {link : Edge}
    {head : Node} (leads : catalog.Leads link head) {a b : Record} (inside : a ∈ store link.head)
    (inside' : b ∈ store link.head) (first : link.refers row a = true)
    (second : link.refers row b = true) : a = b := by
  obtain ⟨target, stored, columns⟩ := Edge.refers_iff.mp first
  obtain ⟨target', stored', columns'⟩ := Edge.refers_iff.mp second
  refine consistent.eq_of_key_eq leads.node inside inside' (leads.key_eq_iff.mpr ?_)
  rw [columns, columns', ← stored, ← stored']

theorem Consistent.holds_edge_of_refers (consistent : store.Consistent catalog) {link : Edge}
    {node : Node} (leads : catalog.Leads link node) {head : Option Predicate}
    (inside : other ∈ store link.head) (refers : link.refers row other = true) :
    store.holds (.edge link head) row = store.holdsHead head other := by
  rw [holds]
  refine Bool.eq_iff_iff.mpr ?_
  rw [List.any_eq_true]
  constructor
  · rintro ⟨found, member, both⟩
    rw [Bool.and_eq_true] at both
    rw [consistent.eq_of_refers leads inside member refers both.1]
    exact both.2
  · intro holds
    exact ⟨other, inside, by rw [refers, holds]; rfl⟩

theorem holds_edge_of_target_eq_none {link : Edge} {head : Option Predicate}
    (nowhere : link.target row = none) : store.holds (.edge link head) row = false := by
  rw [holds, List.any_eq_false]
  intro other _
  simp [Edge.refers, nowhere]

end Store

namespace Samples

/-- People with their tasks: the smallest catalog that has an edge and a reverse edge. -/
def board : CatalogDefinition := [
  ⟨"Person", "people", [field "id" .int], [unique ["id"]], [⟨"tasks", "Task.owner"⟩]⟩,
  ⟨"Task", "tasks", [field "id" .int, optionalLink "owner" "Person"], [unique ["id"]], []⟩]

def owner : Edge := ⟨"Task", "owner", "Person", true, [⟨"id", "owner_id"⟩]⟩

def tasks : ReverseEdge := ⟨"Person", "tasks", .multiple, owner⟩

def person : Node :=
  ⟨"Person", "people", [.leaf ⟨"Person", "id", "id", .int, false⟩], [tasks], [⟨"id", ["id"]⟩],
    ⟨"id", ["id"]⟩⟩

def task : Node :=
  ⟨"Task", "tasks", [.leaf ⟨"Task", "id", "id", .int, false⟩, .edge owner], [], [⟨"id", ["id"]⟩],
    ⟨"id", ["id"]⟩⟩

def boardCatalog : Catalog := ⟨[person, task]⟩

theorem build_board : board.build = .ok boardCatalog := rfl

def ada : Record := [("id", .int 1)]

def chore : Record := [("id", .int 7), ("owner", .record ada)]

/-- One person, who is given a task. -/
def people (assigned : List Record) : Store
  | "Person" => [ada]
  | "Task" => assigned
  | _ => []

theorem node?_cases {name : String} {node : Node}
    (found : boardCatalog.node? name = some node) :
    (name = "Person" ∧ node = person) ∨ (name = "Task" ∧ node = task) := by
  have named := Catalog.name_of_node? found
  have inside : node ∈ [person, task] := List.mem_of_find?_eq_some found
  simp only [List.mem_cons, List.not_mem_nil, or_false] at inside
  rcases inside with rfl | rfl
  · exact Or.inl ⟨named.symm, rfl⟩
  · exact Or.inr ⟨named.symm, rfl⟩

theorem ada_identifies : boardCatalog.Identifies owner ada := by
  intro head found field inside
  rcases node?_cases found with ⟨-, rfl⟩ | ⟨same, -⟩
  · cases List.mem_singleton.mp (show Component.leaf field ∈ [_] from inside)
    exact ⟨.int 1, rfl, rfl⟩
  · exact absurd same (by decide)

theorem consistent_people {assigned : List Record} (few : assigned = [] ∨ assigned = [chore]) :
    (people assigned).Consistent boardCatalog := by
  refine ⟨?_, ?_, ?_⟩
  · intro name node found row inside component member
    rcases node?_cases found with ⟨rfl, rfl⟩ | ⟨rfl, rfl⟩
    · cases List.mem_singleton.mp (show row ∈ [ada] from inside)
      cases List.mem_singleton.mp member
      exact ⟨.int 1, rfl, rfl⟩
    · rcases few with rfl | rfl
      · cases inside
      · cases List.mem_singleton.mp (show row ∈ [chore] from inside)
        rcases List.mem_cons.mp member with rfl | later
        · exact ⟨.int 7, rfl, rfl⟩
        · cases List.mem_singleton.mp later
          exact Or.inr ⟨ada, rfl, ada_identifies⟩
  · intro name node found row inside link member target leads
    rcases node?_cases found with ⟨rfl, rfl⟩ | ⟨rfl, rfl⟩
    · cases List.mem_singleton.mp member
    · rcases few with rfl | rfl
      · cases inside
      · cases List.mem_singleton.mp (show row ∈ [chore] from inside)
        rcases List.mem_cons.mp member with same | later
        · cases same
        · cases List.mem_singleton.mp later
          exact ⟨ada, List.mem_singleton_self ada, leads⟩
  · intro name node found
    rcases node?_cases found with ⟨rfl, rfl⟩ | ⟨rfl, rfl⟩
    · exact List.nodup_singleton _
    · rcases few with rfl | rfl
      · exact List.nodup_nil
      · exact List.nodup_singleton _

end Samples

end LiveQuery
