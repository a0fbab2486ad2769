import LiveQuery.Proofs.Filter.Reduction
import LiveQuery.Proofs.Store.Basic

set_option autoImplicit false

namespace LiveQuery

/-- Somewhere in the record of a node an edge is null that the catalog says must be set. -/
inductive Catalog.Misses (catalog : Catalog) : String → Record → Prop
  | here {name : String} {node : Node} {link : Edge} {record : Record} :
      catalog.node? name = some node → node.component? link.name = some (.edge link) →
        link.nullable = false → record.get? link.name = some .null → Misses catalog name record
  | head {name : String} {node : Node} {link : Edge} {record inner : Record} :
      catalog.node? name = some node → node.component? link.name = some (.edge link) →
        record.get? link.name = some (.record inner) → Misses catalog link.head inner →
          Misses catalog name record
  | listed {name : String} {node : Node} {relation : ReverseEdge} {record inner : Record}
      {value : Value} :
      catalog.node? name = some node → node.reverseEdge? relation.name = some relation →
        record.get? relation.name = some value → Predicate.HoldsHead value inner →
          Misses catalog relation.head inner → Misses catalog name record

namespace Predicate

variable {catalog : Catalog}

mutual

/-- Every relation that a predicate on a node follows is one that the catalog gives the node. -/
def Follows (catalog : Catalog) (node : String) : Predicate → Prop
  | .junction _ operands => FollowsAll catalog node operands
  | .negation operand => Follows catalog node operand
  | .edge link head =>
    (catalog.node? node).bind (·.component? link.name) = some (.edge link) ∧
      FollowsHead catalog link.head head
  | .reverse relation head =>
    (catalog.node? node).bind (·.reverseEdge? relation.name) = some relation ∧
      FollowsHead catalog relation.head head
  | _ => True

def FollowsAll (catalog : Catalog) (node : String) : List Predicate → Prop
  | [] => True
  | operand :: rest => Follows catalog node operand ∧ FollowsAll catalog node rest

def FollowsHead (catalog : Catalog) (node : String) : Option Predicate → Prop
  | none => True
  | some head => Follows catalog node head

end

theorem followsAll_iff {node : String} {operands : List Predicate} :
    FollowsAll catalog node operands ↔ ∀ operand ∈ operands, Follows catalog node operand := by
  induction operands with
  | nil => simp [FollowsAll]
  | cons operand rest ih => rw [FollowsAll, ih, List.forall_mem_cons]

/-- Where no edge is null that must be set, a predicate reads none. -/
theorem respects_of_not_misses {predicate : Predicate} {node : String} {record : Record}
    (follows : predicate.Follows catalog node) (whole : ¬catalog.Misses node record) :
    predicate.Respects record := by
  induction predicate generalizing node record with
  | junction kind operands ih =>
    exact respectsAll_iff.mpr fun operand inside =>
      ih operand inside (followsAll_iff.mp follows operand inside) whole
  | negation operand ih => exact ih follows whole
  | edge link head ih =>
    obtain ⟨definition, found, component⟩ := Option.bind_eq_some_iff.mp follows.1
    refine ⟨fun required null => whole (.here found component required null), ?_⟩
    intro inner known
    cases head with
    | none => trivial
    | some head =>
      exact ih head rfl follows.2 fun missing => whole (.head found component known missing)
  | reverse relation head ih =>
    obtain ⟨definition, found, related⟩ := Option.bind_eq_some_iff.mp follows.1
    intro value known inner held
    cases head with
    | none => trivial
    | some head =>
      exact ih head rfl follows.2 fun missing => whole (.listed found related known held missing)
  | constant | leaf | count | raw => trivial

end Predicate

/-- Whatever a filter evaluates to on a record in which all edges are set that must be, so does its
reduction, whether the record is full or not. -/
theorem Filter.execute_reduced {catalog : Catalog} {filter : Filter} {record : Record}
    {value : Bool} (follows : filter.predicate.Follows catalog filter.node.name)
    (whole : ¬catalog.Misses filter.node.name record)
    (evaluated : filter.execute record = .ok value) :
    filter.reduced.execute record = .ok value :=
  Predicate.evaluate_reduced evaluated (Predicate.respects_of_not_misses follows whole)

namespace Samples

def duty : Edge := { owner with nullable := false }

/-- A task that cannot be without an owner. -/
def errand : Node :=
  { task with components := [.leaf ⟨"Task", "id", "id", .int, false⟩, .edge duty] }

def dutyCatalog : Catalog := ⟨[person, errand]⟩

/-- Nothing is known of the task but that it has an owner, and nothing of the owner. -/
def owned : Record := [("owner", .record [])]

/-- What is not known, or cannot be told in memory, is not looked at. -/
def assigned : Filter :=
  ⟨errand, .junction .any [.edge duty none, .leaf ⟨"Task", "id", "id", .int, false⟩ (.compared .eq)
    (.int 7), .raw "1"]⟩

end Samples

open Samples

theorem Filter.execute_reduced_assigned :
    assigned.reduced.predicate = .constant true ∧ assigned.reduced.execute owned = .ok true := by
  have whole : ¬dutyCatalog.Misses "Task" owned := by
    have entry : ∀ {key value}, owned.get? key = some value → value = .record [] := by
      intro key value found
      unfold owned Entries.get? at found
      split at found <;> cases found
      rfl
    have empty : ∀ {name}, ¬dutyCatalog.Misses name [] := by
      rintro name (⟨_, _, _, found⟩ | ⟨_, _, found, _⟩ | ⟨_, _, found, _, _⟩) <;> cases found
    rintro (⟨_, _, _, found⟩ | ⟨_, _, found, missing⟩ | ⟨_, _, found, held, missing⟩)
    · cases entry found
    · cases entry found
      exact empty missing
    · cases entry found
      rcases held with same | ⟨_, same, _⟩ <;> cases same
      exact empty missing
  have follows : assigned.predicate.Follows dutyCatalog "Task" :=
    ⟨⟨rfl, trivial⟩, trivial, trivial, trivial⟩
  exact ⟨rfl, Filter.execute_reduced follows whole rfl⟩

end LiveQuery
