import LiveQuery.Proofs.Value.Atom
import LiveQuery.Sql.Compilation
import Mathlib.Logic.Function.Basic

/-!
What a server makes of joins and conditions. Of a row a condition is true, false or unknown. A
comparison with null is unknown unless it is null-safe, and so is what a connective makes of an
unknown operand unless another operand settles it. Literals are compared exactly.
-/

set_option autoImplicit false

namespace LiveQuery

/-- Order of two scalars of one type. Nothing compares with null. -/
def Atom.compare? : Atom → Atom → Option Ordering
  | .boolean a, .boolean b => some (Ord.compare a b)
  | .int a, .int b => some (Ord.compare a.toInt b.toInt)
  | .float a, .float b => some (Ord.compare a b)
  | .string a, .string b => some (Ord.compare a b)
  | .instant a, .instant b => some (a.compare b)
  | _, _ => none

/-- The instant that a text with microseconds stands for. There is none for a leap second. -/
def Instant.toMicrosecond? (instant : Instant) : Option Instant :=
  if inside : instant.nanos < nanosPerSecond then
    some ⟨instant.seconds, instant.nanos / 1000 * 1000, by unfold nanosPerSecond at inside; omega⟩
  else none

namespace Sql

/-- What the columns of a row hold, by their names. -/
abbrev Row := String → Atom

/-- The rows of every table. -/
abbrev Database := String → List Row

/-- The rows that the aliases of a statement stand for. An alias of a subquery hides the same alias
of the query around it. -/
abbrev Scope := String → Row

/-- True, false or unknown. -/
abbrev Truth := Option Bool

def Row.null : Row := fun _ => .null

def Scope.value (scope : Scope) (column : Column) : Atom := scope column.table.text column.name.text

/-- An operand that differs from the junction's unit settles it; without one, an unknown operand
leaves it unknown. -/
def Truth.join (kind : Junction) (operands : List Truth) : Truth :=
  if some (!kind.unit) ∈ operands then some (!kind.unit)
  else if none ∈ operands then none
  else some kind.unit

def Literal.value : Literal → Atom
  | .null => .null
  | .boolean value => .boolean value
  | .int value => .int value
  | .float (.finite negative magnitude) => .float (Binary64.signedUnits negative magnitude)
  | .float _ => .null
  | .string value => .string value
  | .instant value =>
    match value.toMicrosecond? with
    | some cut => .instant cut
    | none => .null

def Operator.truth : Operator → Atom → Atom → Truth
  | .compared comparison, a, b => (a.compare? b).map comparison.holds
  | .nullSafe, a, b =>
    if a = .null ∨ b = .null then some (decide (a = b)) else (a.compare? b).map Ordering.isEq

def Match.truth (scope : Scope) (pair : Match) : Truth :=
  (Operator.compared .eq).truth (scope.value pair.left) (scope.value pair.right)

/-- The conditions of a clause, all of which have to be true. -/
def Truth.select (conditions : List Truth) : Bool := Truth.join .all conditions = some true

/-- The rows of the joined table that match. -/
def LeftJoin.partners (database : Database) (join : LeftJoin) (scope : Scope) : List Row :=
  (database join.table.table.text).filter fun row =>
    Truth.select (join.matching.map
      (Match.truth (Function.update scope join.table.label.text row)))

/-- A row together with each of its partners, or with a row of nulls if it has none. -/
def LeftJoin.extend (database : Database) (join : LeftJoin) (scope : Scope) : List Scope :=
  let rows :=
    match join.partners database scope with
    | [] => [Row.null]
    | partners => partners
  rows.map (Function.update scope join.table.label.text)

def LeftJoin.extendAll (database : Database) : List LeftJoin → Scope → List Scope
  | [], scope => [scope]
  | join :: rest, scope => (join.extend database scope).flatMap (extendAll database rest)

/-- The rows of a source, each with what is joined to it. -/
def Source.scopes (database : Database) (source : Source) (outer : Scope) : List Scope :=
  (database source.table.table.text).flatMap fun row =>
    LeftJoin.extendAll database source.joins (Function.update outer source.table.label.text row)

/-- The child rows that match the row of the enclosing query and pass further tests. -/
def Children.selected (database : Database) (children : Children) (tests : Scope → List Truth)
    (outer : Scope) : List Scope :=
  (children.source.scopes database outer).filter fun inner =>
    Truth.select (children.matching.map (Match.truth inner) ++ tests inner)

namespace Condition

mutual

/-- Of full-text searches and of conditions that were written by hand nothing is known. -/
def truth (database : Database) : Condition → Scope → Truth
  | .constant value, _ => some value
  | .junction kind operands, scope => Truth.join kind (truths database operands scope)
  | .negation operand, scope => (truth database operand scope).map not
  | .compared column operator literal, scope => operator.truth (scope.value column) literal.value
  | .isNull column, scope => some (decide (scope.value column = .null))
  | .isSet column, scope => some (decide (scope.value column ≠ .null))
  | .among column literals, scope =>
    Truth.join .any (literals.map fun literal =>
      (Operator.compared .eq).truth (scope.value column) literal.value)
  | .fullText _ _, _ => none
  | .linked foreignKey head, scope =>
    Truth.join .all (foreignKey.map (fun column => some (decide (scope.value column ≠ .null))) ++
      truthOption database head scope)
  | .anyChild children filter, scope =>
    some !(children.selected database (truthOption database filter) scope).isEmpty
  | .childCount children comparison number, scope =>
    some (comparison.holds
      (compare (children.selected database (fun _ => []) scope).length number))
  | .raw _ _, _ => none

def truths (database : Database) : List Condition → Scope → List Truth
  | [], _ => []
  | operand :: rest, scope => truth database operand scope :: truths database rest scope

def truthOption (database : Database) : Option Condition → Scope → List Truth
  | none, _ => []
  | some condition, scope => [truth database condition scope]

end

end Condition

namespace Truth

variable {kind : Junction} {operands rest : List Truth}

@[simp] theorem join_nil : join kind [] = some kind.unit := by simp [join]

theorem join_cons_some (value : Bool) (rest : List Truth) :
    join kind (some value :: rest) = if value = kind.unit then join kind rest
      else some (!kind.unit) := by
  unfold join
  cases kind <;> cases value <;> simp [Junction.unit]

theorem join_all_true (rest : List Truth) : join .all (some true :: rest) = join .all rest := by
  rw [join_cons_some]
  rfl

theorem join_singleton (truth : Truth) : join kind [truth] = truth := by
  cases truth with
  | none => simp [join]
  | some value => rw [join_cons_some, join_nil]; cases kind <;> cases value <;> rfl

theorem join_of_mem (settles : some (!kind.unit) ∈ operands) :
    join kind operands = some (!kind.unit) := if_pos settles

theorem join_all_of_forall (each : ∀ operand ∈ operands, operand = some true) (rest : List Truth) :
    join .all (operands ++ rest) = join .all rest := by
  induction operands with
  | nil => rfl
  | cons operand others ih =>
    rw [List.forall_mem_cons] at each
    rw [List.cons_append, each.1, join_all_true, ih each.2]

theorem join_any_map {α : Type} (items : List α) (test : α → Bool) :
    join .any (items.map fun item => some (test item)) = some (items.any test) := by
  induction items with
  | nil => rfl
  | cons item others ih =>
    rw [List.map_cons, join_cons_some, ih, List.any_cons]
    cases test item <;> rfl

theorem select_append : select (operands ++ rest) = (select operands && select rest) := by
  unfold select
  induction operands with
  | nil => simp [join_nil, Junction.unit]
  | cons operand others ih =>
    cases operand with
    | none =>
      have open_ (others : List Truth) : join .all (none :: others) ≠ some true := by
        unfold join
        split <;> simp [Junction.unit]
      simp [open_]
    | some value =>
      rw [List.cons_append, join_cons_some, join_cons_some]
      cases value
      · simp [Junction.unit]
      · simpa [Junction.unit] using ih

theorem select_eq_true_iff :
    select operands = true ↔ ∀ operand ∈ operands, operand = some true := by
  induction operands with
  | nil => simp [select, join_nil, Junction.unit]
  | cons operand others ih =>
    rw [← List.singleton_append, select_append, Bool.and_eq_true, ih, List.singleton_append,
      List.forall_mem_cons]
    simp only [select, join_singleton, decide_eq_true_eq]

end Truth

namespace Condition

variable {database : Database} {scope : Scope}

@[simp] theorem truth_junction (kind : Junction) (operands : List Condition) :
    truth database (.junction kind operands) scope =
      Truth.join kind (truths database operands scope) := rfl

@[simp] theorem truth_negation (operand : Condition) :
    truth database (.negation operand) scope = (truth database operand scope).map not := rfl

@[simp] theorem truth_compared (column : Column) (operator : Operator) (literal : Literal) :
    truth database (.compared column operator literal) scope =
      operator.truth (scope.value column) literal.value := rfl

@[simp] theorem truth_isNull (column : Column) :
    truth database (.isNull column) scope = some (decide (scope.value column = .null)) := rfl

@[simp] theorem truth_isSet (column : Column) :
    truth database (.isSet column) scope = some (decide (scope.value column ≠ .null)) := rfl

@[simp] theorem truth_among (column : Column) (literals : List Literal) :
    truth database (.among column literals) scope =
      Truth.join .any (literals.map fun literal =>
        (Operator.compared .eq).truth (scope.value column) literal.value) := rfl

@[simp] theorem truth_linked (foreignKey : List Column) (head : Option Condition) :
    truth database (.linked foreignKey head) scope =
      Truth.join .all (foreignKey.map (fun column => some (decide (scope.value column ≠ .null))) ++
        truthOption database head scope) := rfl

@[simp] theorem truth_anyChild (children : Children) (filter : Option Condition) :
    truth database (.anyChild children filter) scope =
      some !(children.selected database (truthOption database filter) scope).isEmpty := rfl

@[simp] theorem truth_childCount (children : Children) (comparison : Comparison) (number : Nat) :
    truth database (.childCount children comparison number) scope =
      some (comparison.holds
        (compare (children.selected database (fun _ => []) scope).length number)) := rfl

@[simp] theorem truthOption_none : truthOption database none scope = [] := rfl

@[simp] theorem truthOption_some (condition : Condition) :
    truthOption database (some condition) scope = [truth database condition scope] := rfl

theorem truths_eq_map (operands : List Condition) :
    truths database operands scope = operands.map fun operand => truth database operand scope := by
  induction operands with
  | nil => rfl
  | cons operand rest ih => exact congrArg _ ih

end Condition

namespace LeftJoin

variable {database : Database}

theorem extendAll_append (joins more : List LeftJoin) (scope : Scope) :
    extendAll database (joins ++ more) scope =
      (extendAll database joins scope).flatMap (extendAll database more) := by
  induction joins generalizing scope with
  | nil => rw [List.nil_append, extendAll, List.flatMap_singleton]
  | cons join rest ih =>
    rw [List.cons_append, extendAll, extendAll, List.flatMap_assoc, funext ih]

end LeftJoin

end Sql

theorem Atom.compare?_eq_some_eq_iff {a b : Atom} :
    a.compare? b = some .eq ↔ a = b ∧ a ≠ .null := by
  cases a <;> cases b <;>
    simp [Atom.compare?, Instant.compare_eq_eq_iff, Std.LawfulEqCmp.compare_eq_iff_eq,
      Int64.toInt_inj]

end LiveQuery
