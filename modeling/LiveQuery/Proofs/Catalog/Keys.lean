import LiveQuery.Proofs.Catalog.Consistent
import LiveQuery.Proofs.Filter.Declared
import LiveQuery.Proofs.Filter.Entries
import LiveQuery.Selection.Projection

set_option autoImplicit false

namespace LiveQuery

namespace Predicate

/-- What a condition reads of a record itself; heads are records of their own. A number of heads is
read of their list where the record has none. -/
inductive LooksUp : Predicate → KeyPart → Prop
  | junction {kind : Junction} {operands : List Predicate} {operand : Predicate} {part : KeyPart}
    (inside : operand ∈ operands) (looks : LooksUp operand part) : LooksUp (.junction kind operands) part
  | negation {operand : Predicate} {part : KeyPart} (looks : LooksUp operand part) :
    LooksUp (.negation operand) part
  | leaf {field : Leaf} {operator : LeafOperator} {value : Value} :
    LooksUp (.leaf field operator value) (.component (.leaf field))
  | edge {link : Edge} {head : Option Predicate} : LooksUp (.edge link head) (.component (.edge link))
  | reverse {relation : ReverseEdge} {head : Option Predicate} :
    LooksUp (.reverse relation head) (.relation relation)
  | count {relation : ReverseEdge} {comparison : Comparison} {number : Nat} :
    LooksUp (.count relation comparison number) (.count relation)
  | listed {relation : ReverseEdge} {comparison : Comparison} {number : Nat} :
    LooksUp (.count relation comparison number) (.relation relation)

variable {a b : Record} {node : String}

theorem require_congr (key : String) (same : a.get? key = b.get? key) :
    a.require node key = b.require node key := by
  unfold Record.require
  rw [same]

mutual

/-- Records that agree on what a condition reads meet it alike. -/
theorem evaluate_congr : ∀ {predicate : Predicate},
    (∀ part, predicate.LooksUp part → a.get? part.key = b.get? part.key) →
      predicate.evaluate node a = predicate.evaluate node b
  | .constant _, _ => rfl
  | .raw _, _ => rfl
  | .junction kind operands, agree => by
    rw [evaluate, evaluate]
    exact evaluateAll_congr fun operand inside part looks => agree part (.junction inside looks)
  | .negation operand, agree => by
    rw [evaluate, evaluate, evaluate_congr fun part looks => agree part (.negation looks)]
  | .leaf field operator value, agree => by
    rw [evaluate, evaluate, require_congr field.name (agree _ .leaf)]
  | .edge link head, agree => by
    rw [evaluate, evaluate, require_congr link.name (agree _ .edge)]
  | .reverse relation head, agree => by
    rw [evaluate, evaluate, require_congr relation.name (agree _ .reverse)]
  | .count relation comparison number, agree => by
    have counts : a.get? relation.countKey = b.get? relation.countKey := agree _ .count
    rw [evaluate, evaluate, countOf, countOf, counts,
      require_congr relation.name (agree _ .listed)]

theorem evaluateAll_congr {kind : Junction} : ∀ {operands : List Predicate},
    (∀ operand ∈ operands, ∀ part, operand.LooksUp part → a.get? part.key = b.get? part.key) →
      evaluateAll node kind operands a = evaluateAll node kind operands b
  | [], _ => by rw [evaluateAll, evaluateAll]
  | operand :: rest, agree => by
    rw [evaluateAll, evaluateAll, evaluate_congr (agree operand (List.mem_cons_self ..)),
      evaluateAll_congr fun other inside => agree other (List.mem_cons_of_mem _ inside)]

end

section Inputs

variable {catalog : Catalog} {node : Node} {part : KeyPart}

theorem looksUp_negatedIf {negated : Bool} {predicate : Predicate}
    (looks : (negatedIf negated predicate).LooksUp part) : predicate.LooksUp part := by
  cases negated with
  | false => exact looks
  | true =>
    cases looks with
    | negation looks => exact looks

theorem looksUp_quantify {relation : ReverseEdge} {quantifier : Quantifier} {head : Predicate}
    (looks : (quantify relation quantifier head).LooksUp part) : part = .relation relation := by
  cases quantifier with
  | some =>
    cases looks
    rfl
  | every | none =>
    cases looks with
    | negation looks =>
      cases looks
      rfl

theorem OfEntry.mem_parts {path : String} {value : Json} {reading : FilterKey}
    {condition : Predicate} (entry : OfEntry catalog node path value reading condition)
    (known : reading.PartOf node)
    (inner : ∀ {condition}, parse catalog node path value = .ok condition →
      condition.LooksUp part → part ∈ node.parts)
    (operands : ∀ {conditions}, parseOperands catalog node path value = .ok conditions →
      ∀ operand ∈ conditions, operand.LooksUp part → part ∈ node.parts)
    (looks : condition.LooksUp part) : part ∈ node.parts := by
  cases entry with
  | junction below =>
    cases looks with
    | junction inside looks => exact operands below _ inside looks
  | negation below =>
    cases looks with
    | negation looks => exact inner below looks
  | @leaf field' operator filter made =>
    obtain ⟨field, named, made⟩ := Outcome.bind_eq_ok.mp made
    obtain ⟨operand, -, same⟩ := Outcome.bind_eq_ok.mp made
    cases same
    cases looks
    have found : node.leaf field'.name = .ok field' := by rw [Node.leaf, known]
    cases found.symm.trans (SelectionField.lift_eq_ok named)
    exact Node.component_mem_parts known
  | noEdge =>
    cases looksUp_negatedIf looks with
    | negation looks =>
      cases looks
      exact Node.component_mem_parts known
  | edge =>
    cases looksUp_negatedIf looks
    exact Node.component_mem_parts known
  | noReverse =>
    cases looks with
    | negation looks =>
      cases looks
      exact Node.relation_mem_parts known.1
  | reverse =>
    cases looks
    exact Node.relation_mem_parts known.1
  | quantified =>
    rw [looksUp_quantify looks]
    exact Node.relation_mem_parts known.1
  | @count relation comparison condition read =>
    unfold countInput at read
    split at read
    · obtain ⟨filter, counted, same⟩ := Outcome.bind_eq_ok.mp read
      cases same
      obtain ⟨_, named, made⟩ := Outcome.bind_eq_ok.mp counted
      have found : node.reverseEdge relation.name = .ok relation := by rw [Node.reverseEdge, known]
      cases found.symm.trans (SelectionField.lift_eq_ok named)
      split at made
      · rename_i many
        cases made
        cases looks with
        | count => exact Node.count_mem_parts known many
        | listed => exact Node.relation_mem_parts known
      · cases made
    · cases read

mutual

theorem mem_parts_of_parse {path : String} {predicate : Predicate} : ∀ {input : Json},
    parse catalog node path input = .ok predicate → predicate.LooksUp part → part ∈ node.parts
  | .null, read, looks => by
    rw [parse] at read
    cases read
    cases looks
  | .object entries, read, looks => by
    rw [parse] at read
    obtain ⟨operands, below, read⟩ := Outcome.bind_eq_ok.mp read
    cases read
    cases looks with
    | junction inside looks => exact mem_parts_of_parseEntries below _ inside looks
  | .boolean _, read, _ | .integer _, read, _ | .float _, read, _ | .string _, read, _
  | .array _, read, _ => by
    rw [parse] at read
    cases read
    all_goals simp

theorem mem_parts_of_parseEntries {path : String} {operands : List Predicate} :
    ∀ {entries : List (String × Json)}, parseEntries catalog node path entries = .ok operands →
      ∀ operand ∈ operands, operand.LooksUp part → part ∈ node.parts
  | [], read, _, inside, _ => by
    rw [parseEntries] at read
    cases read
    cases inside
  | (key, value) :: rest, read, operand, inside, looks => by
    obtain ⟨reading, condition, others, resolved, entry, behind, rfl⟩ :=
      ofEntry_of_parseEntries read
    rcases List.mem_cons.mp inside with rfl | later
    · exact entry.mem_parts (FilterKey.partOf_of_resolve? resolved)
        (fun below looks => mem_parts_of_parse below looks)
        (fun below => mem_parts_of_parseOperands below) looks
    · exact mem_parts_of_parseEntries behind operand later looks

theorem mem_parts_of_parseOperands {path : String} {operands : List Predicate} :
    ∀ {input : Json}, parseOperands catalog node path input = .ok operands →
      ∀ operand ∈ operands, operand.LooksUp part → part ∈ node.parts
  | .array items, read, operand, inside, looks => by
    rw [parseOperands] at read
    exact mem_parts_of_parseItems read operand inside looks
  | .object entries, read, operand, inside, looks => by
    rw [parseOperands] at read
    obtain ⟨conditions, below, read⟩ := Outcome.bind_eq_ok.mp read
    cases read
    cases List.mem_singleton.mp inside
    cases looks with
    | junction inside looks => exact mem_parts_of_parseEntries below _ inside looks
  | .null, read, _, _, _ | .boolean _, read, _, _, _ | .integer _, read, _, _, _
  | .float _, read, _, _, _ | .string _, read, _, _, _ => by
    rw [parseOperands] at read
    cases read
    all_goals simp

theorem mem_parts_of_parseItems {path : String} {operands : List Predicate} :
    ∀ {index : Nat} {items : List Json}, parseItems catalog node path index items = .ok operands →
      ∀ operand ∈ operands, operand.LooksUp part → part ∈ node.parts
  | _, [], read, _, inside, _ => by
    rw [parseItems] at read
    cases read
    cases inside
  | _, item :: rest, read, operand, inside, looks => by
    rw [parseItems] at read
    obtain ⟨first, made, read⟩ := Outcome.bind_eq_ok.mp read
    obtain ⟨others, below, read⟩ := Outcome.bind_eq_ok.mp read
    cases read
    rcases List.mem_cons.mp inside with rfl | later
    · exact mem_parts_of_parse made looks
    · exact mem_parts_of_parseItems below operand later looks

end

end Inputs

end Predicate

namespace SortTarget

def part : SortTarget → KeyPart
  | .leaf field => .component (.leaf field)
  | .count relation => .count relation

theorem key_part (target : SortTarget) : target.part.key = target.key := by
  cases target <;> rfl

variable {node : Node} {name : String} {target : SortTarget}

theorem mem_parts (found : SortExpression.target? node name = some target) :
    target.part ∈ node.parts := by
  unfold SortExpression.target? at found
  split at found
  · rename_i known
    cases found
    exact Node.component_mem_parts (by rwa [Node.name_of_component? known])
  · obtain ⟨cut, -, found⟩ := Option.bind_eq_some_iff.mp found
    obtain ⟨relation, related, found⟩ := Option.bind_eq_some_iff.mp found
    obtain ⟨_, many, found⟩ := Option.bind_eq_some_iff.mp found
    cases found
    have named := (Catalog.WellFormed.mem_of_reverseEdge? related).2
    exact Node.count_mem_parts (by rw [named, related]) (by simpa [guard] using many)

theorem mem_parts_of_parse {items : List String} {order : SortOrder}
    (read : SortOrder.parse node items = .ok order) {expression : SortExpression}
    (inside : expression ∈ order.expressions) : expression.target.part ∈ node.parts := by
  obtain ⟨expressions, each, made⟩ := Outcome.bind_eq_ok.mp read
  have same : order.expressions = expressions := by
    unfold SortOrder.make at made
    split at made
    · cases made
    · cases made
      rfl
  rw [same] at inside
  obtain ⟨item, -, parsed⟩ := Outcome.exists_of_mem_mapM each inside
  unfold SortExpression.parse at parsed
  dsimp only at parsed
  split at parsed
  · cases parsed
  · split at parsed
    · rename_i found
      cases parsed
      exact mem_parts found
    · cases parsed

end SortTarget

/-- An order looks at its sort keys only. -/
theorem SortOrder.compareBy_congr {a a' b b' : Record} {expressions : List SortExpression}
    (agree : ∀ expression ∈ expressions,
      a.get? expression.target.part.key = a'.get? expression.target.part.key ∧
        b.get? expression.target.part.key = b'.get? expression.target.part.key) :
    compareBy a b expressions = compareBy a' b' expressions := by
  induction expressions with
  | nil => rfl
  | cons expression rest ih =>
    rw [List.forall_mem_cons, SortTarget.key_part] at agree
    have same : expression.compareRecords a b = expression.compareRecords a' b' := by
      unfold SortExpression.compareRecords SortExpression.key
      rw [agree.1.1, agree.1.2]
    rw [compareBy, compareBy, same, ih agree.2]

/-- A selection looks at the keys of its fields only. -/
theorem SelectionField.projectFields_of_agree {node : String} {a b : Record}
    {fields : List SelectionField}
    (agree : ∀ field ∈ fields, a.get? field.key = b.get? field.key) :
    projectFields node a fields = projectFields node b fields := by
  induction fields with
  | nil => rw [projectFields, projectFields]
  | cons field rest ih =>
    rw [List.forall_mem_cons] at agree
    rw [projectFields, projectFields, Predicate.require_congr field.key agree.1, ih agree.2]

namespace SelectionTarget

def part : SelectionTarget → KeyPart
  | .leaf field => .component (.leaf field)
  | .edge link => .component (.edge link)
  | .unique relation | .multiple relation => .relation relation
  | .count relation => .count relation

variable {node : Node} {name : String} {target : SelectionTarget}

/-- What a name is resolved to has the name as its key. -/
theorem mem_parts (resolved : resolve? node name = some target) :
    target.part ∈ node.parts ∧ target.part.key = name := by
  unfold resolve? at resolved
  cases component : node.component? name with
  | some known =>
    rw [component] at resolved
    have named := Node.name_of_component? component
    have inside : KeyPart.component known ∈ node.parts :=
      Node.component_mem_parts (by rw [named, component])
    cases known <;> cases resolved <;> exact ⟨inside, named⟩
  | none =>
    cases reverse : node.reverseEdge? name with
    | some known =>
      rw [component, reverse] at resolved
      have named := (Catalog.WellFormed.mem_of_reverseEdge? reverse).2
      have inside : KeyPart.relation known ∈ node.parts :=
        Node.relation_mem_parts (by rw [named, reverse])
      cases many : known.multiplicity <;>
        simp only [Option.map_none, Option.map_some, ofReverseEdge, many,
          Option.orElse_eq_orElse] at resolved <;>
        cases resolved <;> exact ⟨inside, named⟩
    | none =>
      rw [component, reverse] at resolved
      obtain ⟨cut, split, found⟩ := Option.bind_eq_some_iff.mp resolved
      obtain ⟨relation, related, found⟩ := Option.bind_eq_some_iff.mp found
      obtain ⟨_, many, found⟩ := Option.bind_eq_some_iff.mp found
      cases found
      have named := (Catalog.WellFormed.mem_of_reverseEdge? related).2
      refine ⟨Node.count_mem_parts (by rw [named, related]) (by simpa [guard] using many), ?_⟩
      rw [Text.before?_eq_some_iff.mp split, ← named]
      rfl

end SelectionTarget

namespace Node

/-- What is looked up in records of a node: by the filters of where-inputs, by orders, under the
plain names of selection-inputs, and for components as such. -/
inductive LooksUp (catalog : Catalog) (node : Node) : KeyPart → Prop
  | filter {input : Json} {filter : Filter} {part : KeyPart}
    (parsed : Filter.parse catalog node input = .ok filter)
    (looks : filter.predicate.LooksUp part) : LooksUp catalog node part
  | order {items : List String} {order : SortOrder} {expression : SortExpression}
    (parsed : SortOrder.parse node items = .ok order) (inside : expression ∈ order.expressions) :
    LooksUp catalog node expression.target.part
  | selection {name : String} {target : SelectionTarget}
    (resolved : SelectionTarget.resolve? node name = some target) : LooksUp catalog node target.part
  | component {name : String} {component : Component}
    (found : node.component? name = some component) : LooksUp catalog node (.component component)

variable {catalog : Catalog} {node : Node}

theorem LooksUp.mem_parts {part : KeyPart} (looks : node.LooksUp catalog part) :
    part ∈ node.parts := by
  cases looks with
  | filter parsed looks =>
    obtain ⟨predicate, read, same⟩ := Outcome.bind_eq_ok.mp parsed
    cases same
    exact Predicate.mem_parts_of_parse read looks
  | order parsed inside => exact SortTarget.mem_parts_of_parse parsed inside
  | selection resolved => exact (SelectionTarget.mem_parts resolved).1
  | component found => exact component_mem_parts (by rwa [name_of_component? found])

/-- The keys of a node are apart exactly if no component and no reverse edge has the name of a
count; exactly then each key is one thing to whatever looks it up, and every count is meant by its
key in all inputs. -/
theorem nodup_keys_of_build {definitions : CatalogDefinition}
    (built : definitions.build = .ok catalog) (inside : node ∈ catalog.nodes) :
    ((node.parts.map KeyPart.key).Nodup ↔
      ∀ relation ∈ node.manifold, node.Undeclared relation.countKey) ∧
    ((node.parts.map KeyPart.key).Nodup ↔
      ∀ part ∈ node.parts, ∀ other ∈ node.parts, part.key = other.key → part = other) ∧
    ((node.parts.map KeyPart.key).Nodup ↔
      ∀ relation ∈ node.manifold, node.MeansCount relation) ∧
    (∀ field, .leaf field ∈ node.components → node.MeansLeaf field) ∧
    (∀ link, .edge link ∈ node.components → node.MeansEdge link) ∧
    (∀ part, node.LooksUp catalog part → part ∈ node.parts) ∧
    (∀ (filter : Filter) (a b : Record),
      (∀ part, filter.predicate.LooksUp part → a.get? part.key = b.get? part.key) →
        filter.execute a = filter.execute b) ∧
    (∀ (order : SortOrder) (a a' b b' : Record),
      (∀ expression ∈ order.expressions,
        a.get? expression.target.part.key = a'.get? expression.target.part.key ∧
          b.get? expression.target.part.key = b'.get? expression.target.part.key) →
        order.compare a b = order.compare a' b') ∧
    ∀ (selection : Selection) (a b : Record),
      (∀ field ∈ selection.fields, a.get? field.key = b.get? field.key) →
        selection.project a = selection.project b := by
  have consistent := (CatalogDefinition.consistent_of_build built).nodes node inside
  have distinct := consistent.distinct
  have component : ∀ component ∈ node.components,
      node.component? component.name = some component := fun component member =>
    Lists.find?_name_eq_some (List.nodup_append.mp distinct).1 member
  have relation : ∀ relation ∈ node.manifold,
      node.reverseEdge? relation.name = some relation ∧ relation.multiplicity = .multiple := by
    intro relation member
    obtain ⟨member, many⟩ := mem_manifold.mp member
    exact ⟨Lists.find?_name_eq_some (List.nodup_append.mp distinct).2.1 member, many⟩
  refine ⟨nodup_keys_iff distinct, nodup_keys_iff_unique distinct, ?_,
    fun field member => meansLeaf (component _ member),
    fun link member => meansEdge (component _ member), fun part => LooksUp.mem_parts,
    fun filter a b => Predicate.evaluate_congr, fun order a a' b b' => SortOrder.compareBy_congr,
    fun selection a b => SelectionField.projectFields_of_agree⟩
  rw [nodup_keys_iff distinct]
  exact forall₂_congr fun other member =>
    (meansCount_iff (relation other member).1 (relation other member).2).symm

end Node

namespace Samples

/-- Members have a lead, and a leaf that is called like the number of those they lead. -/
def crew : CatalogDefinition := [
  ⟨"Member", "members",
    [field "id" .int, optionalLink "lead" "Member", optional "reportsCount" .int],
    [unique ["id"]], [⟨"reports", "Member.lead"⟩]⟩]

def lead : Edge := ⟨"Member", "lead", "Member", true, [⟨"id", "lead_id"⟩]⟩

def reports : ReverseEdge := ⟨"Member", "reports", .multiple, lead⟩

def reportsCount : Leaf := ⟨"Member", "reportsCount", "reportsCount", .int, true⟩

def member : Node :=
  ⟨"Member", "members", [.leaf ⟨"Member", "id", "id", .int, false⟩, .edge lead, .leaf reportsCount],
    [reports], [⟨"id", ["id"]⟩], ⟨"id", ["id"]⟩⟩

end Samples

open Samples in
/-- The leaf takes the bare key of the count and leaves it the keys with endings. -/
theorem Node.nodup_keys_of_build_crew : crew.build = .ok ⟨[member]⟩ ∧
    ¬(member.parts.map KeyPart.key).Nodup ∧
    FilterKey.resolve? member "reportsCount" = some (.leaf reportsCount (.compared .eq)) ∧
    FilterKey.resolve? member "reportsCount_gt" = some (.count reports .gt) := by
  have built : crew.build = .ok ⟨[member]⟩ := rfl
  obtain ⟨apart, -⟩ := Node.nodup_keys_of_build built (List.mem_singleton_self member)
  refine ⟨built, fun distinct => ?_, rfl, rfl⟩
  have undeclared := apart.mp distinct reports (List.mem_singleton_self reports)
  cases undeclared.1

end LiveQuery
