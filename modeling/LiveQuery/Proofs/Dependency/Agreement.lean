import LiveQuery.Proofs.Dependency.Within
import LiveQuery.Proofs.Value.Same

set_option autoImplicit false

namespace LiveQuery

namespace Value

/-- Identical values, or values that compare as equal. A NaN is identical to itself without being
equal to itself. -/
def Equal (a b : Value) : Prop := a = b ∨ a.same b = true

theorem Equal.refl (a : Value) : Equal a a := Or.inl rfl

theorem compare?_left_of_same {a b : Value} (equal : a.same b = true) (other : Value) :
    a.compare? other = b.compare? other := by
  cases a with
  | float =>
    cases b with
    | float => cases other <;> simp only [compare?, Binary64.compare?_left_of_beq equal]
    | _ => cases equal
  | record => cases b <;> first | cases equal | (cases other <;> rfl)
  | list => cases b <;> first | cases equal | (cases other <;> rfl)
  | _ => cases b <;> simp_all [same]

theorem isNull_eq_of_same {a b : Value} (equal : a.same b = true) : a.isNull = b.isNull := by
  cases a <;> cases b <;> first | rfl | cases equal

theorem forall₂_of_sameItems {as bs : List Value} (equal : sameItems as bs = true) :
    List.Forall₂ Equal as bs := by
  induction as generalizing bs with
  | nil =>
    cases bs with
    | nil => exact .nil
    | cons => cases equal
  | cons a as ih =>
    cases bs with
    | nil => cases equal
    | cons b bs =>
      simp only [sameItems, Bool.and_eq_true] at equal
      exact .cons (Or.inr equal.1) (ih equal.2)

theorem rel_get?_of_equal {a b : Record} (equal : Equal (.record a) (.record b)) (key : String) :
    Option.Rel Equal (a.get? key) (b.get? key) := by
  rcases equal with identical | same
  · rw [Value.record.inj identical]
    cases b.get? key with
    | none => exact .none
    | some value => exact .some (Equal.refl value)
  · rcases get?_of_sameFields same key with ⟨absent, absent'⟩ | ⟨value, other, found, found', same⟩
    · rw [absent, absent']
      exact .none
    · rw [found, found']
      exact .some (Or.inr same)

/-- What relations hold agrees if the nodes in corresponding places do. -/
inductive Related (Heads : Record → Record → Prop) : Value → Value → Prop
  | null : Related Heads .null .null
  | record {a b : Record} (heads : Heads a b) : Related Heads (.record a) (.record b)
  | list {as bs : List Value} (items : List.Forall₂ (Related Heads) as bs) :
    Related Heads (.list as) (.list bs)
  | equal {a b : Value} (equal : Equal a b) : Related Heads a b

variable {Heads Other : Record → Record → Prop}

mutual

theorem Related.imp (weaker : ∀ a b, Heads a b → Other a b) : ∀ {a b : Value},
    Related Heads a b → Related Other a b
  | _, _, .null => .null
  | _, _, .record heads => .record (weaker _ _ heads)
  | _, _, .list items => .list (Related.impAll weaker items)
  | _, _, .equal same => .equal same

theorem Related.impAll (weaker : ∀ a b, Heads a b → Other a b) : ∀ {as bs : List Value},
    List.Forall₂ (Related Heads) as bs → List.Forall₂ (Related Other) as bs
  | _, _, .nil => .nil
  | _, _, .cons first rest => .cons (Related.imp weaker first) (Related.impAll weaker rest)

end

theorem rel_imp {R S : Value → Value → Prop} {a b : Option Value} (weaker : ∀ a b, R a b → S a b)
    (related : Option.Rel R a b) : Option.Rel S a b := by
  cases related with
  | none => exact .none
  | some values => exact .some (weaker _ _ values)

end Value

namespace Sorted

variable {α : Type}

theorem mem_keys_alter {entries : List (String × α)} {name other : String}
    {change : Option α → α} :
    other ∈ keys (alter entries name change) ↔ other = name ∨ other ∈ keys entries := by
  obtain ⟨front, back, old, whole, altered⟩ := alter_spec entries name change
  rw [altered, whole]
  cases old with
  | none => simp [keys, or_left_comm]
  | some present =>
    simp only [keys, Option.map_some, Option.toList_some, List.map_append, List.map_cons,
      List.map_nil, List.mem_append, List.mem_cons, List.not_mem_nil, or_false]
    tauto

end Sorted

namespace DependencyGraph

mutual

/-- Two records that a read of what the graph lists cannot tell apart. Behind a reverse edge the
count of its heads may be read instead of the heads. -/
def Agree : DependencyGraph → Record → Record → Prop
  | ⟨_, _, leaves, edges, reverseEdges⟩, a, b =>
    (∀ leaf ∈ leaves, Option.Rel Value.Equal (a.get? leaf) (b.get? leaf)) ∧
      AgreeBehind edges a b ∧ AgreeBehind reverseEdges a b ∧
        ∀ name ∈ Sorted.keys reverseEdges,
          Option.Rel Value.Equal (a.get? (name ++ "Count")) (b.get? (name ++ "Count"))

def AgreeBehind : List (String × DependencyGraph) → Record → Record → Prop
  | [], _, _ => True
  | (name, graph) :: rest, a, b =>
    Option.Rel (Value.Related (Agree graph)) (a.get? name) (b.get? name) ∧ AgreeBehind rest a b

end

variable {a b : Record}

theorem agreeBehind_iff {relations : List (String × DependencyGraph)} :
    AgreeBehind relations a b ↔ ∀ entry ∈ relations,
      Option.Rel (Value.Related (Agree entry.2)) (a.get? entry.1) (b.get? entry.1) := by
  induction relations with
  | nil => simp [AgreeBehind]
  | cons entry rest ih => rw [AgreeBehind, ih, List.forall_mem_cons]

theorem agree_of_equal (equal : Value.Equal (.record a) (.record b)) (graph : DependencyGraph) :
    graph.Agree a b := by
  have entries := Value.rel_get?_of_equal equal
  have related (heads : Record → Record → Prop) (name : String) :
      Option.Rel (Value.Related heads) (a.get? name) (b.get? name) :=
    Value.rel_imp (fun _ _ => .equal) (entries name)
  cases graph with
  | mk node hidden leaves edges reverseEdges =>
    refine ⟨fun leaf _ => entries leaf, ?_, ?_, fun name _ => entries _⟩
    · exact agreeBehind_iff.mpr fun entry _ => related _ entry.1
    · exact agreeBehind_iff.mpr fun entry _ => related _ entry.1

/-- Agreement behind altered relations is agreement behind the present ones, and behind what the
altered entry has become. -/
theorem agreeBehind_of_alter {relations : List (String × DependencyGraph)} {name : String}
    {change : Option DependencyGraph → DependencyGraph}
    (grows : ∀ present a b, (change (some present)).Agree a b → present.Agree a b)
    (agree : AgreeBehind (Sorted.alter relations name change) a b) :
    AgreeBehind relations a b ∧
      ∃ old, Option.Rel (Value.Related (change old).Agree) (a.get? name) (b.get? name) := by
  obtain ⟨front, back, old, whole, altered⟩ := Sorted.alter_spec relations name change
  rw [altered, agreeBehind_iff] at agree
  have entry := agree (name, change old) (by simp)
  refine ⟨agreeBehind_iff.mpr fun other inside => ?_, old, entry⟩
  rw [whole] at inside
  cases old with
  | none => exact agree other (by simpa using Or.imp_right Or.inr (by simpa using inside))
  | some present =>
    by_cases altered : other = (name, present)
    · rw [altered]
      exact Value.rel_imp (fun _ _ => .imp (grows present)) entry
    · refine agree other ?_
      simpa [altered] using Or.imp_right Or.inr (by simpa [altered] using inside)

theorem mem_keys_mergeRelations {known more : List (String × DependencyGraph)} {name : String} :
    name ∈ Sorted.keys (mergeRelations known more) ↔
      name ∈ Sorted.keys known ∨ name ∈ Sorted.keys more := by
  induction more generalizing known with
  | nil => simp [mergeRelations, Sorted.keys]
  | cons entry rest ih =>
    rw [mergeRelations_cons, ih, Sorted.mem_keys_alter]
    simp only [Sorted.keys, List.map_cons, List.mem_cons]
    tauto

mutual

theorem agree_of_merge : ∀ {more graph : DependencyGraph} {a b : Record},
    (graph.merge more).Agree a b → graph.Agree a b ∧ more.Agree a b
  | ⟨_, _, _, _, _⟩, ⟨_, _, _, _, _⟩, _, _, ⟨leaves, edges, reverseEdges, counts⟩ => by
    have ⟨edges, edges'⟩ := agreeBehind_of_mergeRelations edges
    have ⟨reverseEdges, reverseEdges'⟩ := agreeBehind_of_mergeRelations reverseEdges
    constructor
    · exact ⟨fun leaf inside => leaves leaf (Sorted.mem_union.mpr (Or.inl inside)), edges,
        reverseEdges, fun name inside => counts name (mem_keys_mergeRelations.mpr (Or.inl inside))⟩
    · exact ⟨fun leaf inside => leaves leaf (Sorted.mem_union.mpr (Or.inr inside)), edges',
        reverseEdges', fun name inside => counts name (mem_keys_mergeRelations.mpr (Or.inr inside))⟩

theorem agreeBehind_of_mergeRelations : ∀ {more known : List (String × DependencyGraph)}
    {a b : Record}, AgreeBehind (mergeRelations known more) a b →
      AgreeBehind known a b ∧ AgreeBehind more a b
  | [], _, _, _, agree => ⟨agree, trivial⟩
  | (name, graph) :: rest, known, a, b, agree => by
    rw [mergeRelations_cons] at agree
    have ⟨altered, behind⟩ := agreeBehind_of_mergeRelations agree
    have ⟨first, old, entry⟩ := agreeBehind_of_alter
      (fun present a b (merged : (present.merge graph).Agree a b) => (agree_of_merge merged).1)
      altered
    refine ⟨first, Value.rel_imp (fun _ _ => .imp fun a b whole => ?_) entry, behind⟩
    cases old with
    | none => exact whole
    | some present =>
      have merged : (present.merge graph).Agree a b := whole
      exact (agree_of_merge merged).2

end

theorem agree_of_mem_union {node : String} {graphs : List DependencyGraph}
    (agree : (union node graphs).Agree a b) : ∀ graph ∈ graphs, graph.Agree a b := by
  have folded : ∀ (graphs : List DependencyGraph) (start : DependencyGraph),
      (graphs.foldl merge start).Agree a b →
        start.Agree a b ∧ ∀ graph ∈ graphs, graph.Agree a b := by
    intro graphs
    induction graphs with
    | nil => exact fun start agree => ⟨agree, by simp⟩
    | cons first rest ih =>
      intro start agree
      have ⟨merged, behind⟩ := ih (start.merge first) agree
      have ⟨start, first⟩ := agree_of_merge merged
      exact ⟨start, List.forall_mem_cons.mpr ⟨first, behind⟩⟩
  exact (folded graphs (.empty node) agree).2

theorem agree_of_mergeHead {graph head : DependencyGraph}
    (agree : (graph.mergeHead (some head)).Agree a b) : head.Agree a b :=
  (agree_of_merge agree).2

end DependencyGraph

end LiveQuery
