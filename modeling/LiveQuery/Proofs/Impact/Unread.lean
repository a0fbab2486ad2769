import LiveQuery.Proofs.Dependency.Touch
import LiveQuery.Proofs.Impact.Relation

set_option autoImplicit false

namespace LiveQuery

/-- A side of the change that exists has nothing under the component. -/
def Change.Misses (change : Change) (component : String) : Prop :=
  (∃ old, change.transition.old? = some old ∧ old.get? component = none) ∨
    ∃ new, change.transition.new? = some new ∧ new.get? component = none

theorem Predicate.lacksValue_iff {change : Change} {component : String} :
    lacksValue component change = true ↔ change.Misses component := by
  unfold lacksValue Change.Misses Change.valuesOf
  cases change.transition <;>
    simp [Transition.old?, Transition.new?, Bool.or_eq_true, Option.isNone_iff_eq_none]

namespace Predicate

/-- The predicate asks for a head behind the relation, or counts them. -/
def IsOver (relation : ReverseEdge) : Predicate → Prop
  | .reverse other _ => other = relation
  | .count other _ _ => other = relation
  | _ => False

/-- What is asked of the heads behind a relation. -/
def below? : Predicate → Option Predicate
  | .reverse _ head => head
  | _ => none

variable {catalog : Catalog} {change : Change} {node head : Node} {relation : ReverseEdge}
  {predicate : Predicate}

theorem touchedBy_addReverseEdge (below : Option DependencyGraph)
    (moved : changesComponent relation.head relation.edge.name change = true) :
    ((DependencyGraph.empty node.name).addReverseEdge relation below).touchedBy change = true := by
  have reads : ((DependencyGraph.empty relation.head).addEdge relation.edge none).Reads
      relation.edge.name := Or.inr ⟨_, List.mem_singleton_self _⟩
  refine DependencyGraph.touchedBy_of_reverseEdge (List.mem_singleton_self _) ?_
  cases below with
  | none => exact DependencyGraph.touchedBy_of_reads reads moved
  | some more =>
    exact DependencyGraph.touchedBy_of_within (DependencyGraph.within_merge_left more _)
      (DependencyGraph.touchedBy_of_reads reads moved)

/-- A condition on a relation is affected through the relation where the edge behind it changes. -/
theorem affected_of_isOver (relates : catalog.Relates node relation head)
    (asks : predicate.IsOver relation)
    (moved : changesComponent relation.head relation.edge.name change = true) :
    predicate.affected catalog change node = (do
      let below ← affectedHead catalog change (.ok head) predicate.below?
      return union (← throughReverse catalog node relation below change)) := by
  cases predicate with
  | reverse other inner =>
    obtain rfl : other = relation := asks
    rw [affected, unlessUntouched, dependencies, if_pos (touchedBy_addReverseEdge _ moved),
      relates.reverseEdgeHead_eq]
    rfl
  | count other comparison number =>
    obtain rfl : other = relation := asks
    rw [affected, unlessUntouched, dependencies, if_pos (touchedBy_addReverseEdge _ moved)]
    rfl
  | _ => cases asks

theorem union_eq_none_iff {results : List Predicate} : union results = none ↔ results = [] := by
  cases results <;> simp [union]

theorem affected_eq_none_iff (relates : catalog.Relates node relation head)
    (asks : predicate.IsOver relation)
    (moved : changesComponent relation.head relation.edge.name change = true) :
    predicate.affected catalog change node = .ok none ↔
      ∃ below, affectedHead catalog change (.ok head) predicate.below? = .ok below ∧
        throughReverse catalog node relation below change = .ok [] := by
  rw [affected_of_isOver relates asks moved, Outcome.bind_eq_ok]
  refine exists_congr fun below => and_congr_right fun _ => ?_
  rw [Outcome.bind_eq_ok]
  constructor
  · rintro ⟨results, through, nothing⟩
    rw [union_eq_none_iff.mp (Except.ok.inj nothing)] at through
    exact through
  · intro through
    exact ⟨[], through, rfl⟩

theorem parentOf_of_not_record {value : Value} (other : ∀ reference, value ≠ .record reference) :
    parentOf catalog node value = .ok [] := by
  cases value with
  | record reference => exact absurd rfl (other reference)
  | _ => rfl

theorem parents_eq_nil_iff {values : List Value} :
    (∃ parents, values.mapM (parentOf catalog node) = .ok parents ∧ parents.flatten = []) ↔
      ∀ reference, .record reference ∉ values := by
  constructor
  · rintro ⟨parents, mapped, empty⟩ reference inside
    obtain ⟨results, member, told⟩ := Outcome.exists_mem_of_mapM mapped inside
    obtain ⟨filter, -, same⟩ := Outcome.bind_eq_ok.mp told
    cases same
    exact absurd (List.flatten_eq_nil_iff.mp empty _ member) (List.cons_ne_nil _ _)
  · intro other
    have nothing : ∀ value ∈ values, parentOf catalog node value = .ok [] := fun value inside =>
      parentOf_of_not_record fun reference same => other reference (same ▸ inside)
    obtain ⟨parents, mapped, origin, -⟩ :=
      Outcome.mapM_eq_ok fun value inside => ⟨[], nothing value inside⟩
    refine ⟨parents, mapped, List.flatten_eq_nil_iff.mpr fun results member => ?_⟩
    obtain ⟨value, inside, told⟩ := origin results member
    exact (Except.ok.inj ((nothing value inside).symm.trans told)).symm

theorem bne_eq (child result : Predicate) : (child != result) = !child.same result := rfl

/-- Nothing comes through a relation whose edge changes exactly if the change tells the edge, but
no reference, and nothing but the changed child itself is affected behind the relation. -/
theorem throughReverse_eq_nil_iff (relates : catalog.Relates node relation head)
    (moved : changesComponent head.name relation.edge.name change = true)
    {results : List Predicate} :
    throughReverse catalog node relation results change = .ok [] ↔
      ¬change.Misses relation.edge.name ∧
        (∀ reference, .record reference ∉ change.references relation) ∧
        ∃ child, changedInstance catalog head change = .ok child ∧
          ∀ result ∈ results, child.same result = true := by
  rw [throughReverse_eq relates, if_pos moved, ← lacksValue_iff]
  cases lacks : lacksValue relation.edge.name change with
  | true => simp
  | false =>
    rw [if_neg Bool.false_ne_true]
    constructor
    · intro nothing
      obtain ⟨parents, mapped, nothing⟩ := Outcome.bind_eq_ok.mp nothing
      obtain ⟨child, identified, nothing⟩ := Outcome.bind_eq_ok.mp nothing
      obtain ⟨none_, rest⟩ := List.append_eq_nil_iff.mp (Except.ok.inj nothing)
      refine ⟨Bool.false_ne_true, parents_eq_nil_iff.mp ⟨parents, mapped, none_⟩, child, identified,
        fun result inside => ?_⟩
      have left := List.filter_eq_nil_iff.mp (List.map_eq_nil_iff.mp rest) result inside
      rwa [bne_eq, Bool.not_eq_true, Bool.not_eq_false'] at left
    · rintro ⟨-, other, child, identified, same⟩
      obtain ⟨parents, mapped, empty⟩ := parents_eq_nil_iff.mpr other
      have none_ : results.filter (child != ·) = [] := by
        refine List.filter_eq_nil_iff.mpr fun result inside => ?_
        rw [bne_eq, same result inside]
        exact Bool.false_ne_true
      rw [mapped, identified, Outcome.ok_bind, Outcome.ok_bind, empty, none_]
      rfl

end Predicate

/-- A condition on a relation, where the edge behind the relation changes on a child. If the change
misses the edge on one of its sides, the answer is an error or a filter that holds on everything.
Otherwise nothing is affected exactly if the change tells no reference: a value that is neither null
nor a reference is passed over as null is. -/
theorem Filter.affected_of_changed_child {definitions : CatalogDefinition} {catalog : Catalog}
    (built : definitions.build = .ok catalog) {filter : Filter} {head : Node}
    {relation : ReverseEdge} (found : catalog.node? filter.node.name = some filter.node)
    (related : filter.node.reverseEdge? relation.name = some relation)
    (holder : catalog.node? relation.head = some head)
    (asks : filter.predicate.IsOver relation) {change : Change}
    (moved : Predicate.changesComponent head.name relation.edge.name change = true) :
    (change.Misses relation.edge.name →
      (∃ error, filter.affected catalog change = .error error) ∨
        ∃ result, filter.affected catalog change = .ok (some result) ∧ result.node = filter.node ∧
          ∀ record, result.execute record = .ok true) ∧
      (¬change.Misses relation.edge.name → (filter.affected catalog change = .ok none ↔
        (∀ reference, .record reference ∉ change.references relation) ∧
          ∃ below child,
            Predicate.affectedHead catalog change (.ok head) filter.predicate.below? = .ok below ∧
              Predicate.changedInstance catalog head change = .ok child ∧
              ∀ result ∈ below, child.same result = true)) := by
  obtain ⟨holding, relates⟩ := (CatalogDefinition.build_wellFormed built).relates found related
  obtain rfl : holding = head := Option.some.inj (relates.holder.symm.trans holder)
  have moved' := relates.name ▸ moved
  constructor
  · intro misses
    rw [affected, Predicate.affected_of_isOver relates asks moved']
    cases Predicate.affectedHead catalog change (.ok holding) filter.predicate.below? with
    | error error => exact Or.inl ⟨error, rfl⟩
    | ok below =>
      refine Or.inr ⟨⟨filter.node, .constant true⟩, ?_, rfl, fun _ => rfl⟩
      rw [Outcome.ok_bind, throughReverse_eq relates, if_pos moved,
        if_pos (Predicate.lacksValue_iff.mpr misses)]
      rfl
  · intro told
    have unaffected : filter.affected catalog change = .ok none ↔
        filter.predicate.affected catalog change filter.node = .ok none := by
      rw [affected]
      cases filter.predicate.affected catalog change filter.node with
      | error error => simp
      | ok result => cases result <;> simp
    rw [unaffected, Predicate.affected_eq_none_iff relates asks moved']
    constructor
    · rintro ⟨below, found, through⟩
      obtain ⟨-, other, child, identified, same⟩ :=
        (Predicate.throughReverse_eq_nil_iff relates moved).mp through
      exact ⟨other, below, child, found, identified, same⟩
    · rintro ⟨other, below, child, found, identified, same⟩
      exact ⟨below, found, (Predicate.throughReverse_eq_nil_iff relates moved).mpr
        ⟨told, other, child, identified, same⟩⟩

namespace Samples

/-- Persons who have some task. -/
def hasTask : Filter := ⟨person, .reverse tasks none⟩

/-- A new task, whose record has these fields besides the number. -/
def newTask (fields : Record) : Change :=
  ⟨task, [("id", .int 7)], .creation (("id", .int 7) :: fields)⟩

end Samples

open Samples

/-- A task whose record has no owner may be anyone's; one whose owner is told by name is passed
over, though it may be anyone's too. -/
theorem Filter.affected_of_new_task :
    (∃ result, hasTask.affected boardCatalog (newTask []) = .ok (some result) ∧
      ∀ record, result.execute record = .ok true) ∧
      Change.creation task [("id", .int 7), ("owner", .string "Ada")] =
          .ok (newTask [("owner", .string "Ada")]) ∧
        hasTask.affected boardCatalog (newTask [("owner", .string "Ada")]) = .ok none := by
  have spec (fields : Record) := @affected_of_changed_child _ _ build_board hasTask task tasks rfl
    rfl rfl rfl (newTask fields) rfl
  refine ⟨?_, rfl, ?_⟩
  · rcases (spec []).1 (Or.inr ⟨_, rfl, rfl⟩) with ⟨error, failed⟩ | ⟨result, answered, -, whole⟩
    · cases failed
    · exact ⟨result, answered, whole⟩
  · have told : ¬(newTask [("owner", .string "Ada")]).Misses "owner" := by
      rintro (⟨old, there, -⟩ | ⟨new, there, absent⟩)
      · cases there
      · cases there
        cases absent
    refine ((spec _).2 told).mpr ⟨fun reference inside => ?_, [], _, rfl, rfl, by simp⟩
    cases List.mem_singleton.mp
      (show Value.record reference ∈ [Value.string "Ada"] from inside)

end LiveQuery
