import LiveQuery.Proofs.Change.Aggregation
import LiveQuery.Proofs.Statement.InstanceKey
import LiveQuery.Proofs.Value.Same

set_option autoImplicit false

namespace LiveQuery

/-- An instance of a node, by its identifier. -/
structure Instance where
  node : Node
  identifier : Record

/-- The record of every instance that there is. -/
abbrev Holdings := Instance → Option Record

/-- No component tells the records apart: it has one value in both, or two that are loosely
equal. -/
def Node.Near (node : Node) (first second : Record) : Prop :=
  ∀ component ∈ node.components, first.get? component.name = second.get? component.name ∨
    ∃ value value', first.get? component.name = some value ∧
      second.get? component.name = some value' ∧ value.looselyEqual value' = true

/-- A full record of an instance, in the form that stores keep. -/
structure Instance.DescribedBy (catalog : Catalog) (subject : Instance) (record : Record) :
    Prop where
  unique : record.keys.Nodup
  complete : ∀ component ∈ subject.node.components, catalog.Holds component record
  identifier : subject.node.identifierOf record = .ok subject.identifier

namespace Change

def subject (change : Change) : Instance := ⟨change.node, change.identifier⟩

@[simp] theorem subject_node (change : Change) : change.subject.node = change.node := rfl

/-- A change of an instance of the catalog whose records are full and keep its identifier. -/
structure Full (catalog : Catalog) (change : Change) : Prop where
  node : catalog.node? change.node.name = some change.node
  plain : catalog.PlainlyIdentified change.node
  old : ∀ record, change.transition.old? = some record → change.subject.DescribedBy catalog record
  new : ∀ record, change.transition.new? = some record → change.subject.DescribedBy catalog record

/-- The change finds what it says was there (nothing, if it is a creation), and puts in its place
what it says there is now. -/
structure Applies (change : Change) (before after : Holdings) : Prop where
  found : Option.Rel change.node.Near (before change.subject) change.transition.old?
  left : after change.subject = change.transition.new?
  elsewhere : ∀ other, other ≠ change.subject → after other = before other

end Change

/-- Changes that apply one after another. -/
inductive History : Holdings → List Change → Holdings → Prop
  | nil (holdings : Holdings) : History holdings [] holdings
  | cons {change : Change} {changes : List Change} {before between after : Holdings}
      (first : change.Applies before between) (rest : History between changes after) :
      History before (change :: changes) after

variable {catalog : Catalog} {node : Node} {subject : Instance} {first second third : Record}
  {old new : Option Record}

namespace Node

theorem Near.refl (node : Node) (record : Record) : node.Near record record := fun _ _ => Or.inl rfl

theorem near_of_get?_eq (same : ∀ component ∈ node.components,
    first.get? component.name = second.get? component.name) : node.Near first second :=
  fun component inside => Or.inl (same component inside)

end Node

theorem Catalog.Holds.exists_value {component : Component}
    (holds : catalog.Holds component first) : ∃ value, first.get? component.name = some value := by
  cases component with
  | leaf field =>
    obtain ⟨value, stored, -⟩ := holds
    exact ⟨value, stored⟩
  | edge link =>
    rcases holds with ⟨-, stored⟩ | ⟨reference, stored, -⟩
    · exact ⟨.null, stored⟩
    · exact ⟨.record reference, stored⟩

theorem Catalog.Holds.of_get?_eq {component : Component} (holds : catalog.Holds component first)
    (same : second.get? component.name = first.get? component.name) :
    catalog.Holds component second := by
  cases component with
  | leaf field =>
    obtain ⟨value, stored, canonical⟩ := holds
    exact ⟨value, same.trans stored, canonical⟩
  | edge link =>
    rcases holds with ⟨nullable, stored⟩ | ⟨reference, stored, identifies⟩
    · exact Or.inl ⟨nullable, same.trans stored⟩
    · exact Or.inr ⟨reference, same.trans stored, identifies⟩

/-- What is loosely equal to one of two such values of a component is so to the other. -/
theorem Catalog.Holds.looselyEqual_right {component : Component} {value value' : Value}
    (holds : catalog.Holds component first) (holds' : catalog.Holds component second)
    (stored : first.get? component.name = some value)
    (stored' : second.get? component.name = some value') (equal : value.looselyEqual value' = true)
    (other : Value) : other.looselyEqual value = other.looselyEqual value' := by
  cases component with
  | leaf field =>
    obtain ⟨known, found, canonical⟩ := holds
    obtain ⟨known', found', canonical'⟩ := holds'
    cases Option.some.inj (found.symm.trans stored)
    cases Option.some.inj (found'.symm.trans stored')
    rw [canonical.looselyEqual_eq canonical', decide_eq_true_iff] at equal
    have alike : Value.Alike _ _ := ⟨canonical.atom?_isSome, equal⟩
    exact alike.looselyEqual_right other
  | edge link =>
    have stored : first.get? link.name = some value := stored
    have stored' : second.get? link.name = some value' := stored'
    have same : value.same value' = true := by
      rcases holds with ⟨-, null⟩ | ⟨reference, found, -⟩ <;>
        rcases holds' with ⟨-, null'⟩ | ⟨reference', found', -⟩
      · cases Option.some.inj (null.symm.trans stored)
        cases Option.some.inj (null'.symm.trans stored')
        rfl
      · cases Option.some.inj (null.symm.trans stored)
        cases Option.some.inj (found'.symm.trans stored')
        cases equal
      · cases Option.some.inj (found.symm.trans stored)
        cases Option.some.inj (null'.symm.trans stored')
        cases equal
      · cases Option.some.inj (found.symm.trans stored)
        cases Option.some.inj (found'.symm.trans stored')
        exact equal
    exact Value.looselyEqual_right_of_same same other

theorem Node.Near.trans (complete : ∀ component ∈ node.components, catalog.Holds component second)
    (complete' : ∀ component ∈ node.components, catalog.Holds component third)
    (near : node.Near first second) (near' : node.Near second third) : node.Near first third := by
  intro component inside
  rcases near component inside with same | ⟨value, middle, stored, known, equal⟩
  · rw [same]
    exact near' component inside
  · rcases near' component inside with same' | ⟨middle', value', known', stored', equal'⟩
    · exact Or.inr ⟨value, middle, stored, same' ▸ known, equal⟩
    · cases Option.some.inj (known.symm.trans known')
      have right := (complete component inside).looselyEqual_right (complete' component inside)
        known stored' equal' value
      exact Or.inr ⟨value, value', stored, stored', right ▸ equal⟩

/-- What an instance became is the same, or a full record that no component tells apart from
it. -/
def Instance.Remains (catalog : Catalog) (subject : Instance) (old new : Option Record) : Prop :=
  old = new ∨ ∃ first second, old = some first ∧ new = some second ∧
    subject.DescribedBy catalog second ∧ subject.node.Near first second

namespace Instance.Remains

theorem refl (record : Option Record) : subject.Remains catalog record record := Or.inl rfl

theorem trans {later : Option Record} (remains : subject.Remains catalog old new)
    (remains' : subject.Remains catalog new later) : subject.Remains catalog old later := by
  rcases remains with rfl | ⟨first, second, rfl, rfl, described, near⟩
  · exact remains'
  · rcases remains' with rfl | ⟨second', third, same, rfl, described', near'⟩
    · exact Or.inr ⟨first, second, rfl, rfl, described, near⟩
    · cases same
      exact Or.inr ⟨first, third, rfl, rfl, described',
        near.trans described.complete described'.complete near'⟩

theorem rel (remains : subject.Remains catalog old new) :
    Option.Rel subject.node.Near old new := by
  rcases remains with rfl | ⟨first, second, rfl, rfl, -, near⟩
  · cases old with
    | none => exact .none
    | some record => exact .some (.refl _ record)
  · exact .some near

theorem of_rel (related : Option.Rel subject.node.Near old new)
    (described : ∀ record, new = some record → subject.DescribedBy catalog record) :
    subject.Remains catalog old new := by
  cases related with
  | none => exact .refl none
  | some near => exact Or.inr ⟨_, _, rfl, rfl, described _ rfl, near⟩

end Instance.Remains

theorem Instance.DescribedBy.names (described : subject.DescribedBy catalog first) :
    catalog.Names subject.node first :=
  fun component inside => described.complete component (Node.mem_of_identifier inside)

/-- A record describes an instance if it has all components as one does that describes it. -/
theorem Instance.DescribedBy.congr (described : subject.DescribedBy catalog second)
    (unique : first.keys.Nodup) (same : ∀ component ∈ subject.node.components,
      first.get? component.name = second.get? component.name) :
    subject.DescribedBy catalog first := by
  refine ⟨unique, fun component inside => ?_, ?_⟩
  · exact (described.complete component inside).of_get?_eq (same component inside)
  · rw [← described.identifier]
    exact Node.identify_congr fun component inside => same component (Node.mem_of_identifier inside)

namespace Change

variable {change earlier later : Change} {before after : Holdings}

theorem near_of_updated_eq_nil {old new : Record} (updates : change.transition = .update old new)
    (empty : change.updated = []) (complete : change.subject.DescribedBy catalog old)
    (complete' : change.subject.DescribedBy catalog new) : change.node.Near old new := by
  intro component inside
  have kept : differs old new component.name = false := by
    unfold updated at empty
    rw [updates] at empty
    have none_differs := List.filter_eq_nil_iff.mp empty component.name
      (List.mem_map_of_mem inside)
    simpa using none_differs
  obtain ⟨value, stored⟩ := (complete.complete component inside).exists_value
  obtain ⟨value', stored'⟩ := (complete'.complete component inside).exists_value
  refine Or.inr ⟨value, value', stored, stored', ?_⟩
  simpa only [differs, stored, stored', Bool.not_eq_false'] using kept

theorem Full.remains_of_isEmptyUpdate (full : change.Full catalog)
    (empty : change.isEmptyUpdate = true) :
    change.subject.Remains catalog change.transition.old? change.transition.new? := by
  unfold isEmptyUpdate at empty
  rw [Bool.and_eq_true, List.isEmpty_iff] at empty
  cases updates : change.transition with
  | update old new =>
    have described := full.old old (by rw [updates]; rfl)
    have described' := full.new new (by rw [updates]; rfl)
    exact Or.inr ⟨old, new, rfl, rfl, described',
      near_of_updated_eq_nil updates empty.2 described described'⟩
  | creation new => simp [isExistence, updates] at empty
  | deletion old => simp [isExistence, updates] at empty

theorem exists_applies
    (found : Option.Rel change.node.Near (before change.subject) change.transition.old?) :
    ∃ after, change.Applies before after := by
  classical
  exact ⟨fun other => if other = change.subject then change.transition.new? else before other,
    found, if_pos rfl, fun other differs => if_neg differs⟩

theorem Applies.remains_old (applies : change.Applies before after) (full : change.Full catalog) :
    change.subject.Remains catalog (before change.subject) change.transition.old? :=
  .of_rel applies.found full.old

/-- Two changes of one instance in one: none, if the instance is left as it was, and else a change
from what the first one found to what the second one left. -/
def Folds (catalog : Catalog) (earlier later : Change) : Option Change → Prop
  | none => earlier.subject.Remains catalog earlier.transition.old? later.transition.new?
  | some folded => folded.subject = earlier.subject ∧ folded.Full catalog ∧
      folded.isEmptyUpdate = false ∧ folded.transition.old? = earlier.transition.old? ∧
      earlier.subject.Remains catalog folded.transition.new? later.transition.new?

/-- A new update folds two changes, unless it is empty. -/
theorem folds_unlessEmpty {old new : Record} (full : earlier.Full catalog)
    (full' : later.Full catalog) (same : later.subject = earlier.subject)
    (starts : earlier.transition.old? = some old) (ends : later.transition.new? = some new) :
    ∃ folded, update earlier.node old new = .ok folded ∧
      Folds catalog earlier later folded.unlessEmpty := by
  have described := full.old old starts
  have described' := same ▸ full'.new new ends
  refine ⟨⟨earlier.node, earlier.identifier, .update old new⟩, ?_, ?_⟩
  · have read : earlier.node.identifierOf old = .ok earlier.identifier := described.identifier
    simp only [update, read, Outcome.ok_bind, Outcome.pure_eq_ok]
  · have updated : Full catalog ⟨earlier.node, earlier.identifier, .update old new⟩ := by
      refine ⟨full.node, full.plain, ?_, ?_⟩
      · rintro record ⟨⟩
        exact described
      · rintro record ⟨⟩
        exact described'
    unfold unlessEmpty
    split
    · rename_i empty
      have remains := updated.remains_of_isEmptyUpdate empty
      rw [Folds, starts, ends]
      exact remains
    · rename_i proper
      refine ⟨rfl, updated, by simpa using proper, starts.symm, ?_⟩
      rw [ends]
      exact .refl _

theorem folds_creation {created new merged : Record} (full : earlier.Full catalog)
    (creates : earlier.transition = .creation created) (ends : later.transition.new? = some new)
    (described : earlier.subject.DescribedBy catalog new) (unique : merged.keys.Nodup)
    (written : ∀ component ∈ earlier.node.components,
      merged.get? component.name = new.get? component.name) :
    ∃ folded, creation earlier.node merged = .ok folded ∧
      Folds catalog earlier later (some folded) := by
  have described' := described.congr unique written
  have read : earlier.node.identifierOf merged = .ok earlier.identifier := described'.identifier
  refine ⟨⟨earlier.node, earlier.identifier, .creation merged⟩, ?_, rfl, ?_, rfl, ?_, ?_⟩
  · simp only [creation, read, Outcome.ok_bind, Outcome.pure_eq_ok]
  · refine ⟨full.node, full.plain, ?_, ?_⟩
    · rintro record ⟨⟩
    · rintro record ⟨⟩
      exact described'
  · rw [creates]
    rfl
  · rw [ends]
    exact Or.inr ⟨merged, new, rfl, rfl, described, Node.near_of_get?_eq written⟩

/-- A change that finds what an earlier one left follows that one. -/
theorem followedBy_spec (full : earlier.Full catalog) (full' : later.Full catalog)
    (same : later.subject = earlier.subject)
    (follows : Option.Rel earlier.node.Near earlier.transition.new? later.transition.old?) :
    ∃ folded, earlier.followedBy later = .ok folded ∧ Folds catalog earlier later folded := by
  cases first : earlier.transition with
  | creation created =>
    cases second : later.transition with
    | creation new => rw [first, second] at follows; cases follows
    | update old new =>
      have described := full.new created (by rw [first]; rfl)
      have described' := same ▸ full'.new new (by rw [second]; rfl)
      have unique := Entries.nodup_foldl_insert described.unique new
      have written : ∀ component ∈ earlier.node.components,
          Entries.get? (new.foldl (fun known entry => Entries.insert known entry.1 entry.2) created)
            component.name = new.get? component.name := by
        intro component inside
        obtain ⟨value, stored⟩ := (described'.complete component inside).exists_value
        rw [stored]
        exact Entries.get?_foldl_insert described'.unique (Entries.mem_of_get? stored)
      obtain ⟨folded, made, folds⟩ :=
        folds_creation full first (by rw [second]; rfl) described' unique written
      refine ⟨some folded, ?_, folds⟩
      simp only [followedBy, first, second, made, Outcome.ok_bind, Outcome.pure_eq_ok]
    | deletion old =>
      refine ⟨none, by simp only [followedBy, first, second, Outcome.pure_eq_ok], ?_⟩
      rw [Folds, first, second]
      exact .refl none
  | update old new =>
    cases second : later.transition with
    | creation new' => rw [first, second] at follows; cases follows
    | update old' new' =>
      obtain ⟨folded, made, folds⟩ :=
        folds_unlessEmpty full full' same (by rw [first]; rfl) (by rw [second]; rfl)
      refine ⟨_, ?_, folds⟩
      simp only [followedBy, first, second, made, Outcome.ok_bind, Outcome.pure_eq_ok]
    | deletion old' =>
      have described := full.old old (by rw [first]; rfl)
      have read : earlier.node.identifierOf old = .ok earlier.identifier := described.identifier
      refine ⟨some ⟨earlier.node, earlier.identifier, .deletion old⟩, ?_, rfl, ?_, rfl, ?_, ?_⟩
      · simp only [followedBy, first, second, deletion, read, Outcome.ok_bind, Outcome.pure_eq_ok]
      · refine ⟨full.node, full.plain, ?_, ?_⟩
        · rintro record ⟨⟩
          exact described
        · rintro record ⟨⟩
      · rw [first]
        rfl
      · rw [second]
        exact .refl none
  | deletion old =>
    cases second : later.transition with
    | creation new =>
      obtain ⟨folded, made, folds⟩ :=
        folds_unlessEmpty full full' same (by rw [first]; rfl) (by rw [second]; rfl)
      refine ⟨_, ?_, folds⟩
      simp only [followedBy, first, second, made, Outcome.ok_bind, Outcome.pure_eq_ok]
    | update old' new' => rw [first, second] at follows; cases follows
    | deletion old' => rw [first, second] at follows; cases follows

end Change

end LiveQuery
