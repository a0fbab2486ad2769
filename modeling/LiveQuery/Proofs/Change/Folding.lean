import LiveQuery.Proofs.Change.Aggregation
import LiveQuery.Proofs.Store.Step

set_option autoImplicit false

namespace LiveQuery

namespace Change

variable {node : Node} {old new old' new' : Record} {first second : Change}

theorem update_eq_ok_iff : update node old new = .ok first ↔
    ∃ id, node.identifierOf old = .ok id ∧ first = ⟨node, id, .update old new⟩ := by
  unfold update
  rw [Outcome.bind_eq_ok]
  exact exists_congr fun id => and_congr_right fun _ => ⟨fun same => by cases same; rfl,
    fun same => by rw [same]; rfl⟩

/-- Updates fold into the update from the earlier old record to the later new record. -/
theorem followedBy_update (made : update node old new = .ok first)
    (made' : update node old' new' = .ok second) :
    ∃ folded, update node old new' = .ok folded ∧ folded.instanceKey = first.instanceKey ∧
      first.followedBy second = .ok folded.unlessEmpty := by
  obtain ⟨id, named, rfl⟩ := update_eq_ok_iff.mp made
  obtain ⟨id', -, rfl⟩ := update_eq_ok_iff.mp made'
  have joined : update node old new' = .ok ⟨node, id, .update old new'⟩ :=
    update_eq_ok_iff.mpr ⟨id, named, rfl⟩
  refine ⟨_, joined, rfl, ?_⟩
  simp only [followedBy, joined, Outcome.ok_bind, Outcome.pure_eq_ok]

theorem touches_of_update (made : update node old new = .ok first) {component : Component}
    (inside : component ∈ node.components) :
    first.touches component.name = differs old new component.name := by
  obtain ⟨id, -, rfl⟩ := update_eq_ok_iff.mp made
  exact touches_update rfl inside

theorem valuesOf_of_update (made : update node old new = .ok first) (name : String) :
    first.valuesOf name = (old.get? name, new.get? name) := by
  obtain ⟨id, -, rfl⟩ := update_eq_ok_iff.mp made
  rfl

theorem differs_of_absent {name : String} (absent : new.get? name = none) :
    differs old new name = false := by
  unfold differs
  rw [absent]
  cases old.get? name <;> rfl

theorem differs_eq_false_iff {name : String} {after : Value} (told : new.get? name = some after) :
    differs old new name = false ↔
      ∃ before, old.get? name = some before ∧ before.looselyEqual after = true := by
  unfold differs
  rw [told]
  cases old.get? name <;> simp

end Change

/-- What becomes of a component when two updates are folded. -/
structure Change.FoldsAt (first second folded : Change) (name : String) : Prop where
  values : folded.valuesOf name = ((first.valuesOf name).1, (second.valuesOf name).2)
  /-- Without a later value the component counts as untouched, whatever the first update did. -/
  absent : (second.valuesOf name).2 = none → folded.touches name = false
  /-- With one, the component is untouched only if it came back to the value before both. -/
  restored : ∀ after, (second.valuesOf name).2 = some after → (folded.touches name = false ↔
    ∃ before, (first.valuesOf name).1 = some before ∧ before.looselyEqual after = true)
  told : ∀ after, (second.valuesOf name).2 = some after → folded.touches name = true →
    folded.componentChange? name = some ((first.valuesOf name).1.getD .null, after)

theorem Change.foldsAt_of_update {node : Node} {old new old' new' : Record}
    {first second folded : Change} (made : update node old new = .ok first)
    (made' : update node old' new' = .ok second) (joined : update node old new' = .ok folded)
    {component : Component} (inside : component ∈ node.components) :
    FoldsAt first second folded component.name := by
  have touches := touches_of_update joined inside
  constructor <;> simp only [valuesOf_of_update made, valuesOf_of_update made',
    valuesOf_of_update joined]
  · intro absent
    rw [touches, differs_of_absent absent]
  · intro after told
    rw [touches, differs_eq_false_iff told]
  · intro after told touched
    rw [componentChange?, touched, valuesOf_of_update joined, told]
    rfl

/-- Two updates of an instance that has no change so far become one at the end of the list, or none
where nothing is left of them. A component that the second new record lacks is lost from it. -/
theorem Aggregation.appendAll_updates {node : Node} {old new old' new' : Record}
    {first second : Change} {changes : Aggregation}
    (made : Change.update node old new = .ok first)
    (made' : Change.update node old' new' = .ok second)
    (proper : first.isEmptyUpdate = false) (proper' : second.isEmptyUpdate = false)
    (same : first.instanceKey = second.instanceKey)
    (fresh : ∀ other ∈ changes, other.instanceKey ≠ first.instanceKey) :
    ∃ folded, Change.update node old new' = .ok folded ∧ folded.instanceKey = first.instanceKey ∧
      (appendAll [first, second]).run changes = .ok () (changes ++ folded.unlessEmpty.toList) ∧
      ∀ component ∈ node.components, Change.FoldsAt first second folded component.name := by
  obtain ⟨folded, joined, named, follows⟩ := Change.followedBy_update made made'
  refine ⟨folded, joined, named, ?_, fun _ => Change.foldsAt_of_update made made' joined⟩
  have taken : (append second).run (changes ++ [first]) =
      .ok () (changes ++ folded.unlessEmpty.toList ++ []) :=
    append_of_followedBy proper' same (same ▸ fresh) follows
  rw [appendAll_of_append (append_of_fresh proper fresh), appendAll_of_append taken,
    List.append_nil]
  rfl

namespace Samples

def label : Node :=
  ⟨"Label", "labels", [.leaf ⟨"Label", "id", "id", .int, false⟩,
    .leaf ⟨"Label", "title", "title", .string, false⟩,
    .leaf ⟨"Label", "shown", "shown", .boolean, true⟩], [], [⟨"id", ["id"]⟩], ⟨"id", ["id"]⟩⟩

def drafted : Record := [("id", .int 1), ("title", .string "a"), ("shown", .null)]

def renamed : Record := [("id", .int 1), ("title", .string "b"), ("shown", .null)]

/-- What is told of the label when it is published. -/
def published : Record := [("id", .int 1), ("shown", .boolean true)]

end Samples

open Samples in
/-- A label is renamed and then published: the new title is lost. -/
theorem Aggregation.appendAll_updates_published :
    ∃ folded : Change, Change.update label drafted published = .ok folded ∧
      (appendAll [⟨label, [("id", .int 1)], .update drafted renamed⟩,
        ⟨label, [("id", .int 1)], .update renamed published⟩]).run [] =
          .ok () folded.unlessEmpty.toList ∧
      folded.touches "title" = false ∧
      folded.componentChange? "shown" = some (.null, .boolean true) := by
  have made : Change.update label drafted renamed =
      .ok ⟨label, [("id", .int 1)], .update drafted renamed⟩ := rfl
  have made' : Change.update label renamed published =
      .ok ⟨label, [("id", .int 1)], .update renamed published⟩ := rfl
  have fresh : ∀ other ∈ ([] : Aggregation),
      other.instanceKey ≠ Change.instanceKey ⟨label, [("id", .int 1)], .update drafted renamed⟩ :=
    List.forall_mem_nil _
  obtain ⟨folded, joined, -, taken, each⟩ :=
    Aggregation.appendAll_updates made made' (by decide) (by decide) rfl fresh
  have title := each (.leaf ⟨"Label", "title", "title", .string, false⟩) (by decide)
  have shown := each (.leaf ⟨"Label", "shown", "shown", .boolean, true⟩) (by decide)
  refine ⟨folded, joined, taken, title.absent rfl, shown.told _ rfl ?_⟩
  cases joined
  rfl

end LiveQuery
