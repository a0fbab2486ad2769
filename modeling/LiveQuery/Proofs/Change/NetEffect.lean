import LiveQuery.Proofs.Change.History
import LiveQuery.Proofs.Store.Basic

set_option autoImplicit false

namespace LiveQuery

variable {catalog : Catalog} {change : Change} {changes : List Change} {aggregation : Aggregation}
  {before now after : Holdings}

/-- The entries of an aggregation are the net effect of what happened since. -/
structure Aggregation.Nets (catalog : Catalog) (before now : Holdings)
    (aggregation : Aggregation) : Prop where
  full : ∀ entry ∈ aggregation, entry.Full catalog
  proper : ∀ entry ∈ aggregation, entry.isEmptyUpdate = false
  apart : (aggregation.map Change.subject).Nodup
  found : ∀ entry ∈ aggregation,
    Option.Rel entry.node.Near (before entry.subject) entry.transition.old?
  moved : ∀ entry ∈ aggregation,
    entry.subject.Remains catalog entry.transition.new? (now entry.subject)
  kept : ∀ subject, subject ∉ aggregation.map Change.subject →
    subject.Remains catalog (before subject) (now subject)

namespace Change

theorem Full.exists_described (full : change.Full catalog) :
    ∃ record, change.subject.DescribedBy catalog record := by
  cases same : change.transition with
  | creation new => exact ⟨new, full.new new (by rw [same]; rfl)⟩
  | update old new => exact ⟨old, full.old old (by rw [same]; rfl)⟩
  | deletion old => exact ⟨old, full.old old (by rw [same]; rfl)⟩

theorem Full.instanceKey_eq_iff {definitions : CatalogDefinition}
    (built : definitions.build = .ok catalog) {other : Change} (full : change.Full catalog)
    (full' : other.Full catalog) :
    change.instanceKey = other.instanceKey ↔ change.subject = other.subject := by
  obtain ⟨record, described⟩ := full.exists_described
  obtain ⟨record', described'⟩ := full'.exists_described
  rw [Change.instanceKey_eq_iff built full.node full'.node full.plain described.names
    described'.names described.identifier described'.identifier, subject, subject,
    Instance.mk.injEq]

end Change

namespace Aggregation

theorem Nets.start (catalog : Catalog) (holdings : Holdings) : Nets catalog holdings holdings [] :=
  ⟨by simp, by simp, List.nodup_nil, by simp, by simp, fun _ _ => .refl _⟩

theorem Nets.skip (nets : Nets catalog before now aggregation) (full : change.Full catalog)
    (applies : change.Applies now after) (empty : change.isEmptyUpdate = true) :
    Nets catalog before after aggregation := by
  have remains : ∀ subject : Instance, subject.Remains catalog (now subject) (after subject) := by
    intro subject
    by_cases same : subject = change.subject
    · rw [same, applies.left]
      exact (applies.remains_old full).trans (full.remains_of_isEmptyUpdate empty)
    · rw [applies.elsewhere subject same]
      exact .refl _
  exact { nets with
    moved := fun entry inside => (nets.moved entry inside).trans (remains _)
    kept := fun subject absent => (nets.kept subject absent).trans (remains _) }

/-- The first change of an instance becomes its entry. -/
theorem Nets.extend (nets : Nets catalog before now aggregation) (full : change.Full catalog)
    (applies : change.Applies now after) (proper : change.isEmptyUpdate = false)
    (fresh : change.subject ∉ aggregation.map Change.subject) :
    Nets catalog before after (aggregation ++ [change]) := by
  have found : change.subject.Remains catalog (before change.subject) change.transition.old? :=
    (nets.kept _ fresh).trans (applies.remains_old full)
  have differs : ∀ entry ∈ aggregation, entry.subject ≠ change.subject := fun entry inside same =>
    fresh (same ▸ List.mem_map_of_mem inside)
  refine ⟨?_, ?_, ?_, ?_, ?_, ?_⟩
  · exact List.forall_mem_append.mpr ⟨nets.full, by simpa using full⟩
  · exact List.forall_mem_append.mpr ⟨nets.proper, by simpa using proper⟩
  · rw [List.map_append, List.map_singleton]
    exact List.nodup_append.mpr ⟨nets.apart, List.nodup_singleton _, by
      simpa using differs⟩
  · exact List.forall_mem_append.mpr ⟨nets.found, by simpa using found.rel⟩
  · refine List.forall_mem_append.mpr ⟨fun entry inside => ?_, ?_⟩
    · rw [applies.elsewhere _ (differs entry inside)]
      exact nets.moved entry inside
    · rw [List.forall_mem_singleton, applies.left]
      exact .refl _
  · intro subject absent
    rw [List.map_append, List.mem_append, not_or, List.map_singleton, List.mem_singleton] at absent
    rw [applies.elsewhere subject absent.2]
    exact nets.kept subject absent.1

section Folding

variable {front back : Aggregation} {entry : Change}

theorem Nets.remains_found (nets : Nets catalog before now aggregation)
    (inside : entry ∈ aggregation) :
    entry.subject.Remains catalog (before entry.subject) entry.transition.old? :=
  .of_rel (nets.found entry inside) (nets.full entry inside).old

/-- No other entry has the instance of one. -/
theorem Nets.others (nets : Nets catalog before now (front ++ entry :: back)) :
    ∀ other ∈ front ++ back, other ∈ front ++ entry :: back ∧ other.subject ≠ entry.subject := by
  intro other inside
  constructor
  · rw [List.mem_append] at inside ⊢
    exact inside.imp_right (List.mem_cons_of_mem entry)
  · refine Lists.name_ne_of_nodup ?_ other inside
    simpa using nets.apart

/-- Where two changes cancel out, the instance is what it was. -/
theorem Nets.cancel (nets : Nets catalog before now (front ++ entry :: back))
    (applies : change.Applies now after) (same : change.subject = entry.subject)
    (folds : Change.Folds catalog entry change none) :
    Nets catalog before after (front ++ back) := by
  have others := nets.others
  refine ⟨?_, ?_, ?_, ?_, ?_, ?_⟩
  · exact fun other inside => nets.full other (others other inside).1
  · exact fun other inside => nets.proper other (others other inside).1
  · refine nets.apart.sublist (List.Sublist.map _ ?_)
    exact (List.Sublist.refl front).append (List.sublist_cons_self entry back)
  · exact fun other inside => nets.found other (others other inside).1
  · intro other inside
    obtain ⟨member, differs⟩ := others other inside
    rw [applies.elsewhere _ (same ▸ differs)]
    exact nets.moved other member
  · intro subject absent
    by_cases equal : subject = entry.subject
    · have left : after entry.subject = change.transition.new? := same ▸ applies.left
      have member : entry ∈ front ++ entry :: back := by simp
      rw [equal, left]
      exact (nets.remains_found member).trans folds
    · rw [applies.elsewhere subject (same ▸ equal)]
      refine nets.kept subject fun inside => ?_
      rw [List.map_append, List.map_cons, List.mem_append, List.mem_cons] at inside
      rw [List.map_append, List.mem_append] at absent
      rcases inside with left | here | right
      · exact absent (Or.inl left)
      · exact equal here
      · exact absent (Or.inr right)

/-- Where two changes come to one, it is the entry of the instance. -/
theorem Nets.replace {folded : Change} (nets : Nets catalog before now (front ++ entry :: back))
    (applies : change.Applies now after) (same : change.subject = entry.subject)
    (folds : Change.Folds catalog entry change (some folded)) :
    Nets catalog before after (front ++ folded :: back) := by
  obtain ⟨subject_eq, full, proper, old_eq, remains⟩ := folds
  have others := nets.others
  have node_eq : folded.node = entry.node := congrArg Instance.node subject_eq
  have each {p : Change → Prop} (middle : p folded) (around : ∀ other ∈ front ++ back, p other) :
      ∀ other ∈ front ++ folded :: back, p other := by
    rw [List.forall_mem_append] at around ⊢
    exact ⟨around.1, List.forall_mem_cons.mpr ⟨middle, around.2⟩⟩
  have subjects : (front ++ folded :: back).map Change.subject =
      (front ++ entry :: back).map Change.subject := by
    simp [subject_eq]
  refine ⟨?_, ?_, ?_, ?_, ?_, ?_⟩
  · exact each full fun other inside => nets.full other (others other inside).1
  · exact each proper fun other inside => nets.proper other (others other inside).1
  · rw [subjects]
    exact nets.apart
  · refine each ?_ fun other inside => nets.found other (others other inside).1
    rw [subject_eq, old_eq, node_eq]
    exact nets.found entry (by simp)
  · refine each ?_ fun other inside => ?_
    · rw [subject_eq, ← same, applies.left, same]
      exact remains
    · obtain ⟨member, differs⟩ := others other inside
      rw [applies.elsewhere _ (same ▸ differs)]
      exact nets.moved other member
  · intro subject absent
    rw [subjects] at absent
    have differs : subject ≠ change.subject := by
      rintro rfl
      exact absent (by simp [same])
    rw [applies.elsewhere subject differs]
    exact nets.kept subject absent

end Folding

/-- One more change of a history keeps the aggregation its net effect. -/
theorem Nets.append {definitions : CatalogDefinition} (built : definitions.build = .ok catalog)
    (nets : Nets catalog before now aggregation) (full : change.Full catalog)
    (applies : change.Applies now after) :
    ∃ aggregation', (Aggregation.append change).run aggregation = .ok () aggregation' ∧
      Nets catalog before after aggregation' := by
  cases empty : change.isEmptyUpdate with
  | true => exact ⟨aggregation, append_of_isEmptyUpdate empty, nets.skip full applies empty⟩
  | false =>
    have key_iff : ∀ entry ∈ aggregation,
        (entry.instanceKey = change.instanceKey ↔ entry.subject = change.subject) :=
      fun entry inside => (nets.full entry inside).instanceKey_eq_iff built full
    cases split : splitAt? change.instanceKey aggregation with
    | none =>
      have absent := splitAt?_eq_none_iff.mp split
      refine ⟨_, append_of_fresh empty absent, nets.extend full applies empty ?_⟩
      intro inside
      obtain ⟨entry, member, same⟩ := List.mem_map.mp inside
      exact absent entry member ((key_iff entry member).mpr same)
    | some parts =>
      obtain ⟨front, entry, back⟩ := parts
      obtain ⟨rfl, named, apart⟩ := splitAt?_eq_some_iff.mp split
      have member : entry ∈ front ++ entry :: back := by simp
      have same := (key_iff entry member).mp named
      have follows : Option.Rel entry.node.Near entry.transition.new? change.transition.old? := by
        have moved := nets.moved entry member
        rw [same] at moved
        rw [← entry.subject_node, same]
        exact (moved.trans (applies.remains_old full)).rel
      obtain ⟨folded, made, folds⟩ :=
        Change.followedBy_spec (nets.full entry member) full same.symm follows
      refine ⟨_, append_of_followedBy empty named apart made, ?_⟩
      cases folded with
      | none => simpa using nets.cancel applies same.symm folds
      | some folded => simpa using nets.replace applies same.symm folds

/-- A whole history is taken in, and the aggregation is its net effect. -/
theorem Nets.appendAll {definitions : CatalogDefinition} (built : definitions.build = .ok catalog)
    (history : History now changes after) (full : ∀ change ∈ changes, change.Full catalog)
    (nets : Nets catalog before now aggregation) :
    ∃ aggregation', (Aggregation.appendAll changes).run aggregation = .ok () aggregation' ∧
      Nets catalog before after aggregation' := by
  induction history generalizing aggregation with
  | nil => exact ⟨aggregation, rfl, nets⟩
  | @cons change rest now between after first _ ih =>
    rw [List.forall_mem_cons] at full
    obtain ⟨middle, taken, nets⟩ := nets.append built full.1 first
    obtain ⟨last, behind, nets⟩ := ih full.2 nets
    exact ⟨last, (appendAll_of_append taken).trans behind, nets⟩

/-- The entries of a net effect apply to what the history found, each at its own instance. -/
theorem exists_history (entries : Aggregation) (apart : (entries.map Change.subject).Nodup)
    (found : ∀ entry ∈ entries,
      Option.Rel entry.node.Near (before entry.subject) entry.transition.old?) :
    ∃ after, History before entries after ∧
      (∀ entry ∈ entries, after entry.subject = entry.transition.new?) ∧
      ∀ subject, subject ∉ entries.map Change.subject → after subject = before subject := by
  induction entries generalizing before with
  | nil => exact ⟨before, .nil before, by simp, fun _ _ => rfl⟩
  | cons entry rest ih =>
    rw [List.map_cons, List.nodup_cons] at apart
    rw [List.forall_mem_cons] at found
    obtain ⟨between, applies⟩ := Change.exists_applies found.1
    have found' : ∀ later ∈ rest,
        Option.Rel later.node.Near (between later.subject) later.transition.old? := by
      intro later inside
      rw [applies.elsewhere later.subject fun same => apart.1 (same ▸ List.mem_map_of_mem inside)]
      exact found.2 later inside
    obtain ⟨after, history, moved, kept⟩ := ih apart.2 found'
    refine ⟨after, .cons applies history, ?_, ?_⟩
    · rw [List.forall_mem_cons]
      exact ⟨(kept _ apart.1).trans applies.left, moved⟩
    · intro subject absent
      rw [List.map_cons, List.mem_cons, not_or] at absent
      rw [kept subject absent.2, applies.elsewhere subject absent.1]

/-- The aggregation of a history has at most one entry for each instance and no empty update. Its
entries apply to what the history found, and what they leave no component tells apart from what the
history left. -/
theorem faithful_of_history {definitions : CatalogDefinition}
    (built : definitions.build = .ok catalog) (full : ∀ change ∈ changes, change.Full catalog)
    (history : History before changes after) :
    ∃ aggregation, ofChanges changes = .ok aggregation ∧
      (aggregation.map Change.subject).Nodup ∧
      (∀ entry ∈ aggregation, entry.isEmptyUpdate = false) ∧
      ∃ after', History before aggregation after' ∧
        ∀ subject : Instance, Option.Rel subject.node.Near (after' subject) (after subject) := by
  obtain ⟨aggregation, taken, nets⟩ :=
    Nets.appendAll built history full (Nets.start catalog before)
  refine ⟨aggregation, ?_, nets.apart, nets.proper, ?_⟩
  · unfold ofChanges
    rw [taken]
  · obtain ⟨after', applied, moved, kept⟩ := exists_history aggregation nets.apart nets.found
    refine ⟨after', applied, fun subject => ?_⟩
    by_cases inside : subject ∈ aggregation.map Change.subject
    · obtain ⟨entry, member, rfl⟩ := List.mem_map.mp inside
      rw [moved entry member]
      exact (nets.moved entry member).rel
    · rw [kept subject inside]
      exact (nets.kept subject inside).rel

end Aggregation

namespace Samples

/-- The task before anyone is given it. -/
def openChore : Record := [("id", .int 7), ("owner", .null)]

def choreId : Record := [("id", .int 7)]

theorem chore_described : Instance.DescribedBy boardCatalog ⟨task, choreId⟩ chore := by
  refine ⟨by decide, ?_, rfl⟩
  intro component inside
  rcases List.mem_cons.mp inside with rfl | later
  · exact ⟨.int 7, rfl, rfl⟩
  · cases List.mem_singleton.mp later
    exact Or.inr ⟨ada, rfl, ada_identifies⟩

theorem openChore_described : Instance.DescribedBy boardCatalog ⟨task, choreId⟩ openChore := by
  refine ⟨by decide, ?_, rfl⟩
  intro component inside
  rcases List.mem_cons.mp inside with rfl | later
  · exact ⟨.int 7, rfl, rfl⟩
  · cases List.mem_singleton.mp later
    exact Or.inl ⟨rfl, rfl⟩

/-- A change of the task between the two records. -/
theorem full_chore {transition : Transition}
    (old : ∀ record, transition.old? = some record → record = chore ∨ record = openChore)
    (new : ∀ record, transition.new? = some record → record = chore ∨ record = openChore) :
    Change.Full boardCatalog ⟨task, choreId, transition⟩ := by
  have described {record : Record} (which : record = chore ∨ record = openChore) :
      Instance.DescribedBy boardCatalog ⟨task, choreId⟩ record := by
    rcases which with rfl | rfl
    · exact chore_described
    · exact openChore_described
  refine ⟨rfl, ?_, fun record same => described (old record same),
    fun record same => described (new record same)⟩
  intro component inside
  cases List.mem_singleton.mp inside
  rfl

end Samples

open Samples in
/-- A task that is made and then given to someone, all in one mutation. -/
theorem Aggregation.faithful_of_given_chore :
    ∃ after, History (fun _ => none)
        [⟨task, choreId, .creation openChore⟩, ⟨task, choreId, .update openChore chore⟩] after ∧
      ∃ aggregation, ofChanges
          [⟨task, choreId, .creation openChore⟩, ⟨task, choreId, .update openChore chore⟩] =
            .ok aggregation ∧
        (aggregation.map Change.subject).Nodup ∧
        (∀ entry ∈ aggregation, entry.isEmptyUpdate = false) ∧
        ∃ after', History (fun _ => none) aggregation after' ∧
          ∀ subject : Instance, Option.Rel subject.node.Near (after' subject) (after subject) := by
  let made : Change := ⟨task, choreId, .creation openChore⟩
  let given : Change := ⟨task, choreId, .update openChore chore⟩
  obtain ⟨between, first⟩ : ∃ between, made.Applies (fun _ => none) between :=
    made.exists_applies .none
  have known : between given.subject = some openChore := first.left
  have found : Option.Rel given.node.Near (between given.subject) given.transition.old? := by
    rw [known]
    exact .some (.refl _ _)
  obtain ⟨after, second⟩ := given.exists_applies found
  have history : History (fun _ => none) [made, given] after := .cons first (.cons second (.nil _))
  refine ⟨after, history, faithful_of_history build_board ?_ history⟩
  rw [List.forall_mem_cons, List.forall_mem_singleton]
  refine ⟨full_chore ?_ ?_, full_chore ?_ ?_⟩
  · rintro record ⟨⟩
  · rintro record ⟨⟩
    exact Or.inr rfl
  · rintro record ⟨⟩
    exact Or.inr rfl
  · rintro record ⟨⟩
    exact Or.inl rfl

end LiveQuery
