import LiveQuery.SortOrder
import Mathlib.Data.List.Basic

set_option autoImplicit false

namespace LiveQuery

variable {α : Type}

/-- The items in the order, those that compare as equal behind one another as before. -/
structure Arranges (cmp : α → α → Ordering) (items sorted : List α) : Prop where
  perm : sorted.Perm items
  ordered : sorted.Pairwise fun a b => cmp a b ≠ .gt
  stable : ∀ item ∈ items, sorted.filter (cmp item · = .eq) = items.filter (cmp item · = .eq)

namespace Arranges

variable {cmp cmp' : α → α → Ordering} {items sorted sorted' : List α}

theorem congr (agrees : ∀ a ∈ items, ∀ b ∈ items, cmp a b = cmp' a b)
    (arranged : Arranges cmp items sorted) : Arranges cmp' items sorted := by
  have listed : ∀ {item}, item ∈ sorted → item ∈ items := arranged.perm.mem_iff.mp
  refine ⟨arranged.perm, ?_, ?_⟩
  · refine arranged.ordered.imp_of_mem fun first second ordered => ?_
    rwa [← agrees _ (listed first) _ (listed second)]
  · intro item member
    have same : ∀ {others : List α}, (∀ other ∈ others, other ∈ items) →
        others.filter (cmp' item · = .eq) = others.filter (cmp item · = .eq) := fun within =>
      List.filter_congr fun other among => by rw [agrees item member other (within other among)]
    rw [same fun _ => listed, same fun _ among => among, arranged.stable item member]

variable [Std.TransCmp cmp]

theorem filter_eq (arranged : Arranges cmp items sorted) (item : α) :
    sorted.filter (cmp item · = .eq) = items.filter (cmp item · = .eq) := by
  by_cases some : ∃ equal ∈ items, cmp item equal = .eq
  · obtain ⟨equal, member, same⟩ := some
    simpa only [Std.TransCmp.congr_left same] using arranged.stable equal member
  · have none : ∀ other ∈ items, ¬ decide (cmp item other = .eq) := by
      simpa only [decide_eq_true_eq, not_exists, not_and] using some
    rw [List.filter_eq_nil_iff.mpr none, List.filter_eq_nil_iff]
    exact fun other member => none other (arranged.perm.mem_iff.mp member)

/-- One more item goes between those that are not behind it and those that it precedes. -/
theorem insert {before after : List α} {item : α}
    (arranged : Arranges cmp items (before ++ after))
    (above : ∀ other ∈ before, cmp other item ≠ .gt)
    (below : ∀ other ∈ after, cmp item other = .lt) :
    Arranges cmp (items ++ [item]) (before ++ item :: after) := by
  obtain ⟨early, late, across⟩ := List.pairwise_append.mp arranged.ordered
  refine ⟨?_, ?_, ?_⟩
  · exact List.perm_middle.trans ((arranged.perm.cons item).trans
      (List.perm_append_singleton item items).symm)
  · refine List.pairwise_append.mpr ⟨early, List.pairwise_cons.mpr ⟨?_, late⟩, ?_⟩
    · intro other member
      rw [below other member]
      decide
    · intro a first b second
      rcases List.mem_cons.mp second with rfl | second
      · exact above a first
      · exact across a first b second
  · intro other _
    have earlier := arranged.filter_eq other
    rw [List.filter_append] at earlier
    by_cases equal : cmp other item = .eq
    · -- Nothing behind the item equals it.
      have passed : after.filter (cmp other · = .eq) = [] := by
        refine List.filter_eq_nil_iff.mpr fun later member => ?_
        rw [Std.TransCmp.lt_of_eq_of_lt equal (below later member)]
        decide
      rw [passed, List.append_nil] at earlier
      simp only [List.filter_append, List.filter_cons, equal, passed, earlier, decide_true, if_true,
        List.filter_nil]
    · simp only [List.filter_append, List.filter_cons, equal, earlier, decide_false, if_false,
        Bool.false_eq_true, List.filter_nil, List.append_nil]

/-- A list that is in order already is its own arrangement. -/
theorem eq_of_ordered (arranged : Arranges cmp items sorted)
    (ordered : items.Pairwise fun a b => cmp a b ≠ .gt) : sorted = items := by
  induction sorted generalizing items with
  | nil => exact arranged.perm.nil_eq
  | cons first rest ih =>
    cases items with
    | nil => exact absurd arranged.perm (by simp)
    | cons first' rest' =>
      -- Either list has its first item before that of the other, so the two compare as equal.
      have equal : cmp first first' = .eq := by
        have begins {a b : α} {others : List α}
            (sorted : (a :: others).Pairwise fun a b => cmp a b ≠ .gt)
            (member : b ∈ a :: others) : (cmp a b).isLE := by
          rcases List.mem_cons.mp member with rfl | later
          · exact Std.ReflCmp.isLE_rfl
          · exact Ordering.ne_gt_iff_isLE.mp ((List.pairwise_cons.mp sorted).1 b later)
        exact Std.OrientedCmp.isLE_antisymm
          (begins arranged.ordered (arranged.perm.mem_iff.mpr List.mem_cons_self))
          (begins ordered (arranged.perm.mem_iff.mp List.mem_cons_self))
      have heads := arranged.filter_eq first
      simp only [List.filter_cons, Std.ReflCmp.compare_self, equal, decide_true, if_true,
        List.cons.injEq] at heads
      obtain ⟨rfl, -⟩ := heads
      have tail : Arranges cmp rest' rest := by
        refine ⟨arranged.perm.cons_inv, arranged.ordered.of_cons, fun item _ => ?_⟩
        have same := arranged.filter_eq item
        simp only [List.filter_cons] at same
        split at same
        · exact List.tail_eq_of_cons_eq same
        · exact same
      rw [ih tail ordered.of_cons]

/-- There is no more than one arrangement of a list. -/
theorem unique (first : Arranges cmp items sorted) (second : Arranges cmp items sorted') :
    sorted = sorted' := by
  have between : Arranges cmp sorted' sorted := by
    refine ⟨first.perm.trans second.perm.symm, first.ordered, fun item _ => ?_⟩
    rw [first.filter_eq, second.filter_eq]
  exact between.eq_of_ordered second.ordered

end Arranges

namespace SortOrder

variable {order : SortOrder} {cmp : Record → Record → Ordering} [Std.TransCmp cmp]
  {records sorted : List Record}

theorem place_eq_append (order : SortOrder) (item : Record) (back : List Record) :
    ∃ after before, back = after ++ before ∧
      order.place id item back = after ++ item :: before ∧
      (∀ other ∈ after, order.compare item other = .lt) ∧
      ∀ last ∈ before.head?, order.compare item last ≠ .lt := by
  induction back with
  | nil => exact ⟨[], [], rfl, rfl, by simp, by simp⟩
  | cons last rest ih =>
    by_cases precedes : order.compare item last = .lt
    · obtain ⟨after, before, split, placed, behind, stop⟩ := ih
      refine ⟨last :: after, before, by rw [split, List.cons_append], ?_, ?_, stop⟩
      · simp only [place, id, if_pos precedes, placed, List.cons_append]
      · exact List.forall_mem_cons.mpr ⟨precedes, behind⟩
    · refine ⟨[], last :: rest, rfl, ?_, by simp, ?_⟩
      · simp only [place, id, if_neg precedes, List.nil_append]
      · rintro _ ⟨⟩
        exact precedes

theorem not_gt_of_head {item : Record} {before : List Record}
    (ordered : before.Pairwise fun a b => cmp b a ≠ .gt)
    (stop : ∀ last ∈ before.head?, cmp item last ≠ .lt) :
    ∀ other ∈ before, cmp other item ≠ .gt := by
  cases before with
  | nil => exact List.forall_mem_nil _
  | cons last rest =>
    have here : cmp last item ≠ .gt := fun greater =>
      stop last rfl (Std.OrientedCmp.lt_of_gt greater)
    intro other member
    rcases List.mem_cons.mp member with rfl | member
    · exact here
    · have reaches : cmp other last ≠ .gt := (List.pairwise_cons.mp ordered).1 other member
      simp only [ne_eq, Ordering.ne_gt_iff_isLE] at reaches here ⊢
      exact Std.TransCmp.isLE_trans reaches here

theorem arranges_place {seen back : List Record} (item : Record)
    (agrees : ∀ other ∈ seen, order.compare item other = cmp item other)
    (arranged : Arranges cmp seen back.reverse) :
    Arranges cmp (seen ++ [item]) (order.place id item back).reverse := by
  obtain ⟨after, before, rfl, placed, behind, stop⟩ := place_eq_append order item back
  have known : ∀ {other}, other ∈ after ++ before →
      order.compare item other = cmp item other := fun member =>
    agrees _ (arranged.perm.mem_iff.mp (List.mem_reverse.mpr member))
  rw [List.reverse_append] at arranged
  have early := List.pairwise_reverse.mp (List.pairwise_append.mp arranged.ordered).1
  rw [placed, List.reverse_append, List.reverse_cons, List.append_assoc, List.singleton_append]
  refine arranged.insert (fun other member => ?_) fun other member => ?_
  · refine not_gt_of_head early (fun last first => ?_) other (List.mem_reverse.mp member)
    rw [← known (List.mem_append_right _ (List.mem_of_mem_head? first))]
    exact stop last first
  · have listed := List.mem_reverse.mp member
    rw [← known (List.mem_append_left _ listed)]
    exact behind other listed

theorem arranges_foldl {rest seen back : List Record}
    (agrees : ∀ a ∈ seen ++ rest, ∀ b ∈ seen ++ rest, order.compare a b = cmp a b)
    (arranged : Arranges cmp seen back.reverse) :
    Arranges cmp (seen ++ rest)
      (rest.foldl (fun sorted item => order.place id item sorted) back).reverse := by
  induction rest generalizing seen back with
  | nil => simpa using arranged
  | cons item rest ih =>
    have next := arranges_place item
      (fun other member => agrees _ (by simp) _ (by simp [member])) arranged
    rw [List.append_cons] at agrees ⊢
    exact ih agrees next

/-- Sorting records that are compared by a total preorder arranges them. -/
theorem arranges_sort (agrees : ∀ a ∈ records, ∀ b ∈ records, order.compare a b = cmp a b) :
    Arranges cmp records (order.sort records) := by
  have none : Arranges cmp [] ([] : List Record).reverse := ⟨.refl _, .nil, by simp⟩
  rw [← List.nil_append records] at agrees
  exact arranges_foldl agrees none

end SortOrder

end LiveQuery
