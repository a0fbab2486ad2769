import LiveQuery.Proofs.Impact.Membership
import LiveQuery.Proofs.Store.Rekeying

set_option autoImplicit false

namespace LiveQuery

/-- Wherever something is not kept of an instance, one of the results matches its record from before
or the one from after. -/
def Notices (pairs : Node → Record → Record → Prop) (before after : Store) (node : Node)
    (view : View) (kept : Kept) (results : List Predicate) : Prop :=
  ∀ ⦃row row'⦄, pairs node row row' → ¬kept before after row row' →
    ∀ ⦃record record'⦄, view before row record → view after row' record' →
      ∃ result ∈ results, result.evaluate node.name record = .ok true ∨
        result.evaluate node.name record' = .ok true

namespace Notices

variable {pairs : Node → Record → Record → Prop} {before after : Store} {node : Node}
  {view view' : View} {kept kept' : Kept} {results more : List Predicate}

theorem of_kept (always : ∀ ⦃row row'⦄, pairs node row row' → kept before after row row') :
    Notices pairs before after node view kept results :=
  fun _ _ pair lost => absurd (always pair) lost

theorem narrow (notices : Notices pairs before after node view kept results)
    (stronger : ∀ ⦃store row record⦄, view' store row record → view store row record) :
    Notices pairs before after node view' kept results :=
  fun _ _ pair lost _ _ shown shown' => notices pair lost (stronger shown) (stronger shown')

theorem weaken (notices : Notices pairs before after node view kept results)
    (weaker : ∀ ⦃row row'⦄, pairs node row row' → kept before after row row' →
      kept' before after row row') : Notices pairs before after node view kept' results :=
  fun _ _ pair lost => notices pair fun still => lost (weaker pair still)

theorem append (first : Notices pairs before after node view kept results)
    (second : Notices pairs before after node view kept' more) :
    Notices pairs before after node view
      (fun before after row row' => kept before after row row' ∧ kept' before after row row')
      (results ++ more) := by
  intro row row' pair lost record record' shown shown'
  rcases Classical.not_and_iff_not_or_not.mp lost with lost | lost
  · obtain ⟨result, inside, matched⟩ := first pair lost shown shown'
    exact ⟨result, List.mem_append_left _ inside, matched⟩
  · obtain ⟨result, inside, matched⟩ := second pair lost shown shown'
    exact ⟨result, List.mem_append_right _ inside, matched⟩

/-- One predicate does for a list of them. -/
theorem union (notices : Notices pairs before after node view kept results)
    (settled : ∀ ⦃store row record⦄, view store row record →
      ∀ result ∈ results, Predicate.Settled node.name result record) :
    Notices pairs before after node view kept (Predicate.union results).toList := by
  unfold Predicate.union
  cases results with
  | nil => exact notices
  | cons first rest =>
    have joined : ∀ {store row record}, view store row record → ∀ result ∈ first :: rest,
        result.evaluate node.name record = .ok true →
          (Predicate.junction .any (first :: rest)).reduced.evaluate node.name record =
            .ok true := by
      intro store row record shown result inside matched
      obtain ⟨value, evaluated, some⟩ :=
        Predicate.evaluateAll_any fun result inside => (settled shown result inside).evaluates
      have found : value = true := some.mpr ⟨result, inside, matched⟩
      rw [(Predicate.Settled.junction (settled shown)).evaluate_reduced_eq,
        Predicate.evaluate_junction, evaluated, found]
    intro row row' pair lost record record' shown shown'
    obtain ⟨result, inside, matched⟩ := notices pair lost shown shown'
    exact ⟨_, List.mem_singleton_self _,
      matched.imp (joined shown result inside) (joined shown' result inside)⟩

end Notices

section Steps

variable {catalog : Catalog} {change : Change} {before after : Store} {front back : List Record}
  {old new : Record} {node head : Node} {view : View} {results : List Predicate}

theorem Rekeying.notices_own (rekeying : Rekeying catalog change before after front back old new)
    (found : catalog.node? node.name = some node) {component : Component}
    (inside : component ∈ node.components) {own : List Predicate}
    (owned : Predicate.instanceIf (Predicate.changesComponent node.name component.name change)
      catalog node change = .ok own) :
    Notices (Counterparts change before front back old new) before after node
      (.identified catalog node.name) (fun _ _ row row' => component.Agrees row row') own := by
  intro row row' pair lost record record' shown shown'
  obtain ⟨rfl, rfl, touches⟩ := (rekeying.agrees found pair inside).resolve_left lost
  obtain ⟨result, identified, spec⟩ :=
    rekeying.sound.changedInstance_spec rekeying.wellFormed
  have changes : Predicate.changesComponent change.node.name component.name change = true := by
    unfold Predicate.changesComponent
    rw [touches, Bool.or_true, Bool.and_true]
    exact decide_eq_true rfl
  rw [changes, Predicate.instanceIf, if_pos rfl, identified] at owned
  cases owned
  obtain ⟨names, key⟩ := shown _ found
  refine ⟨result, List.mem_singleton_self _, Or.inl ?_⟩
  rw [(spec record names).1, decide_eq_true (key.trans rekeying.old_key)]

/-- A condition on a head is noticed through the edge, or by the edge itself. -/
theorem Rekeying.notices_edge (rekeying : Rekeying catalog change before after front back old new)
    (found : catalog.node? node.name = some node) {link : Edge} {condition : Option Predicate}
    (inside : .edge link ∈ node.components) (leads : catalog.Leads link head)
    {own : List Predicate}
    (itself : Notices (Counterparts change before front back old new) before after node
      (.identified catalog node.name) (fun _ _ row row' => (Component.edge link).Agrees row row')
      own)
    (below : Notices (Counterparts change before front back old new) before after head view
      (.headMembership condition) results) :
    Notices (Counterparts change before front back old new) before after node
      (.both (.identified catalog node.name) (.edge link view))
      (.membership (.edge link condition))
      (own ++ results.map fun result => .edge link (some result)) := by
  have name := Catalog.name_of_node? leads.node
  intro row row' pair lost record record' shown shown'
  by_cases agrees : link.target row = link.target row'
  · rcases rekeying.head_of_agrees found pair inside leads agrees with
      ⟨none, none'⟩ | ⟨other, pair', refers, refers'⟩
    · refine absurd ?_ lost
      unfold Kept.membership
      rw [Store.holds_edge_of_target_eq_none none, Store.holds_edge_of_target_eq_none none']
    · obtain ⟨there, there'⟩ := rekeying.mem_of_counterparts pair'
      rw [name] at there there'
      have lost : ¬Kept.headMembership condition before after other other := by
        unfold Kept.membership at lost
        rwa [rekeying.consistent.holds_edge_of_refers leads there refers,
          rekeying.consistent'.holds_edge_of_refers leads there' refers'] at lost
      obtain ⟨inner, known, seen⟩ :=
        View.exists_head rekeying.consistent leads there refers shown.2
      obtain ⟨inner', known', seen'⟩ :=
        View.exists_head rekeying.consistent' leads there' refers' shown'.2
      obtain ⟨result, listed, matched⟩ := below pair' lost seen seen'
      rw [name] at matched
      exact ⟨_, List.mem_append_right _ (List.mem_map_of_mem listed), matched.imp
        (fun matched => Predicate.evaluate_edge_eq_ok.mpr ⟨_, known, matched⟩)
        fun matched => Predicate.evaluate_edge_eq_ok.mpr ⟨_, known', matched⟩⟩
  · obtain ⟨result, listed, matched⟩ := itself pair agrees shown.1 shown'.1
    exact ⟨result, List.mem_append_left _ listed, matched⟩

theorem View.exists_matching {relation : ReverseEdge} (relates : catalog.Relates node relation head)
    (settled : ∀ ⦃store row record⦄, view store row record →
      ∀ result ∈ results, Predicate.Settled head.name result record)
    {store : Store} {row record child : Record}
    (shown : View.children relation view store row record)
    (inside : child ∈ store.children relation row) :
    ∃ inner, view store child inner ∧ ∀ result ∈ results,
      result.evaluate head.name inner = .ok true →
        (Predicate.reverse relation (some result)).evaluate node.name record = .ok true := by
  obtain ⟨value, heads, inner, known, lists, seen, member, here⟩ := View.exists_inner shown inside
  refine ⟨inner, here, fun result listed matched => ?_⟩
  refine (Predicate.evaluate_reverse_listed known lists fun inner listed' => ?_).2 inner member
    (relates.name ▸ matched)
  obtain ⟨other, seen⟩ := seen inner listed'
  exact relates.name ▸ settled seen result listed

/-- It is kept of every row behind a reverse edge, in their order. -/
def Kept.listed (relation : ReverseEdge) (kept : Kept) : Kept := fun before after row row' =>
  List.Forall₂ (kept before after) (before.children relation row) (after.children relation row')

/-- A child of which something is lost is noticed in both lists. -/
theorem Notices.listed {relation : ReverseEdge} {kept : Kept}
    {pairs : Node → Record → Record → Prop}
    (below : Notices pairs before after head view kept results)
    (relates : catalog.Relates node relation head)
    (settled : ∀ ⦃store row record⦄, view store row record →
      ∀ result ∈ results, Predicate.Settled head.name result record)
    {row row' record record' child child' : Record}
    (shown : View.children relation view before row record)
    (shown' : View.children relation view after row' record')
    (inside : child ∈ before.children relation row)
    (inside' : child' ∈ after.children relation row') (pair : pairs head child child')
    (lost : ¬kept before after child child') : ∃ result ∈ results,
      ((∃ inner, view before child inner ∧ result.evaluate head.name inner = .ok true) ∨
        ∃ inner, view after child' inner ∧ result.evaluate head.name inner = .ok true) ∧
      ((Predicate.reverse relation (some result)).evaluate node.name record = .ok true ∨
        (Predicate.reverse relation (some result)).evaluate node.name record' = .ok true) := by
  obtain ⟨inner, seen, found⟩ := View.exists_matching relates settled shown inside
  obtain ⟨inner', seen', found'⟩ := View.exists_matching relates settled shown' inside'
  obtain ⟨result, listed, matched | matched⟩ := below pair lost seen seen'
  · exact ⟨result, listed, Or.inl ⟨inner, seen, matched⟩, Or.inl (found result listed matched)⟩
  · exact ⟨result, listed, Or.inr ⟨inner', seen', matched⟩,
      Or.inr (found' result listed matched)⟩

/-- The instance is noticed as a parent by the references of the changed child. -/
theorem Rekeying.notices_parents
    (rekeying : Rekeying catalog change before after front back old new) {relation : ReverseEdge}
    (relates : catalog.Relates node relation change.node)
    (tells : Predicate.lacksValue relation.edge.name change = false)
    {parents : List (List Predicate)}
    (recognised : ∀ reference, .record reference ∈ change.references relation →
      ∃ result ∈ parents.flatten, ∀ record, catalog.Names node record →
        node.key record = node.key reference → result.evaluate node.name record = .ok true)
    {row row' record record' : Record}
    (shown : View.identified catalog node.name before row record)
    (shown' : View.identified catalog node.name after row' record')
    (meets : relation.edge.refers old row = true ∨ relation.edge.refers new row' = true) :
    ∃ result ∈ parents.flatten, result.evaluate node.name record = .ok true ∨
      result.evaluate node.name record' = .ok true := by
  rcases meets with refers | refers
  · obtain ⟨reference, told, key⟩ := rekeying.toReplaces.reference_before relates tells rfl refers
    obtain ⟨result, listed, matched⟩ := recognised reference told
    obtain ⟨names, same⟩ := shown _ relates.owner
    exact ⟨result, listed, Or.inl (matched record names (same.trans key))⟩
  · obtain ⟨reference, told, key⟩ := rekeying.toReplaces.reference_after relates tells rfl refers
    obtain ⟨result, listed, matched⟩ := recognised reference told
    obtain ⟨names, same⟩ := shown' _ relates.owner
    exact ⟨result, listed, Or.inr (matched record' names (same.trans key))⟩

/-- Where the update may move the instance to other parents, these are noticed, and what is left out
of the results matches no other row. -/
theorem Rekeying.notices_moved
    (rekeying : Rekeying catalog change before after front back old new) {relation : ReverseEdge}
    (relates : catalog.Relates node relation change.node) {kept : Kept}
    (below : Notices (Counterparts change before front back old new) before after change.node view
      kept results)
    (settled : ∀ ⦃store row record⦄, view store row record →
      ∀ result ∈ results, Predicate.Settled change.node.name result record)
    (named : results ≠ [] → ∀ ⦃store row record⦄, view store row record →
      View.identified catalog change.node.name store row record)
    (moved : Predicate.changesComponent change.node.name relation.edge.name change = true)
    (tells : Predicate.lacksValue relation.edge.name change = false) :
    ∃ parents changed, (change.references relation).mapM (Predicate.parentOf catalog node) =
        .ok parents ∧
      Predicate.changedInstance catalog change.node change = .ok changed ∧
      Notices (Counterparts change before front back old new) before after node
        (.both (.identified catalog node.name) (.children relation view)) (.listed relation kept)
        (parents.flatten ++
          (results.filter (changed != ·)).map fun result => .reverse relation (some result)) := by
  obtain ⟨parents, mapped, -, recognised⟩ :=
    parents_spec rekeying.wellFormed rekeying.sound relates
  obtain ⟨changed, identified, spec⟩ := rekeying.sound.changedInstance_spec rekeying.wellFormed
  refine ⟨parents, changed, mapped, identified, ?_⟩
  intro row row' pair lost record record' shown shown'
  rcases rekeying.children_cases relates pair with ⟨-, -, meets⟩ | stays
  · obtain ⟨result, listed, matched⟩ :=
      rekeying.notices_parents relates tells recognised shown.1 shown'.1 meets
    exact ⟨result, List.mem_append_left _ listed, matched⟩
  · obtain ⟨child, inside, child', inside', stay, lost⟩ :=
      Lists.exists_of_not_forall₂ stays lost
    obtain ⟨same, apart⟩ := stay.apart moved
    obtain ⟨result, listed, seen, matched⟩ :=
      below.listed relates settled shown.2 shown'.2 inside inside' stay.pair lost
    -- the result cannot be the one left out, which matches the changed instance only
    have unequal : (changed != result) = true := by
      rcases seen with ⟨inner, seen, found⟩ | ⟨inner, seen, found⟩ <;>
        obtain ⟨names, key⟩ := named (List.ne_nil_of_mem listed) seen _ relates.found
      · refine Predicate.bne_of_evaluate ?_ found
        rw [(spec inner names).1, key, decide_eq_false apart]
      · refine Predicate.bne_of_evaluate ?_ found
        rw [(spec inner names).1, key, same, decide_eq_false apart]
    exact ⟨_, List.mem_append_right _ (List.mem_map_of_mem
      (List.mem_filter.mpr ⟨listed, unequal⟩)), matched⟩

/-- What an update does to the rows behind a relation is noticed through the relation, or by the
references of the instance. -/
theorem Rekeying.notices_reverse
    (rekeying : Rekeying catalog change before after front back old new)
    {relation : ReverseEdge} (relates : catalog.Relates node relation head) {kept : Kept}
    (below : Notices (Counterparts change before front back old new) before after head view kept
      results)
    (settled : ∀ ⦃store row record⦄, view store row record →
      ∀ result ∈ results, Predicate.Settled head.name result record)
    (named : results ≠ [] → ∀ ⦃store row record⦄, view store row record →
      View.identified catalog head.name store row record)
    {through : List Predicate}
    (led : Predicate.throughReverse catalog node relation results change = .ok through) :
    Notices (Counterparts change before front back old new) before after node
      (.both (.identified catalog node.name) (.children relation view)) (.listed relation kept)
      through := by
  rw [throughReverse_eq relates] at led
  by_cases moved : Predicate.changesComponent head.name relation.edge.name change = true
  · rw [if_pos moved] at led
    cases tells : Predicate.lacksValue relation.edge.name change with
    | true =>
      rw [tells, if_pos rfl] at led
      cases led
      exact fun _ _ _ _ _ _ _ _ => ⟨_, List.mem_singleton_self _, Or.inl rfl⟩
    | false =>
      obtain rfl := Predicate.here_of_changesComponent rekeying.sound relates.found moved
      obtain ⟨parents, changed, mapped, identified, notices⟩ :=
        rekeying.notices_moved relates below settled named moved tells
      rw [tells] at led
      simp only [Bool.false_eq_true, ↓reduceIte, mapped, identified, Outcome.ok_bind,
        Outcome.pure_eq_ok, Except.ok.injEq] at led
      subst led
      exact notices
  · rw [if_neg moved] at led
    cases led
    intro row row' pair lost record record' shown shown'
    rcases rekeying.children_cases relates pair with ⟨-, moves, -⟩ | stays
    · exact absurd moves moved
    · obtain ⟨child, inside, child', inside', stay, lost⟩ :=
        Lists.exists_of_not_forall₂ stays lost
      obtain ⟨result, listed, -, matched⟩ :=
        below.listed relates settled shown.2 shown'.2 inside inside' stay.pair lost
      exact ⟨_, List.mem_map_of_mem listed, matched⟩

end Steps

namespace Predicate

variable {catalog : Catalog} {change : Change} {before after : Store} {front back : List Record}
  {old new : Record} {node : Node}

/-- The analysis of a predicate, and that it notices the instances whose membership changes. -/
structure Noticed (catalog : Catalog) (change : Change) (pairs : Node → Record → Record → Prop)
    (before after : Store) (node : Node) (predicate : Predicate) (result : Option Predicate) :
    Prop extends Analysed catalog change node predicate result where
  notices : Notices pairs before after node
    (.both (.identified catalog node.name) (predicate.shown catalog)) (.membership predicate)
    result.toList

theorem analysed_of_affected (wellFormed : catalog.WellFormed) (sound : change.Sound catalog)
    {predicate : Predicate} (found : catalog.node? node.name = some node)
    (fits : predicate.fits catalog node.name = true) {result : Option Predicate}
    (computed : affected catalog change node predicate = .ok result) :
    Analysed catalog change node predicate result := by
  obtain ⟨other, analysed⟩ := exists_analysed wellFormed sound found fits
  have same := analysed.affected
  rw [computed, Except.ok.injEq] at same
  exact same ▸ analysed

theorem noticesAll {pairs : Node → Record → Record → Prop} {operands results : List Predicate}
    (each : ∀ operand ∈ operands,
      ∃ result, Noticed catalog change pairs before after node operand result)
    (computed : affectedAll catalog change node operands = .ok results) :
    Notices pairs before after node
      (.both (.identified catalog node.name) (shownAll catalog operands))
      (fun before after row row' =>
        ∀ operand ∈ operands, Kept.membership operand before after row row') results := by
  induction operands generalizing results with
  | nil => exact Notices.of_kept fun _ _ _ => by simp
  | cons operand rest ih =>
    rw [List.forall_mem_cons] at each
    obtain ⟨result, noticed⟩ := each.1
    rw [affectedAll, noticed.affected, Outcome.ok_bind] at computed
    obtain ⟨others, further, same⟩ := Outcome.bind_eq_ok.mp computed
    cases same
    have first : Notices pairs before after node
        (.both (.identified catalog node.name) (shownAll catalog (operand :: rest)))
        (.membership operand) result.toList :=
      noticed.notices.narrow fun _ _ _ shown => ⟨shown.1, shown.2.1⟩
    have behind : Notices pairs before after node
        (.both (.identified catalog node.name) (shownAll catalog (operand :: rest)))
        (fun before after row row' =>
          ∀ operand ∈ rest, Kept.membership operand before after row row') others :=
      (ih each.2 further).narrow fun _ _ _ shown => ⟨shown.1, shown.2.2⟩
    exact (first.append behind).weaken fun _ _ _ both => List.forall_mem_cons.mpr both

theorem noticesHead {pairs : Node → Record → Record → Prop} {head : Option Predicate}
    {results : List Predicate}
    (each : ∀ inner, head = some inner →
      ∃ result, Noticed catalog change pairs before after node inner result)
    (computed : affectedHead catalog change (.ok node) head = .ok results) :
    Notices pairs before after node
      (.both (.identified catalog node.name) (shownHead catalog head)) (.headMembership head)
      results := by
  cases head with
  | none => exact Notices.of_kept fun _ _ _ => rfl
  | some inner =>
    obtain ⟨result, noticed⟩ := each inner rfl
    have looked : affectedHead catalog change (.ok node) (some inner) =
        (affected catalog change node inner >>= fun result => pure result.toList) := rfl
    rw [looked, noticed.affected] at computed
    cases computed
    exact noticed.notices

theorem noticed_junction (rekeying : Rekeying catalog change before after front back old new)
    (found : catalog.node? node.name = some node) {kind : Junction} {operands : List Predicate}
    (fits : (Predicate.junction kind operands).fits catalog node.name = true)
    (each : ∀ operand ∈ operands, ∃ result, Noticed catalog change
      (Counterparts change before front back old new) before after node operand result) :
    ∃ result, Noticed catalog change (Counterparts change before front back old new) before after
      node (.junction kind operands) result := by
  obtain ⟨results, computed, touched, covers⟩ :=
    affectedAll_spec fun operand inside => (each operand inside).imp fun _ noticed => noticed.1
  have affected : affected catalog change node (.junction kind operands) = .ok (union results) :=
    affected_junction rekeying.wellFormed (fitsAll_iff.mp fits) computed touched
  refine ⟨union results,
    analysed_of_affected rekeying.wellFormed rekeying.sound found fits affected, ?_⟩
  refine ((noticesAll each computed).union covers.settled).weaken ?_
  intro row row' pair each
  exact holdsAll_eq kind each

theorem noticed_leaf (rekeying : Rekeying catalog change before after front back old new)
    (found : catalog.node? node.name = some node) {field : Leaf} {operator : LeafOperator}
    {expected : Value}
    (fits : (Predicate.leaf field operator expected).fits catalog node.name = true)
    (inside : .leaf field ∈ node.components) :
    ∃ result, Noticed catalog change (Counterparts change before front back old new) before after
      node (.leaf field operator expected) result := by
  obtain ⟨own, owned, changes, covers⟩ :=
    own_spec rekeying.wellFormed rekeying.sound found inside id fun _ => id
  refine ⟨union own, analysed_of_affected rekeying.wellFormed rekeying.sound found fits
    (affected_leaf owned changes), ?_⟩
  have notices := (rekeying.notices_own found inside owned).union covers.settled
  refine (notices.narrow fun _ _ _ shown => shown.1).weaken ?_
  intro row row' pair agrees
  exact agrees_holds_leaf agrees

theorem noticed_edge (rekeying : Rekeying catalog change before after front back old new)
    (found : catalog.node? node.name = some node) {link : Edge} {condition : Option Predicate}
    (fits : (Predicate.edge link condition).fits catalog node.name = true) {head : Node}
    (leads : catalog.Leads link head) (inside : .edge link ∈ node.components)
    (below : ∀ inner, condition = some inner → ∃ result, Noticed catalog change
      (Counterparts change before front back old new) before after head inner result) :
    ∃ result, Noticed catalog change (Counterparts change before front back old new) before after
      node (.edge link condition) result := by
  have name := Catalog.name_of_node? leads.node
  obtain ⟨own, owned, changes, covers⟩ :=
    own_spec rekeying.wellFormed rekeying.sound found inside id fun _ => id
  obtain ⟨results, computed, touched, covers'⟩ :=
    affectedHead_spec fun inner same => (below inner same).imp fun _ noticed => noticed.1
  have affected :=
    affected_edge rekeying.wellFormed fits leads owned changes computed touched
  refine ⟨_, analysed_of_affected rekeying.wellFormed rekeying.sound found fits affected, ?_⟩
  have notices := rekeying.notices_edge found inside leads
    (rekeying.notices_own found inside owned) (noticesHead below computed)
  refine (notices.union fun _ _ _ shown => ?_).narrow fun _ _ _ shown => ⟨shown.1, name ▸ shown.2⟩
  exact List.forall_mem_append.mpr ⟨covers.settled shown.1,
    List.forall_mem_map.mpr (covers'.settled_edge leads shown.2)⟩

theorem noticed_reverse (rekeying : Rekeying catalog change before after front back old new)
    (found : catalog.node? node.name = some node) {relation : ReverseEdge}
    {condition : Option Predicate}
    (fits : (Predicate.reverse relation condition).fits catalog node.name = true) {head : Node}
    (relates : catalog.Relates node relation head)
    (below : ∀ inner, condition = some inner → ∃ result, Noticed catalog change
      (Counterparts change before front back old new) before after head inner result) :
    ∃ result, Noticed catalog change (Counterparts change before front back old new) before after
      node (.reverse relation condition) result := by
  obtain ⟨results, computed, touched, covers⟩ :=
    affectedHead_spec fun inner same => (below inner same).imp fun _ noticed => noticed.1
  obtain ⟨through, led, changes, covers'⟩ := throughReverse_spec rekeying.wellFormed rekeying.sound
    relates covers fun _ _ _ _ shown => shown.1
  have affected :=
    affected_reverse rekeying.wellFormed fits relates computed touched led changes
  refine ⟨_, analysed_of_affected rekeying.wellFormed rekeying.sound found fits affected, ?_⟩
  have notices := rekeying.notices_reverse relates (noticesHead below computed) covers.settled
    (fun _ _ _ _ shown => shown.1) led
  refine ((notices.union covers'.settled).narrow fun _ _ _ shown => relates.name ▸ shown).weaken ?_
  intro row row' pair still
  exact Lists.any_eq_of_forall₂ still fun _ _ same => same

theorem noticed_count (rekeying : Rekeying catalog change before after front back old new)
    (found : catalog.node? node.name = some node) {relation : ReverseEdge}
    {comparison : Comparison} {number : Nat}
    (fits : (Predicate.count relation comparison number).fits catalog node.name = true)
    {head : Node} (relates : catalog.Relates node relation head) :
    ∃ result, Noticed catalog change (Counterparts change before front back old new) before after
      node (.count relation comparison number) result := by
  have nothing : Covers catalog change head View.anything (fun _ _ _ _ => True) [] :=
    Covers.of_kept fun _ _ _ _ _ _ => trivial
  obtain ⟨through, led, changes, covers⟩ := throughReverse_spec rekeying.wellFormed rekeying.sound
    relates nothing fun some => absurd rfl some
  have affected : affected catalog change node (.count relation comparison number) =
      .ok (union through) :=
    affected_count rekeying.wellFormed fits relates led
      fun some => (changes some).resolve_right fun further => further rfl
  refine ⟨_, analysed_of_affected rekeying.wellFormed rekeying.sound found fits affected, ?_⟩
  have below : Notices (Counterparts change before front back old new) before after head
      View.anything (fun _ _ _ _ => True) [] := Notices.of_kept fun _ _ _ => trivial
  have notices := rekeying.notices_reverse relates below nothing.settled
    (fun some => absurd rfl some) led
  refine ((notices.union covers.settled).narrow fun _ _ _ shown => ⟨shown.1, shown.2.1⟩).weaken ?_
  intro row row' pair still
  unfold Kept.membership
  rw [Store.holds, Store.holds, still.length_eq]

/-- Every predicate that fits the catalog is analysed so that the instance is noticed. -/
theorem exists_noticed (rekeying : Rekeying catalog change before after front back old new)
    {predicate : Predicate} (found : catalog.node? node.name = some node)
    (fits : predicate.fits catalog node.name = true) :
    ∃ result, Noticed catalog change (Counterparts change before front back old new) before after
      node predicate result := by
  -- for every node at once: what is below an edge is analysed on the node that it leads to
  induction predicate generalizing node with
  | constant value =>
    have analysed := exists_analysed rekeying.wellFormed rekeying.sound found fits
    exact analysed.imp fun _ analysed => ⟨analysed, Notices.of_kept fun _ _ _ => rfl⟩
  | junction kind operands ih =>
    exact noticed_junction rekeying found fits fun operand inside =>
      ih operand inside found (fitsAll_iff.mp fits operand inside)
  | negation operand ih =>
    obtain ⟨result, noticed⟩ := ih found fits
    have affected : affected catalog change node (.negation operand) = .ok result := by
      unfold Predicate.affected
      exact unlessUntouched_eq noticed.affected noticed.toAnalysed.touched
    refine ⟨result,
      analysed_of_affected rekeying.wellFormed rekeying.sound found fits affected, ?_⟩
    refine noticed.notices.weaken ?_
    intro row row' pair same
    exact congrArg (!·) same
  | leaf field operator expected =>
    have known := fits
    rw [Predicate.fits, decide_eq_true_iff, found, Option.bind_some] at known
    exact noticed_leaf rekeying found fits (Node.mem_of_component? known)
  | edge link condition ih =>
    obtain ⟨⟨definition, found', component⟩, headed⟩ := fits_edge fits
    rw [found, Option.some.injEq] at found'
    subst found'
    have inside := Node.mem_of_component? component
    obtain ⟨head, leads⟩ := rekeying.wellFormed.heads found link inside
    have name := Catalog.name_of_node? leads.node
    refine noticed_edge rekeying found fits leads inside fun inner same => ?_
    subst same
    exact ih inner rfl (name ▸ leads.node) (name ▸ headed)
  | reverse relation condition ih =>
    obtain ⟨⟨definition, found', related⟩, headed⟩ := fits_reverse fits
    rw [found, Option.some.injEq] at found'
    subst found'
    obtain ⟨head, relates⟩ := rekeying.wellFormed.relates found related
    refine noticed_reverse rekeying found fits relates fun inner same => ?_
    subst same
    exact ih inner rfl relates.found (relates.name ▸ headed)
  | count relation comparison number =>
    have known := fits
    rw [Predicate.fits, Bool.and_eq_true, decide_eq_true_iff, found, Option.bind_some] at known
    obtain ⟨head, relates⟩ := rekeying.wellFormed.relates found known.1
    exact noticed_count rekeying found fits relates
  | raw => cases fits

end Predicate

/-- Where an update gives an instance another key, and the instance enters or leaves a filter, the
analysis tells of the instance by its record from before or by the one from after. -/
theorem Filter.affected_of_rekeyed {definitions : CatalogDefinition} {catalog : Catalog}
    (built : definitions.build = .ok catalog) {filter : Filter} (fits : filter.fits catalog = true)
    {change : Change} {before after : Store} {row row' : Record}
    (rekeys : change.Rekeys catalog before after row row') (root : filter.node = change.node)
    {old new : Record} (shown : filter.shown catalog before row old)
    (shown' : filter.shown catalog after row' new)
    (flips : filter.execute old ≠ filter.execute new) :
    ∃ affected, filter.affected catalog change = .ok (some affected) ∧
      (affected.execute old = .ok true ∨ affected.execute new = .ok true) := by
  have wellFormed := CatalogDefinition.build_wellFormed built
  obtain ⟨front, back, replaces⟩ := rekeys.replaced
  have rekeying : Rekeying catalog change before after front back row row' :=
    ⟨replaces, wellFormed, rekeys.consistent, rekeys.consistent', rekeys.rekeyed⟩
  unfold Filter.fits at fits
  rw [Bool.and_eq_true, decide_eq_true_iff] at fits
  obtain ⟨result, noticed⟩ := Predicate.exists_noticed rekeying fits.1 fits.2
  have lost : ¬Kept.membership filter.predicate before after row row' := by
    intro kept
    have told := (Predicate.faithful_of_shown wellFormed rekeys.consistent fits.2 shown.2).1
    have told' := (Predicate.faithful_of_shown wellFormed rekeys.consistent' fits.2 shown'.2).1
    exact flips (told.trans ((congrArg Except.ok kept).trans told'.symm))
  obtain ⟨predicate, inside, matched⟩ := noticed.notices (.changed root) lost shown shown'
  rw [Option.mem_toList] at inside
  refine ⟨⟨filter.node, predicate⟩, ?_, matched⟩
  unfold Filter.affected
  rw [noticed.affected, inside]
  rfl

namespace Samples

def numbered (id : Int64) : Record := [("id", .int id)]

/-- One person, without tasks. -/
def alone (id : Int64) : Store := fun name => if name = "Person" then [numbered id] else []

def renumbering : Change := ⟨person, numbered 1, .update (numbered 1) (numbered 2)⟩

/-- The person of number two. -/
def second : Filter :=
  ⟨person, .leaf ⟨"Person", "id", "id", .int, false⟩ (.compared .eq) (.int 2)⟩

theorem consistent_alone (id : Int64) : (alone id).Consistent boardCatalog := by
  refine ⟨?_, ?_, ?_⟩ <;> intro name node found <;>
    rcases node?_cases found with ⟨rfl, rfl⟩ | ⟨rfl, rfl⟩
  · intro row inside component member
    cases List.mem_singleton.mp (show row ∈ [numbered id] from inside)
    cases List.mem_singleton.mp member
    exact ⟨.int id, rfl, rfl⟩
  · exact fun row inside => absurd (show row ∈ [] from inside) List.not_mem_nil
  · intro row inside link member
    cases List.mem_singleton.mp member
  · exact fun row inside => absurd (show row ∈ [] from inside) List.not_mem_nil
  · exact List.nodup_singleton _
  · exact List.nodup_nil

theorem rekeys_renumbering :
    renumbering.Rekeys boardCatalog (alone 1) (alone 2) (numbered 1) (numbered 2) := by
  refine ⟨consistent_alone 1, consistent_alone 2, ⟨[], [], rfl, rfl, ?_, rfl, rfl, ?_⟩, by decide⟩
  · intro name other
    have other : name ≠ "Person" := other
    simp only [alone, other, ↓reduceIte]
  · refine .update (fun _ _ _ => id) (fun _ _ _ => id) fun component inside missing => ?_
    cases List.mem_singleton.mp inside
    cases missing

theorem second_shown (id : Int64) :
    second.shown boardCatalog (alone id) (numbered id) (numbered id) :=
  ⟨identified_of_id rfl rfl, .int id, rfl, rfl⟩

end Samples

open Samples

theorem Filter.affected_of_rekeyed_person :
    ∃ affected, second.affected boardCatalog renumbering = .ok (some affected) ∧
      (affected.execute (numbered 1) = .ok true ∨ affected.execute (numbered 2) = .ok true) :=
  Filter.affected_of_rekeyed build_board rfl rekeys_renumbering rfl (second_shown 1)
    (second_shown 2) (by decide)

/-- By the record from after the instance is not recognised. -/
example : ∃ affected, second.affected boardCatalog renumbering = .ok (some affected) ∧
    affected.execute (numbered 2) = .ok false := ⟨_, rfl, rfl⟩

end LiveQuery
