import LiveQuery.Proofs.Selection.Followups
import LiveQuery.Proofs.Sql.Building
import LiveQuery.Proofs.Store.Basic
import LiveQuery.Sql.Reading

set_option autoImplicit false

namespace LiveQuery

namespace Sql

variable {α β : Type} {greatest : Nat} {limits more : List Nat}

/-- A run under a ceiling beside a run under a laxer one: it says the same, unless one of the limits
that are looked at on the way exceeds the ceiling, and then the first of these is the error. -/
structure Tightens (greatest : Nat) (limits : List Nat) (strict lax : Except Error α) : Prop where
  keeps : ∀ {value}, strict = .ok value → lax = .ok value
  passes : limits.find? (greatest < ·) = none → ∀ {value}, lax = .ok value → strict = .ok value
  fails : ∀ {limit}, limits.find? (greatest < ·) = some limit → ∀ {value}, lax = .ok value →
    strict = .error (.limitExceeded limit greatest)

namespace Tightens

theorem refl (attempt : Except Error α) : Tightens greatest [] attempt attempt :=
  ⟨id, fun _ _ => id, fun exceeds => by cases exceeds⟩

theorem bind {strict lax : Except Error α} {strict' lax' : α → Except Error β}
    (first : Tightens greatest limits strict lax)
    (behind : ∀ value, Tightens greatest more (strict' value) (lax' value)) :
    Tightens greatest (limits ++ more) (strict >>= strict') (lax >>= lax') := by
  constructor
  · intro result made
    obtain ⟨value, ran, made⟩ := Outcome.bind_eq_ok.mp made
    exact Outcome.bind_eq_ok.mpr ⟨value, first.keeps ran, (behind value).keeps made⟩
  · intro none_ result made
    rw [List.find?_append, Option.or_eq_none_iff] at none_
    obtain ⟨value, ran, made⟩ := Outcome.bind_eq_ok.mp made
    exact Outcome.bind_eq_ok.mpr
      ⟨value, first.passes none_.1 ran, (behind value).passes none_.2 made⟩
  · intro limit exceeds result made
    obtain ⟨value, ran, made⟩ := Outcome.bind_eq_ok.mp made
    rw [List.find?_append, Option.or_eq_some_iff] at exceeds
    rcases exceeds with here | ⟨none_, later⟩
    · rw [first.fails here ran]
      rfl
    · rw [first.passes none_ ran]
      exact (behind value).fails later made

theorem behind (attempt : Except Error α) {strict lax : α → Except Error β}
    (each : ∀ value, Tightens greatest limits (strict value) (lax value)) :
    Tightens greatest limits (attempt >>= strict) (attempt >>= lax) :=
  (refl attempt).bind each

theorem andThen {strict lax : Except Error α} (first : Tightens greatest limits strict lax)
    (next : α → Except Error β) : Tightens greatest limits (strict >>= next) (lax >>= next) := by
  simpa only [List.append_nil] using first.bind fun value => refl (next value)

/-- What succeeds under a ceiling succeeds under a laxer one, and looks at no limit beyond it. -/
theorem eq_ok_iff {strict lax : Except Error α} (tightens : Tightens greatest limits strict lax)
    {value : α} : strict = .ok value ↔ lax = .ok value ∧ ∀ limit ∈ limits, limit ≤ greatest := by
  have within : limits.find? (greatest < ·) = none ↔ ∀ limit ∈ limits, limit ≤ greatest := by
    simp [List.find?_eq_none]
  rw [← within]
  constructor
  · intro made
    refine ⟨tightens.keeps made, Option.eq_none_iff_forall_ne_some.mpr fun limit exceeds => ?_⟩
    rw [tightens.fails exceeds (tightens.keeps made)] at made
    cases made
  · rintro ⟨made, none_⟩
    exact tightens.passes none_ made

end Tightens

theorem tightens_checkLimit {staged : Bool} {ceiling : Nat} (lax : greatest ≤ ceiling)
    (limit : Nat) :
    Tightens greatest [limit] (checkLimit ⟨staged, greatest⟩ limit)
      (checkLimit ⟨staged, ceiling⟩ limit) := by
  have decided : checkLimit ⟨staged, greatest⟩ limit =
      if greatest < limit then .error (.limitExceeded limit greatest) else .ok () := rfl
  by_cases exceeds : greatest < limit
  · rw [decided, if_pos exceeds]
    refine ⟨fun made => (by cases made), fun none_ => ?_, fun found => ?_⟩
    · simp [exceeds] at none_
    · simp only [List.find?_cons, exceeds, decide_true, Option.some.injEq] at found
      exact fun _ => found ▸ rfl
  · rw [decided, if_neg exceeds]
    have passed : checkLimit ⟨staged, ceiling⟩ limit = .ok () :=
      if_neg (show ¬limit > ceiling by omega)
    rw [passed]
    refine ⟨id, fun _ _ => id, fun found => ?_⟩
    simp [exceeds] at found

/-- What a run on a table comes to, with the table that it leaves. -/
def Building.outcome (action : Building α) (table : Table) : Except Error (α × Table) :=
  match action table with
  | .ok value after => .ok (value, after)
  | .error error _ => .error error

theorem Building.outcome_bind (first : Building α) (next : α → Building β) (table : Table) :
    (first >>= next).outcome table =
      first.outcome table >>= fun (value, after) => (next value).outcome after := by
  unfold Building.outcome
  cases ran : first table with
  | ok value after => simp only [bind, EStateM.bind, Except.bind, ran]
  | error error after => simp only [bind, EStateM.bind, Except.bind, ran]

theorem Building.on_eq_map_outcome (action : Building α) (table : Table) :
    action.on table = action.outcome table >>= fun (value, _) => .ok value := by
  unfold Building.on Building.outcome
  cases action table <;> rfl

/-- Two actions whose runs are alike but for the ceiling, on every table. -/
def Checks (greatest : Nat) (limits : List Nat) (strict lax : Building α) : Prop :=
  ∀ table, Tightens greatest limits (strict.outcome table) (lax.outcome table)

namespace Checks

theorem refl (action : Building α) : Checks greatest [] action action :=
  fun table => .refl (action.outcome table)

theorem bind {strict lax : Building α} {strict' lax' : α → Building β}
    (first : Checks greatest limits strict lax)
    (behind : ∀ value, Checks greatest more (strict' value) (lax' value)) :
    Checks greatest (limits ++ more) (strict >>= strict') (lax >>= lax') := by
  intro table
  rw [Building.outcome_bind, Building.outcome_bind]
  exact (first table).bind fun (value, after) => behind value after

theorem behind (action : Building α) {strict lax : α → Building β}
    (each : ∀ value, Checks greatest limits (strict value) (lax value)) :
    Checks greatest limits (action >>= strict) (action >>= lax) :=
  (refl action).bind each

theorem andThen {strict lax : Building α} (first : Checks greatest limits strict lax)
    (next : α → Building β) : Checks greatest limits (strict >>= next) (lax >>= next) := by
  simpa only [List.append_nil] using first.bind fun value => refl (next value)

theorem lift {strict lax : Except Error α} (tightens : Tightens greatest limits strict lax) :
    Checks greatest limits (liftM strict : Building α) (liftM lax : Building α) := by
  have outcome (attempt : Except Error α) (table : Table) :
      (liftM attempt : Building α).outcome table = attempt >>= fun value => .ok (value, table) := by
    cases attempt <;> rfl
  intro table
  rw [outcome, outcome]
  exact tightens.andThen _

theorem on {strict lax : Building α} (checks : Checks greatest limits strict lax) (table : Table) :
    Tightens greatest limits (strict.on table) (lax.on table) := by
  rw [Building.on_eq_map_outcome, Building.on_eq_map_outcome]
  exact (checks table).andThen _

theorem within {strict lax : Building α} (checks : Checks greatest limits strict lax)
    (relation : JoinRelation) (key : Option String) (before behind : List Join) (joined : Table) :
    Checks greatest limits (Table.within relation key before behind joined strict)
      (Table.within relation key before behind joined lax) := by
  have outcome (action : Building α) (table : Table) :
      (Table.within relation key before behind joined action).outcome table =
        action.outcome joined >>= fun (value, grown) =>
          .ok (value, table.withJoins (before ++ .make relation key grown :: behind)) := by
    unfold Building.outcome Table.within
    cases action joined <;> rfl
  intro table
  rw [outcome, outcome]
  exact (checks joined).andThen _

theorem visit {catalog : Catalog} {relation : JoinRelation} {key : Option String}
    {strict lax : Building α} (checks : Checks greatest limits strict lax) :
    Checks greatest limits (Table.visit catalog relation key strict)
      (Table.visit catalog relation key lax) := by
  unfold Table.visit
  refine behind _ fun table => ?_
  cases Table.splitAt? relation key table.joins with
  | some parts =>
    obtain ⟨before, joined, after⟩ := parts
    dsimp only
    split
    · exact behind _ fun _ => behind _ fun _ => checks.within _ _ _ _ _
    · exact behind _ fun _ => checks.within _ _ _ _ _
  | none =>
    dsimp only
    split
    · exact behind _ fun _ => behind _ fun _ => behind _ fun _ => checks.within _ _ _ _ _
    · exact behind _ fun _ => behind _ fun _ => checks.within _ _ _ _ _

end Checks

/-- The limits of the relations to many that are left for later. -/
def limitsOf (followups : List Followup) : List Nat := followups.map (·.window.limit)

section Selections

variable {catalog : Catalog} {staged : Bool} {ceiling : Nat}

theorem checks_selectWith {path : List String} {fields : List SelectionField}
    {strict lax : Building (List Selected)} (below : Checks greatest limits strict lax) :
    Checks greatest limits (selectWith catalog path fields strict)
      (selectWith catalog path fields lax) :=
  .behind _ fun _ => .behind _ fun _ => .behind _ fun _ => below.andThen _

mutual

theorem checks_selectHead (lax : greatest ≤ ceiling) (owner : List String) :
    ∀ (path : List String) (field : SelectionField),
      Checks greatest (limitsOf (Followup.ofField owner field))
        (selectHead catalog ⟨staged, greatest⟩ path field)
        (selectHead catalog ⟨staged, ceiling⟩ path field)
  | _, .leaf _ _ | _, .count _ _ _ => .refl _
  | _, .multiple _ _ window _ => (Checks.lift (tightens_checkLimit lax window.limit)).andThen _
  | path, .edge key _ head | path, .unique key _ head =>
    (checks_selectWith (checks_selectHeads lax (owner ++ [key]) (path ++ [key]) head)).visit

theorem checks_selectHeads (lax : greatest ≤ ceiling) (owner : List String) :
    ∀ (path : List String) (fields : List SelectionField),
      Checks greatest (limitsOf (Followup.ofFields owner fields))
        (selectHeads catalog ⟨staged, greatest⟩ path fields)
        (selectHeads catalog ⟨staged, ceiling⟩ path fields)
  | _, [] => .refl _
  | path, field :: rest => by
    rw [Followup.ofFields, limitsOf, List.map_append]
    exact (checks_selectHead lax owner path field).bind fun _ =>
      (checks_selectHeads lax owner path rest).andThen _

end

theorem checks_select (lax : greatest ≤ ceiling) (fields : List SelectionField) :
    Checks greatest (limitsOf (Followup.ofFields [] fields))
      (select catalog ⟨staged, greatest⟩ fields) (select catalog ⟨staged, ceiling⟩ fields) :=
  checks_selectWith (checks_selectHeads lax [] [] fields)

theorem tightens_limitOf (lax : greatest ≤ ceiling) (request : Request) :
    Tightens greatest request.limit.toList (limitOf ⟨staged, greatest⟩ request)
      (limitOf ⟨staged, ceiling⟩ request) := by
  unfold limitOf
  cases request.limit with
  | none => exact .refl _
  | some limit => exact (tightens_checkLimit lax limit).andThen _

/-- A statement looks at the limit of its request, and then at those of what it leaves for later. -/
theorem tightens_find (lax : greatest ≤ ceiling) (selection : Selection) (request : Request) :
    Tightens greatest (request.limit.toList ++ limitsOf selection.followups)
      (find catalog ⟨staged, greatest⟩ selection request)
      (find catalog ⟨staged, ceiling⟩ selection request) := by
  unfold find
  refine .behind _ fun _ => .behind _ fun _ => (tightens_limitOf lax request).bind fun limit => ?_
  have selects := @checks_select _ catalog staged _ lax selection.fields
  cases staged with
  | false => exact (selects.andThen _).on _
  | true => exact .behind _ fun (stage, listing) => (selects.andThen _).on _

end Selections

end Sql

namespace SelectionField

mutual

/-- The limits of the relations to many in a field, however deep they are. -/
def limits : SelectionField → List Nat
  | .edge _ _ head => limitsAll head
  | .unique _ _ head => limitsAll head
  | .multiple _ _ window head => window.limit :: limitsAll head
  | .leaf _ _ => []
  | .count _ _ _ => []

def limitsAll : List SelectionField → List Nat
  | [] => []
  | field :: rest => limits field ++ limitsAll rest

end

theorem mem_limitsAll {limit : Nat} {fields : List SelectionField} :
    limit ∈ limitsAll fields ↔ ∃ field ∈ fields, limit ∈ field.limits := by
  induction fields with
  | nil => simp [limitsAll]
  | cons field rest ih => simp [limitsAll, ih]

theorem exists_followup {field : SelectionField} (owner : List String) {left : Followup → Prop}
    (first : ∀ followup ∈ Followup.ofField owner field, left followup)
    (next : ∀ earlier, left earlier → ∀ followup ∈ earlier.next, left followup) :
    ∀ limit ∈ field.limits, ∃ followup, left followup ∧ followup.window.limit = limit := by
  induction field generalizing owner with
  | leaf | count => simp [limits]
  | edge key link head ih | unique key relation head ih =>
    intro limit inside
    obtain ⟨field, member, inside⟩ := mem_limitsAll.mp inside
    refine ih field member (owner ++ [key]) (fun followup left => first followup ?_) limit inside
    exact Followup.mem_ofFields.mpr ⟨field, member, left⟩
  | multiple key relation window head ih =>
    have here := first _ (List.mem_singleton_self _)
    intro limit inside
    rcases List.mem_cons.mp inside with rfl | below
    · exact ⟨_, here, rfl⟩
    · obtain ⟨field, member, inside⟩ := mem_limitsAll.mp below
      refine ih field member [] (fun followup left => next _ here followup ?_) limit inside
      exact Followup.mem_ofFields.mpr ⟨field, member, left⟩

end SelectionField

/-- The limits of the relations to many in a selection, however deep they are. -/
def Selection.limits (selection : Selection) : List Nat :=
  SelectionField.limitsAll selection.fields

theorem Selection.exists_defers {selection : Selection} {limit : Nat}
    (inside : limit ∈ selection.limits) :
    ∃ followup, selection.Defers followup ∧ followup.window.limit = limit := by
  obtain ⟨field, member, inside⟩ := SelectionField.mem_limitsAll.mp inside
  refine SelectionField.exists_followup [] (fun followup left => .first ?_)
    (fun _ deferred _ => .next deferred) limit inside
  exact Followup.mem_ofFields.mpr ⟨field, member, left⟩

namespace Sql

/-- A statement is written under a ceiling if it is under a laxer one and neither the limit of its
request nor one of those that it leaves to follow-ups exceeds the ceiling; where nothing else is
wrong, the first that does is the error. A limit further below is not looked at, but whatever the
parents are, the follow-up that it belongs to is refused. -/
theorem find_limits (catalog : Catalog) (staged : Bool) {greatest ceiling : Nat}
    (lax : greatest ≤ ceiling) (selection : Selection) (request : Request) :
    (∀ query, find catalog ⟨staged, greatest⟩ selection request = .ok query ↔
        find catalog ⟨staged, ceiling⟩ selection request = .ok query ∧
          ∀ limit ∈ request.limit.toList ++ limitsOf selection.followups, limit ≤ greatest) ∧
      (∀ limit, (request.limit.toList ++ limitsOf selection.followups).find? (greatest < ·) =
          some limit → ∀ query, find catalog ⟨staged, ceiling⟩ selection request = .ok query →
        find catalog ⟨staged, greatest⟩ selection request =
          .error (.limitExceeded limit greatest)) ∧
      ∀ limit ∈ selection.limits, greatest < limit → ∃ followup, selection.Defers followup ∧
        followup.window.limit = limit ∧ ∀ parents, followUp catalog ⟨staged, greatest⟩ followup
          parents = .error (.limitExceeded limit greatest) := by
  have tightens := @tightens_find _ catalog staged _ lax selection request
  refine ⟨fun _ => tightens.eq_ok_iff, fun limit exceeds query => tightens.fails exceeds, ?_⟩
  intro limit inside exceeds
  obtain ⟨followup, deferred, rfl⟩ := Selection.exists_defers inside
  refine ⟨followup, deferred, rfl, fun parents => ?_⟩
  unfold followUp checkLimit
  rw [if_pos exceeds]
  rfl

end Sql

/-- The tasks of a person, so many at most, with those of whoever owns them. -/
def Samples.tasksOfOwners (first second : Nat) : Selection :=
  ⟨person, [.multiple "tasks" tasks ⟨none, none, 0, first⟩
    [.edge "owner" owner [.multiple "tasks" tasks ⟨none, none, 0, second⟩
      [.leaf "id" ⟨"Task", "id", "id", .int, false⟩]]]]⟩

open Samples in
/-- Asking for too many tasks is refused, but asking for too many of an owner's is not, until there
are owners. -/
theorem Sql.find_limits_tasks :
    find boardCatalog ⟨false, 1000⟩ (tasksOfOwners 2000 10) ⟨none, none, 0, none⟩ =
        .error (.limitExceeded 2000 1000) ∧
      (∃ query, find boardCatalog ⟨false, 1000⟩ (tasksOfOwners 10 2000) ⟨none, none, 0, none⟩ =
        .ok query) ∧
      ∃ followup, (tasksOfOwners 10 2000).Defers followup ∧ followup.window.limit = 2000 ∧
        ∀ parents, followUp boardCatalog ⟨false, 1000⟩ followup parents =
          .error (.limitExceeded 2000 1000) := by
  have lax : 1000 ≤ 5000 := by decide
  have spec := find_limits boardCatalog false lax
  obtain ⟨query, made⟩ : ∃ query, find boardCatalog ⟨false, 5000⟩ (tasksOfOwners 2000 10)
    ⟨none, none, 0, none⟩ = .ok query := ⟨_, rfl⟩
  obtain ⟨query', made'⟩ : ∃ query, find boardCatalog ⟨false, 5000⟩ (tasksOfOwners 10 2000)
    ⟨none, none, 0, none⟩ = .ok query := ⟨_, rfl⟩
  refine ⟨(spec _ _).2.1 2000 (by decide) query made,
    ⟨query', ((spec _ _).1 query').mpr ⟨made', by decide⟩⟩, ?_⟩
  exact (spec _ ⟨none, none, 0, none⟩).2.2 2000 (by decide) (by decide)

end LiveQuery
