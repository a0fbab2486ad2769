import LiveQuery.Proofs.Selection.Followups
import LiveQuery.Proofs.Sql.Taking
import LiveQuery.Sql.Mutation

set_option autoImplicit false

namespace LiveQuery

namespace Sql

variable {catalog : Catalog} {node : Node} {settings : Settings}

section Statements

variable {α β : Type} {name : String}

/-- An action that ends with the source of its table. What it gives is so at a place in the query of
that source, which has nothing around it. -/
structure Completes (catalog : Catalog) (node : Node) (name : String) (action : Building α)
    (gives : Site → α → Prop) : Prop where
  ran : ∀ {table after : Table} {value : α}, Tidy catalog table → table.node = node →
    table.name = name → action table = .ok value after →
      ∃ site, Covers table site ∧ site.outer = [] ∧ gives site value

namespace Completes

variable {gives : Site → α → Prop} {then_ : Site → β → Prop}

theorem bind {action : Building α} {step : α → Building β}
    (first : Places catalog node action gives)
    (behind : ∀ value, Completes catalog node name (step value)
      fun site result => gives site value → then_ site result) :
    Completes catalog node name (action >>= step) then_ := by
  refine ⟨fun {table after result} tidy known named made => ?_⟩
  obtain ⟨value, between, ran, made⟩ := Building.bind_eq_ok.mp made
  obtain ⟨tidy', extends_, so⟩ := first.ran tidy known ran
  obtain ⟨site, covers, outermost, so'⟩ := (behind value).ran tidy' (extends_.node.trans known)
    (extends_.name.trans named) made
  exact ⟨site, covers.of_extends extends_, outermost, so' (so site covers)⟩

theorem reading {step : Table → Building β} (behind : ∀ table, table.node = node →
      Completes catalog node name (step table) fun site result =>
        Covers table site → then_ site result) :
    Completes catalog node name (MonadState.get >>= step) then_ := by
  refine ⟨fun {table after result} tidy known named made => ?_⟩
  obtain ⟨_, _, got, made⟩ := Building.bind_eq_ok.mp made
  cases got
  obtain ⟨site, covers, outermost, so⟩ := (behind table known).ran tidy known named made
  exact ⟨site, covers, outermost, so covers⟩

/-- The source is the last thing that is asked for, so it has all joins. -/
theorem source (orderly : Orderly catalog) {finish : Source → α}
    (so : ∀ source site, source.Opens catalog name node site → site.outer = [] →
      gives site (finish source)) :
    Completes catalog node name (do return finish (← (← get).source)) gives := by
  refine ⟨fun {table after value} tidy known named made => ?_⟩
  obtain ⟨_, _, got, made⟩ := Building.bind_eq_ok.mp made
  cases got
  obtain ⟨source, _, lifted, made⟩ := Building.bind_eq_ok.mp made
  obtain ⟨written, rfl⟩ := Building.lift_eq_ok.mp lifted
  cases made
  subst known named
  exact ⟨_, tidy.covers orderly [], rfl, so source _ (tidy.opens orderly written []) rfl⟩

theorem on {table : Table} {action : Building α} {value : α}
    (completes : Completes catalog node name action gives) (tidy : Tidy catalog table)
    (known : table.node = node) (named : table.name = name)
    (ran : Building.on table action = .ok value) :
    ∃ site, Covers table site ∧ gives site value := by
  obtain ⟨_, made⟩ := Building.on_eq_ok ran
  obtain ⟨site, covers, -, so⟩ := completes.ran tidy known named made
  exact ⟨site, covers, so⟩

/-- What is so at whatever place is so of the result. -/
theorem result {holds : α → Prop} {table : Table} {action : Building α} {value : α}
    (completes : Completes catalog node name action fun _ => holds) (tidy : Tidy catalog table)
    (known : table.node = node) (named : table.name = name)
    (ran : Building.on table action = .ok value) : holds value :=
  (completes.on tidy known named ran).elim fun _ so => so.2

end Completes

section Finding

variable {selection : Selection} {filter : Option Filter} {expressions : List SortExpression}
  {limit : Option Limit}

end Finding

section FollowingUp

variable {followup : Followup} {head parent : Node} {parents : List Record}

end FollowingUp

section Matching

variable {filter : Option Filter} {statement : Statement}

end Matching

end Statements

end Sql

namespace Samples

open Sql

/-- Tasks of people who have a task behind the first seven. -/
def shared : Filter :=
  ⟨task, .edge owner (some (.reverse tasks
    (some (.leaf ⟨"Task", "id", "id", .int, false⟩ (.compared .gt) (.int 7)))))⟩

/-- Tasks with their owners and all that these have to do. -/
def sharing : Selection :=
  ⟨task, [.edge "owner" owner [.multiple "tasks" tasks ⟨none, none, 0, 10⟩ []]]⟩

def sharingRequest : Request := ⟨some shared, none, 0, some 10⟩

def colleagueTasks : Followup := .make ["owner"] "tasks" tasks ⟨none, none, 0, 10⟩ [] []

end Samples

end LiveQuery
