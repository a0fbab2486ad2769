import LiveQuery.Proofs.Filter.Reading

set_option autoImplicit false

namespace LiveQuery

namespace Predicate

open FilterKey (Means)

/-- What comes of parts of an input. -/
abbrev Outcomes := List (Except StatementError (List Predicate))

/-- An attempt fails, and with this error if all that is tried earlier succeeds. -/
def FailsWith {α : Type} (earlier : Outcomes) (error : StatementError)
    (attempt : Except StatementError α) : Prop :=
  ∃ failure, attempt = .error failure ∧
    ((∀ outcome ∈ earlier, ∃ predicates, outcome = .ok predicates) → failure = error)

namespace FailsWith

variable {α β : Type} {earlier : Outcomes} {error : StatementError}

theorem now : FailsWith [] error (.error error : Except StatementError α) :=
  ⟨error, rfl, fun _ => rfl⟩

theorem bind {attempt : Except StatementError α} {next : α → Except StatementError β}
    (fails : FailsWith earlier error attempt) : FailsWith earlier error (attempt >>= next) := by
  obtain ⟨failure, rfl, same⟩ := fails
  exact ⟨failure, rfl, same⟩

theorem map {attempt : Except StatementError α} (change : α → β)
    (fails : FailsWith earlier error attempt) : FailsWith earlier error (change <$> attempt) := by
  obtain ⟨failure, rfl, same⟩ := fails
  exact ⟨failure, rfl, same⟩

theorem after {outcome : Except StatementError (List Predicate)}
    {next : List Predicate → Except StatementError β}
    (fails : ∀ predicates, FailsWith earlier error (next predicates)) :
    FailsWith (outcome :: earlier) error (outcome >>= next) := by
  cases outcome with
  | error failure =>
    refine ⟨failure, rfl, fun fine => ?_⟩
    obtain ⟨_, impossible⟩ := fine _ (List.mem_cons_self ..)
    cases impossible
  | ok predicates =>
    obtain ⟨failure, failed, same⟩ := fails predicates
    exact ⟨failure, failed, fun fine => same fun outcome inside =>
      fine outcome (List.mem_cons_of_mem _ inside)⟩

end FailsWith

/-- An object is part of the value of an entry: on which node it is read, at which path, and what
is read before it. -/
inductive Within (catalog : Catalog) (node : Node) (key path : String) :
    Json → Node → String → List (String × Json) → Outcomes → Prop
  | item {kind : Junction} {front back : List Json} {entries : List (String × Json)}
      (means : Means node key (.junction kind)) :
    Within catalog node key path (.array (front ++ .object entries :: back)) node
      s!"{path}[{front.length}]" entries [parseItems catalog node path 0 front]
  | operand {kind : Junction} {entries : List (String × Json)}
      (means : Means node key (.junction kind)) :
    Within catalog node key path (.object entries) node path entries []
  | negation {entries : List (String × Json)} (means : Means node key .negation) :
    Within catalog node key path (.object entries) node path entries []
  | edge {link : Edge} {negated : Bool} {head : Node} {entries : List (String × Json)}
      (means : Means node key (.edge link negated)) (leads : catalog.edgeHead link = .ok head) :
    Within catalog node key path (.object entries) head path entries []
  | uniqueReverse {relation : ReverseEdge} {head : Node} {entries : List (String × Json)}
      (means : Means node key (.uniqueReverse relation))
      (leads : catalog.reverseEdgeHead relation = .ok head) :
    Within catalog node key path (.object entries) head path entries []
  | quantified {relation : ReverseEdge} {quantifier : Quantifier} {head : Node}
      {entries : List (String × Json)} (means : Means node key (.quantified relation quantifier))
      (leads : catalog.reverseEdgeHead relation = .ok head) :
    Within catalog node key path (.object entries) head path entries []

/-- An entry with a key stands among the entries of an object or deeper in the value of one of them:
on which node its key is read, at which path the entry stands, and what is read before it. -/
inductive Stands (catalog : Catalog) :
    Node → String → List (String × Json) → Node → String → String → Outcomes → Prop
  | here {node : Node} {path key : String} {value : Json} {before rest : List (String × Json)} :
    Stands catalog node path (before ++ (key, value) :: rest) node (path ++ "." ++ key) key
      [parseEntries catalog node path before]
  | deeper {node home node' : Node} {path key path' at' key' : String} {value : Json}
      {before rest entries : List (String × Json)} {first more : Outcomes}
      (within : Within catalog node key (path ++ "." ++ key) value home path' entries first)
      (stands : Stands catalog home path' entries node' at' key' more) :
    Stands catalog node path (before ++ (key, value) :: rest) node' at' key'
      (parseEntries catalog node path before :: first ++ more)

/-- The error for a key that means nothing. -/
def unknownKey (node : Node) (path key : String) : StatementError :=
  .invalidInput path s!"unknown filter key `{key}` on `{node.name}`"

section Unknown

variable {catalog : Catalog}

theorem failsWith_items {node : Node} {path : String} {front back : List Json} {item : Json}
    {more : Outcomes} {error : StatementError}
    (fails : FailsWith more error (parse catalog node s!"{path}[{front.length}]" item)) :
    FailsWith (parseItems catalog node path 0 front :: more) error
      (parseItems catalog node path 0 (front ++ item :: back)) := by
  rw [parseItems_append]
  refine FailsWith.after fun _ => FailsWith.bind ?_
  rw [parseItems, Nat.zero_add]
  exact fails.bind

/-- What makes an object fail makes the entry fail whose value it is part of. -/
theorem Within.failsWith {node home : Node} {above key path' : String} {value : Json}
    {entries rest : List (String × Json)} {first more : Outcomes} {error : StatementError}
    (within : Within catalog node key (above ++ "." ++ key) value home path' entries first)
    (fails : FailsWith more error (parseEntries catalog home path' entries)) :
    FailsWith (first ++ more) error (parseEntries catalog node above ((key, value) :: rest)) := by
  have object : FailsWith more error (parse catalog home path' (.object entries)) := by
    rw [parse]
    exact fails.bind
  rw [parseEntries]
  cases within with
  | item means =>
    rw [FilterKey.resolve?_eq_some_iff.mpr means]
    exact (FailsWith.map _ (by rw [parseOperands]; exact failsWith_items object)).bind
  | operand means =>
    rw [FilterKey.resolve?_eq_some_iff.mpr means]
    exact (FailsWith.map _ (by rw [parseOperands]; exact fails.bind)).bind
  | negation means =>
    rw [FilterKey.resolve?_eq_some_iff.mpr means]
    exact (object.map _).bind
  | edge means leads =>
    rw [FilterKey.resolve?_eq_some_iff.mpr means]
    simp only [leads, Json.isNull, Bool.false_eq_true, if_false]
    exact object.bind
  | uniqueReverse means leads =>
    rw [FilterKey.resolve?_eq_some_iff.mpr means]
    simp only [leads, Json.isNull, Bool.false_eq_true, if_false]
    exact object.bind
  | quantified means leads =>
    rw [FilterKey.resolve?_eq_some_iff.mpr means]
    simp only [leads]
    exact (object.map _).bind

/-- An entry whose key means nothing makes all the entries around it fail. -/
theorem Stands.failsWith {node node' : Node} {path path' key : String}
    {entries : List (String × Json)} {earlier : Outcomes}
    (stands : Stands catalog node path entries node' path' key earlier)
    (meaningless : ∀ reading, ¬Means node' key reading) :
    FailsWith earlier (unknownKey node' path' key) (parseEntries catalog node path entries) := by
  induction stands with
  | @here node path key value before rest =>
    have unresolved : FilterKey.resolve? node key = none := by
      refine Option.eq_none_iff_forall_ne_some.mpr fun reading resolved => ?_
      exact meaningless reading (FilterKey.resolve?_eq_some_iff.mp resolved)
    rw [parseEntries_append]
    refine FailsWith.after fun _ => FailsWith.bind ?_
    rw [parseEntries, unresolved]
    exact FailsWith.now
  | deeper within stands ih =>
    rw [parseEntries_append]
    exact FailsWith.after fun _ => (within.failsWith (ih meaningless)).bind

end Unknown

end Predicate

/-- A where-input means what it says. A filter that is read of it holds of exactly those records
that meet it, whenever a record is populated as deep as the input goes; and nothing is read of it if
the key of an entry means nothing, however deep the entry stands. -/
theorem Filter.parse_meaning (catalog : Catalog) (node : Node) (input : Json) :
    (∀ filter, Filter.parse catalog node input = .ok filter → ∀ levels record,
      WhereInput.depth input ≤ levels → WhereInput.Conforms catalog levels node record →
        ∃ value, filter.execute record = .ok value ∧
          (value = true ↔ WhereInput.Met catalog node record input)) ∧
    ∀ entries node' path key earlier, input = .object entries →
      Predicate.Stands catalog node node.name entries node' path key earlier →
      (∀ reading, ¬FilterKey.Means node' key reading) →
        Predicate.FailsWith earlier (Predicate.unknownKey node' path key)
          (Filter.parse catalog node input) := by
  constructor
  · intro filter read levels record deep conforms
    obtain ⟨predicate, parsed, same⟩ := Outcome.bind_eq_ok.mp read
    cases same
    exact Predicate.decides_of_parse conforms deep parsed
  · rintro entries node' path key earlier rfl stands meaningless
    rw [Filter.parse, Predicate.parse]
    exact (stands.failsWith meaningless).bind.bind

namespace Samples

/-- Someone who has one task, with a high number. -/
def oneHighTask : Json :=
  .object [("tasks_some", .object [("id_gt", .integer 3)]), ("tasksCount", .integer 1)]

def coloredTasks : List (String × Json) :=
  [("tasks_some", .object [("color", .string "red")])]

def adaWithTask : Record :=
  [("id", .int 1), ("tasks", .list [.record [("id", .int 7), ("owner", .null)]])]

theorem conforms_adaWithTask : WhereInput.Conforms boardCatalog 2 person adaWithTask := by
  have chore : WhereInput.Conforms boardCatalog 1 task [("id", .int 7), ("owner", .null)] := by
    refine ⟨?_, ?_, ?_, ?_⟩
    · intro field inside
      simp only [task, List.mem_cons, Component.leaf.injEq, reduceCtorEq, List.not_mem_nil,
        or_false] at inside
      exact ⟨.int 7, by rw [inside]; rfl⟩
    · intro link inside
      simp only [task, List.mem_cons, Component.edge.injEq, reduceCtorEq, List.not_mem_nil,
        or_false, false_or] at inside
      exact Or.inl (by rw [inside]; rfl)
    · exact fun _ inside => absurd inside List.not_mem_nil
    · exact fun _ inside => absurd inside List.not_mem_nil
  refine ⟨?_, ?_, ?_, ?_⟩
  · intro field inside
    cases List.mem_singleton.mp (show Component.leaf field ∈ [_] from inside)
    exact ⟨.int 1, rfl⟩
  · intro link inside
    cases List.mem_singleton.mp (show Component.edge link ∈ [_] from inside)
  · intro relation inside single
    cases List.mem_singleton.mp (show relation ∈ [tasks] from inside)
    cases single
  · intro relation inside _
    cases List.mem_singleton.mp (show relation ∈ [tasks] from inside)
    refine ⟨rfl, [[("id", .int 7), ("owner", .null)]], rfl, fun node found head among => ?_⟩
    cases (show some task = some node from found)
    cases List.mem_singleton.mp among
    exact chore

end Samples

open Samples in
theorem Filter.parse_meaning_of_tasks :
    (∃ filter value, Filter.parse boardCatalog person oneHighTask = .ok filter ∧
      filter.execute adaWithTask = .ok value ∧
      (value = true ↔ WhereInput.Met boardCatalog person adaWithTask oneHighTask)) ∧
    Filter.parse boardCatalog person (.object coloredTasks) =
      .error (.invalidInput "Person.tasks_some.color" "unknown filter key `color` on `Task`") := by
  constructor
  · obtain ⟨value, executed, tells⟩ := (Filter.parse_meaning boardCatalog person oneHighTask).1
      _ rfl 2 _ (by decide) conforms_adaWithTask
    exact ⟨_, value, rfl, executed, tells⟩
  · have color : Predicate.Stands boardCatalog task "Person.tasks_some"
        ([] ++ [("color", .string "red")]) task "Person.tasks_some.color" "color" _ := .here
    have stands : Predicate.Stands boardCatalog person "Person" ([] ++ coloredTasks) task
        "Person.tasks_some.color" "color" _ :=
      .deeper (.quantified (FilterKey.means_of_resolve? rfl) rfl) color
    obtain ⟨failure, failed, same⟩ :=
      (Filter.parse_meaning boardCatalog person (.object coloredTasks)).2 _ _ _ _ _ rfl stands
        fun reading means => by cases FilterKey.resolve?_eq_some_iff.mpr means
    rw [failed, same]
    · rfl
    · simp [Predicate.parseEntries]

end LiveQuery
