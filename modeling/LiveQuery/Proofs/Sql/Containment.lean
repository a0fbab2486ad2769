import LiveQuery.Proofs.Sql.Resemblance

set_option autoImplicit false

namespace LiveQuery

/-- Values that may differ in the contents of strings and instants. -/
inductive Value.Akin : Value → Value → Prop
  | string (value other : String) : Akin (.string value) (.string other)
  | instant (value other : Instant) : Akin (.instant value) (.instant other)
  | list {items others : List Value} (each : List.Forall₂ Akin items others) :
      Akin (.list items) (.list others)
  | same (value : Value) : Akin value value

/-- Predicates of one shape that may differ in the contents of strings and instants. There is no raw
condition in them. -/
inductive Predicate.Akin : Predicate → Predicate → Prop
  | constant (value : Bool) : Akin (.constant value) (.constant value)
  | junction (kind : Junction) {operands others : List Predicate}
      (each : List.Forall₂ Akin operands others) :
      Akin (.junction kind operands) (.junction kind others)
  | negation {operand other : Predicate} (inner : Akin operand other) :
      Akin (.negation operand) (.negation other)
  | leaf (field : Leaf) (operator : LeafOperator) {value other : Value}
      (values : value.Akin other) : Akin (.leaf field operator value) (.leaf field operator other)
  | edge (link : Edge) {head other : Option Predicate} (heads : Option.Rel Akin head other) :
      Akin (.edge link head) (.edge link other)
  | reverse (relation : ReverseEdge) {head other : Option Predicate}
      (heads : Option.Rel Akin head other) : Akin (.reverse relation head) (.reverse relation other)
  | count (relation : ReverseEdge) (comparison : Comparison) (number : Nat) :
      Akin (.count relation comparison number) (.count relation comparison number)

namespace Outcome

variable {ε α β γ δ : Type} {R : α → β → Prop} {S : γ → δ → Prop}

/-- Both attempts succeed with related results, or neither does. -/
inductive Alike (R : α → β → Prop) : Except ε α → Except ε β → Prop
  | ok {value : α} {other : β} (related : R value other) : Alike R (.ok value) (.ok other)
  | error (reason other : ε) : Alike R (.error reason) (.error other)

theorem Alike.refl (attempt : Except ε α) : Alike Eq attempt attempt := by
  cases attempt with
  | ok => exact .ok rfl
  | error => exact .error _ _

theorem Alike.bind {first : Except ε α} {first' : Except ε β} {next : α → Except ε γ}
    {next' : β → Except ε δ} (alike : Alike R first first')
    (behind : ∀ value other, R value other → Alike S (next value) (next' other)) :
    Alike S (first >>= next) (first' >>= next') := by
  cases alike with
  | ok related => exact behind _ _ related
  | error => exact .error _ _

theorem Alike.mapM {step : α → Except ε γ} {step' : β → Except ε δ} {items : List α}
    {others : List β} (each : List.Forall₂ R items others)
    (steps : ∀ item other, R item other → Alike S (step item) (step' other)) :
    Alike (List.Forall₂ S) (items.mapM step) (others.mapM step') := by
  induction each with
  | nil => exact .ok .nil
  | cons first _ ih =>
    rw [List.mapM_cons, List.mapM_cons]
    refine (steps _ _ first).bind fun _ _ found => ih.bind fun _ _ more => ?_
    exact .ok (.cons found more)

end Outcome

theorem Value.Akin.isNull_eq {value other : Value} (akin : value.Akin other) :
    value.isNull = other.isNull := by
  cases akin <;> rfl

theorem Predicate.Akin.isTrue_eq {predicate other : Predicate} (akin : predicate.Akin other) :
    predicate.isTrue = other.isTrue := by
  cases akin <;> rfl

namespace Sql

open Lexer
open Outcome (Alike)

theorem Literal.alike_ofFloat (value : Binary64) :
    Alike Literal.Akin (Literal.ofFloat value) (Literal.ofFloat value) := by
  unfold Literal.ofFloat
  split
  · next finite => exact .ok (.float finite)
  · exact .error _ _

theorem Literal.alike_ofValue (type : LeafType) {value other : Value} (akin : value.Akin other) :
    Alike Literal.Akin (Literal.ofValue type value) (Literal.ofValue type other) := by
  cases akin with
  | string value other => cases type <;> first | exact .ok (.string _ _) | exact .error _ _
  | instant value other => cases type <;> first | exact .ok (.instant _ _) | exact .error _ _
  | list => cases type <;> exact .error _ _
  | same value =>
    cases value with
    | null => cases type <;> exact .ok .null
    | boolean value => cases type <;> first | exact .ok (.boolean _) | exact .error _ _
    | int value => cases type <;> first | exact .ok (.int _) | exact .error _ _
    | float value => cases type <;> first | exact Literal.alike_ofFloat value | exact .error _ _
    | string value => cases type <;> first | exact .ok (.string _ _) | exact .error _ _
    | instant value => cases type <;> first | exact .ok (.instant _ _) | exact .error _ _
    | record | list => cases type <;> exact .error _ _

namespace Condition

theorem Akin.guarded (field : Leaf) (column : Column) {condition other : Condition}
    (akin : condition.Akin other) :
    (guarded field column condition).Akin (guarded field column other) := by
  unfold Condition.guarded
  split
  · exact .junction .all (.cons (.isSet column) (.cons akin .nil))
  · exact akin

theorem alike_ofComparison (field : Leaf) (column : Column) (comparison : Comparison)
    {value other : Value} (akin : value.Akin other) :
    Alike Akin (ofComparison field column comparison value)
      (ofComparison field column comparison other) := by
  have literals := Literal.alike_ofValue field.type akin
  have null := akin.isNull_eq
  cases comparison with
  | eq =>
    rw [ofComparison, ofComparison, ← null]
    split
    · exact .ok (.isNull column)
    · exact literals.bind fun _ _ akin => .ok (.compared column _ akin)
  | ne =>
    rw [ofComparison, ofComparison, ← null]
    split
    · exact .ok (.isSet column)
    split
    · exact literals.bind fun _ _ akin => .ok (.negation (.compared column _ akin))
    · exact literals.bind fun _ _ akin => .ok (.compared column _ akin)
  | gt | ge | lt | le =>
    exact literals.bind fun _ _ akin => .ok (.guarded field column (.compared column _ akin))

theorem any_isNull_eq {items others : List Value} (each : List.Forall₂ Value.Akin items others) :
    items.any (·.isNull) = others.any (·.isNull) := by
  induction each with
  | nil => rfl
  | cons first _ ih => rw [List.any_cons, List.any_cons, first.isNull_eq, ih]

theorem alike_ofItems (field : Leaf) (column : Column) {items others : List Value}
    (each : List.Forall₂ Value.Akin items others) :
    Alike Akin (ofItems field column items) (ofItems field column others) := by
  have kept : List.Forall₂ Value.Akin (items.filter (!·.isNull)) (others.filter (!·.isNull)) :=
    Lists.forall₂_filter each fun _ _ akin => congrArg not akin.isNull_eq
  unfold ofItems
  refine (Alike.mapM kept fun _ _ akin => Literal.alike_ofValue field.type akin).bind ?_
  intro literals others' akin
  have listed : List.Forall₂ Akin
      (if literals.isEmpty then [] else [guarded field column (.among column literals)])
      (if others'.isEmpty then [] else [guarded field column (.among column others')]) := by
    cases akin with
    | nil => exact .nil
    | cons first rest => exact .cons (.guarded field column (.among column (.cons first rest))) .nil
  have null : List.Forall₂ Akin (if items.any (·.isNull) then [isNull column] else [])
      (if others.any (·.isNull) then [isNull column] else []) := by
    rw [any_isNull_eq each]
    split
    · exact .cons (.isNull column) .nil
    · exact .nil
  have parts : List.Forall₂ Akin
      ((if literals.isEmpty then [] else [guarded field column (.among column literals)]) ++
        if items.any (·.isNull) then [isNull column] else [])
      ((if others'.isEmpty then [] else [guarded field column (.among column others')]) ++
        if others.any (·.isNull) then [isNull column] else []) := List.rel_append listed null
  dsimp only
  generalize (if literals.isEmpty then [] else [guarded field column (.among column literals)]) ++
    (if items.any (·.isNull) then [isNull column] else []) = found at parts ⊢
  generalize (if others'.isEmpty then [] else [guarded field column (.among column others')]) ++
    (if others.any (·.isNull) then [isNull column] else []) = found' at parts ⊢
  match parts with
  | .nil => exact .ok (.constant false)
  | .cons single .nil => exact .ok single
  | .cons first (.cons second rest) => exact .ok (.junction .any (.cons first (.cons second rest)))

theorem alike_ofList (field : Leaf) (column : Column) {value other : Value}
    (akin : value.Akin other) :
    Alike Akin (ofList field column value) (ofList field column other) := by
  cases akin with
  | string | instant => exact .error _ _
  | list each => exact alike_ofItems field column each
  | same value =>
    cases value with
    | list items =>
      exact alike_ofItems field column (List.forall₂_same.mpr fun item _ => .same item)
    | _ => exact .error _ _

theorem alike_ofLeaf (table : Table) (field : Leaf) (operator : LeafOperator) {value other : Value}
    (akin : value.Akin other) :
    Alike Akin (ofLeaf table field operator value) (ofLeaf table field operator other) := by
  unfold ofLeaf
  refine (Alike.refl _).bind fun column _ same => ?_
  subst same
  cases operator with
  | compared comparison => exact alike_ofComparison field column comparison akin
  | among => exact alike_ofList field column akin
  | notAmong => exact (alike_ofList field column akin).bind fun _ _ akin => .ok (.negation akin)
  | fullText =>
    cases akin with
    | string terms others => exact .ok (.fullText column terms others)
    | instant | list => exact .error _ _
    | same value =>
      cases value with
      | string terms => exact .ok (.fullText column terms terms)
      | _ => exact .error _ _

end Condition

/-- Both actions succeed with related results and leave the same table, or neither succeeds. -/
inductive Parallel {α β : Type} (R : α → β → Prop) :
    EStateM.Result Error Table α → EStateM.Result Error Table β → Prop
  | ok {value : α} {other : β} (table : Table) (related : R value other) :
      Parallel R (.ok value table) (.ok other table)
  | error (reason other : Error) (table table' : Table) :
      Parallel R (.error reason table) (.error other table')

theorem Parallel.imp {α β : Type} {R S : α → β → Prop}
    {ended : EStateM.Result Error Table α} {ended' : EStateM.Result Error Table β}
    (parallel : Parallel R ended ended') (weaker : ∀ value other, R value other → S value other) :
    Parallel S ended ended' := by
  cases parallel with
  | ok table related => exact .ok table (weaker _ _ related)
  | error => exact .error _ _ _ _

/-- From each table, two actions run in parallel. -/
def Building.Alike {α β : Type} (R : α → β → Prop) (first : Building α) (second : Building β) :
    Prop := ∀ table, Parallel R (first table) (second table)

namespace Building

variable {α β γ δ : Type} {R : α → β → Prop} {S : γ → δ → Prop}

theorem Alike.refl (action : Building α) : Alike Eq action action := by
  intro table
  cases action table with
  | ok => exact .ok _ rfl
  | error => exact .error _ _ _ _

theorem Alike.pure {value : α} {other : β} (related : R value other) :
    Alike R (Pure.pure value) (Pure.pure other) := fun table => .ok table related

theorem Alike.lift {attempt : Except Error α} {attempt' : Except Error β}
    (alike : Outcome.Alike R attempt attempt') : Alike R (liftM attempt) (liftM attempt') := by
  intro table
  cases alike with
  | ok related => exact .ok table related
  | error => exact .error _ _ _ _

theorem Alike.bind {first : Building α} {first' : Building β} {next : α → Building γ}
    {next' : β → Building δ} (alike : Alike R first first')
    (behind : ∀ value other, R value other → Alike S (next value) (next' other)) :
    Alike S (first >>= next) (first' >>= next') := by
  intro table
  have ends := alike table
  simp only [Bind.bind, EStateM.bind]
  generalize first table = ended, first' table = ended' at ends ⊢
  cases ends with
  | ok after related => exact behind _ _ related after
  | error => exact .error _ _ _ _

/-- What is the same in both runs goes first. -/
theorem Alike.behind {first : Building α} {next : α → Building γ} {next' : α → Building δ}
    (behind : ∀ value, Alike S (next value) (next' value)) :
    Alike S (first >>= next) (first >>= next') :=
  (Alike.refl first).bind fun value _ same => same ▸ behind value

theorem Alike.within {relation : JoinRelation} {key : Option String} {before after : List Join}
    {joined : Table} {action : Building α} {action' : Building β} (alike : Alike R action action') :
    Alike R (Table.within relation key before after joined action)
      (Table.within relation key before after joined action') := by
  intro table
  have ends := alike joined
  unfold Table.within
  generalize action joined = ended, action' joined = ended' at ends ⊢
  cases ends with
  | ok after related => exact .ok _ related
  | error => exact .error _ _ _ _

theorem Alike.visit (catalog : Catalog) (relation : JoinRelation) (key : Option String)
    {action : Building α} {action' : Building β} (alike : Alike R action action') :
    Alike R (Table.visit catalog relation key action)
      (Table.visit catalog relation key action') := by
  refine Alike.behind fun table => ?_
  by_cases owned : relation.owner ≠ table.node.name
  · simp only [if_pos owned]
    exact fun _ => .error _ _ _ _
  simp only [if_neg owned]
  refine Alike.behind fun _ => ?_
  split
  · exact alike.within
  · exact Alike.behind fun head => alike.within

/-- The child rows are the same; only a test of them may differ. -/
theorem Alike.ofChildren (catalog : Catalog) (relation : ReverseEdge)
    {filter filter' : Building (Option Condition)}
    {next : Children × Option Condition → Building γ}
    {next' : Children × Option Condition → Building δ}
    (alike : Alike (Option.Rel Condition.Akin) filter filter')
    (behind : ∀ children condition other, Option.Rel Condition.Akin condition other →
      Alike S (next (children, condition)) (next' (children, other))) :
    Alike S (children catalog relation filter >>= next)
      (children catalog relation filter' >>= next') := by
  have tested : Alike (fun found found' => found.1 = found'.1 ∧
      Option.Rel Condition.Akin found.2 found'.2) (children catalog relation filter)
      (children catalog relation filter') := by
    refine Alike.behind fun parent => Alike.behind fun head => Alike.behind fun matching => ?_
    have ends := alike (Table.ofNode head (parent.headAlias "<" relation.name))
    generalize filter (Table.ofNode head (parent.headAlias "<" relation.name)) = ended,
      filter' (Table.ofNode head (parent.headAlias "<" relation.name)) = ended' at ends ⊢
    cases ends with
    | ok after related => exact Alike.behind fun source => .pure ⟨rfl, related⟩
    | error => exact fun _ => .error _ _ _ _
  refine tested.bind ?_
  rintro ⟨children, condition⟩ ⟨_, other⟩ ⟨rfl, akin⟩
  exact behind children condition other akin

end Building

namespace Condition

open Building (Alike)

mutual

/-- Predicates of one shape are compiled to conditions of one shape. -/
theorem alike_ofPredicate (catalog : Catalog) : ∀ {predicate other : Predicate},
    predicate.Akin other →
      Alike Akin (ofPredicate catalog predicate) (ofPredicate catalog other)
  | _, _, .constant value => .pure (.constant value)
  | _, _, .junction kind each =>
    (alike_ofPredicates catalog each).bind fun _ _ akin => .pure (.junction kind akin)
  | _, _, .negation inner =>
    (alike_ofPredicate catalog inner).bind fun _ _ akin => .pure (.negation akin)
  | _, _, .leaf field operator values =>
    Alike.behind fun table => .lift (alike_ofLeaf table field operator values)
  | _, _, .edge link heads => by
    have compiled := alike_ofHead catalog link heads
    unfold ofPredicate
    split
    · exact Alike.behind fun table => Alike.behind fun columns =>
        compiled.bind fun _ _ akin => .pure (.linked columns akin)
    · refine compiled.bind fun _ _ akin => .pure ?_
      cases akin with
      | none => exact .constant true
      | some akin => exact akin
  | _, _, .reverse relation heads =>
    Alike.ofChildren catalog relation (alike_ofFilter catalog heads)
      fun children _ _ akin => .pure (.anyChild children akin)
  | _, _, .count relation comparison number =>
    Alike.ofChildren catalog relation (.pure .none)
      fun children _ _ _ => .pure (.childCount children comparison number)

theorem alike_ofPredicates (catalog : Catalog) : ∀ {predicates others : List Predicate},
    List.Forall₂ Predicate.Akin predicates others →
      Alike (List.Forall₂ Akin) (ofPredicates catalog predicates) (ofPredicates catalog others)
  | _, _, .nil => .pure .nil
  | _, _, .cons first rest =>
    (alike_ofPredicate catalog first).bind fun _ _ akin =>
      (alike_ofPredicates catalog rest).bind fun _ _ more => .pure (.cons akin more)

theorem alike_ofHead (catalog : Catalog) (link : Edge) : ∀ {head other : Option Predicate},
    Option.Rel Predicate.Akin head other →
      Alike (Option.Rel Akin) (ofHead catalog link head) (ofHead catalog link other)
  | _, _, .none => .pure .none
  | _, _, .some akin =>
    (Alike.visit catalog (.edge link) none (alike_ofPredicate catalog akin)).bind
      fun _ _ akin => .pure (.some akin)

theorem alike_ofFilter (catalog : Catalog) : ∀ {filter other : Option Predicate},
    Option.Rel Predicate.Akin filter other →
      Alike (Option.Rel Akin) (ofFilter catalog filter) (ofFilter catalog other)
  | _, _, .none => .pure .none
  | _, _, .some akin => by
    have compiled := alike_ofPredicate catalog akin
    unfold ofFilter
    rw [akin.isTrue_eq]
    split
    · exact .pure .none
    · exact compiled.bind fun _ _ akin => .pure (.some akin)

end

theorem alike_ofNodeFilter (catalog : Catalog) {filter other : Filter}
    (node : filter.node = other.node) (akin : filter.predicate.Akin other.predicate) :
    Alike Akin (ofNodeFilter catalog filter) (ofNodeFilter catalog other) := by
  refine Alike.behind fun table => ?_
  rw [node]
  by_cases other : other.node.name ≠ table.node.name
  · simp only [if_pos other]
    exact fun _ => .error _ _ _ _
  · simp only [if_neg other]
    exact alike_ofPredicate catalog akin

end Condition

/-- The text of a condition is read as tokens, and so is the other text. Their tokens differ in what
strings hold, and in nothing else. -/
def Condition.ReadAlike (condition other : Condition) : Prop :=
  ∃ tokens others, tokens? condition.text.toList = some tokens ∧
    tokens? other.text.toList = some others ∧ List.Forall₂ Token.Akin tokens others

theorem Twin.readAlike {condition other : Condition} (twin : Twin Apart condition.text other.text) :
    condition.ReadAlike other := by
  obtain ⟨tokens, others, reads, reads', akin⟩ := twin
  have ends : Apart [] := fun _ starts => by cases starts
  have none : tokens? [] = some [] := by rw [tokens?]
  have whole := reads [] ends
  have whole' := reads' [] ends
  rw [List.append_nil, none, Option.map_some, List.append_nil] at whole whole'
  exact ⟨tokens, others, whole, whole', akin⟩

/-- What a string or a name holds is read back from its quoted form, and is all that is read. So
filters of one shape are compiled alike, if at all, and the texts of their conditions are read as
tokens that differ in the contents of literals only. -/
theorem literals_contained :
    (∀ text rest, rest.head? ≠ some '\x27' →
      next ((Literal.quoted text).toList ++ rest) = some (.string text, rest)) ∧
    (∀ limit text name rest, Name.ofText limit text = .ok name → rest.head? ≠ some '\x60' →
      next (name.quoted.toList ++ rest) = some (.name text, rest)) ∧
    ∀ catalog table (filter other : Filter), filter.node = other.node →
      filter.predicate.Akin other.predicate →
        Parallel Condition.ReadAlike (Condition.ofNodeFilter catalog filter table)
          (Condition.ofNodeFilter catalog other table) := by
  refine ⟨fun text rest apart => next_quoted text apart, ?_, ?_⟩
  · intro limit text name rest accepted apart
    rw [next_name name apart, Name.ofText_eq_ok accepted]
  · intro catalog table filter other node akin
    exact (Condition.alike_ofNodeFilter catalog node akin table).imp
      fun _ _ akin => akin.twin.readAlike

end Sql

namespace Samples

open Sql

def heading : Leaf := ⟨"Letter", "heading", "heading", .string, true⟩

def letter : Node := ⟨"Letter", "letters", [.leaf heading], [], [], ⟨"heading", ["heading"]⟩⟩

/-- The letters of a heading. -/
def headed (text : String) : Filter := ⟨letter, .leaf heading (.compared .eq) (.string text)⟩

theorem contained_headings :
    Lexer.next ((Literal.quoted "it's").toList ++ [')']) = some (.string "it's", [')']) ∧
    (∃ name, Name.ofText 64 "a\x60b" = .ok name ∧
      Lexer.next (name.quoted.toList ++ ['.']) = some (.name "a\x60b", ['.'])) ∧
    (headed "news").predicate.Akin (headed "' OR TRUE -- ").predicate ∧
    ∃ condition other after,
      Condition.ofNodeFilter ⟨[letter]⟩ (headed "news") (.root letter) = .ok condition after ∧
      Condition.ofNodeFilter ⟨[letter]⟩ (headed "' OR TRUE -- ") (.root letter) = .ok other after ∧
      condition.ReadAlike other := by
  obtain ⟨strings, names, filters⟩ := literals_contained
  have akin : (headed "news").predicate.Akin (headed "' OR TRUE -- ").predicate :=
    .leaf heading _ (.string _ _)
  refine ⟨strings _ _ (by decide), ⟨_, rfl, names 64 _ _ _ rfl (by decide)⟩, akin, _, _, _, rfl, rfl,
    ?_⟩
  have ends := filters ⟨[letter]⟩ (.root letter) (headed "news") (headed "' OR TRUE -- ") rfl akin
  cases ends with
  | ok _ related => exact related

end Samples

end LiveQuery
