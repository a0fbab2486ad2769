import LiveQuery.Proofs.Sql.Building
import LiveQuery.Proofs.Sql.Lexing

set_option autoImplicit false

namespace LiveQuery.Sql

open Lexer

/-- Literals that may differ in the contents of a string or instant. -/
inductive Literal.Akin : Literal → Literal → Prop
  | null : Akin .null .null
  | boolean (value : Bool) : Akin (.boolean value) (.boolean value)
  | int (value : Int64) : Akin (.int value) (.int value)
  | float {value : Binary64} (finite : value.isFinite = true) : Akin (.float value) (.float value)
  | string (value other : String) : Akin (.string value) (.string other)
  | instant (value other : Instant) : Akin (.instant value) (.instant other)

/-- Conditions that may differ in their literals and full-text terms. No raw condition is akin to
another, as nothing is known of its text. -/
inductive Condition.Akin : Condition → Condition → Prop
  | constant (value : Bool) : Akin (.constant value) (.constant value)
  | junction (kind : Junction) {operands others : List Condition}
      (each : List.Forall₂ Akin operands others) :
      Akin (.junction kind operands) (.junction kind others)
  | negation {operand other : Condition} (inner : Akin operand other) :
      Akin (.negation operand) (.negation other)
  | compared (column : Column) (operator : Operator) {literal other : Literal}
      (literals : literal.Akin other) :
      Akin (.compared column operator literal) (.compared column operator other)
  | isNull (column : Column) : Akin (.isNull column) (.isNull column)
  | isSet (column : Column) : Akin (.isSet column) (.isSet column)
  | among (column : Column) {literals others : List Literal}
      (each : List.Forall₂ Literal.Akin literals others) :
      Akin (.among column literals) (.among column others)
  | fullText (column : Column) (terms others : String) :
      Akin (.fullText column terms) (.fullText column others)
  | linked (foreignKey : List Column) {head other : Option Condition}
      (heads : Option.Rel Akin head other) :
      Akin (.linked foreignKey head) (.linked foreignKey other)
  | anyChild (children : Children) {filter other : Option Condition}
      (filters : Option.Rel Akin filter other) :
      Akin (.anyChild children filter) (.anyChild children other)
  | childCount (children : Children) (comparison : Comparison) (number : Nat) :
      Akin (.childCount children comparison number) (.childCount children comparison number)

/-- Texts whose tokens differ in what their strings hold, and in nothing else. -/
def Twin (follows : List Char → Prop) (text other : String) : Prop :=
  ∃ tokens others, Lexes follows text tokens ∧ Lexes follows other others ∧
    List.Forall₂ Token.Akin tokens others

section Twins

variable {P Q : List Char → Prop} {a a' b b' : String}

theorem Token.Akin.refl (token : Token) : token.Akin token := Or.inl rfl

theorem Lexes.twin {tokens : List Token} (lexes : Lexes P a tokens) : Twin P a a :=
  ⟨tokens, tokens, lexes, lexes, List.forall₂_same.mpr fun token _ => .refl token⟩

theorem Twin.append (first : Twin P a a') (second : Twin Q b b')
    (fits : ∀ rest, Q rest → P (b.toList ++ rest))
    (fits' : ∀ rest, Q rest → P (b'.toList ++ rest)) :
    Twin Q (a ++ b) (a' ++ b') := by
  obtain ⟨ts, ts', reads, reads', akin⟩ := first
  obtain ⟨us, us', behind, behind', akin'⟩ := second
  exact ⟨ts ++ us, ts' ++ us', reads.append behind fits, reads'.append behind' fits',
    List.rel_append akin akin'⟩

/-- Behind a sign or a blank anything may stand. -/
theorem Twin.then (first : Twin Free a a') (second : Twin Q b b') :
    Twin Q (a ++ b) (a' ++ b') :=
  first.append second (fun _ _ => trivial) fun _ _ => trivial

theorem Twin.parted (first : Twin Apart a a') (second : Twin Q b b') (parted : Parted b)
    (parted' : Parted b') : Twin Q (a ++ b) (a' ++ b') :=
  first.append second (fun rest _ => parted.apart rest) fun rest _ => parted'.apart rest

theorem Twin.anywhere (twin : Twin Free a a') : Twin Q a a' := by
  obtain ⟨ts, ts', reads, reads', akin⟩ := twin
  exact ⟨ts, ts', fun rest _ => reads rest trivial, fun rest _ => reads' rest trivial, akin⟩

theorem twin_open : Twin Free "(" "(" := lexes_open.twin

theorem twin_close : Twin Free ")" ")" := lexes_close.twin

theorem parted_close : Parted ")" := ⟨')', by decide, rfl⟩

theorem Twin.closed (twin : Twin Apart a a') : Twin Free (a ++ ")") (a' ++ ")") :=
  twin.parted twin_close parted_close parted_close

/-- A text that may stand between any two others. -/
structure Separator (text : String) : Prop where
  twin : Twin Free text text
  parted : Parted text

theorem Twin.between {separator : String} (first : Twin Apart a a')
    (separates : Separator separator) (second : Twin Q b b') :
    Twin Q (a ++ separator ++ b) (a' ++ separator ++ b') :=
  (first.parted separates.twin separates.parted separates.parted).then second

theorem twin_empty : Twin P "" "" := by
  have reads : Lexes P "" [] := fun _ _ => Option.map_id'.symm
  exact reads.twin

theorem Twin.intercalate {separator : String} (separates : Separator separator)
    {texts others : List String} (each : List.Forall₂ (Twin Apart) texts others) :
    Twin Apart (separator.intercalate texts) (separator.intercalate others) := by
  induction each with
  | nil => exact twin_empty
  | cons first behind ih =>
    cases behind with
    | nil => simpa only [String.intercalate_singleton] using first
    | cons second behind =>
      rw [String.intercalate_cons_cons, String.intercalate_cons_cons]
      exact first.between separates ih

theorem twin_join {texts : List String}
    (each : ∀ text ∈ texts, Twin Apart text text ∧ Parted text) :
    Twin Apart (String.join texts) (String.join texts) := by
  induction texts with
  | nil => exact twin_empty
  | cons text texts ih =>
    rw [List.forall_mem_cons] at each
    obtain ⟨⟨first, -⟩, behind⟩ := each
    rw [String.join_cons]
    refine first.append (ih behind) ?_ ?_ <;>
    · intro rest apart
      cases texts with
      | nil => simpa using apart
      | cons next texts =>
        rw [String.join_cons]
        exact ((behind next (by simp)).2.append _).apart rest

theorem twin_blank : Twin Free " " " " := lexes_blank.twin

theorem parted_blank : Parted " " := ⟨' ', by decide, rfl⟩

/-- Words, each behind a blank. -/
def phrase (words : List String) : String := String.join (words.map (" " ++ ·))

def Spelled (word : String) : Prop := word.toList.all Char.isAlpha = true ∧ word.toList ≠ []

instance : DecidablePred Spelled := fun _ => inferInstanceAs (Decidable (_ ∧ _))

theorem twin_word (word : String) (spelled : Spelled word) : Twin Apart word word :=
  (lexes_word spelled.1 spelled.2).twin

theorem twin_opening (word : String) (spelled : Spelled word) :
    Twin Free (word ++ " ") (word ++ " ") :=
  (twin_word word spelled).parted twin_blank parted_blank parted_blank

theorem twin_phrase (words : List String) (spelled : ∀ word ∈ words, Spelled word) :
    Twin Apart (phrase words) (phrase words) := by
  refine twin_join ?_
  rw [List.forall_mem_map]
  intro word inside
  exact ⟨twin_blank.then (twin_word word (spelled word inside)), parted_blank.append _⟩

theorem separator_phrase (word : String) (words : List String)
    (spelled : ∀ other ∈ word :: words, Spelled other) :
    Separator (phrase (word :: words) ++ " ") := by
  refine ⟨(twin_phrase _ spelled).parted twin_blank parted_blank parted_blank, Parted.append ?_ _⟩
  rw [phrase, List.map_cons, String.join_cons, String.append_assoc]
  exact parted_blank.append _

theorem separator_and : Separator " AND " := separator_phrase "AND" [] (by decide)

theorem separator_junction (kind : Junction) : Separator (" " ++ kind.word ++ " ") := by
  cases kind with
  | all => exact separator_and
  | any => exact separator_phrase "OR" [] (by decide)

theorem separator_operator (operator : Operator) : Separator (" " ++ operator.symbol ++ " ") :=
  ⟨(lexes_operator operator).twin, (parted_blank.append _).append _⟩

theorem separator_comma : Separator ", " :=
  ⟨lexes_comma.twin.then twin_blank, ',', by decide, rfl⟩

theorem separator_equal : Separator " = " := separator_operator (.compared .eq)

end Twins

section Texts

theorem twin_quoted (text other : String) :
    Twin Apart (Literal.quoted text) (Literal.quoted other) :=
  ⟨_, _, lexes_quoted text, lexes_quoted other, .cons (Or.inr ⟨text, other, rfl, rfl⟩) .nil⟩

theorem Literal.Akin.twin {literal other : Literal} (akin : literal.Akin other) :
    Twin Apart literal.text other.text := by
  cases akin with
  | null => exact twin_word "NULL" (by decide)
  | boolean value => cases value <;> exact twin_word _ (by decide)
  | int value =>
    obtain ⟨_, reads⟩ := lexes_int value.toInt
    exact reads.twin
  | float finite =>
    obtain ⟨_, reads⟩ := lexes_float finite
    exact reads.twin
  | string value other => exact twin_quoted value other
  | instant value other =>
    exact ⟨_, _, lexes_instant value, lexes_instant other, .cons (Or.inr ⟨_, _, rfl, rfl⟩) .nil⟩

theorem twin_name {limit : Nat} (name : Name limit) : Twin Apart name.quoted name.quoted := by
  have reads : Lexes Apart name.quoted [.name name.text] :=
    lexes_of_next fun _ apart => next_name name (apart.ne (by decide))
  exact reads.twin

theorem twin_column (column : Column) : Twin Apart column.text column.text :=
  (lexes_column column).twin

theorem twin_named (named : NamedTable) : Twin Apart named.text named.text :=
  (twin_name named.table).between (separator_phrase "AS" [] (by decide)) (twin_name named.label)

theorem twin_match (pair : Match) : Twin Apart pair.text pair.text :=
  (twin_column pair.left).between separator_equal (twin_column pair.right)

theorem twin_matching (pairs : List Match) :
    List.Forall₂ (Twin Apart) (pairs.map (·.text)) (pairs.map (·.text)) :=
  List.forall₂_same.mpr (List.forall_mem_map.mpr fun pair _ => twin_match pair)

theorem twin_leftJoin (join : LeftJoin) : Twin Apart join.text join.text :=
  ((separator_phrase "LEFT" ["JOIN"] (by decide)).twin.then (twin_named join.table)).between
    (separator_phrase "ON" [] (by decide))
    (.intercalate separator_and (twin_matching join.matching))

theorem parted_leftJoin (join : LeftJoin) : Parted join.text := by
  unfold LeftJoin.text
  simp only [String.append_assoc]
  exact Parted.append (separator_phrase "LEFT" ["JOIN"] (by decide)).parted _

theorem twin_source (source : Source) : Twin Apart source.text source.text := by
  have joins : Twin Apart (LeftJoin.textAll source.joins) (LeftJoin.textAll source.joins) :=
    twin_join (List.forall_mem_map.mpr fun join _ => ⟨twin_leftJoin join, parted_leftJoin join⟩)
  refine (twin_named source.table).append joins ?_ ?_ <;>
  · intro rest apart
    unfold LeftJoin.textAll
    cases source.joins with
    | nil => exact apart
    | cons join joins =>
      rw [List.map_cons, String.join_cons]
      exact ((parted_leftJoin join).append _).apart rest

namespace Condition

theorem twin_constantText (value : Bool) :
    Twin Apart (constantText value) (constantText value) := by
  cases value <;> exact twin_word _ (by decide)

theorem twin_setText (column : Column) : Twin Apart (setText column) (setText column) := by
  have test := twin_phrase ["IS", "NOT", "NULL"] (by decide)
  have parted : Parted " IS NOT NULL" := ⟨' ', by decide, rfl⟩
  exact (twin_column column).parted test parted parted

theorem twin_isNull (column : Column) :
    Twin Apart (text (.isNull column)) (text (.isNull column)) := by
  have test := twin_phrase ["IS", "NULL"] (by decide)
  have parted : Parted " IS NULL" := ⟨' ', by decide, rfl⟩
  exact (twin_column column).parted test parted parted

theorem twin_among (column : Column) {literals others : List Literal}
    (each : List.Forall₂ Literal.Akin literals others) :
    Twin Free (text (.among column literals)) (text (.among column others)) := by
  have opened : Separator " IN (" :=
    ⟨(separator_phrase "IN" [] (by decide)).twin.then twin_open, ' ', by decide, rfl⟩
  have listed : List.Forall₂ (Twin Apart) (literals.map (·.text)) (others.map (·.text)) := by
    rw [List.forall₂_map_left_iff, List.forall₂_map_right_iff]
    exact each.imp fun _ _ akin => akin.twin
  exact ((twin_column column).between opened (.intercalate separator_comma listed)).closed

theorem twin_fullText (column : Column) (terms others : String) :
    Twin Free (text (.fullText column terms)) (text (.fullText column others)) := by
  have opened : Twin Free "MATCH (" "MATCH (" := (twin_opening "MATCH" (by decide)).then twin_open
  have against : Separator ") AGAINST (" :=
    ⟨twin_close.then ((separator_phrase "AGAINST" [] (by decide)).twin.then twin_open), ')',
      by decide, rfl⟩
  have mode : Separator " IN BOOLEAN MODE)" :=
    ⟨(twin_phrase ["IN", "BOOLEAN", "MODE"] (by decide)).closed,
      ' ', by decide, rfl⟩
  exact ((opened.then (twin_column column)).between against (twin_quoted terms others)).parted
    mode.twin mode.parted mode.parted

theorem twin_children {selected : String} (chosen : Twin Apart selected selected)
    (children : Children) {filter other : Option String}
    (filters : Option.Rel (Twin Apart) filter other) :
    Twin Apart (childrenText selected children filter) (childrenText selected children other) := by
  have opened : Twin Free "SELECT " "SELECT " := twin_opening "SELECT" (by decide)
  have tests : List.Forall₂ (Twin Apart) (children.matching.map (·.text) ++ filter.toList)
      (children.matching.map (·.text) ++ other.toList) := by
    refine List.rel_append (twin_matching children.matching) ?_
    cases filters with
    | none => exact .nil
    | some twin => exact .cons twin .nil
  exact ((opened.then chosen).between (separator_phrase "FROM" [] (by decide))
    (twin_source children.source)).between (separator_phrase "WHERE" [] (by decide))
      (.intercalate separator_and tests)

theorem twin_one : Twin Apart "1" "1" := (lexes_nat 1).twin

theorem twin_rowCount : Twin Apart "COUNT(*)" "COUNT(*)" := by
  have star : Twin Free "*" "*" := (lexes_sign fun _ => rfl).twin
  have word : Twin Apart "COUNT" "COUNT" := twin_word _ (by decide)
  have parted : Parted "(*)" := ⟨'(', by decide, rfl⟩
  exact word.parted ((twin_open.then star).then twin_close.anywhere) parted parted

theorem twin_sets (foreignKey : List Column) :
    Twin Apart (" AND ".intercalate (foreignKey.map setText))
      (" AND ".intercalate (foreignKey.map setText)) :=
  .intercalate separator_and
    (List.forall₂_same.mpr (List.forall_mem_map.mpr fun column _ => twin_setText column))

theorem twin_linked_none (foreignKey : List Column) :
    Twin Apart (text (.linked foreignKey none)) (text (.linked foreignKey none)) := by
  rw [text_linked_none]
  split
  · exact ((twin_open.then (twin_sets foreignKey)).closed).anywhere
  · exact twin_sets foreignKey

theorem twin_linked_some (foreignKey : List Column) {head other : Condition}
    (heads : Twin Apart head.text other.text) :
    Twin Free (text (.linked foreignKey (some head))) (text (.linked foreignKey (some other))) := by
  rw [text_linked_some, text_linked_some]
  exact ((twin_open.then (twin_sets foreignKey)).between separator_and heads).closed

theorem twin_anyChild (children : Children) {filter other : Option Condition}
    (filters : Option.Rel (Twin Apart) (textOption filter) (textOption other)) :
    Twin Free (text (.anyChild children filter)) (text (.anyChild children other)) := by
  have opened : Twin Free "EXISTS (" "EXISTS (" :=
    (twin_opening "EXISTS" (by decide)).then twin_open
  exact (opened.then (twin_children twin_one children filters)).closed

theorem twin_childCount (children : Children) (comparison : Comparison) (number : Nat) :
    Twin Apart (text (.childCount children comparison number))
      (text (.childCount children comparison number)) := by
  have compares : Separator (")" ++ (" " ++ comparison.symbol ++ " ")) :=
    ⟨twin_close.then (lexes_comparison comparison).twin, parted_close.append _⟩
  have written : text (.childCount children comparison number) =
      "(" ++ childrenText "COUNT(*)" children none ++ (")" ++ (" " ++ comparison.symbol ++ " ")) ++
        toString number := by
    have sign : ") " = ")" ++ " " := rfl
    rw [text_childCount, sign]
    simp only [String.append_assoc]
  rw [written]
  exact (twin_open.then (twin_children twin_rowCount children .none)).between compares
    (lexes_nat number).twin

theorem twin_compared (column : Column) (operator : Operator) {literal other : Literal}
    (literals : literal.Akin other) :
    Twin Apart (text (.compared column operator literal))
      (text (.compared column operator other)) := by
  have written (literal : Literal) : text (.compared column operator literal) =
      column.text ++ (" " ++ operator.symbol ++ " ") ++ literal.text := by
    rw [text]
    simp only [String.append_assoc]
  rw [written, written]
  exact (twin_column column).between (separator_operator operator) literals.twin

theorem twin_negation {operand other : Condition} (inner : Twin Apart operand.text other.text) :
    Twin Free (text (.negation operand)) (text (.negation other)) := by
  have opened : Twin Free "NOT (" "NOT (" := (twin_opening "NOT" (by decide)).then twin_open
  rw [text_negation, text_negation]
  exact (opened.then inner).closed

theorem twin_junction (kind : Junction) {operand other : Condition}
    {operands others : List Condition} (first : Twin Apart operand.text other.text)
    (rest : List.Forall₂ (Twin Apart) (operands.map text) (others.map text)) :
    Twin Free (text (.junction kind (operand :: operands)))
      (text (.junction kind (other :: others))) := by
  rw [text_junction, text_junction]
  exact (twin_open.then (.intercalate (separator_junction kind) (.cons first rest))).closed

mutual

/-- Conditions that are akin have texts that are twins. -/
theorem Akin.twin : ∀ {condition other : Condition}, condition.Akin other →
    Twin Apart condition.text other.text
  | _, _, .constant value => twin_constantText value
  | _, _, .junction kind .nil => twin_constantText kind.unit
  | _, _, .junction kind (.cons first rest) =>
    (twin_junction kind (Akin.twin first) (Akin.twins rest)).anywhere
  | _, _, .negation inner => (twin_negation (Akin.twin inner)).anywhere
  | _, _, .compared column operator literals => twin_compared column operator literals
  | _, _, .isNull column => twin_isNull column
  | _, _, .isSet column => twin_setText column
  | _, _, .among column each => (twin_among column each).anywhere
  | _, _, .fullText column terms others => (twin_fullText column terms others).anywhere
  | _, _, .linked foreignKey .none => twin_linked_none foreignKey
  | _, _, .linked foreignKey (.some head) => (twin_linked_some foreignKey (Akin.twin head)).anywhere
  | _, _, .anyChild children filters => (twin_anyChild children (Akin.twinOption filters)).anywhere
  | _, _, .childCount children comparison number => twin_childCount children comparison number

theorem Akin.twins : ∀ {conditions others : List Condition}, List.Forall₂ Akin conditions others →
    List.Forall₂ (Twin Apart) (conditions.map text) (others.map text)
  | _, _, .nil => .nil
  | _, _, .cons first rest => .cons (Akin.twin first) (Akin.twins rest)

theorem Akin.twinOption : ∀ {condition other : Option Condition}, Option.Rel Akin condition other →
    Option.Rel (Twin Apart) (textOption condition) (textOption other)
  | _, _, .none => .none
  | _, _, .some inner => .some (Akin.twin inner)

end

end Condition

end Texts

end LiveQuery.Sql
