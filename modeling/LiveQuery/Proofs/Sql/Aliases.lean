import LiveQuery.Proofs.Catalog.WellFormed
import LiveQuery.Sql.Table

set_option autoImplicit false

namespace LiveQuery.Sql

def isMark (c : Char) : Bool := c = '>' || c = '<'

/-- A sign that stands between an alias and a name. -/
def Marks (mark : String) : Prop := ∃ sign, isMark sign = true ∧ mark.toList = [sign]

theorem marks_edge : Marks ">" := ⟨'>', rfl, rfl⟩

theorem marks_reverse : Marks "<" := ⟨'<', rfl, rfl⟩

theorem JoinRelation.marks (relation : JoinRelation) : Marks relation.mark := by
  cases relation with
  | edge => exact marks_edge
  | reverse => exact marks_reverse

/-- An alias that goes on from another one, behind a mark. -/
def Onward (label other : String) : Prop :=
  ∃ sign rest, isMark sign = true ∧ other.toList = label.toList ++ sign :: rest

/-- The alias of a table, or of one that hangs on it. -/
def Within (label other : String) : Prop := other = label ∨ Onward label other

/-- Without a mark, as the names of relations are. -/
def Unmarked (name : String) : Prop := ∀ c ∈ name.toList, isMark c = false

section Aliases

variable {label other name name' mark mark' : String}

theorem Onward.ne (onward : Onward label other) : other ≠ label := by
  rintro rfl
  obtain ⟨sign, rest, -, same⟩ := onward
  simp at same

theorem onward_append (marks : Marks mark) (label name : String) :
    Onward label (label ++ mark ++ name) := by
  obtain ⟨sign, marks, same⟩ := marks
  refine ⟨sign, name.toList, marks, ?_⟩
  rw [String.toList_append, String.toList_append, same, List.append_assoc, List.singleton_append]

theorem Onward.trans {last : String} (first : Onward label other) (second : Within other last) :
    Onward label last := by
  rcases second with rfl | ⟨sign, rest, marks, same⟩
  · exact first
  · obtain ⟨sign', rest', marks', same'⟩ := first
    exact ⟨sign', rest' ++ sign :: rest, marks', by rw [same, same', List.append_assoc]; rfl⟩

theorem unmarked_of_isName (named : isName name = true) : Unmarked name := by
  intro c inside
  have letter := CatalogDefinition.isNameCharacter_of_isName named inside
  cases marks : isMark c with
  | false => rfl
  | true =>
    rw [isMark, Bool.or_eq_true, decide_eq_true_iff, decide_eq_true_iff] at marks
    rcases marks with rfl | rfl
    · exact absurd letter (by decide)
    · exact absurd letter (by decide)

theorem toList_of_within (within : Within (label ++ mark ++ name) other) :
    ∃ tail, other.toList = label.toList ++ mark.toList ++ name.toList ++ tail ∧
      ∀ c ∈ tail.head?, isMark c = true := by
  have whole : (label ++ mark ++ name).toList = label.toList ++ mark.toList ++ name.toList := by
    rw [String.toList_append, String.toList_append]
  rcases within with rfl | ⟨sign, rest, marks, same⟩
  · exact ⟨[], by rw [whole, List.append_nil], by simp⟩
  · exact ⟨sign :: rest, by rw [same, whole], by simpa using marks⟩

theorem takeWhile_unmarked {tail : List Char} (plain : Unmarked name)
    (ends : ∀ c ∈ tail.head?, isMark c = true) :
    (name.toList ++ tail).takeWhile (!isMark ·) = name.toList := by
  rw [List.takeWhile_append_of_pos fun c inside => by rw [plain c inside]; rfl]
  cases tail with
  | nil => exact List.append_nil _
  | cons c rest =>
    have marks : isMark c = true := ends c rfl
    simp [marks]

theorem eq_of_within (marks : Marks mark) (marks' : Marks mark') (plain : Unmarked name)
    (plain' : Unmarked name') (first : Within (label ++ mark ++ name) other)
    (second : Within (label ++ mark' ++ name') other) : mark = mark' ∧ name = name' := by
  obtain ⟨tail, same, ends⟩ := toList_of_within first
  obtain ⟨tail', same', ends'⟩ := toList_of_within second
  obtain ⟨sign, -, marked⟩ := marks
  obtain ⟨sign', -, marked'⟩ := marks'
  rw [same, marked, marked'] at same'
  simp only [List.append_assoc, List.append_cancel_left_eq, List.cons_append, List.nil_append,
    List.cons.injEq] at same'
  obtain ⟨rfl, behind⟩ := same'
  refine ⟨String.toList_injective (marked.trans marked'.symm), String.toList_injective ?_⟩
  rw [← takeWhile_unmarked plain ends, behind, takeWhile_unmarked plain' ends']

end Aliases

end LiveQuery.Sql
