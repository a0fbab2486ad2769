import LiveQuery.Execution.Row
import LiveQuery.Proofs.Entries

set_option autoImplicit false

namespace LiveQuery

/-- A value and the path of keys that it belongs under. -/
abbrev PathCell := List String × Value

namespace Text

theorem pointSegments_cons {c : Char} {rest first : List Char} {segments : List (List Char)}
    (other : c ≠ '.') (behind : pointSegments rest = first :: segments) :
    pointSegments (c :: rest) = (c :: first) :: segments := by
  unfold pointSegments
  split
  · exact absurd rfl other
  · rename_i same
    rw [behind] at same
    cases same
    rfl
  · rename_i same
    rw [behind] at same
    cases same

theorem pointSegments_of_not_mem {segment : List Char} (plain : '.' ∉ segment) :
    pointSegments segment = [segment] := by
  induction segment with
  | nil => rfl
  | cons c rest ih =>
    rw [List.mem_cons, not_or] at plain
    exact pointSegments_cons (Ne.symm plain.1) (ih plain.2)

theorem pointSegments_append {segment rest : List Char} (plain : '.' ∉ segment) :
    pointSegments (segment ++ '.' :: rest) = segment :: pointSegments rest := by
  induction segment with
  | nil => rfl
  | cons c behind ih =>
    rw [List.mem_cons, not_or] at plain
    exact pointSegments_cons (Ne.symm plain.1) (ih plain.2)

theorem splitAtPoints_intercalate {path : List String} (some_ : path ≠ [])
    (plain : ∀ segment ∈ path, '.' ∉ segment.toList) :
    splitAtPoints (".".intercalate path) = path := by
  have mark : ".".toList = ['.'] := rfl
  unfold splitAtPoints
  induction path with
  | nil => exact absurd rfl some_
  | cons segment rest ih =>
    rw [List.forall_mem_cons] at plain
    cases rest with
    | nil =>
      rw [String.intercalate_singleton, pointSegments_of_not_mem plain.1, List.map_singleton,
        String.ofList_toList]
    | cons next more =>
      rw [String.intercalate_cons_cons, String.toList_append, String.toList_append, mark,
        List.append_assoc, List.singleton_append, pointSegments_append plain.1, List.map_cons,
        ih (List.cons_ne_nil _ _) plain.2, String.ofList_toList]

end Text

namespace Record

variable {record : Record} {value : Value} {key other : String} {path : List String}
  {cells cells' : List PathCell}

/-- The value under a path of keys, null where there is none. -/
def under (record : Record) : List String → Value
  | [] => .null
  | [key] => (record.get? key).getD .null
  | key :: next :: rest =>
    match record.get? key with
    | some (.record child) => under child (next :: rest)
    | _ => .null

theorem under_of_child {child : Record} (found : record.get? key = some (.record child))
    (some_ : path ≠ []) : record.under (key :: path) = child.under path := by
  cases path with
  | nil => exact absurd rfl some_
  | cons => rw [under, found]

theorem under_of_null (found : record.get? key = some .null) :
    record.under (key :: path) = .null := by
  cases path <;> rw [under, found]
  rfl

theorem under_nil : under [] path = .null := by
  rcases path with - | ⟨key, - | ⟨next, rest⟩⟩ <;> rfl

/-- The record under a key, or an empty one. -/
def child (record : Record) (key : String) : Record := (record.carried? key).getD []

theorem insertAt_cons (some_ : path ≠ []) :
    record.insertAt value (key :: path) =
      record.insert key (.record ((record.child key).insertAt value path)) := by
  cases path with
  | nil => exact absurd rfl some_
  | cons =>
    rw [insertAt, child, carried?]
    split <;> simp_all

theorem get?_insertAt_of_ne (apart : other ≠ key) :
    (record.insertAt value (key :: path)).get? other = record.get? other := by
  by_cases last : path = []
  · rw [last, insertAt, Entries.get?_insert_of_ne _ _ _ _ apart]
  · rw [insertAt_cons last, Entries.get?_insert_of_ne _ _ _ _ apart]

/-- A record with further values under their paths. -/
def fill (record : Record) (cells : List PathCell) : Record :=
  cells.foldl (fun record cell => record.insertAt cell.2 cell.1) record

/-- What the cell puts under a key. -/
def behind? (key : String) (cell : PathCell) : Option PathCell :=
  match cell.1 with
  | [] => none
  | first :: rest => if first = key then some (rest, cell.2) else none

/-- The cells whose paths start with a key, cut down to what is behind it. -/
def behind (key : String) (cells : List PathCell) : List PathCell := cells.filterMap (behind? key)

theorem behind?_cons (first : String) :
    behind? key (first :: path, value) = if first = key then some (path, value) else none := rfl

theorem behind_perm (same : cells.Perm cells') : (behind key cells).Perm (behind key cells') :=
  same.filterMap _

theorem get?_insertAt_of_behind? {cell : PathCell} (absent : behind? key cell = none) :
    (record.insertAt cell.2 cell.1).get? key = record.get? key := by
  obtain ⟨path, value⟩ := cell
  cases path with
  | nil => rfl
  | cons first rest =>
    rw [behind?_cons] at absent
    have apart : key ≠ first := by
      rintro rfl
      rw [if_pos rfl] at absent
      cases absent
    exact get?_insertAt_of_ne apart

theorem eq_of_behind? {cell cell' : PathCell} (found : behind? key cell = some cell') :
    cell = (key :: cell'.1, cell'.2) := by
  obtain ⟨path, value⟩ := cell
  cases path with
  | nil => cases found
  | cons first rest =>
    rw [behind?_cons] at found
    split at found
    · rename_i same
      cases found
      rw [same]
    · cases found

theorem get?_fill_of_behind_nil (none_ : behind key cells = []) :
    (record.fill cells).get? key = record.get? key := by
  induction cells generalizing record with
  | nil => rfl
  | cons cell rest ih =>
    have absent : behind? key cell = none := by
      cases found : behind? key cell with
      | none => rfl
      | some => rw [behind, List.filterMap_cons_some found] at none_; cases none_
    rw [behind, List.filterMap_cons_none absent] at none_
    rw [fill, List.foldl_cons]
    exact (ih none_).trans (get?_insertAt_of_behind? absent)

theorem get?_fill_of_behind_single (single : behind key cells = [([], value)]) :
    (record.fill cells).get? key = some value := by
  induction cells generalizing record with
  | nil => cases single
  | cons cell rest ih =>
    rw [fill, List.foldl_cons]
    cases found : behind? key cell with
    | none =>
      rw [behind, List.filterMap_cons_none found] at single
      exact ih single
    | some first =>
      rw [behind, List.filterMap_cons_some found] at single
      obtain ⟨rfl, none_⟩ := List.cons_eq_cons.mp single
      rw [eq_of_behind? found]
      exact (get?_fill_of_behind_nil none_).trans (Entries.get?_insert_self ..)

/-- A key whose cells all go further has a record, which is filled with what is behind it. -/
theorem get?_fill_of_behind (some_ : behind key cells ≠ [])
    (deep : ∀ cell ∈ behind key cells, cell.1 ≠ []) :
    (record.fill cells).get? key =
      some (.record ((record.child key).fill (behind key cells))) := by
  induction cells generalizing record with
  | nil => exact absurd rfl some_
  | cons cell rest ih =>
    rw [fill, List.foldl_cons]
    cases found : behind? key cell with
    | none =>
      have same : behind key (cell :: rest) = behind key rest := List.filterMap_cons_none found
      rw [same] at some_ deep ⊢
      have kept : (record.insertAt cell.2 cell.1).child key = record.child key := by
        rw [child, child, carried?, carried?, get?_insertAt_of_behind? found]
      rw [← kept]
      exact ih some_ deep
    | some first =>
      have same : behind key (cell :: rest) = first :: behind key rest :=
        List.filterMap_cons_some found
      rw [same, List.forall_mem_cons] at deep
      have put : record.insertAt cell.2 cell.1 =
          record.insert key (.record ((record.child key).insertAt first.2 first.1)) := by
        rw [eq_of_behind? found]
        exact insertAt_cons deep.1
      have inner : (record.insertAt cell.2 cell.1).child key =
          (record.child key).insertAt first.2 first.1 := by
        rw [put, child, carried?, Entries.get?_insert_self]
        rfl
      rw [same, fill, List.foldl_cons, ← inner]
      by_cases more : behind key rest = []
      · rw [more]
        refine (get?_fill_of_behind_nil more).trans ?_
        rw [inner, put, Entries.get?_insert_self]
        rfl
      · exact ih more deep.2

end Record

namespace Row

open Record (fill)

variable {record : Record} {value : Value} {key : String} {path : List String}

/-- The cells of a row. -/
def cells (row : Record) : List PathCell :=
  row.map fun column => (Text.splitAtPoints column.1, column.2)

/-- The record that is assembled from cells. -/
def ofCells (cells : List PathCell) : Record := collapse (fill [] cells)

theorem assemble_eq (row : Record) : assemble row = ofCells (cells row) := by
  rw [assemble, ofCells, fill, cells, List.foldl_map]

theorem get?_collapse (record : Record) (key : String) :
    Entries.get? (collapse record) key =
      if key = Sql.identifierKey ∨ key = Sql.parentKey then record.get? key
      else (record.get? key).map collapseValue := by
  induction record with
  | nil =>
    rw [collapse]
    split <;> rfl
  | cons entry rest ih =>
    rw [collapse, Entries.get?, Entries.get?]
    by_cases same : entry.1 = key
    · rw [if_pos same, if_pos same, same]
      split <;> rfl
    · rw [if_neg same, if_neg same, ih]

theorem get?_ofCells_internal (cells : List PathCell)
    (internal : key = Sql.identifierKey ∨ key = Sql.parentKey) :
    (ofCells cells).get? key = (fill [] cells).get? key := by
  rw [ofCells, get?_collapse, if_pos internal]

theorem get?_ofCells (cells : List PathCell) (outer : key ≠ Sql.identifierKey)
    (outer' : key ≠ Sql.parentKey) :
    (ofCells cells).get? key = ((fill [] cells).get? key).map collapseValue := by
  rw [ofCells, get?_collapse, if_neg (not_or.mpr ⟨outer, outer'⟩)]

theorem holdsNothingAt_iff : holdsNothingAt record = true ↔
    ∀ entry ∈ record, holdsNothing entry.2 = true := by
  induction record with
  | nil => simp [holdsNothingAt]
  | cons entry rest ih => rw [holdsNothingAt, Bool.and_eq_true, ih, List.forall_mem_cons]

theorem holdsNothing_of_get? (nothing : holdsNothingAt record = true)
    (found : record.get? key = some value) : holdsNothing value = true :=
  holdsNothingAt_iff.mp nothing _ (Entries.mem_of_get? found)

theorem holdsNothingAt_insert (nothing : holdsNothingAt record = true)
    (nothing' : holdsNothing value = true) :
    holdsNothingAt (record.insert key value) = true := by
  induction record with
  | nil => simp [Entries.insert, holdsNothingAt, nothing']
  | cons entry rest ih =>
    rw [holdsNothingAt, Bool.and_eq_true] at nothing
    rw [Entries.insert]
    split
    · simp [holdsNothingAt, nothing', nothing.2]
    · simp [holdsNothingAt, nothing.1, ih nothing.2]

theorem holdsNothingAt_insertAt (nothing : holdsNothingAt record = true) :
    holdsNothingAt (record.insertAt .null path) = true := by
  induction path generalizing record with
  | nil => exact nothing
  | cons key rest ih =>
    by_cases last : rest = []
    · rw [last]
      exact holdsNothingAt_insert nothing rfl
    · have inner : holdsNothingAt (record.child key) = true := by
        rw [Record.child, Record.carried?]
        split
        · rename_i found
          exact holdsNothing_of_get? nothing found
        · rfl
      rw [Record.insertAt_cons last]
      exact holdsNothingAt_insert nothing (ih inner)

theorem holdsNothingAt_fill {cells : List PathCell} (nothing : holdsNothingAt record = true)
    (nulls : ∀ cell ∈ cells, cell.2 = .null) : holdsNothingAt (fill record cells) = true := by
  induction cells generalizing record with
  | nil => exact nothing
  | cons cell rest ih =>
    rw [List.forall_mem_cons] at nulls
    rw [fill, List.foldl_cons, nulls.1]
    exact ih (holdsNothingAt_insertAt nothing) nulls.2

end Row

end LiveQuery
