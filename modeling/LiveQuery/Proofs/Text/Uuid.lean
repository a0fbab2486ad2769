import LiveQuery.Text.Uuid
import Mathlib.Algebra.Group.Nat.Defs
import Mathlib.Data.List.Basic
import Mathlib.Data.List.Induction
import Mathlib.Tactic.SplitIfs

set_option autoImplicit false

namespace LiveQuery.Text

theorem toNat_toLower (c : Char) :
    c.toLower.toNat = if 65 ≤ c.toNat ∧ c.toNat ≤ 90 then c.toNat + 32 else c.toNat := by
  have bounds : (c.val ≥ 'A'.val ∧ c.val ≤ 'Z'.val) ↔ 65 ≤ c.toNat ∧ c.toNat ≤ 90 :=
    and_congr UInt32.le_iff_toNat_le UInt32.le_iff_toNat_le
  unfold Char.toLower
  split
  · rename_i upper
    rw [if_pos (bounds.mp upper)]
    have below := (bounds.mp upper).2
    change (c.val + ('a'.val - 'A'.val)).toNat = c.val.toNat + 32
    rw [UInt32.toNat_add]
    exact Nat.mod_eq_of_lt (by change c.toNat + 32 < 2 ^ 32; omega)
  · rename_i small
    rw [if_neg (mt bounds.mpr small)]

theorem toLower_toLower (c : Char) : c.toLower.toLower = c.toLower := by
  apply Char.toNat_inj.mp
  rw [toNat_toLower, toNat_toLower]
  split_ifs <;> omega

namespace Uuid

variable {digits : List Char} {text spelled : String}

theorem isHexDigit_iff {c : Char} : isHexDigit c = true ↔ (48 ≤ c.toNat ∧ c.toNat ≤ 57) ∨
    (97 ≤ c.toNat ∧ c.toNat ≤ 102) ∨ (65 ≤ c.toNat ∧ c.toNat ≤ 70) := by
  unfold isHexDigit Char.isDigit
  simp only [Bool.or_eq_true, Bool.and_eq_true, decide_eq_true_eq, or_assoc]
  exact or_congr (and_congr UInt32.le_iff_toNat_le UInt32.le_iff_toNat_le)
    (or_congr (and_congr UInt32.le_iff_toNat_le UInt32.le_iff_toNat_le)
      (and_congr UInt32.le_iff_toNat_le UInt32.le_iff_toNat_le))

theorem isHexDigit_toLower (c : Char) : isHexDigit c.toLower = isHexDigit c := by
  rw [Bool.eq_iff_iff, isHexDigit_iff, isHexDigit_iff, toNat_toLower]
  split <;> omega

/-- The digits of a canonical spelling. -/
structure IsCanonical (digits : List Char) : Prop where
  length : digits.length = 32
  hexadecimal : digits.all isHexDigit = true
  lower : digits.map Char.toLower = digits

theorem IsCanonical.not_mem_hyphen (canonical : IsCanonical digits) : '-' ∉ digits := by
  intro inside
  have digit := List.all_eq_true.mp canonical.hexadecimal '-' inside
  exact absurd digit (by decide)

theorem IsCanonical.lowercase (canonical : IsCanonical digits) :
    ∀ c ∈ digits, isHexDigit c = true ∧ c.toLower = c := by
  have lower := List.map_inj_left.mp (canonical.lower.trans (List.map_id digits).symm)
  exact fun c inside => ⟨List.all_eq_true.mp canonical.hexadecimal c inside, lower c inside⟩

theorem groups (digits : List Char) :
    digits.take 8 ++ ((digits.drop 8).take 4 ++ ((digits.drop 12).take 4 ++
      ((digits.drop 16).take 4 ++ digits.drop 20))) = digits := by
  rw [← List.drop_drop (i := 4) (j := 16), List.take_append_drop,
    ← List.drop_drop (i := 4) (j := 12), List.take_append_drop,
    ← List.drop_drop (i := 4) (j := 8), List.take_append_drop, List.take_append_drop]

theorem filter_hyphenated (plain : '-' ∉ digits) :
    (hyphenated digits).filter (· != '-') = digits := by
  have kept (part : List Char) (within : part ⊆ digits) : part.filter (· != '-') = part := by
    refine List.filter_eq_self.mpr fun c inside => ?_
    rw [bne_iff_ne]
    rintro rfl
    exact plain (within inside)
  have first := kept (digits.take 8) (List.take_subset _ _)
  have second := kept _ (List.Subset.trans (List.take_subset 4 _) (List.drop_subset 8 digits))
  have third := kept _ (List.Subset.trans (List.take_subset 4 _) (List.drop_subset 12 digits))
  have fourth := kept _ (List.Subset.trans (List.take_subset 4 _) (List.drop_subset 16 digits))
  have last := kept _ (List.drop_subset 20 digits)
  have hyphen : ('-' != '-') = false := by decide
  unfold hyphenated
  simp only [List.filter_append, List.filter_cons, hyphen, Bool.false_eq_true, ↓reduceIte, first,
    second, third, fourth, last, List.append_assoc, groups digits]

theorem length_hyphenated (whole : digits.length = 32) : (hyphenated digits).length = 36 := by
  unfold hyphenated
  simp only [List.length_append, List.length_cons, List.length_take, List.length_drop, whole]
  omega

theorem map_hyphenated (digits : List Char) :
    (hyphenated digits).map Char.toLower = hyphenated (digits.map Char.toLower) := by
  have hyphen : '-'.toLower = '-' := by decide
  unfold hyphenated
  simp only [List.map_append, List.map_cons, List.map_take, List.map_drop, hyphen]

theorem unwrapped_of_length {text : List Char} (short : text.length = 36) :
    unwrapped text = text := by
  unfold unwrapped
  rw [if_neg (by omega), if_neg (by omega)]

theorem unwrapped_subset (text : List Char) : unwrapped text ⊆ text := by
  unfold unwrapped
  split
  · exact List.Subset.trans (List.dropLast_subset _) (List.drop_subset 1 text)
  · split
    · exact List.drop_subset _ text
    · exact List.Subset.refl text

theorem canonical?_hyphenated (canonical : IsCanonical digits) :
    canonical? (String.ofList (hyphenated digits)) = some (String.ofList (hyphenated digits)) := by
  have lower := (map_hyphenated digits).trans (congrArg hyphenated canonical.lower)
  have bare := unwrapped_of_length (length_hyphenated canonical.length)
  have grouped := filter_hyphenated canonical.not_mem_hyphen
  unfold canonical?
  simp only [String.toList_ofList, lower, bare, grouped]
  exact if_pos ⟨canonical.length, canonical.hexadecimal, Or.inr trivial⟩

theorem exists_digits_of_canonical? (read : canonical? text = some spelled) :
    ∃ digits, IsCanonical digits ∧ spelled = String.ofList (hyphenated digits) := by
  simp only [canonical?] at read
  generalize same : (unwrapped (text.toList.map Char.toLower)).filter (· != '-') = digits at read
  split at read
  · rename_i accepted
    refine ⟨digits, ⟨accepted.1, accepted.2.1, ?_⟩, (Option.some.inj read).symm⟩
    refine (List.map_congr_left fun c inside => ?_).trans (List.map_id digits)
    rw [← same] at inside
    have lowered := unwrapped_subset _ (List.mem_of_mem_filter inside)
    obtain ⟨origin, -, rfl⟩ := List.mem_map.mp lowered
    exact toLower_toLower origin
  · cases read

theorem canonical?_of_canonical? (read : canonical? text = some spelled) :
    canonical? spelled = some spelled := by
  obtain ⟨digits, canonical, rfl⟩ := exists_digits_of_canonical? read
  exact canonical?_hyphenated canonical

/-- What a hexadecimal digit stands for, in either case. -/
def hexValue (c : Char) : Nat :=
  if c.toLower.isDigit then c.toLower.toNat - '0'.toNat else c.toLower.toNat - 'a'.toNat + 10

/-- The number that a run of hexadecimal digits writes. -/
def hexNumber (digits : List Char) : Nat :=
  digits.foldl (fun number c => number * 16 + hexValue c) 0

/-- The 32 hexadecimal digits of a UUID, in any case. -/
structure Writes (uuid : BitVec 128) (digits : List Char) : Prop where
  length : digits.length = 32
  hexadecimal : digits.all isHexDigit = true
  number : hexNumber digits = uuid.toNat

/-- The texts that spell a UUID, digits in any case. Braces and the scheme stand around hyphenated
digits only. -/
inductive Spells (uuid : BitVec 128) : List Char → Prop
  | plain {digits : List Char} (writes : Writes uuid digits) : Spells uuid digits
  | hyphenated {digits : List Char} (writes : Writes uuid digits) :
    Spells uuid (hyphenated digits)
  | braced {digits : List Char} (writes : Writes uuid digits) :
    Spells uuid ('\x7b' :: (Uuid.hyphenated digits ++ ['\x7d']))
  | urn {digits : List Char} (writes : Writes uuid digits) :
    Spells uuid (urnScheme ++ Uuid.hyphenated digits)

theorem hexValue_toLower (c : Char) : hexValue c.toLower = hexValue c := by
  unfold hexValue
  rw [toLower_toLower]

theorem hexNumber_map_toLower (digits : List Char) :
    hexNumber (digits.map Char.toLower) = hexNumber digits := by
  simp only [hexNumber, List.foldl_map, hexValue_toLower]

theorem Writes.map_toLower {uuid : BitVec 128} (writes : Writes uuid digits) :
    Writes uuid (digits.map Char.toLower) := by
  refine ⟨by rw [List.length_map, writes.length], ?_, by rw [hexNumber_map_toLower, writes.number]⟩
  rw [List.all_map]
  exact (List.all_congr rfl fun c => isHexDigit_toLower c).trans writes.hexadecimal

theorem Writes.canonical {uuid : BitVec 128} (writes : Writes uuid digits) :
    IsCanonical (digits.map Char.toLower) := by
  refine ⟨writes.map_toLower.length, writes.map_toLower.hexadecimal, ?_⟩
  rw [List.map_map]
  exact List.map_congr_left fun c _ => toLower_toLower c

theorem map_toLower_urnScheme : urnScheme.map Char.toLower = urnScheme := by
  decide

theorem map_toLower_braced (inside : List Char) :
    ('\x7b' :: (inside ++ ['\x7d'])).map Char.toLower =
      '\x7b' :: (inside.map Char.toLower ++ ['\x7d']) := by
  rw [List.map_cons, List.map_append]
  rfl

/-- A spelling in lower case spells the same. -/
theorem Spells.map_toLower {uuid : BitVec 128} {letters : List Char} (spells : Spells uuid letters) :
    Spells uuid (letters.map Char.toLower) := by
  cases spells with
  | plain writes => exact .plain writes.map_toLower
  | hyphenated writes =>
    rw [map_hyphenated]
    exact .hyphenated writes.map_toLower
  | braced writes =>
    rw [map_toLower_braced, map_hyphenated]
    exact .braced writes.map_toLower
  | urn writes =>
    rw [List.map_append, map_toLower_urnScheme, map_hyphenated]
    exact .urn writes.map_toLower

theorem hexNumber_append (digits : List Char) (c : Char) :
    hexNumber (digits ++ [c]) = hexNumber digits * 16 + hexValue c := by
  unfold hexNumber
  rw [List.foldl_append]
  rfl

theorem hexValue_cases {c : Char} (digit : isHexDigit c = true) (lower : c.toLower = c) :
    (48 ≤ c.toNat ∧ c.toNat ≤ 57 ∧ hexValue c = c.toNat - 48) ∨
      (97 ≤ c.toNat ∧ c.toNat ≤ 102 ∧ hexValue c = c.toNat - 97 + 10) := by
  have number := congrArg Char.toNat lower
  rw [toNat_toLower] at number
  have decimal : c.isDigit = true ↔ 48 ≤ c.toNat ∧ c.toNat ≤ 57 := by
    unfold Char.isDigit
    simp only [Bool.and_eq_true, decide_eq_true_eq]
    exact and_congr UInt32.le_iff_toNat_le UInt32.le_iff_toNat_le
  unfold hexValue
  rw [lower]
  rcases isHexDigit_iff.mp digit with first | letter | upper
  · exact Or.inl ⟨first.1, first.2, if_pos (decimal.mpr first)⟩
  · exact Or.inr ⟨letter.1, letter.2, if_neg (mt decimal.mp (by omega))⟩
  · rw [if_pos (by omega)] at number
    omega

/-- Digits in lower case are known from their number. -/
theorem eq_of_hexNumber : ∀ {digits digits' : List Char},
    (∀ c ∈ digits, isHexDigit c = true ∧ c.toLower = c) →
    (∀ c ∈ digits', isHexDigit c = true ∧ c.toLower = c) →
    digits.length = digits'.length → hexNumber digits = hexNumber digits' → digits = digits' := by
  intro digits
  induction digits using List.reverseRecOn with
  | nil =>
    intro digits' _ _ long _
    exact (List.length_eq_zero_iff.mp long.symm).symm
  | append_singleton front c ih =>
    intro digits' plain plain' long same
    rcases List.eq_nil_or_concat digits' with rfl | ⟨front', c', rfl⟩
    · simp at long
    rw [List.concat_eq_append] at *
    rw [hexNumber_append, hexNumber_append] at same
    have last := plain c (by simp)
    have last' := plain' c' (by simp)
    have digit := hexValue_cases last.1 last.2
    have digit' := hexValue_cases last'.1 last'.2
    have fronts : hexNumber front = hexNumber front' := by omega
    have numbers : c.toNat = c'.toNat := by omega
    have same := ih (fun d inside => plain d (by simp [inside]))
      (fun d inside => plain' d (by simp [inside])) (by simpa using long) fronts
    rw [same, Char.toNat_inj.mp numbers]

variable (text) in
theorem canonical?_of_unwrapped (canonical : IsCanonical digits)
    (inside : unwrapped (text.toList.map Char.toLower) = hyphenated digits ∨
      unwrapped (text.toList.map Char.toLower) = digits ∧ text.toList.map Char.toLower = digits) :
    canonical? text = some (String.ofList (hyphenated digits)) := by
  have plain := canonical.not_mem_hyphen
  unfold canonical?
  dsimp only
  rcases inside with grouped | ⟨bare, lower⟩
  · rw [grouped, filter_hyphenated plain]
    exact if_pos ⟨canonical.length, canonical.hexadecimal, Or.inr rfl⟩
  · have kept : digits.filter (· != '-') = digits :=
      List.filter_eq_self.mpr fun c inside => bne_iff_ne.mpr fun hyphen => plain (hyphen ▸ inside)
    rw [bare, kept]
    exact if_pos ⟨canonical.length, canonical.hexadecimal, Or.inl lower⟩

/-- A text that spells a UUID in lower case is read, and the digits tell its canonical spelling. -/
theorem canonical?_of_spells {uuid : BitVec 128}
    (spells : Spells uuid (text.toList.map Char.toLower)) :
    ∃ digits, Writes uuid digits ∧
      canonical? text = some (String.ofList (hyphenated (digits.map Char.toLower))) := by
  have long {digits : List Char} (writes : Writes uuid digits) :
      (hyphenated (digits.map Char.toLower)).length = 36 :=
    length_hyphenated writes.canonical.length
  have lower : (text.toList.map Char.toLower).map Char.toLower = text.toList.map Char.toLower := by
    rw [List.map_map]
    exact List.map_congr_left fun c _ => toLower_toLower c
  have read {digits : List Char} (writes : Writes uuid digits) :=
    canonical?_of_unwrapped text writes.canonical
  generalize text.toList.map Char.toLower = letters at spells lower read
  cases spells with
  | @plain digits writes =>
    refine ⟨_, writes, read writes (Or.inr ⟨?_, lower.symm⟩)⟩
    have short := writes.length
    unfold unwrapped
    rw [if_neg (by omega), if_neg (by omega), lower]
  | @hyphenated digits writes =>
    rw [map_hyphenated] at lower
    refine ⟨_, writes, read writes (Or.inl ?_)⟩
    rw [← lower, unwrapped_of_length (long writes)]
  | @braced digits writes =>
    rw [map_toLower_braced, map_hyphenated] at lower
    refine ⟨_, writes, read writes (Or.inl ?_)⟩
    rw [← lower]
    unfold unwrapped
    rw [if_pos ⟨by simp [long writes], rfl, by simp [List.getLast?_cons]⟩]
    simp
  | @urn digits writes =>
    have nine : urnScheme.length = 9 := by decide
    have front : urnScheme.isPrefixOf (urnScheme ++ hyphenated (digits.map Char.toLower)) :=
      List.isPrefixOf_iff_prefix.mpr (List.prefix_append ..)
    have whole : (urnScheme ++ hyphenated (digits.map Char.toLower)).length = 45 := by
      rw [List.length_append, nine, long writes]
    rw [List.map_append, map_toLower_urnScheme, map_hyphenated] at lower
    refine ⟨_, writes, read writes (Or.inl ?_)⟩
    rw [← lower]
    unfold unwrapped
    rw [if_neg (by omega), if_pos ⟨whole, front⟩, List.drop_left' rfl]

theorem hexNumber_lt : ∀ {digits : List Char}, digits.all isHexDigit = true →
    hexNumber digits < 16 ^ digits.length := by
  intro digits
  induction digits using List.reverseRecOn with
  | nil => exact fun _ => Nat.one_pos
  | append_singleton front c ih =>
    intro all
    rw [List.all_append, Bool.and_eq_true] at all
    have small := ih all.1
    have last : hexValue c < 16 := by
      have digit : isHexDigit c = true := by simpa using all.2
      rw [← isHexDigit_toLower] at digit
      have cases := hexValue_cases digit (toLower_toLower c)
      rw [hexValue_toLower] at cases
      omega
    rw [hexNumber_append, List.length_append, List.length_singleton, Nat.pow_succ]
    omega

theorem exists_writes (long : digits.length = 32) (hexadecimal : digits.all isHexDigit = true) :
    ∃ uuid, Writes uuid digits := by
  have small := hexNumber_lt hexadecimal
  rw [long] at small
  exact ⟨BitVec.ofNatLT _ small, long, hexadecimal, (BitVec.toNat_ofNatLT ..).symm⟩

/-- The forms of a text that reads as grouped digits. -/
theorem form_of_unwrapped {letters : List Char} (grouped : unwrapped letters = hyphenated digits) :
    letters = '\x7b' :: (hyphenated digits ++ ['\x7d']) ∨
      letters = urnScheme ++ hyphenated digits ∨ letters = hyphenated digits := by
  unfold unwrapped at grouped
  split at grouped
  · rename_i braces
    obtain ⟨whole, opens, closes⟩ := braces
    cases letters with
    | nil => cases opens
    | cons first rest =>
      rcases List.eq_nil_or_concat rest with rfl | ⟨inside, last, rfl⟩
      · cases whole
      rw [List.concat_eq_append] at *
      rw [List.head?_cons, Option.some.injEq] at opens
      rw [← List.cons_append, List.getLast?_concat, Option.some.injEq] at closes
      rw [List.drop_one, List.tail_cons, List.dropLast_concat] at grouped
      exact Or.inl (by rw [opens, closes, grouped])
  · split at grouped
    · rename_i named
      obtain ⟨rest, rfl⟩ := List.isPrefixOf_iff_prefix.mp named.2
      rw [List.drop_left' rfl] at grouped
      exact Or.inr (Or.inl (by rw [grouped]))
    · exact Or.inr (Or.inr grouped)

/-- Only texts that spell a UUID in lower case are read. -/
theorem exists_spells_of_canonical? (read : canonical? text = some spelled) :
    ∃ uuid, Spells uuid (text.toList.map Char.toLower) := by
  simp only [canonical?] at read
  split at read
  · rename_i accepted
    obtain ⟨long, hexadecimal, form⟩ := accepted
    obtain ⟨uuid, writes⟩ := exists_writes long hexadecimal
    refine ⟨uuid, ?_⟩
    rcases form with plain | grouped
    · rw [plain]
      exact .plain writes
    · rcases form_of_unwrapped grouped with same | same | same <;> rw [same]
      · exact .braced writes
      · exact .urn writes
      · exact .hyphenated writes
  · cases read

/-- Spellings have one canonical spelling exactly if they spell one UUID. -/
theorem canonical?_eq_iff {uuid uuid' : BitVec 128} {text' : String}
    (spells : Spells uuid (text.toList.map Char.toLower))
    (spells' : Spells uuid' (text'.toList.map Char.toLower)) :
    canonical? text = canonical? text' ↔ uuid = uuid' := by
  obtain ⟨digits, writes, read⟩ := canonical?_of_spells spells
  obtain ⟨digits', writes', read'⟩ := canonical?_of_spells spells'
  have canonical := writes.canonical
  have canonical' := writes'.canonical
  rw [read, read', Option.some.injEq, String.ofList_inj, ← BitVec.toNat_inj, ← writes.number,
    ← writes'.number]
  constructor
  · intro same
    have lowered : digits.map Char.toLower = digits'.map Char.toLower := by
      rw [← filter_hyphenated canonical.not_mem_hyphen, same,
        filter_hyphenated canonical'.not_mem_hyphen]
    rw [← hexNumber_map_toLower, lowered, hexNumber_map_toLower]
  · intro same
    rw [← hexNumber_map_toLower digits, ← hexNumber_map_toLower digits'] at same
    rw [eq_of_hexNumber canonical.lowercase canonical'.lowercase
      (canonical.length.trans canonical'.length.symm) same]

end Uuid

end LiveQuery.Text
