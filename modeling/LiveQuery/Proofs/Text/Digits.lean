import LiveQuery.Text.Digits
import Mathlib.Data.List.Infix

set_option autoImplicit false

namespace LiveQuery.Text

variable {c : Char} {front front' rest rest' : List Char}

theorem digitsValue_eq (digits : List Char) : digitsValue digits = Nat.ofDigitChars 10 digits 0 := by
  simp only [digitsValue, Nat.ofDigitChars, Nat.mul_comm]

theorem ofDigitChars_leftpad (width value : Nat) :
    Nat.ofDigitChars 10 ((Nat.toDigits 10 value).leftpad width '0') 0 = value := by
  unfold List.leftpad
  rw [Nat.ofDigitChars_append, Nat.ofDigitChars_replicate_zero, Nat.mul_zero,
    Nat.ofDigitChars_ten_toDigits]

theorem isDigit_of_mem_leftpad {width value : Nat}
    (inside : c ∈ (Nat.toDigits 10 value).leftpad width '0') : c.isDigit = true := by
  unfold List.leftpad at inside
  rcases List.mem_append.mp inside with zero | digit
  · rw [List.eq_of_mem_replicate zero]
    rfl
  · exact Nat.isDigit_of_mem_toDigits (by decide) (by decide) digit

theorem not_mem_of_isDigit (digits : ∀ d ∈ rest, d.isDigit = true) (mark : c.isDigit = false) :
    c ∉ rest := by
  intro inside
  rw [digits c inside] at mark
  cases mark

theorem eq_of_last (absent : c ∉ rest) (absent' : c ∉ rest')
    (same : front ++ c :: rest = front' ++ c :: rest') : front = front' ∧ rest = rest' := by
  have first {more behind behind' : List Char} (absent : c ∉ behind)
      (same : c :: behind = more ++ c :: behind') : more = [] := by
    cases more with
    | nil => rfl
    | cons d others =>
      rw [List.cons_append, List.cons.injEq] at same
      apply absurd _ absent
      rw [same.2]
      simp
  have equal : front = front' := by
    rcases List.append_eq_append_iff.mp same with ⟨more, rfl, behind⟩ | ⟨more, rfl, behind⟩
    · rw [first absent behind, List.append_nil]
    · rw [first absent' behind, List.append_nil]
  subst equal
  simpa using same

end LiveQuery.Text
