import Mathlib.Data.List.Induction
import NodeProtocol.Text.Digit

namespace NodeProtocol.Text

inductive Numeral : List Char → Nat → Prop
  | digit {d : Nat} (small : d < 10) : Numeral [d.digitChar] d
  | append {digits : List Char} {n d : Nat} (numeral : Numeral digits n) (small : d < 10) :
      Numeral (digits ++ [d.digitChar]) (10 * n + d)

variable {digits : List Char} {n : Nat} {c : Char}

theorem exists_digitChar (h : c.isDigit) : ∃ d < 10, d.digitChar = c := by
  have bounds : 48 ≤ c.val ∧ c.val ≤ 57 := by simpa [Char.isDigit] using h
  have low : 48 ≤ c.toNat := bounds.1
  have high : c.toNat ≤ 57 := bounds.2
  refine ⟨c.toNat - 48, by omega, Char.toNat_inj.mp ?_⟩
  rw [Nat.toNat_digitChar_of_lt_ten (by omega)]
  omega

namespace Numeral

theorem isDigit (h : Numeral digits n) : ∀ c ∈ digits, c.isDigit := by
  induction h with
  | digit small => simpa using small
  | append _ small ih =>
      intro c member
      rcases List.mem_append.mp member with before | last
      · exact ih c before
      · rw [List.mem_singleton.mp last]
        simpa using small

theorem ne_nil (h : Numeral digits n) : digits ≠ [] := by
  cases h <;> simp

theorem value (h : Numeral digits n) : Nat.ofDigitChars 10 digits 0 = n := by
  induction h with
  | digit small => rw [Nat.ofDigitChars_cons_digitChar_of_lt_ten small, Nat.ofDigitChars_nil]; simp
  | append _ small ih =>
      rw [Nat.ofDigitChars_append, ih, Nat.ofDigitChars_cons_digitChar_of_lt_ten small,
        Nat.ofDigitChars_nil]

theorem not_mem (h : Numeral digits n) (other : c.isDigit = false) : c ∉ digits := by
  intro member
  cases (h.isDigit c member).symm.trans other

end Numeral

theorem numeral_ofDigitChars (nonempty : digits ≠ []) (all : ∀ c ∈ digits, c.isDigit) :
    Numeral digits (Nat.ofDigitChars 10 digits 0) := by
  induction digits using List.reverseRecOn with
  | nil => exact absurd rfl nonempty
  | append_singleton digits c ih =>
      obtain ⟨d, small, rfl⟩ := exists_digitChar (all c (by simp))
      rw [Nat.ofDigitChars_append, Nat.ofDigitChars_cons_digitChar_of_lt_ten small,
        Nat.ofDigitChars_nil]
      cases digits with
      | nil =>
          have only : 10 * Nat.ofDigitChars 10 [] 0 + d = d := by simp
          rw [only]
          exact .digit small
      | cons first digits =>
          have front : Numeral (first :: digits) _ :=
            ih (by simp) fun c member => all c (List.mem_append_left _ member)
          exact .append front small

theorem decimalValue?_eq_some_iff : decimalValue? digits = some n ↔ Numeral digits n := by
  rw [decimalValue?]
  constructor
  · intro h
    split at h
    case isTrue run =>
      cases h
      simp only [Bool.and_eq_true, Bool.not_eq_true', List.isEmpty_eq_false_iff,
        List.all_eq_true] at run
      exact numeral_ofDigitChars run.1 run.2
    case isFalse => cases h
  · intro h
    rw [if_pos, h.value]
    simpa [h.ne_nil] using h.isDigit

theorem numeral_toDigits (n : Nat) : Numeral (Nat.toDigits 10 n) n :=
  decimalValue?_eq_some_iff.mp (decimalValue?_toDigits n)

theorem head?_toDigits (positive : 0 < n) : (Nat.toDigits 10 n).head? ≠ some '0' := by
  induction n using Nat.strongRecOn with
  | ind n ih =>
      rw [Nat.toDigits_eq_if (by decide)]
      split
      case isTrue small => simpa using Nat.ne_of_gt positive
      case isFalse large =>
        have front := ih (n / 10) (by omega) (by omega)
        cases digits : Nat.toDigits 10 (n / 10) with
        | nil => exact absurd digits Nat.toDigits_ne_nil
        | cons first rest => simpa [digits] using front

end NodeProtocol.Text
