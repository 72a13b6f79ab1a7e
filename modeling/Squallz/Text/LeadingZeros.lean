/-
Digits with zeros in front: every spelling of a number is its decimal digits behind some zeros, and the decimal digits
of a positive number begin with none.
-/
import Squallz.Text.Numbering

namespace Squallz.Text

theorem decimal_of_lt {n : Nat} (h : n < 10) : decimal n = [n.digitChar] := Nat.toDigits_of_lt_base h

theorem decimal_concat {n digit : Nat} (hn : 0 < n) (hdigit : digit < 10) :
    decimal (10 * n + digit) = decimal n ++ [digit.digitChar] := by
  rw [← decimal_of_lt hdigit]
  exact (Nat.toDigits_append_toDigits (by decide) hn hdigit).symm

theorem digitChar_ne_zero : ∀ digit < 10, 0 < digit → digit.digitChar ≠ '0' := by decide

/-- The decimal digits of a positive number do not begin with a zero. -/
theorem head?_decimal {n : Nat} (hn : 0 < n) : (decimal n).head? ≠ some '0' := by
  induction n using Nat.strong_induction_on with
  | _ n ih =>
    by_cases hlt : n < 10
    · rw [decimal_of_lt hlt, List.head?_cons, ne_eq, Option.some.injEq]
      exact digitChar_ne_zero n hlt hn
    · have hsplit : n = 10 * (n / 10) + n % 10 := by omega
      have hfront : 0 < n / 10 := by omega
      rw [hsplit, decimal_concat hfront (Nat.mod_lt n (by decide)), List.head?_append_of_ne_nil _ (decimal_ne_nil _)]
      exact ih (n / 10) (by omega) hfront

theorem ofDecimal_concat (digits : List Char) (c : Char) :
    ofDecimal (digits ++ [c]) = 10 * ofDecimal digits + (c.toNat - '0'.toNat) := by
  rw [ofDecimal, ofDecimal, Nat.ofDigitChars_append, Nat.ofDigitChars_cons, Nat.ofDigitChars_nil]

theorem digitChar_toNat {c : Char} (h : c.isDigit = true) :
    c.toNat - '0'.toNat < 10 ∧ (c.toNat - '0'.toNat).digitChar = c := by
  have hrange : 48 ≤ c.toNat ∧ c.toNat ≤ 57 := by
    simpa [Char.isDigit, UInt32.le_iff_toNat_le] using h
  obtain ⟨digit, hdigit⟩ : ∃ digit, c.toNat = 48 + digit := ⟨c.toNat - 48, by omega⟩
  have hc : c = Char.ofNat (48 + digit) := by rw [← hdigit, Char.ofNat_toNat]
  have hchars : ∀ digit < 10, (48 + digit) - '0'.toNat < 10 ∧ ((48 + digit) - '0'.toNat).digitChar = Char.ofNat (48 + digit) := by
    decide
  rw [hdigit, hc]
  exact hchars digit (by omega)

/-- A spelling of a number is its decimal digits behind some zeros. -/
theorem eq_zeros_decimal {digits : List Char} (hne : digits ≠ []) (hall : digits.all Char.isDigit = true) :
    ∃ zeros, digits = List.replicate zeros '0' ++ decimal (ofDecimal digits) := by
  induction digits using List.reverseRecOn with
  | nil => exact absurd rfl hne
  | append_singleton front c ih =>
    rw [List.all_append, Bool.and_eq_true] at hall
    obtain ⟨hlt, hc⟩ := digitChar_toNat (List.all_eq_true.1 hall.2 c List.mem_cons_self)
    rw [ofDecimal_concat]
    by_cases hfront : front = []
    · subst hfront
      refine ⟨0, ?_⟩
      show [c] = decimal (10 * 0 + _)
      rw [Nat.mul_zero, Nat.zero_add, decimal_of_lt hlt, hc]
    · obtain ⟨zeros, hzeros⟩ := ih hfront hall.1
      by_cases hpos : 0 < ofDecimal front
      · refine ⟨zeros, ?_⟩
        rw [decimal_concat hpos hlt, hc, ← List.append_assoc, ← hzeros]
      · have hzero : ofDecimal front = 0 := by omega
        refine ⟨zeros + 1, ?_⟩
        rw [hzero] at hzeros ⊢
        rw [Nat.mul_zero, Nat.zero_add, decimal_of_lt hlt, hc, List.replicate_succ']
        rw [hzeros]
        rfl

end Squallz.Text
