/-
Names with a number in them: the decimal digits of a number, and that among the numbered names one that is not
taken comes before the numbers run past the taken names.
-/
import Mathlib.Data.List.Basic
import Mathlib.Data.Finset.Card
import Mathlib.Order.Interval.Finset.Nat

namespace Squallz.Text

/-! ## Decimal digits -/

/-- The decimal digits of a number. -/
def decimal (n : Nat) : List Char := Nat.toDigits 10 n

theorem decimal_ne_nil (n : Nat) : decimal n ≠ [] := Nat.toDigits_ne_nil

theorem isDigit_of_mem_decimal {n : Nat} {c : Char} (h : c ∈ decimal n) : c.isDigit = true :=
  Nat.isDigit_of_mem_toDigits (by decide) (Nat.le_refl 10) h

/-- The number that decimal digits stand for. -/
def ofDecimal (digits : List Char) : Nat := Nat.ofDigitChars 10 digits 0

@[simp] theorem ofDecimal_decimal (n : Nat) : ofDecimal (decimal n) = n := Nat.ofDigitChars_ten_toDigits

theorem decimal_injective {m n : Nat} (h : decimal m = decimal n) : m = n := by
  rw [← ofDecimal_decimal m, ← ofDecimal_decimal n, h]

/-! ## Taken numbers -/

section Taken

variable {α : Type} [DecidableEq α]

/-- Of names that differ for different numbers at most as many are taken as there are taken names. -/
theorem card_taken_le {name : Nat → α} (hname : Function.Injective name) (taken : List α) (numbers : Finset Nat) :
    (numbers.filter fun n => name n ∈ taken).card ≤ taken.length := by
  have himage : ((numbers.filter fun n => name n ∈ taken).image name) ⊆ taken.toFinset := by
    intro a ha
    obtain ⟨n, hn, rfl⟩ := Finset.mem_image.1 ha
    rw [List.mem_toFinset]
    exact (Finset.mem_filter.1 hn).2
  calc (numbers.filter fun n => name n ∈ taken).card
      = ((numbers.filter fun n => name n ∈ taken).image name).card :=
        (Finset.card_image_of_injective _ hname).symm
    _ ≤ taken.toFinset.card := Finset.card_le_card himage
    _ ≤ taken.length := List.toFinset_card_le taken

/-- Numbers that all give a taken name are no more than the taken names. -/
theorem numbers_le_of_taken {name : Nat → α} (hname : Function.Injective name) {taken : List α} {start count : Nat}
    (h : ∀ n, start ≤ n → n < start + count → name n ∈ taken) : count ≤ taken.length := by
  have hall : ((Finset.Ico start (start + count)).filter fun n => name n ∈ taken) =
      Finset.Ico start (start + count) := by
    refine Finset.filter_true_of_mem fun n hn => ?_
    obtain ⟨hle, hlt⟩ := Finset.mem_Ico.1 hn
    exact h n hle hlt
  have hcard := card_taken_le hname taken (Finset.Ico start (start + count))
  rw [hall, Nat.card_Ico] at hcard
  omega

/-- Numbers that all give a taken name in one of two ways are no more than twice the taken names. -/
theorem numbers_le_of_taken_or {name other : Nat → α} (hname : Function.Injective name)
    (hother : Function.Injective other) {taken : List α} {start count : Nat}
    (h : ∀ n, start ≤ n → n < start + count → name n ∈ taken ∨ other n ∈ taken) : count ≤ 2 * taken.length := by
  have hall : Finset.Ico start (start + count) ⊆
      ((Finset.Ico start (start + count)).filter fun n => name n ∈ taken) ∪
        (Finset.Ico start (start + count)).filter fun n => other n ∈ taken := by
    intro n hn
    obtain ⟨hle, hlt⟩ := Finset.mem_Ico.1 hn
    rw [Finset.mem_union, Finset.mem_filter, Finset.mem_filter]
    exact (h n hle hlt).imp (⟨hn, ·⟩) (⟨hn, ·⟩)
  have hcard := Finset.card_le_card hall
  have hunion := Finset.card_union_le
    ((Finset.Ico start (start + count)).filter fun n => name n ∈ taken)
    ((Finset.Ico start (start + count)).filter fun n => other n ∈ taken)
  have hfirst := card_taken_le hname taken (Finset.Ico start (start + count))
  have hsecond := card_taken_le hother taken (Finset.Ico start (start + count))
  rw [Nat.card_Ico] at hcard
  omega

end Taken

end Squallz.Text
