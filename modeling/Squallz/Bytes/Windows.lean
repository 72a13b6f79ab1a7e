/-
Windows of a list: a list occurs in another one where it is one of the windows of its length, and a search that goes on
behind a part of the list keeps as much of its end as a window can reach back.
-/
import Mathlib.Data.List.Infix
import Squallz.Bytes.Slice

namespace Squallz.Bytes

variable {α : Type}

/-- The contiguous parts of a length. -/
def windows (size : Nat) (l : List α) : List (List α) :=
  if l.length < size then [] else (List.range (l.length - size + 1)).map fun i => slice l i size

theorem mem_windows {size : Nat} {l part : List α} :
    part ∈ windows size l ↔ ∃ i, i + size ≤ l.length ∧ slice l i size = part := by
  unfold windows
  split
  · constructor
    · intro h
      cases h
    · rintro ⟨i, hi, -⟩
      omega
  · simp only [List.mem_map, List.mem_range]
    constructor
    · rintro ⟨i, hi, rfl⟩
      exact ⟨i, by omega, rfl⟩
    · rintro ⟨i, hi, rfl⟩
      exact ⟨i, by omega, rfl⟩

/-- The windows of the length of a list hold it exactly where it occurs. -/
theorem mem_windows_iff_infix {part l : List α} : part ∈ windows part.length l ↔ part <:+: l := by
  rw [mem_windows]
  constructor
  · rintro ⟨i, -, hpart⟩
    rw [← hpart]
    exact (List.take_prefix _ _).isInfix.trans (List.drop_suffix i l).isInfix
  · rintro ⟨front, back, rfl⟩
    refine ⟨front.length, ?_, ?_⟩
    · simp only [List.length_append]
      omega
    · rw [List.append_assoc, slice_middle rfl rfl]

/-- The end of a list, as long as `n` if the list is. -/
def lastPart (n : Nat) (l : List α) : List α := l.drop (l.length - min l.length n)

theorem length_lastPart (n : Nat) (l : List α) : (lastPart n l).length = min l.length n := by
  rw [lastPart, List.length_drop]
  omega

theorem lastPart_suffix (n : Nat) (l : List α) : lastPart n l <:+ l := List.drop_suffix _ _

/-- The end of the end. -/
theorem lastPart_append_lastPart (n : Nat) (l later : List α) :
    lastPart n (lastPart n l ++ later) = lastPart n (l ++ later) := by
  have hlength : (lastPart n (lastPart n l ++ later)).length = (lastPart n (l ++ later)).length := by
    simp only [length_lastPart, List.length_append]
    omega
  have hinner : lastPart n l ++ later <:+ l ++ later := by
    obtain ⟨front, hfront⟩ := lastPart_suffix n l
    exact ⟨front, by rw [← List.append_assoc, hfront]⟩
  have hsuffix := (lastPart_suffix n (lastPart n l ++ later)).trans hinner
  exact (List.suffix_of_suffix_length_le hsuffix (lastPart_suffix n (l ++ later)) hlength.le).eq_of_length hlength

/-- What does not occur in a list occurs in its continuation exactly where it occurs in the continuation of its end. -/
theorem infix_lastPart_append {part l : List α} (hnot : ¬ part <:+: l) (later : List α) :
    part <:+: lastPart (part.length - 1) l ++ later ↔ part <:+: l ++ later := by
  have hl : l ++ later = l.take (l.length - min l.length (part.length - 1)) ++ (lastPart (part.length - 1) l ++ later) := by
    rw [lastPart, ← List.append_assoc, List.take_append_drop]
  constructor
  · intro h
    rw [hl]
    exact h.trans (List.suffix_append _ _).isInfix
  · rintro ⟨front, back, hsplit⟩
    have hlength := congrArg List.length hsplit
    simp only [List.length_append] at hlength
    by_cases hback : later.length ≤ back.length
    · -- the occurrence ends before the continuation
      refine absurd ?_ hnot
      have hprefix : front ++ part <+: l :=
        List.prefix_of_prefix_length_le ⟨back, hsplit⟩ ⟨later, rfl⟩ (by rw [List.length_append]; omega)
      exact (List.suffix_append front part).isInfix.trans hprefix.isInfix
    · rw [hl, List.append_assoc] at hsplit
      have hfront : l.take (l.length - min l.length (part.length - 1)) <+: front :=
        List.prefix_of_prefix_length_le ⟨_, hsplit.symm⟩ ⟨_, rfl⟩ (by rw [List.length_take]; omega)
      obtain ⟨front', rfl⟩ := hfront
      rw [List.append_assoc, List.append_cancel_left_eq, ← List.append_assoc] at hsplit
      exact ⟨front', back, hsplit⟩

end Squallz.Bytes
