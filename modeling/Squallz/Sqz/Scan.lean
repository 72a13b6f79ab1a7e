/-
The backward scan for a lost footer: its windows meet every position of the tail exactly once, from
the last one down, so it finds the topmost candidate that holds.
-/
import Squallz.Sqz.Recovery

namespace Squallz.Sqz

open Squallz.Api Squallz.Bytes

/-! ## Searching downwards -/

section Down

variable {ε β : Type} (f : Nat → Except ε (Option β)) {lo m n : Nat}

/-- Tries the `n` positions from `lo` on, the last one first, up to the first that yields something. -/
def searchDown (lo : Nat) : Nat → Except ε (Option β)
  | 0 => .ok none
  | n + 1 => do
    match ← f (lo + n) with
    | some b => return some b
    | none => searchDown lo n

variable {f}

/-- The positions above come first. -/
theorem searchDown_add : searchDown f lo (n + m) = (do
    match ← searchDown f (lo + n) m with
    | some b => return some b
    | none => searchDown f lo n) := by
  induction m with
  | zero => rfl
  | succ m ih =>
    rw [← Nat.add_assoc, searchDown, searchDown, Nat.add_assoc lo]
    cases f (lo + (n + m)) with
    | error e => rfl
    | ok found =>
      cases found with
      | some b => rfl
      | none =>
        simp only [ok_bind]
        exact ih

/-- What is found is at the topmost position that yields anything. -/
theorem searchDown_eq_some {b : β} : searchDown f lo n = .ok (some b) ↔
    ∃ i, i < n ∧ f (lo + i) = .ok (some b) ∧ ∀ j, i < j → j < n → f (lo + j) = .ok none := by
  induction n with
  | zero =>
    constructor
    · intro h
      cases h
    · rintro ⟨i, hi, -⟩
      exact absurd hi (Nat.not_lt_zero i)
  | succ n ih =>
    rw [searchDown]
    constructor
    · intro h
      cases hf : f (lo + n) with
      | error e =>
        rw [hf] at h
        cases h
      | ok found =>
        rw [hf] at h
        cases found with
        | some b' =>
          cases h
          exact ⟨n, Nat.lt_succ_self n, hf, fun j hj hj' => by omega⟩
        | none =>
          obtain ⟨i, hi, hb, habove⟩ := ih.1 h
          refine ⟨i, Nat.lt_succ_of_lt hi, hb, fun j hj hj' => ?_⟩
          obtain hlt | rfl := Nat.lt_succ_iff_lt_or_eq.1 hj'
          · exact habove j hj hlt
          · exact hf
    · rintro ⟨i, hi, hb, habove⟩
      obtain hlt | rfl := Nat.lt_succ_iff_lt_or_eq.1 hi
      · rw [habove n hlt (Nat.lt_succ_self n)]
        exact ih.2 ⟨i, hlt, hb, fun j hj hj' => habove j hj (Nat.lt_succ_of_lt hj')⟩
      · rw [hb]
        rfl

end Down

/-! ## Candidates -/

section Candidates

variable (P : Primitives) (src : List UInt8) (uuidHi uuidLo : Nat)

/-- What the scan makes of one position of a file. -/
def candidateAt (trailerAbs : Nat) : Res (Option (Footer × RecoveryState)) :=
  if slice src trailerAbs 4 ≠ recoveryProtectionMagic then .ok none
  else scanCandidate P src src.length uuidHi uuidLo trailerAbs (slice src trailerAbs recoveryProtectionTrailerLen)

variable {P src uuidHi uuidLo}

theorem scanPositions_zero {start scanEnd : Nat} {window : List UInt8} :
    scanPositions P src src.length uuidHi uuidLo start scanEnd window 0 = .ok none := rfl

/-- The positions of a window. -/
theorem scanPositions_eq {start scanEnd count n : Nat}
    (hn : n + (recoveryProtectionTrailerLen - 1) ≤ count) :
    scanPositions P src src.length uuidHi uuidLo start scanEnd (slice src start count) n =
      searchDown (candidateAt P src uuidHi uuidLo) start (min n (scanEnd - start)) := by
  induction n with
  | zero => rw [Nat.zero_min, scanPositions_zero, searchDown]
  | succ n ih =>
    have ih := ih (by omega)
    have hlen : recoveryProtectionTrailerLen = 80 := rfl
    rw [scanPositions]
    by_cases hend : scanEnd ≤ start + n
    · rw [if_pos (Or.inl hend), show min (n + 1) (scanEnd - start) = min n (scanEnd - start) by omega]
      exact ih
    · rw [show min (n + 1) (scanEnd - start) = min n (scanEnd - start) + 1 by omega, searchDown,
        show min n (scanEnd - start) = n by omega, slice_slice (by omega), slice_slice (by omega), candidateAt]
      rw [show min n (scanEnd - start) = n by omega] at ih
      by_cases hmagic : slice src (start + n) 4 ≠ recoveryProtectionMagic
      · rw [if_pos (Or.inr hmagic), if_pos hmagic]
        exact ih
      · rw [if_neg (fun h => h.elim hend hmagic), if_neg hmagic]
        cases scanCandidate P src src.length uuidHi uuidLo (start + n)
            (slice src (start + n) recoveryProtectionTrailerLen) with
        | error e => rfl
        | ok found =>
          cases found with
          | some b => rfl
          | none => exact ih

/-- The windows meet every position of a whole trailer once. -/
theorem scanWindows_eq {scanStart scanEnd : Nat} (hend : scanEnd ≤ src.length) :
    scanWindows P src src.length uuidHi uuidLo scanStart scanEnd =
      searchDown (candidateAt P src uuidHi uuidLo) scanStart
        (min scanEnd (src.length - (recoveryProtectionTrailerLen - 1)) - scanStart) := by
  induction scanEnd using Nat.strong_induction_on with
  | _ scanEnd ih =>
    have hlen : recoveryProtectionTrailerLen = 80 := rfl
    rw [scanWindows]
    by_cases hlt : scanStart < scanEnd
    · rw [dif_pos hlt]
      have hstart := windowStart_lt hlt
      have hge : scanStart ≤ windowStart scanStart scanEnd := Nat.le_max_right _ _
      generalize windowStart scanStart scanEnd = w at hstart hge ⊢
      simp only
      rw [seekReadExact_ok (by omega), ofIo_ok, ok_bind]
      by_cases hroom : w + (recoveryProtectionTrailerLen - 1) ≤
          min (scanEnd + (recoveryProtectionTrailerLen - 1)) src.length
      · obtain ⟨k, hk⟩ : ∃ k, min scanEnd (src.length - (recoveryProtectionTrailerLen - 1)) = w + k :=
          ⟨_, (Nat.add_sub_of_le (by omega)).symm⟩
        obtain ⟨d, rfl⟩ := Nat.exists_eq_add_of_le hge
        have hpositions : min (min (scanEnd + (recoveryProtectionTrailerLen - 1)) src.length - (scanStart + d) -
            (recoveryProtectionTrailerLen - 1)) (scanEnd - (scanStart + d)) = k := by omega
        have hbelow : min (scanStart + d) (src.length - (recoveryProtectionTrailerLen - 1)) - scanStart = d := by
          omega
        have hall : scanStart + d + k - scanStart = d + k := by omega
        rw [scanPositions_eq (by omega), hpositions, hk, hall, searchDown_add, ih _ hstart (by omega), hbelow]
        rcases searchDown (candidateAt P src uuidHi uuidLo) (scanStart + d) k with e | _ | b <;> rfl
      · have hnone : min (scanEnd + (recoveryProtectionTrailerLen - 1)) src.length - w -
            (recoveryProtectionTrailerLen - 1) = 0 := by omega
        have hlow : min scanEnd (src.length - (recoveryProtectionTrailerLen - 1)) =
            min w (src.length - (recoveryProtectionTrailerLen - 1)) := by omega
        rw [hnone, hlow, scanPositions_zero, ok_bind, ← ih _ hstart (by omega)]
    · have hnone : min scanEnd (src.length - (recoveryProtectionTrailerLen - 1)) - scanStart = 0 := by omega
      rw [dif_neg hlt, hnone]
      rfl

/-- The topmost position of the tail of a file whose candidate holds, and what it leads to. -/
structure Topmost (P : Primitives) (src : List UInt8) (uuidHi uuidLo trailerAbs : Nat)
    (found : Footer × RecoveryState) : Prop where
  inTail : src.length - footerRecoveryScanWindow ≤ trailerAbs
  inside : trailerAbs + recoveryProtectionTrailerLen ≤ src.length
  accepted : candidateAt P src uuidHi uuidLo trailerAbs = .ok (some found)
  above : ∀ t, trailerAbs < t → t + recoveryProtectionTrailerLen ≤ src.length →
    candidateAt P src uuidHi uuidLo t = .ok none

/-- The scan finds the topmost candidate of the tail that holds. -/
theorem recoverFooterFromRecoveryScan_eq_some (huuid : validHeaderUuid P src = .ok (some (uuidHi, uuidLo)))
    {found : Footer × RecoveryState} :
    recoverFooterFromRecoveryScan P src src.length = .ok (some found) ↔
      ∃ trailerAbs, Topmost P src uuidHi uuidLo trailerAbs found := by
  have hlen : recoveryProtectionTrailerLen = 80 := rfl
  unfold recoverFooterFromRecoveryScan
  rw [huuid, ok_bind]
  simp only
  rw [scanWindows_eq (Nat.le_refl _), searchDown_eq_some]
  constructor
  · rintro ⟨i, hi, hfound, habove⟩
    refine ⟨_, Nat.le_add_right _ _, by omega, hfound, fun t ht hin => ?_⟩
    obtain ⟨j, rfl⟩ := Nat.exists_eq_add_of_le (le_trans (Nat.le_add_right _ i) (Nat.le_of_lt ht))
    exact habove j (Nat.lt_of_add_lt_add_left ht) (by omega)
  · rintro ⟨t, hin, hinside, hfound, habove⟩
    obtain ⟨j, rfl⟩ := Nat.exists_eq_add_of_le hin
    exact ⟨j, by omega, hfound, fun k hk hk' => habove _ (Nat.add_lt_add_left hk _) (by omega)⟩

end Candidates

end Squallz.Sqz
