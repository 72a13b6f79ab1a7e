/-
Arithmetic of 64-bit numbers as a build with overflow checks runs it, reads at a position of a file, and the rules by which
a call is shown not to panic.
-/
import Squallz.Api.Error
import Squallz.Bytes.Slice

namespace Squallz.Api

open Squallz.Bytes

/-! ## Calls that do not panic -/

/-- A call that does not panic, and of whose value something is known. -/
def Sound {α : Type} (r : Res α) (P : α → Prop) : Prop :=
  match r with
  | .ok a => P a
  | .error (.raised _) => True
  | .error (.panicked _) => False

section Rules

variable {α β : Type} {P : α → Prop} {Q : β → Prop} {r : Res α}

theorem sound_ok {a : α} (h : P a) : Sound (.ok a) P := h

theorem sound_raise (error : FormatError) : Sound (raise error) P := trivial

theorem Sound.mono {P' : α → Prop} (h : Sound r P) (hP : ∀ a, P a → P' a) : Sound r P' := by
  match r with
  | .ok a => exact hP a h
  | .error (.raised _) => exact trivial

theorem sound_bind {f : α → Res β} (h : Sound r P) (hf : ∀ a, P a → Sound (f a) Q) : Sound (r >>= f) Q := by
  match r with
  | .ok a => exact hf a h
  | .error (.raised _) => exact trivial

theorem Sound.eq_ok {a : α} (h : Sound r P) (hr : r = .ok a) : P a := by
  subst hr
  exact h

theorem Sound.not_panicked (h : Sound r P) (message : String) : r ≠ .error (.panicked message) := by
  rintro rfl
  exact h

theorem sound_ite {p : Prop} [Decidable p] {x y : Res α} (hx : p → Sound x P) (hy : ¬ p → Sound y P) :
    Sound (if p then x else y) P := by
  by_cases hp : p
  · rw [if_pos hp]
    exact hx hp
  · rw [if_neg hp]
    exact hy hp

end Rules

/-! ## Numbers -/

/-- `checked_add` of two `u64`s. -/
def checkedAddU64 (a b : Nat) : Option Nat := if a + b < 2 ^ 64 then some (a + b) else none

/-- `checked_sub` of two `u64`s. -/
def checkedSubU64 (a b : Nat) : Option Nat := if b ≤ a then some (a - b) else none

/-- `+` of two `u64`s. -/
def addU64 (a b : Nat) : Res Nat := if a + b < 2 ^ 64 then .ok (a + b) else panic "attempt to add with overflow"

/-- `-` of two `u64`s. -/
def subU64 (a b : Nat) : Res Nat := if b ≤ a then .ok (a - b) else panic "attempt to subtract with overflow"

theorem addU64_eq {a b : Nat} (h : a + b < 2 ^ 64) : addU64 a b = .ok (a + b) := if_pos h

theorem subU64_eq {a b : Nat} (h : b ≤ a) : subU64 a b = .ok (a - b) := if_pos h

theorem checkedAddU64_eq_some {a b c : Nat} : checkedAddU64 a b = some c ↔ c = a + b ∧ a + b < 2 ^ 64 := by
  unfold checkedAddU64
  split
  · rename_i h
    constructor
    · intro hc
      cases hc
      exact ⟨rfl, h⟩
    · rintro ⟨rfl, -⟩
      rfl
  · rename_i h
    constructor
    · intro hc
      cases hc
    · rintro ⟨-, hc⟩
      exact absurd hc h

theorem checkedAddU64_eq {a b : Nat} (h : a + b < 2 ^ 64) : checkedAddU64 a b = some (a + b) := if_pos h

/-- A sum that is added up number by number is checked as a whole. -/
theorem foldlM_addU64 {numbers : List Nat} {total : Nat} (htotal : total < 2 ^ 64) :
    numbers.foldlM addU64 total =
      if total + numbers.sum < 2 ^ 64 then .ok (total + numbers.sum) else panic "attempt to add with overflow" := by
  induction numbers generalizing total with
  | nil =>
    rw [List.foldlM_nil, List.sum_nil, Nat.add_zero, if_pos htotal]
    rfl
  | cons number rest ih =>
    rw [List.foldlM_cons, List.sum_cons, ← Nat.add_assoc]
    by_cases hfirst : total + number < 2 ^ 64
    · rw [addU64_eq hfirst, ok_bind, ih hfirst]
    · rw [addU64, if_neg hfirst, if_neg (by omega)]
      rfl

/-- A sum that is checked against a bound. -/
theorem checkedAddU64_le {a b bound : Nat} (hbound : bound < 2 ^ 64) :
    ((checkedAddU64 a b).all fun sum => bound < sum) = false ↔ a + b ≤ bound := by
  unfold checkedAddU64
  split
  · rw [Option.all_some, decide_eq_false_iff_not, Nat.not_lt]
  · rw [Option.all_none]
    constructor
    · intro h
      cases h
    · intro h
      omega

/-! ## Reads -/

/-- `read_exact` of `n` bytes at a position of a file. -/
def readExactAt (file : List UInt8) (position n : Nat) : Res (List UInt8) :=
  if n = 0 then .ok []
  else if file.length < position + n then raise (.io ⟨.unexpectedEof, "failed to fill whole buffer"⟩)
  else .ok (slice file position n)

theorem readExactAt_eq {file : List UInt8} {position n : Nat} (h : position + n ≤ file.length) :
    readExactAt file position n = .ok (slice file position n) := by
  unfold readExactAt
  split
  · rename_i hn
    rw [hn, slice_zero]
  · rw [if_neg (Nat.not_lt.2 h)]

/-- The middle of three appended lists is read at its place. -/
theorem readExactAt_middle {front bytes back : List UInt8} {position n : Nat} (hposition : position = front.length)
    (hn : n = bytes.length) : readExactAt (front ++ (bytes ++ back)) position n = .ok bytes := by
  rw [readExactAt_eq (by rw [List.length_append, List.length_append]; omega), slice_middle hposition hn]

theorem sound_readExactAt (file : List UInt8) (position n : Nat) :
    Sound (readExactAt file position n) fun bytes => bytes.length = n ∧ (n ≠ 0 → bytes = slice file position n ∧
      position + n ≤ file.length) := by
  unfold readExactAt
  refine sound_ite (fun h => sound_ok ⟨h.symm, fun hn => absurd h hn⟩) fun _ => sound_ite (fun _ => sound_raise _) fun h => ?_
  exact sound_ok ⟨length_slice_of_le (Nat.le_of_not_lt h), fun _ => ⟨rfl, Nat.le_of_not_lt h⟩⟩

end Squallz.Api
