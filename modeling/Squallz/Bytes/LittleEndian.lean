/-
Little-endian integers of a fixed byte width: the encoder truncates to its width, the decoder
reads every byte list, and on lists of one width the two are inverse.
-/
import Mathlib.Data.List.Basic
import Mathlib.Tactic.Ring
import Mathlib.Tactic.Linarith

namespace Squallz.Bytes

/-- The little-endian bytes of `v` in `width` bytes, higher bits dropped. -/
def leBytes : (width : Nat) → Nat → List UInt8
  | 0, _ => []
  | width + 1, v => UInt8.ofNat v :: leBytes width (v / 256)

/-- The number a little-endian byte list stands for. -/
def leNat : List UInt8 → Nat
  | [] => 0
  | b :: bs => b.toNat + 256 * leNat bs

@[simp] theorem length_leBytes (width v : Nat) : (leBytes width v).length = width := by
  induction width generalizing v with
  | zero => rfl
  | succ width ih => simp [leBytes, ih]

theorem leNat_leBytes (width v : Nat) : leNat (leBytes width v) = v % 256 ^ width := by
  induction width generalizing v with
  | zero => simp [leBytes, leNat, Nat.mod_one]
  | succ width ih =>
    have hb : (UInt8.ofNat v).toNat = v % 256 := by simp [UInt8.toNat_ofNat']
    rw [leBytes, leNat, ih, hb, pow_succ, Nat.mul_comm (256 ^ width) 256, Nat.mod_mul]

theorem leNat_leBytes_of_lt {width v : Nat} (h : v < 256 ^ width) : leNat (leBytes width v) = v := by
  rw [leNat_leBytes, Nat.mod_eq_of_lt h]

theorem leNat_lt (bs : List UInt8) : leNat bs < 256 ^ bs.length := by
  induction bs with
  | nil => simp [leNat]
  | cons b bs ih =>
    have hb : b.toNat < 256 := b.toNat_lt
    rw [leNat, List.length_cons, pow_succ]
    omega

/-- A byte list is the encoding of its number at its own width. -/
theorem leBytes_leNat (bs : List UInt8) : leBytes bs.length (leNat bs) = bs := by
  induction bs with
  | nil => rfl
  | cons b bs ih =>
    have hb : b.toNat < 256 := b.toNat_lt
    have hlow : UInt8.ofNat (b.toNat + 256 * leNat bs) = b := by
      apply UInt8.toNat_inj.mp
      simp only [UInt8.toNat_ofNat']
      omega
    have hhigh : (b.toNat + 256 * leNat bs) / 256 = leNat bs := by omega
    rw [List.length_cons, leNat, leBytes, hlow, hhigh, ih]

theorem leNat_inj {a b : List UInt8} (hl : a.length = b.length) (h : leNat a = leNat b) : a = b := by
  rw [← leBytes_leNat a, ← leBytes_leNat b, hl, h]

end Squallz.Bytes
