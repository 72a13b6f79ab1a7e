/-
The field with 256 elements: multiplication of bytes modulo x^8 + x^4 + x^3 + x^2 + 1 by shifting
and adding, powers by squaring, and that the bytes form a field of characteristic two with them.
-/
import Mathlib.Algebra.Field.Basic
import Mathlib.Tactic.Ring
import Mathlib.Tactic.LinearCombination

namespace Squallz.Erasure

/-! ## Multiplication -/

/-- Shrinking a byte by one bit. -/
theorem shiftRight_one_lt {b : UInt8} (h : b ≠ 0) : (b >>> 1).toNat < b.toNat := by
  have hpos : b.toNat ≠ 0 := fun h0 => h (UInt8.toNat_inj.1 h0)
  rw [UInt8.toNat_shiftRight]
  show b.toNat >>> 1 < _
  rw [Nat.shiftRight_one]
  omega

/-- The loop of `gf256_mul`. -/
def gf256MulLoop (a b product : UInt8) : UInt8 :=
  if _hb : b = 0 then product
  else
    let product := if b &&& 1 ≠ 0 then product ^^^ a else product
    let carry := a &&& 0x80 ≠ 0
    let a := a <<< 1
    let a := if carry then a ^^^ 0x1D else a
    gf256MulLoop a (b >>> 1) product
termination_by b.toNat
decreasing_by exact shiftRight_one_lt _hb

def gf256Mul (a b : UInt8) : UInt8 := gf256MulLoop a b 0

/-- The loop of `gf256_pow`. -/
def gf256PowLoop (value : UInt8) (exponent : Nat) (result : UInt8) : UInt8 :=
  if _he : exponent = 0 then result
  else
    let result := if exponent % 2 ≠ 0 then gf256Mul result value else result
    gf256PowLoop (gf256Mul value value) (exponent / 2) result
termination_by exponent

def gf256Pow (value : UInt8) (exponent : Nat) : UInt8 := gf256PowLoop value exponent 1

def gf256Inv (value : UInt8) : Option UInt8 := if value ≠ 0 then some (gf256Pow value 254) else none

/-! ## Multiplication by bits -/

/-- Multiplication by x. -/
def timesX (a : UInt8) : UInt8 := if a &&& 0x80 ≠ 0 then a <<< 1 ^^^ 0x1D else a <<< 1

/-- The product with the `n` low bits of a byte. -/
def mulBits : Nat → UInt8 → UInt8 → UInt8
  | 0, _, _ => 0
  | n + 1, a, b => (if b &&& 1 ≠ 0 then a else 0) ^^^ mulBits n (timesX a) (b >>> 1)

/-- What is decided for all 256 bytes holds of every byte. -/
theorem forall_byte {p : UInt8 → Prop} (h : ∀ n < 256, p (UInt8.ofNat n)) (a : UInt8) : p a := by
  have := h a.toNat a.toNat_lt
  rwa [UInt8.ofNat_toNat] at this

theorem mulBits_zero_right (n : Nat) (a : UInt8) : mulBits n a 0 = 0 := by
  induction n generalizing a with
  | zero => rfl
  | succ n ih =>
    rw [mulBits, if_neg (by decide), UInt8.zero_xor]
    exact ih (timesX a)

theorem mulBits_zero_left (n : Nat) (b : UInt8) : mulBits n 0 b = 0 := by
  induction n generalizing b with
  | zero => rfl
  | succ n ih =>
    rw [mulBits, ite_self, UInt8.zero_xor]
    exact ih (b >>> 1)

theorem gf256MulLoop_eq {n : Nat} {a b product : UInt8} (hb : b.toNat < 2 ^ n) :
    gf256MulLoop a b product = product ^^^ mulBits n a b := by
  induction n generalizing a b product with
  | zero =>
    have h0 : b = 0 := UInt8.toNat_inj.1 (Nat.lt_one_iff.1 hb)
    rw [gf256MulLoop, dif_pos h0, mulBits, UInt8.xor_zero]
  | succ n ih =>
    rw [gf256MulLoop]
    by_cases h0 : b = 0
    · rw [dif_pos h0, h0, mulBits_zero_right, UInt8.xor_zero]
    · have hlt : (b >>> 1).toNat < 2 ^ n := by
        rw [UInt8.toNat_shiftRight]
        show b.toNat >>> 1 < _
        rw [Nat.shiftRight_one]
        omega
      rw [dif_neg h0]
      simp only
      rw [ih hlt, mulBits]
      split <;> simp [timesX, UInt8.xor_assoc]

theorem gf256Mul_eq (a b : UInt8) : gf256Mul a b = mulBits 8 a b := by
  rw [gf256Mul, gf256MulLoop_eq b.toNat_lt, UInt8.zero_xor]

/-! ## Linearity -/

theorem bit_cases (i : UInt8) (hi : i = 1 ∨ i = 0x80) (a : UInt8) : a &&& i = 0 ∨ a &&& i = i := by
  rcases hi with rfl | rfl
  · exact forall_byte (p := fun a => a &&& 1 = 0 ∨ a &&& 1 = 1) (by decide +kernel) a
  · exact forall_byte (p := fun a => a &&& 0x80 = 0 ∨ a &&& 0x80 = 0x80) (by decide +kernel) a

/-- A bit of a sum is set when it is set in one of the summands. -/
theorem bit_xor {i : UInt8} (hi : i = 1 ∨ i = 0x80) (a b : UInt8) :
    (a ^^^ b) &&& i ≠ 0 ↔ ¬ (a &&& i ≠ 0 ↔ b &&& i ≠ 0) := by
  have hne : i ≠ 0 := by rcases hi with rfl | rfl <;> decide
  have hdist : (a ^^^ b) &&& i = (a &&& i) ^^^ (b &&& i) := by
    rw [← UInt8.toBitVec_inj]
    simp only [UInt8.toBitVec_and, UInt8.toBitVec_xor]
    ext
    simp [Bool.and_xor_distrib_right]
  rw [hdist]
  rcases bit_cases i hi a with h | h <;> rcases bit_cases i hi b with h' | h' <;> simp [h, h', hne]

theorem timesX_xor (a b : UInt8) : timesX (a ^^^ b) = timesX a ^^^ timesX b := by
  unfold timesX
  have h := bit_xor (Or.inr rfl) a b
  by_cases ha : a &&& 0x80 ≠ 0 <;> by_cases hb : b &&& 0x80 ≠ 0
  · rw [if_neg (fun hc => (h.1 hc) ⟨fun _ => hb, fun _ => ha⟩), if_pos ha, if_pos hb, UInt8.shiftLeft_xor]
    calc a <<< 1 ^^^ b <<< 1 = a <<< 1 ^^^ b <<< 1 ^^^ (0x1D ^^^ 0x1D) := by rw [UInt8.xor_self, UInt8.xor_zero]
      _ = _ := by ac_rfl
  · rw [if_pos (h.2 fun hc => hb (hc.1 ha)), if_pos ha, if_neg hb, UInt8.shiftLeft_xor]
    ac_rfl
  · rw [if_pos (h.2 fun hc => ha (hc.2 hb)), if_neg ha, if_pos hb, UInt8.shiftLeft_xor, UInt8.xor_assoc]
  · rw [if_neg (fun hc => (h.1 hc) ⟨fun hc => absurd hc ha, fun hc => absurd hc hb⟩), if_neg ha, if_neg hb,
      UInt8.shiftLeft_xor]

theorem mulBits_xor_left (n : Nat) (a a' b : UInt8) :
    mulBits n (a ^^^ a') b = mulBits n a b ^^^ mulBits n a' b := by
  induction n generalizing a a' b with
  | zero => exact UInt8.xor_self.symm
  | succ n ih =>
    simp only [mulBits, timesX_xor, ih]
    split
    · ac_rfl
    · simp only [UInt8.zero_xor]

theorem mulBits_xor_right (n : Nat) (a b b' : UInt8) :
    mulBits n a (b ^^^ b') = mulBits n a b ^^^ mulBits n a b' := by
  induction n generalizing a b b' with
  | zero => exact UInt8.xor_self.symm
  | succ n ih =>
    have hbit : (if (b ^^^ b') &&& 1 ≠ 0 then a else 0) =
        (if b &&& 1 ≠ 0 then a else 0) ^^^ (if b' &&& 1 ≠ 0 then a else 0) := by
      have h := bit_xor (Or.inl rfl) b b'
      by_cases hb : b &&& 1 ≠ 0 <;> by_cases hb' : b' &&& 1 ≠ 0
      · rw [if_neg (fun hc => (h.1 hc) ⟨fun _ => hb', fun _ => hb⟩), if_pos hb, if_pos hb', UInt8.xor_self]
      · rw [if_pos (h.2 fun hc => hb' (hc.1 hb)), if_pos hb, if_neg hb', UInt8.xor_zero]
      · rw [if_pos (h.2 fun hc => hb (hc.2 hb')), if_neg hb, if_pos hb', UInt8.zero_xor]
      · rw [if_neg (fun hc => (h.1 hc) ⟨fun hc => absurd hc hb, fun hc => absurd hc hb'⟩), if_neg hb, if_neg hb',
          UInt8.xor_zero]
    simp only [mulBits, UInt8.shiftRight_xor, ih, hbit]
    ac_rfl

/-- Every byte is a sum of single bits. -/
theorem byte_induction {p : UInt8 → Prop} (zero : p 0) (bit : ∀ i < 8, p (UInt8.ofNat (2 ^ i)))
    (add : ∀ a b, p a → p b → p (a ^^^ b)) (a : UInt8) : p a := by
  have hbit : ∀ i < 8, ∀ a : UInt8, p (a &&& UInt8.ofNat (2 ^ i)) := by
    intro i hi a
    have h : ∀ i < 8, ∀ n < 256, UInt8.ofNat n &&& UInt8.ofNat (2 ^ i) = 0 ∨
        UInt8.ofNat n &&& UInt8.ofNat (2 ^ i) = UInt8.ofNat (2 ^ i) := by decide +kernel
    rcases forall_byte (p := fun a => a &&& UInt8.ofNat (2 ^ i) = 0 ∨
      a &&& UInt8.ofNat (2 ^ i) = UInt8.ofNat (2 ^ i)) (h i hi) a with h | h
    · rw [h]
      exact zero
    · rw [h]
      exact bit i hi
  have hsum := forall_byte (p := fun a => a =
    (((((((a &&& UInt8.ofNat (2 ^ 0)) ^^^ (a &&& UInt8.ofNat (2 ^ 1))) ^^^ (a &&& UInt8.ofNat (2 ^ 2))) ^^^
      (a &&& UInt8.ofNat (2 ^ 3))) ^^^ (a &&& UInt8.ofNat (2 ^ 4))) ^^^ (a &&& UInt8.ofNat (2 ^ 5))) ^^^
      (a &&& UInt8.ofNat (2 ^ 6))) ^^^ (a &&& UInt8.ofNat (2 ^ 7))) (by decide +kernel) a
  rw [hsum]
  iterate 7 refine add _ _ ?_ (hbit _ (by decide) a)
  exact hbit _ (by decide) a

/-! ## Field laws -/

theorem gf256Mul_xor (a b c : UInt8) : gf256Mul a (b ^^^ c) = gf256Mul a b ^^^ gf256Mul a c := by
  simp only [gf256Mul_eq, mulBits_xor_right]

theorem gf256Mul_comm (a b : UInt8) : gf256Mul a b = gf256Mul b a := by
  have hbits : ∀ i < 8, ∀ j < 8, mulBits 8 (UInt8.ofNat (2 ^ i)) (UInt8.ofNat (2 ^ j)) =
      mulBits 8 (UInt8.ofNat (2 ^ j)) (UInt8.ofNat (2 ^ i)) := by decide +kernel
  have hzero : ∀ b, mulBits 8 0 b = mulBits 8 b 0 := fun b => by rw [mulBits_zero_left, mulBits_zero_right]
  simp only [gf256Mul_eq]
  refine byte_induction (p := fun a => mulBits 8 a b = mulBits 8 b a) (hzero b) (fun i hi => ?_)
    (fun a a' ha ha' => by rw [mulBits_xor_left, mulBits_xor_right, ha, ha']) a
  exact byte_induction (p := fun b => mulBits 8 (UInt8.ofNat (2 ^ i)) b = mulBits 8 b (UInt8.ofNat (2 ^ i)))
    (hzero _).symm (fun j hj => hbits i hi j hj)
    (fun b b' hb hb' => by rw [mulBits_xor_left, mulBits_xor_right, hb, hb']) b

theorem gf256Mul_assoc (a b c : UInt8) : gf256Mul (gf256Mul a b) c = gf256Mul a (gf256Mul b c) := by
  have hbits : ∀ i < 8, ∀ j < 8, ∀ k < 8,
      mulBits 8 (mulBits 8 (UInt8.ofNat (2 ^ i)) (UInt8.ofNat (2 ^ j))) (UInt8.ofNat (2 ^ k)) =
        mulBits 8 (UInt8.ofNat (2 ^ i)) (mulBits 8 (UInt8.ofNat (2 ^ j)) (UInt8.ofNat (2 ^ k))) := by
    decide +kernel
  simp only [gf256Mul_eq]
  refine byte_induction (p := fun a => mulBits 8 (mulBits 8 a b) c = mulBits 8 a (mulBits 8 b c))
    (by simp only [mulBits_zero_left]) (fun i hi => ?_)
    (fun a a' ha ha' => by simp only [mulBits_xor_left, ha, ha']) a
  refine byte_induction (p := fun b => mulBits 8 (mulBits 8 (UInt8.ofNat (2 ^ i)) b) c =
    mulBits 8 (UInt8.ofNat (2 ^ i)) (mulBits 8 b c)) (by simp only [mulBits_zero_left, mulBits_zero_right])
    (fun j hj => ?_) (fun b b' hb hb' => by simp only [mulBits_xor_left, mulBits_xor_right, hb, hb']) b
  exact byte_induction (p := fun c => mulBits 8 (mulBits 8 (UInt8.ofNat (2 ^ i)) (UInt8.ofNat (2 ^ j))) c =
    mulBits 8 (UInt8.ofNat (2 ^ i)) (mulBits 8 (UInt8.ofNat (2 ^ j)) c)) (by simp only [mulBits_zero_right])
    (fun k hk => hbits i hi j hj k hk) (fun c c' hc hc' => by simp only [mulBits_xor_right, hc, hc']) c

theorem gf256Mul_one (a : UInt8) : gf256Mul a 1 = a := by
  rw [gf256Mul_eq, mulBits, if_pos (by decide), show (1 : UInt8) >>> 1 = 0 from rfl, mulBits_zero_right, UInt8.xor_zero]

/-- The bytes as field elements. -/
structure Gf256 where
  byte : UInt8
deriving DecidableEq

namespace Gf256

instance : Zero Gf256 := ⟨⟨0⟩⟩
instance : One Gf256 := ⟨⟨1⟩⟩
instance : Add Gf256 := ⟨fun a b => ⟨a.byte ^^^ b.byte⟩⟩
instance : Mul Gf256 := ⟨fun a b => ⟨gf256Mul a.byte b.byte⟩⟩
instance : Neg Gf256 := ⟨id⟩

@[simp] theorem byte_zero : (0 : Gf256).byte = 0 := rfl
@[simp] theorem byte_one : (1 : Gf256).byte = 1 := rfl
@[simp] theorem byte_add (a b : Gf256) : (a + b).byte = a.byte ^^^ b.byte := rfl
@[simp] theorem byte_mul (a b : Gf256) : (a * b).byte = gf256Mul a.byte b.byte := rfl

theorem ext_byte {a b : Gf256} (h : a.byte = b.byte) : a = b := by
  cases a
  cases b
  exact congrArg _ h

instance : CommRing Gf256 where
  add_assoc a b c := ext_byte (UInt8.xor_assoc _ _ _)
  zero_add a := ext_byte UInt8.zero_xor
  add_zero a := ext_byte UInt8.xor_zero
  add_comm a b := ext_byte (UInt8.xor_comm _ _)
  neg_add_cancel a := ext_byte UInt8.xor_self
  mul_assoc a b c := ext_byte (gf256Mul_assoc _ _ _)
  mul_comm a b := ext_byte (gf256Mul_comm _ _)
  one_mul a := ext_byte ((gf256Mul_comm _ _).trans (gf256Mul_one _))
  mul_one a := ext_byte (gf256Mul_one _)
  left_distrib a b c := ext_byte (gf256Mul_xor _ _ _)
  right_distrib a b c := ext_byte (by
    simp only [byte_mul, byte_add, gf256Mul_comm _ c.byte, gf256Mul_xor])
  zero_mul a := ext_byte (by rw [byte_mul, gf256Mul_eq, byte_zero, mulBits_zero_left])
  mul_zero a := ext_byte (by rw [byte_mul, gf256Mul_eq, byte_zero, mulBits_zero_right])
  nsmul := nsmulRec
  zsmul := zsmulRec

/-- Every element is its own negative. -/
theorem add_self (a : Gf256) : a + a = 0 := ext_byte UInt8.xor_self

theorem byte_powLoop (value : Gf256) (exponent : Nat) (result : Gf256) :
    gf256PowLoop value.byte exponent result.byte = (result * value ^ exponent).byte := by
  induction exponent using Nat.strong_induction_on generalizing value result with
  | _ exponent ih =>
    rw [gf256PowLoop]
    by_cases h0 : exponent = 0
    · rw [dif_pos h0, h0, pow_zero, mul_one]
    · rw [dif_neg h0]
      have hdiv : value ^ exponent = (value * value) ^ (exponent / 2) * value ^ (exponent % 2) := by
        rw [← pow_two, ← pow_mul, ← pow_add, Nat.div_add_mod]
      have hrec := ih (exponent / 2) (by omega) (value * value)
      simp only
      split
      · rename_i hodd
        rw [show exponent % 2 = 1 by omega, pow_one] at hdiv
        rw [← byte_mul, ← byte_mul, hrec, hdiv]
        congr 1
        ring
      · rename_i heven
        rw [show exponent % 2 = 0 by omega, pow_zero, mul_one] at hdiv
        rw [← byte_mul, hrec, hdiv]

theorem gf256Pow_eq (value : Gf256) (exponent : Nat) : gf256Pow value.byte exponent = (value ^ exponent).byte := by
  have := byte_powLoop value exponent 1
  rwa [one_mul] at this

/-- The bytes `a`, `a * x`, `a * x ^ 2`, … as the bits of a number. -/
def orbit : Nat → UInt8 → Nat
  | 0, _ => 0
  | n + 1, a => 2 ^ a.toNat ||| orbit n (timesX a)

theorem exists_of_orbit {n m : Nat} {a : UInt8} (h : (orbit n a).testBit m = true) :
    ∃ k, k < n ∧ (timesX^[k] a).toNat = m := by
  induction n generalizing a with
  | zero => simp [orbit] at h
  | succ n ih =>
    rw [orbit, Nat.testBit_or, Bool.or_eq_true, Nat.testBit_two_pow, decide_eq_true_eq] at h
    rcases h with h | h
    · exact ⟨0, Nat.succ_pos n, h⟩
    · obtain ⟨k, hk, hkm⟩ := ih h
      exact ⟨k + 1, Nat.succ_lt_succ hk, hkm⟩

theorem byte_iterate_timesX (k : Nat) (a : Gf256) : timesX^[k] a.byte = (a * (⟨2⟩ : Gf256) ^ k).byte := by
  induction k generalizing a with
  | zero => rw [pow_zero, mul_one]; rfl
  | succ k ih =>
    have hstep : timesX a.byte = (a * (⟨2⟩ : Gf256)).byte := by
      rw [byte_mul, gf256Mul_eq, mulBits, if_neg (by decide), show (2 : UInt8) >>> 1 = 1 from rfl, mulBits,
        if_pos (by decide), show (1 : UInt8) >>> 1 = 0 from rfl, mulBits_zero_right, UInt8.zero_xor, UInt8.xor_zero]
    rw [Function.iterate_succ_apply, hstep, ih, pow_succ', mul_assoc]

/-- The powers of x run through all elements but zero. -/
theorem exists_pow_of_ne_zero {a : Gf256} (h : a ≠ 0) : ∃ k : Nat, a = (⟨2⟩ : Gf256) ^ k := by
  have horbit : orbit 255 1 = 2 ^ 256 - 2 := by decide +kernel
  have hbits : ∀ n < 256, n = 0 ∨ (2 ^ 256 - 2).testBit n = true := by decide +kernel
  rcases hbits a.byte.toNat a.byte.toNat_lt with h0 | h1
  · exact absurd (ext_byte (UInt8.toNat_inj.1 h0)) h
  · rw [← horbit] at h1
    obtain ⟨k, -, hk⟩ := exists_of_orbit h1
    refine ⟨k, ext_byte ?_⟩
    rw [← UInt8.toNat_inj.1 hk]
    have := byte_iterate_timesX k 1
    rwa [one_mul] at this

/-- The group of units has 255 elements. -/
theorem mul_pow_254 {a : Gf256} (h : a ≠ 0) : a * a ^ 254 = 1 := by
  obtain ⟨k, rfl⟩ := exists_pow_of_ne_zero h
  have hx : (⟨2⟩ : Gf256) ^ 255 = 1 := by
    refine ext_byte ?_
    have := byte_iterate_timesX 255 1
    rw [one_mul] at this
    rw [← this]
    decide +kernel
  rw [← pow_succ', ← pow_mul, Nat.mul_comm, pow_mul, hx, one_pow]

instance : Inv Gf256 := ⟨fun a => if a = 0 then 0 else a ^ 254⟩

instance : Field Gf256 where
  exists_pair_ne := ⟨0, 1, fun h => absurd (congrArg Gf256.byte h) (by decide)⟩
  mul_inv_cancel a h := by
    show a * (if a = 0 then 0 else a ^ 254) = 1
    rw [if_neg h, mul_pow_254 h]
  inv_zero := if_pos rfl
  nnqsmul := _
  nnqsmul_def := fun _ _ => rfl
  qsmul := _
  qsmul_def := fun _ _ => rfl

/-- `gf256_inv` is the inverse. -/
theorem gf256Inv_eq {a : Gf256} (h : a ≠ 0) : gf256Inv a.byte = some (a⁻¹).byte := by
  have hbyte : a.byte ≠ 0 := fun h0 => h (ext_byte h0)
  rw [gf256Inv, if_pos hbyte, gf256Pow_eq]
  show _ = some (if a = 0 then 0 else a ^ 254).byte
  rw [if_neg h]

end Gf256

end Squallz.Erasure
