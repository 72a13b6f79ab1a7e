/-
What the inspection of a RAR volume says: its integers are those that are encoded completely, an inspection of any bytes
ends, and what it returns stands in a chain of blocks from the signature on.
-/
import Squallz.Rar.Headers
import Mathlib.Tactic.Ring

namespace Squallz.Rar

open Squallz.Api Squallz.Bytes

/-! ## Integers -/

/-- The encoding of an integer: every byte but the last says that another one follows. -/
inductive CompleteVint : List UInt8 → Prop
  | last {byte : UInt8} (h : byte &&& 0x80 = 0) : CompleteVint [byte]
  | more {byte : UInt8} {bytes : List UInt8} (h : byte &&& 0x80 ≠ 0) (later : CompleteVint bytes) :
    CompleteVint (byte :: bytes)

/-- Seven bits of each byte, the lowest first. -/
def vintValue : List UInt8 → Nat
  | [] => 0
  | byte :: bytes => (byte &&& 0x7f).toNat + 128 * vintValue bytes

theorem CompleteVint.ne_nil {bytes : List UInt8} (h : CompleteVint bytes) : bytes ≠ [] := by
  cases h with
  | last => exact List.cons_ne_nil _ _
  | more => exact List.cons_ne_nil _ _

theorem payload_lt (byte : UInt8) : (byte &&& 0x7f).toNat < 128 := by
  rw [UInt8.toNat_and]
  exact Nat.lt_of_le_of_lt Nat.and_le_right (by decide)

/-- The test for an overflow, at a shift below the width. -/
theorem shiftRight_lt_iff (shift payload : Nat) : (2 ^ 64 - 1) >>> shift < payload ↔ 2 ^ 64 ≤ 2 ^ shift * payload := by
  rw [Nat.shiftRight_eq_div_pow, Nat.div_lt_iff_lt_mul (Nat.two_pow_pos shift), Nat.mul_comm payload]
  omega

/-- Bits that are put above a value are added to it. -/
theorem or_shiftLeft {shift value payload : Nat} (hvalue : value < 2 ^ shift) (hfits : 2 ^ shift * payload < 2 ^ 64) :
    value ||| (payload <<< shift) % 2 ^ 64 = value + 2 ^ shift * payload := by
  rw [Nat.shiftLeft_eq, Nat.mul_comm payload, Nat.mod_eq_of_lt hfits, Nat.or_comm,
    ← Nat.two_pow_add_eq_or_of_lt hvalue, Nat.add_comm]

theorem readArchiveExact_one {data : List UInt8} {position : Nat} {field : String} {byte : UInt8} {rest : List UInt8}
    (h : data.drop position = byte :: rest) : readArchiveExact data position 1 field = .ok ([byte], position + 1) := by
  have hlength := congrArg List.length h
  rw [List.length_drop, List.length_cons] at hlength
  rw [readArchiveExact, if_neg (by omega), slice, h]
  rfl

theorem readArchiveExact_one_end {data : List UInt8} {position : Nat} {field : String} (h : data.drop position = []) :
    readArchiveExact data position 1 field = corrupt s!"{field} is truncated" := by
  have hlength := congrArg List.length h
  rw [List.length_drop, List.length_nil] at hlength
  rw [readArchiveExact, if_pos ⟨Nat.one_ne_zero, by omega⟩]

/-- The loop reads an encoding that is complete within the bytes that may come, and whose value fits, and no other. -/
theorem readVintFrom_eq_ok {data : List UInt8} {left position shiftIndex value : Nat} {bytes all : List UInt8}
    {result position' : Nat} (hleft : shiftIndex + left ≤ 10) (hvalue : value < 2 ^ (shiftIndex * 7)) :
    readVintFrom data left position shiftIndex value bytes = .ok ((result, all), position') ↔
      ∃ read rest, CompleteVint read ∧ read.length ≤ left ∧ data.drop position = read ++ rest ∧
        result = value + 2 ^ (shiftIndex * 7) * vintValue read ∧ result < 2 ^ 64 ∧ all = bytes ++ read ∧
        position' = position + read.length := by
  induction left generalizing position shiftIndex value bytes with
  | zero =>
    constructor
    · intro h
      cases h
    · rintro ⟨read, rest, hread, hlength, -⟩
      exact absurd (List.length_eq_zero_iff.1 (Nat.le_zero.1 hlength)) hread.ne_nil
  | succ left ih =>
    rw [readVintFrom]
    cases hdata : data.drop position with
    | nil =>
      rw [readArchiveExact_one_end hdata]
      constructor
      · intro h
        cases h
      · rintro ⟨read, rest, hread, -, hsplit, -⟩
        exact absurd (List.append_eq_nil_iff.1 hsplit.symm).1 hread.ne_nil
    | cons byte later =>
      have hshift : shiftIndex * 7 < 64 := by omega
      have hnext : data.drop (position + 1) = later := by rw [← List.drop_drop, hdata, List.drop_one, List.tail_cons]
      have hpow : 2 ^ ((shiftIndex + 1) * 7) = 2 ^ (shiftIndex * 7) * 128 := by
        rw [Nat.succ_mul, pow_add]
        rfl
      have hpayload := payload_lt byte
      have hcheck : (64 ≤ shiftIndex * 7 ∧ (byte &&& 0x7f).toNat ≠ 0 ∨
          shiftIndex * 7 < 64 ∧ (2 ^ 64 - 1) >>> (shiftIndex * 7) < (byte &&& 0x7f).toNat) ↔
          2 ^ 64 ≤ 2 ^ (shiftIndex * 7) * (byte &&& 0x7f).toNat := by
        rw [shiftRight_lt_iff]
        omega
      have hhead : [byte].headD 0 = byte := rfl
      rw [readArchiveExact_one hdata, ok_bind]
      dsimp only
      rw [hhead]
      by_cases hover : 2 ^ 64 ≤ 2 ^ (shiftIndex * 7) * (byte &&& 0x7f).toNat
      · rw [if_pos (hcheck.2 hover)]
        constructor
        · intro h
          cases h
        · rintro ⟨read, rest, hread, -, hsplit, hresult, hfits, -⟩
          -- the first byte of the encoding is too large on its own
          cases hread with
          | last =>
            cases hsplit
            rw [vintValue, vintValue, Nat.mul_zero, Nat.add_zero] at hresult
            omega
          | more =>
            cases hsplit
            rw [vintValue, Nat.mul_add] at hresult
            omega
      · rw [if_neg (mt hcheck.1 hover), if_pos hshift, or_shiftLeft hvalue (by omega)]
        have hsum : value + 2 ^ (shiftIndex * 7) * (byte &&& 0x7f).toNat < 2 ^ ((shiftIndex + 1) * 7) := by
          have := Nat.mul_le_mul_left (2 ^ (shiftIndex * 7)) (show (byte &&& 0x7f).toNat ≤ 127 by omega)
          rw [hpow]
          omega
        have hfit : value + 2 ^ (shiftIndex * 7) * (byte &&& 0x7f).toNat < 2 ^ 64 := by
          -- both parts of the sum are below multiples of the same power
          have hdvd : 2 ^ (shiftIndex * 7) * ((byte &&& 0x7f).toNat + 1) ≤ 2 ^ 64 := by
            obtain ⟨k, hk⟩ := Nat.pow_dvd_pow 2 (Nat.le_of_lt hshift)
            rw [hk] at hover ⊢
            exact Nat.mul_le_mul_left _ (Nat.lt_of_mul_lt_mul_left (Nat.lt_of_not_le hover))
          rw [Nat.mul_add, Nat.mul_one] at hdvd
          omega
        by_cases hlast : byte &&& 0x80 = 0
        · rw [if_pos hlast]
          constructor
          · intro h
            cases h
            refine ⟨[byte], later, .last hlast, Nat.succ_le_succ (Nat.zero_le _), rfl, ?_, hfit, rfl, rfl⟩
            rw [vintValue, vintValue, Nat.mul_zero, Nat.add_zero]
          · rintro ⟨read, rest, hread, -, hsplit, hresult, -, rfl, rfl⟩
            cases hread with
            | last =>
              cases hsplit
              rw [vintValue, vintValue, Nat.mul_zero, Nat.add_zero] at hresult
              rw [hresult]
              rfl
            | more hmore =>
              cases hsplit
              exact absurd hlast hmore
        · rw [if_neg hlast, ih (by omega) hsum, hnext]
          constructor
          · rintro ⟨read, rest, hread, hlength, hsplit, hresult, hfits, rfl, rfl⟩
            refine ⟨byte :: read, rest, .more hlast hread, Nat.succ_le_succ hlength, by rw [hsplit]; rfl, ?_, hfits, ?_, ?_⟩
            · rw [hresult, hpow, vintValue]
              ring
            · rw [List.append_assoc]
              rfl
            · rw [List.length_cons]
              omega
          · rintro ⟨read, rest, hread, hlength, hsplit, hresult, hfits, rfl, rfl⟩
            cases hread with
            | last hlast' =>
              cases hsplit
              exact absurd hlast' hlast
            | @more _ read _ hread =>
              cases hsplit
              refine ⟨read, rest, hread, Nat.le_of_succ_le_succ hlength, rfl, ?_, hfits, ?_, ?_⟩
              · rw [hresult, hpow, vintValue]
                ring
              · rw [List.append_assoc]
                rfl
              · rw [List.length_cons]
                omega

/-- The decoder accepts the complete encodings within its limit whose value fits 64 bits, with that value. -/
theorem readVintBytes_eq_ok {data : List UInt8} {maxBytes position : Nat} {value position' : Nat} {bytes : List UInt8}
    (hmax : maxBytes ≤ 10) : readVintBytes data maxBytes position = .ok ((value, bytes), position') ↔
      CompleteVint bytes ∧ bytes.length ≤ maxBytes ∧ bytes <+: data.drop position ∧ value = vintValue bytes ∧
        value < 2 ^ 64 ∧ position' = position + bytes.length := by
  rw [readVintBytes, readVintFrom_eq_ok (by omega) (by decide)]
  simp only [Nat.zero_mul, Nat.pow_zero, Nat.zero_add, Nat.one_mul, List.nil_append]
  constructor
  · rintro ⟨read, rest, hread, hlength, hsplit, hvalue, hfits, rfl, hposition⟩
    exact ⟨hread, hlength, ⟨rest, hsplit.symm⟩, hvalue, hfits, hposition⟩
  · rintro ⟨hread, hlength, ⟨rest, hsplit⟩, hvalue, hfits, hposition⟩
    exact ⟨bytes, rest, hread, hlength, hsplit.symm, hvalue, hfits, rfl, hposition⟩

/-- An integer that stands at a position, and the position behind it. -/
def VintAt (maxBytes : Nat) (data : List UInt8) (position value next : Nat) : Prop :=
  ∃ bytes, CompleteVint bytes ∧ bytes.length ≤ maxBytes ∧ bytes <+: data.drop position ∧ value = vintValue bytes ∧
    value < 2 ^ 64 ∧ next = position + bytes.length

theorem readVint_eq_ok {data : List UInt8} {maxBytes position value next : Nat} (hmax : maxBytes ≤ 10) :
    readVint data maxBytes position = .ok (value, next) ↔ VintAt maxBytes data position value next := by
  unfold readVint
  constructor
  · intro h
    cases hread : readVintBytes data maxBytes position with
    | error fault =>
      rw [hread] at h
      cases h
    | ok result =>
      obtain ⟨⟨value', bytes⟩, next'⟩ := result
      rw [hread] at h
      cases h
      exact ⟨bytes, (readVintBytes_eq_ok hmax).1 hread⟩
  · rintro ⟨bytes, h⟩
    rw [(readVintBytes_eq_ok hmax).2 h]
    rfl

/-! ## Blocks -/

theorem readArchiveExact_eq_ok {data bytes : List UInt8} {position n next : Nat} {field : String}
    (h : readArchiveExact data position n field = .ok (bytes, next)) :
    bytes = slice data position n ∧ next = position + n ∧ (n ≠ 0 → next ≤ data.length) := by
  unfold readArchiveExact at h
  split at h
  · cases h
  · cases h
    refine ⟨rfl, rfl, fun hn => ?_⟩
    omega

/-- The fields of a RAR 5 header: its kind, its flags, the sizes that the flags announce, the fields of its kind and an
extra area. -/
structure Rar5HeaderFields (header : List UInt8) (block : Rar5Block) (flags extra p₁ p₂ p₃ p₄ : Nat) : Prop where
  headerType : VintAt 10 header 0 block.headerType p₁
  headerFlags : VintAt 10 header p₁ flags p₂
  extraSize : if flags.testBit 0 then VintAt 10 header p₂ extra p₃ else extra = 0 ∧ p₃ = p₂
  dataSize : if flags.testBit 1 then VintAt 10 header p₃ block.dataSize p₄ else block.dataSize = 0 ∧ p₄ = p₃
  inside : p₄ + extra ≤ header.length
  specificFields : block.specificFields = slice header p₄ (header.length - extra - p₄)

theorem rar5Fields_sound {header : List UInt8} {block : Rar5Block} (h : rar5Fields header = .ok block) :
    ∃ flags extra p₁ p₂ p₃ p₄, Rar5HeaderFields header block flags extra p₁ p₂ p₃ p₄ := by
  simp only [rar5Fields, bind_eq_ok] at h
  obtain ⟨⟨headerType, p₁⟩, htype, ⟨flags, p₂⟩, hflags, ⟨extra, p₃⟩, hextra, ⟨dataSize, p₄⟩, hdata, h⟩ := h
  have hextra' : if flags.testBit 0 then VintAt 10 header p₂ extra p₃ else extra = 0 ∧ p₃ = p₂ := by
    unfold rar5ExtraSize at hextra
    split at hextra
    · rename_i hbit
      rw [if_pos hbit]
      rw [bind_eq_ok] at hextra
      obtain ⟨⟨extra', p'⟩, hread, hextra⟩ := hextra
      dsimp only at hextra
      split at hextra
      · cases hextra
      · cases hextra
        exact (readVint_eq_ok (by decide)).1 hread
    · rename_i hbit
      rw [if_neg hbit]
      cases hextra
      exact ⟨rfl, rfl⟩
  have hdata' : if flags.testBit 1 then VintAt 10 header p₃ dataSize p₄ else dataSize = 0 ∧ p₄ = p₃ := by
    unfold rar5DataSize at hdata
    split at hdata
    · rename_i hbit
      rw [if_pos hbit]
      exact (readVint_eq_ok (by decide)).1 hdata
    · rename_i hbit
      rw [if_neg hbit]
      cases hdata
      exact ⟨rfl, rfl⟩
  dsimp only at h
  split at h
  · cases h
  · rename_i specificEnd hend
    cases h
    rw [Option.filter_eq_some_iff] at hend
    obtain ⟨hsub, hle⟩ := hend
    have hle := of_decide_eq_true hle
    unfold checkedSubU64 at hsub
    split at hsub
    · cases hsub
      exact ⟨flags, extra, p₁, p₂, p₃, p₄, (readVint_eq_ok (by decide)).1 htype, (readVint_eq_ok (by decide)).1 hflags,
        hextra', hdata', by omega, rfl⟩
    · cases hsub

/-- A RAR 5 block at a position, with the position behind its header: its checksum is right, and its fields are read
from the header. -/
structure Rar5BlockAt (file : List UInt8) (position : Nat) (block : Rar5Block) (next : Nat) (sizeBytes header : List UInt8) :
    Prop where
  size : CompleteVint sizeBytes ∧ sizeBytes.length ≤ 3 ∧ sizeBytes <+: file.drop (position + 4) ∧
    vintValue sizeBytes = header.length
  bounded : 0 < header.length ∧ header.length ≤ maxRar5HeaderSize
  stands : slice file (position + 4 + sizeBytes.length) header.length = header
  next_eq : next = position + 4 + sizeBytes.length + header.length
  inside : next ≤ file.length
  checksum : (crc32 (sizeBytes ++ header)).toNat = leNat (slice file position 4)
  fields : ∃ flags extra p₁ p₂ p₃ p₄, Rar5HeaderFields header block flags extra p₁ p₂ p₃ p₄

theorem readRar5Block_sound {file : List UInt8} {position next : Nat} {block : Rar5Block}
    (h : readRar5Block file position = .ok (block, next)) :
    ∃ sizeBytes header, Rar5BlockAt file position block next sizeBytes header := by
  simp only [readRar5Block, bind_eq_ok] at h
  obtain ⟨⟨expectedCrc, q⟩, hcrc, ⟨⟨headerSize, sizeBytes⟩, q'⟩, hsize, h⟩ := h
  obtain ⟨rfl, rfl, -⟩ := readArchiveExact_eq_ok hcrc
  obtain ⟨hvint, hlength, hprefix, rfl, -, rfl⟩ := (readVintBytes_eq_ok (by decide)).1 hsize
  dsimp only at h
  split at h
  · cases h
  · rename_i hbounds
    split at h
    · cases h
    · rename_i headerEnd hend
      obtain ⟨rfl, -⟩ := checkedAddU64_eq_some.1 hend
      split at h
      · cases h
      · rename_i hinside
        simp only [bind_eq_ok] at h
        obtain ⟨⟨header, q⟩, hheader, h⟩ := h
        obtain ⟨rfl, rfl, -⟩ := readArchiveExact_eq_ok hheader
        dsimp only at h
        split at h
        · cases h
        · rename_i hsum
          simp only [bind_eq_ok] at h
          obtain ⟨block', hfields, h⟩ := h
          cases h
          have hheaderLength := @length_slice_of_le _ file (position + 4 + sizeBytes.length) (vintValue sizeBytes) (by omega)
          exact ⟨sizeBytes, _, ⟨hvint, hlength, hprefix, hheaderLength.symm⟩, by rw [hheaderLength]; omega,
            by rw [hheaderLength], by rw [hheaderLength], by omega, not_not.1 hsum, rar5Fields_sound hfields⟩

/-- A RAR 4 block at a position: its checksum is right, and its fields are read from the header. -/
structure Rar4BlockAt (file : List UInt8) (position : Nat) (block : Rar4Block) (next : Nat) (header : List UInt8) : Prop where
  stands : slice file position header.length = header
  length : 7 ≤ header.length ∧ header.length = leNat (slice header 5 2)
  next_eq : next = position + header.length
  inside : next ≤ file.length
  checksum : (crc32 (header.drop 2)).toNat % 2 ^ 16 = leNat (slice header 0 2)
  headerType : block.headerType = leNat (slice header 2 1)
  flags : block.flags = leNat (slice header 3 2)
  fields : validateRar4HeaderFields block.headerType block.flags (header.drop 7) = .ok ()
  dataSize : rar4DataSize block.headerType block.flags (header.drop 7) = .ok block.dataSize

theorem readRar4Block_sound {file : List UInt8} {position next : Nat} {block : Rar4Block}
    (h : readRar4Block file position = .ok (block, next)) : ∃ header, Rar4BlockAt file position block next header := by
  simp only [readRar4Block, bind_eq_ok] at h
  obtain ⟨⟨common, q⟩, hcommon, h⟩ := h
  obtain ⟨rfl, rfl, hroom⟩ := readArchiveExact_eq_ok hcommon
  have hroom := hroom (by decide)
  have hcommonLength : (slice file position 7).length = 7 := length_slice_of_le hroom
  dsimp only at h
  split at h
  · cases h
  · rename_i hsize
    rw [subU64_eq (Nat.le_of_not_lt hsize), ok_bind] at h
    simp only [bind_eq_ok] at h
    obtain ⟨⟨remaining, q⟩, hremaining, _, -, h⟩ := h
    obtain ⟨rfl, rfl, hroom'⟩ := readArchiveExact_eq_ok hremaining
    obtain ⟨size, hsizeEq⟩ : ∃ size, leNat (slice (slice file position 7) 5 2) = size := ⟨_, rfl⟩
    rw [hsizeEq] at h hsize hroom'
    have hheader : slice file position 7 ++ slice file (position + 7) (size - 7) = slice file position size := by
      rw [← slice_add, Nat.add_sub_cancel' (by omega)]
    have hinside : position + 7 + (size - 7) ≤ file.length := by
      by_cases hzero : size - 7 = 0
      · omega
      · exact hroom' hzero
    have hlength : (slice file position size).length = size := length_slice_of_le (by omega)
    have hfront : ∀ i n, i + n ≤ 7 → slice (slice file position size) i n = slice (slice file position 7) i n := by
      intro i n hn
      rw [slice_slice (by omega), slice_slice hn]
    have hdrop : (slice file position size).drop 7 = slice file (position + 7) (size - 7) := by
      rw [← hheader]
      exact List.drop_left' hcommonLength
    have hchecked : (slice file position size).drop 2 =
        (slice file position 7).drop 2 ++ slice file (position + 7) (size - 7) := by
      rw [← hheader, List.drop_append_of_le_length (by omega)]
    dsimp only at h
    split at h
    · cases h
    · rename_i hsum
      simp only [bind_eq_ok] at h
      obtain ⟨⟨⟩, hvalid, dataSize, hdata, h⟩ := h
      cases h
      refine ⟨slice file position size, ?_, ?_, ?_, ?_, ?_, ?_, ?_, ?_, ?_⟩
      · rw [hlength]
      · rw [hlength, hfront 5 2 (by decide), hsizeEq]
        exact ⟨by omega, rfl⟩
      · rw [hlength]
        omega
      · exact hinside
      · rw [hchecked, hfront 0 2 (by decide)]
        exact not_not.1 hsum
      · rw [hfront 2 1 (by decide)]
      · rw [hfront 3 2 (by decide)]
      · rw [hdrop]
        exact hvalid
      · rw [hdrop]
        exact hdata

/-! ## Calls that do not panic -/

/-- What a value satisfies when it is returned is known next to a call that does not panic. -/
theorem sound_of_eq_ok {α : Type} {r : Res α} {P : α → Prop} (h : Sound r fun _ => True) (hP : ∀ a, r = .ok a → P a) :
    Sound r P := by
  match r with
  | .ok a => exact hP a rfl
  | .error (.raised _) => exact trivial

theorem sound_readArchiveExact (data : List UInt8) (position n : Nat) (field : String) :
    Sound (readArchiveExact data position n field) fun _ => True :=
  sound_ite (fun _ => sound_raise _) fun _ => sound_ok trivial

theorem sound_readVintFrom (data : List UInt8) (left position shiftIndex value : Nat) (bytes : List UInt8) :
    Sound (readVintFrom data left position shiftIndex value bytes) fun _ => True := by
  induction left generalizing position shiftIndex value bytes with
  | zero => exact sound_raise _
  | succ left ih =>
    refine sound_bind (sound_readArchiveExact data position 1 _) fun read _ => ?_
    exact sound_ite (fun _ => sound_raise _) fun _ => sound_ite (fun _ => sound_ok trivial) fun _ => ih _ _ _ _

theorem sound_readVint (data : List UInt8) (maxBytes position : Nat) :
    Sound (readVint data maxBytes position) fun _ => True := by
  unfold readVint readVintBytes
  rw [map_eq_pure_bind]
  exact sound_bind (sound_readVintFrom data maxBytes position 0 0 []) fun _ _ => sound_ok trivial

theorem sound_rar5Fields (header : List UInt8) : Sound (rar5Fields header) fun _ => True := by
  refine sound_bind (sound_readVint header 10 0) fun headerType _ => ?_
  refine sound_bind (sound_readVint header 10 headerType.2) fun headerFlags _ => ?_
  refine sound_bind (P := fun _ => True) ?_ fun extraSize _ => sound_bind (P := fun _ => True) ?_ fun dataSize _ => ?_
  · refine sound_ite (fun _ => ?_) fun _ => sound_ok trivial
    exact sound_bind (sound_readVint header 10 _) fun _ _ => sound_ite (fun _ => sound_raise _) fun _ => sound_ok trivial
  · exact sound_ite (fun _ => sound_readVint header 10 _) fun _ => sound_ok trivial
  · dsimp only
    split
    · exact sound_raise _
    · exact sound_ok trivial

theorem sound_readRar5Block (file : List UInt8) (position : Nat) :
    Sound (readRar5Block file position) fun block =>
      ∃ sizeBytes header, Rar5BlockAt file position block.1 block.2 sizeBytes header := by
  refine sound_of_eq_ok ?_ fun block h => readRar5Block_sound h
  refine sound_bind (sound_readArchiveExact file position 4 _) fun expectedCrc _ => ?_
  refine sound_bind (sound_readVintFrom file 3 _ 0 0 []) fun size _ => sound_ite (fun _ => sound_raise _) fun _ => ?_
  dsimp only
  split
  · exact sound_raise _
  · refine sound_ite (fun _ => sound_raise _) fun _ => ?_
    refine sound_bind (sound_readArchiveExact file _ _ _) fun header _ => sound_ite (fun _ => sound_raise _) fun _ => ?_
    exact sound_bind (sound_rar5Fields _) fun _ _ => sound_ok trivial

theorem sound_validateRar4HeaderFields (headerType flags : Nat) (remaining : List UInt8) :
    Sound (validateRar4HeaderFields headerType flags remaining) fun _ => True :=
  sound_ite (fun _ => sound_raise _) fun _ => sound_ok trivial

theorem sound_rar4DataSize (headerType flags : Nat) (remaining : List UInt8) :
    Sound (rar4DataSize headerType flags remaining) fun _ => True :=
  sound_ite (fun _ => sound_ok trivial) fun _ => sound_ite (fun _ => sound_raise _) fun _ =>
    sound_ite (fun _ => sound_ok trivial) fun _ => sound_ite (fun _ => sound_raise _) fun _ => sound_ok trivial

theorem sound_readRar4Block (file : List UInt8) (position : Nat) :
    Sound (readRar4Block file position) fun block => ∃ header, Rar4BlockAt file position block.1 block.2 header := by
  refine sound_of_eq_ok ?_ fun block h => readRar4Block_sound h
  refine sound_bind (sound_readArchiveExact file position 7 _) fun common _ => sound_ite (fun _ => sound_raise _) fun hsize => ?_
  -- the two lengths are taken from a size that is at least seven
  rw [subU64_eq (Nat.le_of_not_lt hsize), ok_bind, subU64_eq (Nat.le_trans (by decide) (Nat.le_of_not_lt hsize))]
  refine sound_bind (sound_readArchiveExact file _ _ _) fun remaining _ => ?_
  dsimp only
  rw [ok_bind]
  refine sound_ite (fun _ => sound_raise _) fun _ => ?_
  refine sound_bind (sound_validateRar4HeaderFields _ _ _) fun _ _ => ?_
  exact sound_bind (sound_rar4DataSize _ _ _) fun _ _ => sound_ok trivial

/-! ## Chains of blocks -/

/-- Blocks without a gap between them: where the header and the data of one end, inside the file, the next one begins. -/
inductive Chain {block : Type} (file : List UInt8) (BlockAt : Nat → block → Nat → Prop) (dataSize : block → Nat) :
    Nat → List block → Nat → Prop
  | nil {position : Nat} : Chain file BlockAt dataSize position [] position
  | cons {position headerEnd last : Nat} {b : block} {later : List block} (stands : BlockAt position b headerEnd)
    (inside : headerEnd + dataSize b ≤ file.length) (chain : Chain file BlockAt dataSize (headerEnd + dataSize b) later last) :
    Chain file BlockAt dataSize position (b :: later) last

theorem Chain.append_block {block : Type} {file : List UInt8} {BlockAt : Nat → block → Nat → Prop} {dataSize : block → Nat}
    {first position headerEnd : Nat} {before : List block} {b : block}
    (h : Chain file BlockAt dataSize first before position) (stands : BlockAt position b headerEnd)
    (inside : headerEnd + dataSize b ≤ file.length) :
    Chain file BlockAt dataSize first (before ++ [b]) (headerEnd + dataSize b) := by
  induction h with
  | nil => exact .cons stands inside .nil
  | cons stands' inside' _ ih => exact .cons stands' inside' (ih stands)

/-! ## Loops from block to block -/

section Rounds

variable {main : Type} {file : List UInt8} {round : Option main → Nat → Res (Round main)}
  {atEnd : Option main → Res RarVolumeMetadata} {P : Option main → Nat → Prop} {Q : RarVolumeMetadata → Prop}

/-- What a round keeps: it is over with a result of which `Q` holds, or comes further with `P`. -/
def Round.Keeps (P : Option main → Nat → Prop) (Q : RarVolumeMetadata → Prop) (position : Nat) : Round main → Prop
  | .done metadata => Q metadata
  | .next found behind => position < behind ∧ P found behind

/-- A loop whose rounds keep `P` and come further ends without a panic within as many rounds as there are bytes left, and
`Q` holds of its result. -/
theorem rounds_sound (hround : ∀ found position, P found position → position < file.length →
      Sound (round found position) (Round.Keeps P Q position))
    (hend : ∀ found position, P found position → file.length ≤ position → Sound (atEnd found) Q)
    {left : Nat} {found : Option main} {position : Nat} (hstart : P found position) (hleft : file.length - position < left) :
    ∃ result, rounds file round atEnd left found position = some result ∧ Sound result Q := by
  induction left generalizing found position with
  | zero => exact absurd hleft (Nat.not_lt_zero _)
  | succ left ih =>
    rw [rounds]
    by_cases hinside : position < file.length
    · rw [if_pos hinside]
      have hsound := hround found position hstart hinside
      match hr : round found position with
      | .error (.raised error) => exact ⟨.error (.raised error), rfl, trivial⟩
      | .error (.panicked message) =>
        rw [hr] at hsound
        exact hsound.elim
      | .ok (.done metadata) =>
        rw [hr] at hsound
        exact ⟨.ok metadata, rfl, hsound⟩
      | .ok (.next found' behind) =>
        rw [hr] at hsound
        obtain ⟨hlt, hkept⟩ := hsound
        exact ih hkept (by omega)
    · rw [if_neg hinside]
      exact ⟨atEnd found, rfl, hend found position hstart (Nat.le_of_not_lt hinside)⟩

theorem sound_nextBlock {format : String} {found : Option main} {position headerEnd dataSize : Nat}
    (hposition : position < headerEnd) (hkept : headerEnd + dataSize ≤ file.length → P found (headerEnd + dataSize)) :
    Sound (nextBlock file format found headerEnd dataSize) (Round.Keeps P Q position) := by
  unfold nextBlock
  split
  · exact sound_raise _
  · rename_i behind hbehind
    obtain ⟨rfl, -⟩ := checkedAddU64_eq_some.1 hbehind
    refine sound_ite (fun _ => sound_raise _) fun hinside => sound_ok ?_
    exact ⟨Nat.lt_of_lt_of_le hposition (Nat.le_add_right _ _), hkept (Nat.le_of_not_lt hinside)⟩

end Rounds

/-! ## RAR 5 -/

/-- A RAR 5 block with a right checksum. -/
def Rar5Stands (file : List UInt8) (position : Nat) (block : Rar5Block) (headerEnd : Nat) : Prop :=
  ∃ sizeBytes header, Rar5BlockAt file position block headerEnd sizeBytes header

theorem Rar5Stands.lt {file : List UInt8} {position headerEnd : Nat} {block : Rar5Block}
    (h : Rar5Stands file position block headerEnd) : position < headerEnd := by
  obtain ⟨sizeBytes, header, h⟩ := h
  have := h.next_eq
  omega

abbrev Rar5Chain (file : List UInt8) : Nat → List Rar5Block → Nat → Prop :=
  Chain file (Rar5Stands file) Rar5Block.dataSize

/-- The fields of a main header: its flags, and the number of the volume if they announce one. -/
def Rar5MainFields (specificFields : List UInt8) (isVolume : Bool) (index : Option Nat) : Prop :=
  ∃ flags p, VintAt 10 specificFields 0 flags p ∧ isVolume = flags.testBit 0 ∧
    if flags.testBit 1 then isVolume = true ∧ ∃ number q, VintAt 10 specificFields p number q ∧ index = some number
    else index = if isVolume then some 0 else none

/-- The blocks before a main header: they neither are one, nor end the archive, nor encrypt what follows. -/
structure Rar5Before (file : List UInt8) (before : List Rar5Block) (position : Nat) : Prop where
  chain : Rar5Chain file rar5Magic.length before position
  other : ∀ block ∈ before, block.headerType ≠ rar5MainHeader ∧ block.headerType ≠ rar5EncryptionHeader ∧
    block.headerType ≠ rar5EndHeader

/-- The blocks up to a position behind the first main header. -/
structure Rar5Main.Found (file : List UInt8) (found : Rar5Main) (before : List Rar5Block) (main : Rar5Block)
    (between : List Rar5Block) (position : Nat) : Prop where
  chain : Rar5Chain file rar5Magic.length (before ++ main :: between) position
  first : ∀ block ∈ before, block.headerType ≠ rar5MainHeader ∧ block.headerType ≠ rar5EncryptionHeader ∧
    block.headerType ≠ rar5EndHeader
  headerType : main.headerType = rar5MainHeader
  fields : Rar5MainFields main.specificFields found.1 found.2
  noEnd : ∀ block ∈ between, block.headerType ≠ rar5EndHeader

/-- Where the loop of `inspect_rar5` has come to. -/
def Rar5Reached (file : List UInt8) : Option Rar5Main → Nat → Prop
  | none, position => ∃ before, Rar5Before file before position
  | some found, position => ∃ before main between, found.Found file before main between position

/-- What the inspection of a RAR 5 volume returns is said by its blocks: a chain leads from the signature over the main
header to the header of the end. -/
structure Rar5Inspected (file : List UInt8) (metadata : RarVolumeMetadata) (before : List Rar5Block) (main : Rar5Block)
    (between : List Rar5Block) (position : Nat) (last : Rar5Block) (headerEnd : Nat) : Prop where
  found : Rar5Main.Found file (metadata.isVolume, metadata.index) before main between position
  stands : Rar5Stands file position last headerEnd
  headerType : last.headerType = rar5EndHeader
  hasNext : ∃ flags p, VintAt 10 last.specificFields 0 flags p ∧ metadata.hasNext = some (flags.testBit 0)
  rest : metadata.version = .rar5 ∧ metadata.headersEncrypted = false ∧ metadata.firstVolume = none

def Rar5Ended (file : List UInt8) (metadata : RarVolumeMetadata) : Prop :=
  ∃ before main between position last headerEnd, Rar5Inspected file metadata before main between position last headerEnd

theorem sound_rar5Main (specificFields : List UInt8) :
    Sound (rar5Main specificFields) fun found => Rar5MainFields specificFields found.1 found.2 := by
  refine sound_of_eq_ok ?_ fun found h => ?_
  · refine sound_bind (sound_readVint specificFields 10 0) fun flags _ => ?_
    refine sound_bind (P := fun _ => True) ?_ fun index _ => sound_ite (fun _ => sound_raise _) fun _ => sound_ok trivial
    refine sound_ite (fun _ => ?_) fun _ => sound_ite (fun _ => sound_ok trivial) fun _ => sound_ok trivial
    rw [map_eq_pure_bind]
    exact sound_bind (sound_readVint specificFields 10 _) fun _ _ => sound_ok trivial
  · simp only [rar5Main, bind_eq_ok] at h
    obtain ⟨⟨flags, p⟩, hflags, index, hindex, h⟩ := h
    have hflags := (readVint_eq_ok (by decide)).1 hflags
    dsimp only at hindex h
    unfold rar5Index at hindex
    by_cases hnumber : flags.testBit 1
    · rw [if_pos hnumber, map_eq_pure_bind, bind_eq_ok] at hindex
      obtain ⟨⟨number, q⟩, hread, hindex⟩ := hindex
      cases hindex
      rw [hnumber, Bool.and_true] at h
      split at h
      · cases h
      · rename_i hvolume
        cases h
        refine ⟨flags, p, hflags, rfl, ?_⟩
        rw [if_pos hnumber]
        exact ⟨by simpa using hvolume, number, q, (readVint_eq_ok (by decide)).1 hread, rfl⟩
    · rw [Bool.not_eq_true] at hnumber
      rw [hnumber, Bool.and_false, if_neg Bool.false_ne_true] at h
      cases h
      refine ⟨flags, p, hflags, rfl, ?_⟩
      rw [if_neg (by rw [hnumber]; exact Bool.false_ne_true)]
      rw [hnumber, if_neg Bool.false_ne_true] at hindex
      by_cases hvolume : flags.testBit 0
      · rw [if_pos hvolume] at hindex ⊢
        cases hindex
        rfl
      · rw [if_neg hvolume] at hindex ⊢
        cases hindex
        rfl

/-- A round of `inspect_rar5`. -/
theorem sound_rar5Round {file : List UInt8} {found : Option Rar5Main} {position : Nat}
    (h : Rar5Reached file found position) :
    Sound (rar5Round file found position) (Round.Keeps (Rar5Reached file) (Rar5Ended file) position) := by
  refine sound_bind (sound_readRar5Block file position) fun ⟨block, headerEnd⟩ hstands => ?_
  have hstands : Rar5Stands file position block headerEnd := hstands
  refine sound_ite (fun _ => sound_raise _) fun hencryption => sound_ite (fun hmain => ?_) fun hmain =>
    sound_ite (fun hend => ?_) fun hend => ?_
  · -- the main header
    refine sound_bind (sound_rar5Main block.specificFields) fun found' hfields => ?_
    refine sound_nextBlock hstands.lt fun hinside => ?_
    cases found with
    | some _ => cases hmain.2
    | none =>
      obtain ⟨before, hbefore⟩ := h
      exact ⟨before, block, [], hbefore.chain.append_block hstands hinside, hbefore.other, hmain.1, hfields,
        fun _ hb => absurd hb List.not_mem_nil⟩
  · -- the header of the end
    cases found with
    | none => exact sound_raise _
    | some found =>
      obtain ⟨before, main, between, hfound⟩ := h
      unfold rar5End
      refine sound_bind (P := fun metadata => Rar5Ended file metadata) ?_ fun _ h => sound_ok h
      refine sound_bind (P := fun flags => VintAt 10 block.specificFields 0 flags.1 flags.2)
        (sound_of_eq_ok (sound_readVint block.specificFields 10 0) fun flags hflags =>
          (readVint_eq_ok (by decide)).1 hflags) fun flags hflags => sound_ok ?_
      exact ⟨before, main, between, position, block, headerEnd, hfound, hstands, hend, ⟨flags.1, flags.2, hflags, rfl⟩,
        rfl, rfl, rfl⟩
  · -- any other block is passed over
    refine sound_nextBlock hstands.lt fun hinside => ?_
    cases found with
    | none =>
      obtain ⟨before, hbefore⟩ := h
      refine ⟨before ++ [block], hbefore.chain.append_block hstands hinside, fun b hb => ?_⟩
      rcases List.mem_append.1 hb with hb | hb
      · exact hbefore.other b hb
      · cases List.mem_singleton.1 hb
        exact ⟨fun h => hmain ⟨h, rfl⟩, fun h => hencryption ⟨h, rfl⟩, hend⟩
    | some found =>
      obtain ⟨before, main, between, hfound⟩ := h
      have hchain := hfound.chain.append_block hstands hinside
      rw [List.append_assoc, List.cons_append] at hchain
      refine ⟨before, main, between ++ [block], hchain, hfound.first, hfound.headerType, hfound.fields, fun b hb => ?_⟩
      rcases List.mem_append.1 hb with hb | hb
      · exact hfound.noEnd b hb
      · cases List.mem_singleton.1 hb
        exact hend

theorem inspectRar5_sound {file : List UInt8} {left : Nat} (hleft : file.length - rar5Magic.length < left) :
    ∃ result, inspectRar5 file left = some result ∧ Sound result (Rar5Ended file) :=
  rounds_sound (P := Rar5Reached file) (fun _ _ h _ => sound_rar5Round h) (fun _ _ _ _ => sound_raise _)
    ⟨[], .nil, fun _ hb => absurd hb List.not_mem_nil⟩ hleft

/-! ## RAR 4 -/

/-- A RAR 4 block with a right checksum. -/
def Rar4Stands (file : List UInt8) (position : Nat) (block : Rar4Block) (headerEnd : Nat) : Prop :=
  ∃ header, Rar4BlockAt file position block headerEnd header

theorem Rar4Stands.lt {file : List UInt8} {position headerEnd : Nat} {block : Rar4Block}
    (h : Rar4Stands file position block headerEnd) : position < headerEnd := by
  obtain ⟨header, h⟩ := h
  have := h.next_eq
  have := h.length.1
  omega

abbrev Rar4Chain (file : List UInt8) : Nat → List Rar4Block → Nat → Prop :=
  Chain file (Rar4Stands file) Rar4Block.dataSize

/-- The blocks before a main header. -/
structure Rar4Before (file : List UInt8) (before : List Rar4Block) (position : Nat) : Prop where
  chain : Rar4Chain file rar4Magic.length before position
  other : ∀ block ∈ before, block.headerType ≠ rar4MainHeader ∧ block.headerType ≠ rar4EndHeader

/-- The blocks up to a position behind the first main header, which does not encrypt what follows. -/
structure Rar4Found (file : List UInt8) (found : RarVolumeMetadata) (before : List Rar4Block) (main : Rar4Block)
    (between : List Rar4Block) (position : Nat) : Prop where
  chain : Rar4Chain file rar4Magic.length (before ++ main :: between) position
  first : ∀ block ∈ before, block.headerType ≠ rar4MainHeader ∧ block.headerType ≠ rar4EndHeader
  headerType : main.headerType = rar4MainHeader
  fields : found = rar4Main main.flags
  plain : found.headersEncrypted = false
  noEnd : ∀ block ∈ between, block.headerType ≠ rar4EndHeader

def Rar4Reached (file : List UInt8) : Option RarVolumeMetadata → Nat → Prop
  | none, position => ∃ before, Rar4Before file before position
  | some found, position => ∃ before main between, Rar4Found file found before main between position

/-- What the inspection of a RAR 4 volume returns is said by its blocks: by a main header that encrypts what follows, by a
main header and the header of the end, or by a main header alone where the blocks reach the end of the file. -/
inductive Rar4Ended (file : List UInt8) : RarVolumeMetadata → Prop
  | encrypted {before : List Rar4Block} {main : Rar4Block} {position headerEnd : Nat} (found : Rar4Before file before position)
    (stands : Rar4Stands file position main headerEnd) (headerType : main.headerType = rar4MainHeader)
    (headersEncrypted : (rar4Main main.flags).headersEncrypted = true) : Rar4Ended file (rar4Main main.flags)
  | ended {before between : List Rar4Block} {main last : Rar4Block} {metadata : RarVolumeMetadata} {position headerEnd : Nat}
    (found : Rar4Found file metadata before main between position) (stands : Rar4Stands file position last headerEnd)
    (headerType : last.headerType = rar4EndHeader) :
    Rar4Ended file { metadata with hasNext := some (last.flags.testBit 0) }
  | fileEnd {before between : List Rar4Block} {main : Rar4Block} {metadata : RarVolumeMetadata}
    (found : Rar4Found file metadata before main between file.length) : Rar4Ended file metadata

theorem Chain.last_le {block : Type} {file : List UInt8} {BlockAt : Nat → block → Nat → Prop} {dataSize : block → Nat}
    {first last : Nat} {blocks : List block} (h : Chain file BlockAt dataSize first blocks last) (hblocks : blocks ≠ []) :
    last ≤ file.length := by
  induction h with
  | nil => exact absurd rfl hblocks
  | @cons _ _ _ _ later _ inside chain ih =>
    cases later with
    | nil =>
      cases chain
      exact inside
    | cons => exact ih (List.cons_ne_nil _ _)

/-- A round of `inspect_rar4`. -/
theorem sound_rar4Round {file : List UInt8} {found : Option RarVolumeMetadata} {position : Nat}
    (h : Rar4Reached file found position) :
    Sound (rar4Round file found position) (Round.Keeps (Rar4Reached file) (Rar4Ended file) position) := by
  refine sound_bind (sound_readRar4Block file position) fun ⟨block, headerEnd⟩ hstands => ?_
  have hstands : Rar4Stands file position block headerEnd := hstands
  refine sound_ite (fun hmain => ?_) fun hmain => sound_ite (fun hend => ?_) fun hend => ?_
  · cases found with
    | some _ => cases hmain.2
    | none =>
      obtain ⟨before, hbefore⟩ := h
      refine sound_ite (fun hencrypted => sound_ok ?_) fun hplain => sound_nextBlock hstands.lt fun hinside => ?_
      · exact .encrypted hbefore hstands hmain.1 hencrypted
      · exact ⟨before, block, [], hbefore.chain.append_block hstands hinside, hbefore.other, hmain.1, rfl,
          Bool.eq_false_iff.2 hplain, fun _ hb => absurd hb List.not_mem_nil⟩
  · cases found with
    | none => exact sound_raise _
    | some found =>
      obtain ⟨before, main, between, hfound⟩ := h
      exact sound_ok (Rar4Ended.ended hfound hstands hend)
  · refine sound_nextBlock hstands.lt fun hinside => ?_
    cases found with
    | none =>
      obtain ⟨before, hbefore⟩ := h
      refine ⟨before ++ [block], hbefore.chain.append_block hstands hinside, fun b hb => ?_⟩
      rcases List.mem_append.1 hb with hb | hb
      · exact hbefore.other b hb
      · cases List.mem_singleton.1 hb
        exact ⟨fun h => hmain ⟨h, rfl⟩, hend⟩
    | some found =>
      obtain ⟨before, main, between, hfound⟩ := h
      have hchain := hfound.chain.append_block hstands hinside
      rw [List.append_assoc, List.cons_append] at hchain
      refine ⟨before, main, between ++ [block], hchain, hfound.first, hfound.headerType, hfound.fields, hfound.plain,
        fun b hb => ?_⟩
      rcases List.mem_append.1 hb with hb | hb
      · exact hfound.noEnd b hb
      · cases List.mem_singleton.1 hb
        exact hend

theorem inspectRar4_sound {file : List UInt8} {left : Nat} (hleft : file.length - rar4Magic.length < left) :
    ∃ result, inspectRar4 file left = some result ∧ Sound result (Rar4Ended file) := by
  refine rounds_sound (P := Rar4Reached file) (fun _ _ h _ => sound_rar4Round h) (fun found position h hend => ?_)
    ⟨[], .nil, fun _ hb => absurd hb List.not_mem_nil⟩ hleft
  cases found with
  | none => exact sound_raise _
  | some found =>
    obtain ⟨before, main, between, hfound⟩ := h
    -- the blocks do not go beyond the end of the file
    have hlast : position = file.length :=
      Nat.le_antisymm (hfound.chain.last_le (List.append_ne_nil_of_right_ne_nil _ (List.cons_ne_nil _ _))) hend
    subst hlast
    exact Rar4Ended.fileEnd hfound

/-! ## The inspection -/

/-- What an inspection returns is said by the blocks behind the signature. -/
inductive Inspected (file : List UInt8) (metadata : RarVolumeMetadata) : Prop
  | rar5 (signature : rar5Magic <+: file) (ended : Rar5Ended file metadata)
  | rar4 (signature : rar4Magic <+: file) (ended : Rar4Ended file metadata)

/-- The inspection of any stream ends after at most as many rounds as there are bytes, without a panic, at the position
where it began; the decoder of its integers accepts the complete encodings within its limit whose value fits 64 bits; and
what is returned is said by a chain of blocks from the signature on. -/
theorem inspectRar_total_sound :
    (∀ (src : Source) (left : Nat), src.file.length < left → ∃ result, inspectRar src left = some (result, src) ∧
      (∀ message, result ≠ .error (.panicked message)) ∧ ∀ metadata, result = .ok metadata → Inspected src.file metadata) ∧
    ∀ (data : List UInt8) (maxBytes position value position' : Nat) (bytes : List UInt8), maxBytes = 3 ∨ maxBytes = 10 →
      (readVintBytes data maxBytes position = .ok ((value, bytes), position') ↔
        CompleteVint bytes ∧ bytes.length ≤ maxBytes ∧ bytes <+: data.drop position ∧ value = vintValue bytes ∧
          value < 2 ^ 64 ∧ position' = position + bytes.length) := by
  constructor
  · intro src left hleft
    have hresult : ∃ result, inspectRar src left = some (result, src) ∧ Sound result (Inspected src.file) := by
      unfold inspectRar
      by_cases hshort : src.file.length < 8
      · rw [if_pos hshort]
        exact ⟨_, rfl, sound_raise _⟩
      · rw [if_neg hshort]
        by_cases hrar5 : slice src.file 0 8 = rar5Magic
        · obtain ⟨result, hrun, hsound⟩ := @inspectRar5_sound src.file left (by omega)
          rw [if_pos hrar5, hrun]
          refine ⟨result, rfl, hsound.mono fun metadata h => .rar5 ?_ h⟩
          rw [← hrar5]
          exact List.take_prefix _ _
        · rw [if_neg hrar5]
          by_cases hrar4 : (slice src.file 0 8).take rar4Magic.length = rar4Magic
          · obtain ⟨result, hrun, hsound⟩ := @inspectRar4_sound src.file left (by omega)
            rw [if_pos hrar4, hrun]
            refine ⟨result, rfl, hsound.mono fun metadata h => .rar4 ?_ h⟩
            rw [← hrar4]
            exact (List.take_prefix _ _).trans (List.take_prefix _ _)
          · rw [if_neg hrar4]
            exact ⟨_, rfl, sound_raise _⟩
    obtain ⟨result, hrun, hsound⟩ := hresult
    exact ⟨result, hrun, hsound.not_panicked, fun metadata h => hsound.eq_ok h⟩
  · intro data maxBytes position value position' bytes hmax
    exact readVintBytes_eq_ok (by omega)

/-- A first volume of two: a main header that marks a volume, and a header of the end that announces the next one. -/
def firstVolume : List UInt8 := rar5Magic ++ [83, 42, 52, 69, 3, 1, 0, 1, 143, 130, 61, 66, 3, 5, 0, 1]

theorem inspectRar_firstVolume :
    inspectRar ⟨firstVolume, 2⟩ 25 = some (.ok ⟨.rar5, true, some 0, some true, false, none⟩, ⟨firstVolume, 2⟩) ∧
      Inspected firstVolume ⟨.rar5, true, some 0, some true, false, none⟩ := by
  have hrun : inspectRar ⟨firstVolume, 2⟩ 25 =
      some (.ok ⟨.rar5, true, some 0, some true, false, none⟩, ⟨firstVolume, 2⟩) := by decide +kernel
  obtain ⟨result, hresult, -, hinspected⟩ := inspectRar_total_sound.1 ⟨firstVolume, 2⟩ 25 (by decide)
  rw [hrun] at hresult
  cases hresult
  exact ⟨hrun, hinspected _ rfl⟩

end Squallz.Rar
