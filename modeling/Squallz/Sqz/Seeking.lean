/-
The source of a repaired container and the bounded readers over it answer every sequence of seeks and reads as flat
files: the file with its blocks replaced, and a part of that file.
-/
import Squallz.Bytes.Stream
import Squallz.Sqz.Reader

namespace Squallz.Sqz

open Squallz.Api Squallz.Bytes

/-! ## The readers -/

/-- A seek to a position from 0 to `limit`. -/
def seekWithin (message : String) (limit len pos : Nat) (whence : SeekFrom) : Except IoError Nat :=
  let next := whence.target len pos
  if next < 0 ∨ (limit : Int) < next then .error ⟨.invalidInput, message⟩ else .ok next.toNat

structure RecoveredReadSeek where
  inner : List UInt8
  recovery : RecoveredPayload
  len : Nat
  pos : Nat

namespace RecoveredReadSeek

def seek (r : RecoveredReadSeek) (whence : SeekFrom) : Except IoError (Nat × RecoveredReadSeek) := do
  let next ← seekWithin "invalid SQZ payload seek" (2 ^ 64 - 1) r.len r.pos whence
  return (next, { r with pos := next })

/-- The system picks how many bytes a read of the file returns. -/
def read (r : RecoveredReadSeek) (bufLen pick : Nat) : Except IoError (List UInt8 × RecoveredReadSeek) := do
  let bytes ← recoveredRead r.inner r.recovery r.len r.pos bufLen pick
  return (bytes, { r with pos := r.pos + bytes.length })

def reader : StreamReader RecoveredReadSeek Nat IoError := ⟨seek, read⟩

end RecoveredReadSeek

namespace BoundedReadSeek

def seek (r : BoundedReadSeek) (whence : SeekFrom) : Except IoError (Nat × BoundedReadSeek) := do
  let next ← seekWithin "seek outside bounded SQZ payload" r.len r.len r.pos whence
  return (next, { r with pos := next })

def reader : StreamReader BoundedReadSeek Nat IoError := ⟨seek, read⟩

end BoundedReadSeek

/-! ## The repaired file -/

namespace RecoveredPayload

/-- The payload block that a position lies in. -/
def blockAt (recovery : RecoveredPayload) (i : Nat) : Option Nat :=
  if recovery.payloadStart ≤ i ∧ i < recovery.payloadStart + recovery.payloadLength then
    some ((i - recovery.payloadStart) / recovery.blockSize)
  else none

/-- The byte of the repaired block at a position. -/
def patchAt (recovery : RecoveredPayload) (i : Nat) : Option UInt8 :=
  (recovery.blockAt i).bind fun index => (recovery.repairedBlocks.lookup index).bind fun block =>
    block[(i - recovery.payloadStart) % recovery.blockSize]?

/-- The file in which each repaired block stands in the place of the damaged one; the bytes of the unrepaired blocks
cannot be read. -/
def flat (recovery : RecoveredPayload) (src : List UInt8) : Flat where
  content := src.mapIdx fun i byte => (recovery.patchAt i).getD byte
  lost i := ∃ index ∈ recovery.unrepairedBlocks, recovery.blockAt i = some index

/-- The repaired blocks are as long as the parts of the payload that they replace. -/
structure Fits (recovery : RecoveredPayload) : Prop where
  blockSize_pos : 0 < recovery.blockSize
  whole : ∀ index block, recovery.repairedBlocks.lookup index = some block →
    min recovery.blockSize (recovery.payloadLength - index * recovery.blockSize) ≤ block.length

variable {recovery : RecoveredPayload} {src : List UInt8}

@[simp] theorem length_flat : (recovery.flat src).content.length = src.length := List.length_mapIdx

theorem getElem?_flat (i : Nat) :
    (recovery.flat src).content[i]? = src[i]?.map fun byte => (recovery.patchAt i).getD byte := List.getElem?_mapIdx

/-- Where no block is repaired, the file is the source. -/
theorem slice_flat_of_unpatched {pos n : Nat} (h : ∀ i, pos ≤ i → i < pos + n → recovery.patchAt i = none) :
    slice (recovery.flat src).content pos n = slice src pos n := by
  refine slice_congr fun i hi hlt => ?_
  rw [getElem?_flat, h i hi hlt]
  simp

theorem blockAt_eq_some {i index : Nat} : recovery.blockAt i = some index ↔
    (recovery.payloadStart ≤ i ∧ i < recovery.payloadStart + recovery.payloadLength) ∧
      (i - recovery.payloadStart) / recovery.blockSize = index := by
  unfold blockAt
  split <;> simp [*]

theorem blockAt_eq_none {i : Nat} (h : i < recovery.payloadStart ∨ recovery.payloadStart + recovery.payloadLength ≤ i) :
    recovery.blockAt i = none := by
  unfold blockAt
  rw [if_neg (by omega)]

theorem patchAt_of_blockAt_none {i : Nat} (h : recovery.blockAt i = none) : recovery.patchAt i = none := by
  simp [patchAt, h]

theorem not_lost_of_blockAt_none {i : Nat} (h : recovery.blockAt i = none) : ¬ (recovery.flat src).lost i := by
  rintro ⟨index, -, hindex⟩
  rw [h] at hindex
  cases hindex

/-- The positions up to the end of a block lie in the block, one behind the other. -/
theorem blockAt_add {pos k : Nat} (hpos : recovery.payloadStart ≤ pos)
    (hend : pos + k < recovery.payloadStart + recovery.payloadLength)
    (hblock : (pos - recovery.payloadStart) % recovery.blockSize + k < recovery.blockSize) :
    recovery.blockAt (pos + k) = some ((pos - recovery.payloadStart) / recovery.blockSize) ∧
      (pos + k - recovery.payloadStart) % recovery.blockSize = (pos - recovery.payloadStart) % recovery.blockSize + k := by
  have hsub : pos + k - recovery.payloadStart = (pos - recovery.payloadStart) + k := by omega
  have hdiv := Nat.div_add_mod (pos - recovery.payloadStart) recovery.blockSize
  have hsum : pos + k - recovery.payloadStart =
      recovery.blockSize * ((pos - recovery.payloadStart) / recovery.blockSize) +
        ((pos - recovery.payloadStart) % recovery.blockSize + k) := by omega
  constructor
  · rw [blockAt_eq_some, hsum, Nat.mul_add_div (by omega), Nat.div_eq_of_lt hblock]
    exact ⟨by omega, rfl⟩
  · rw [hsum, Nat.mul_add_mod, Nat.mod_eq_of_lt hblock]

end RecoveredPayload

/-! ## Reads of the repaired file -/

section Reads

open RecoveredPayload

variable {recovery : RecoveredPayload} {src : List UInt8} {pos bufLen pick want : Nat}

theorem length_sourceRead : (sourceRead src pos want pick).length = min (min want (max pick 1)) (src.length - pos) :=
  length_slice _ _ _

/-- A read of the source reads the repaired file where no block is repaired or given up. -/
theorem reads_sourceRead (hpos : pos < src.length) (hwant : 0 < want) (hle : want ≤ bufLen)
    (hpatch : ∀ i, pos ≤ i → i < pos + want → recovery.patchAt i = none)
    (hlost : ∀ i, pos ≤ i → i < pos + want → ¬ (recovery.flat src).lost i) :
    (recovery.flat src).Reads pos bufLen (sourceRead src pos want pick) := by
  have hlen : (sourceRead src pos want pick).length = min (min want (max pick 1)) (src.length - pos) := length_sourceRead
  constructor
  · rw [slice_flat_of_unpatched fun i hi hlt => hpatch i hi (by omega), hlen]
    unfold sourceRead
    apply List.ext_getElem?
    intro i
    rw [getElem?_slice, getElem?_slice]
    by_cases hi : i < min (min want (max pick 1)) (src.length - pos)
    · rw [if_pos hi, if_pos (by omega)]
    · rw [if_neg hi]
      split
      · exact List.getElem?_eq_none (by omega)
      · rfl
  · omega
  · intro _ _ hnil
    rw [hnil, List.length_nil] at hlen
    omega
  · intro i hi
    exact hlost (pos + i) (by omega) (by omega)

/-- A read of a repaired block reads the repaired file. -/
theorem reads_repaired {block : List UInt8} (hpos : recovery.payloadStart ≤ pos) (hwant : 0 < want) (hle : want ≤ bufLen)
    (hsrc : pos + want ≤ src.length) (hend : pos + want ≤ recovery.payloadStart + recovery.payloadLength)
    (hblock : (pos - recovery.payloadStart) % recovery.blockSize + want ≤ recovery.blockSize)
    (hlookup : recovery.repairedBlocks.lookup ((pos - recovery.payloadStart) / recovery.blockSize) = some block)
    (hkept : (pos - recovery.payloadStart) / recovery.blockSize ∉ recovery.unrepairedBlocks)
    (hlen : (pos - recovery.payloadStart) % recovery.blockSize + want ≤ block.length) :
    (recovery.flat src).Reads pos bufLen (slice block ((pos - recovery.payloadStart) % recovery.blockSize) want) := by
  have hn := length_slice_of_le hlen
  constructor
  · rw [hn]
    apply List.ext_getElem?
    intro i
    rw [getElem?_slice, getElem?_slice]
    split
    · rename_i hi
      obtain ⟨hat, hmod⟩ := blockAt_add (k := i) hpos (by omega) (by omega)
      rw [getElem?_flat, patchAt, hat, Option.bind_some, hlookup, Option.bind_some, hmod,
        List.getElem?_eq_getElem (l := src) (by omega), List.getElem?_eq_getElem (l := block) (by omega)]
      rfl
    · rfl
  · omega
  · intro _ _ hnil
    rw [hnil, List.length_nil] at hn
    omega
  · rintro i hi ⟨index, hindex, hat⟩
    rw [(blockAt_add (k := i) hpos (by omega) (by omega)).1, Option.some_inj] at hat
    rw [← hat] at hindex
    exact hkept hindex

/-- A read returns bytes of the repaired file, or it begins in a block that could not be repaired. -/
theorem recoveredRead_flat (hfits : recovery.Fits) (src : List UInt8) (pos bufLen pick : Nat) :
    match recoveredRead src recovery src.length pos bufLen pick with
    | .ok bytes => (recovery.flat src).Reads pos bufLen bytes
    | .error _ => pos < src.length ∧ 0 < bufLen ∧ (recovery.flat src).lost pos := by
  unfold recoveredRead
  by_cases hnone : src.length ≤ pos ∨ bufLen = 0
  · rw [if_pos hnone]
    exact Flat.reads_nil _ (by rwa [length_flat])
  rw [if_neg hnone]
  by_cases hbefore : pos < recovery.payloadStart
  · simp only [if_pos hbefore]
    have hat : ∀ i, pos ≤ i → i < pos + min (recovery.payloadStart - pos) (min (src.length - pos) bufLen) →
        recovery.blockAt i = none := fun i _ _ => blockAt_eq_none (by omega)
    exact reads_sourceRead (by omega) (by omega) (by omega) (fun i hi hlt => patchAt_of_blockAt_none (hat i hi hlt))
      fun i hi hlt => not_lost_of_blockAt_none (hat i hi hlt)
  simp only [if_neg hbefore]
  by_cases hbehind : recovery.payloadLength ≤ pos - recovery.payloadStart
  · simp only [if_pos hbehind]
    have hat : ∀ i, pos ≤ i → recovery.blockAt i = none := fun i _ => blockAt_eq_none (by omega)
    exact reads_sourceRead (by omega) (by omega) (by omega) (fun i hi _ => patchAt_of_blockAt_none (hat i hi))
      fun i hi _ => not_lost_of_blockAt_none (hat i hi)
  simp only [if_neg hbehind]
  have hmod := Nat.mod_lt (pos - recovery.payloadStart) hfits.blockSize_pos
  have hdiv := Nat.div_add_mod' (pos - recovery.payloadStart) recovery.blockSize
  by_cases hunrepaired : (pos - recovery.payloadStart) / recovery.blockSize ∈ recovery.unrepairedBlocks
  · rw [if_pos hunrepaired]
    exact ⟨by omega, by omega, _, hunrepaired, blockAt_eq_some.2 ⟨by omega, rfl⟩⟩
  rw [if_neg hunrepaired]
  cases hlookup : recovery.repairedBlocks.lookup ((pos - recovery.payloadStart) / recovery.blockSize) with
  | some block =>
    have hlen := hfits.whole _ _ hlookup
    simp only []
    rw [if_neg (by omega)]
    exact reads_repaired (by omega) (by omega) (by omega) (by omega) (by omega) (by omega) hlookup hunrepaired (by omega)
  | none =>
    have hat : ∀ i, pos ≤ i → i < pos + min (min (recovery.payloadLength - (pos - recovery.payloadStart))
        (min (src.length - pos) bufLen)) (recovery.blockSize - (pos - recovery.payloadStart) % recovery.blockSize) →
        recovery.blockAt i = some ((pos - recovery.payloadStart) / recovery.blockSize) := by
      intro i hi hlt
      have hadd := (@blockAt_add recovery pos (i - pos) (by omega) (by omega) (by omega)).1
      rwa [show pos + (i - pos) = i by omega] at hadd
    refine reads_sourceRead (by omega) (by omega) (by omega) (fun i hi hlt => ?_) fun i hi hlt => ?_
    · rw [patchAt, hat i hi hlt, Option.bind_some, hlookup]
      rfl
    · rintro ⟨index, hindex, hblock⟩
      rw [hat i hi hlt, Option.some_inj] at hblock
      exact hunrepaired (hblock ▸ hindex)

/-- A read fails exactly where it begins in a block that could not be repaired. -/
theorem recoveredRead_eq_error_iff (hfits : recovery.Fits) : (∃ e, recoveredRead src recovery src.length pos bufLen pick =
    .error e) ↔ pos < src.length ∧ 0 < bufLen ∧ (recovery.flat src).lost pos := by
  have hread := recoveredRead_flat hfits src pos bufLen pick
  constructor
  · rintro ⟨e, he⟩
    rw [he] at hread
    exact hread
  · rintro ⟨hpos, hbuf, hlost⟩
    cases hr : recoveredRead src recovery src.length pos bufLen pick with
    | error e => exact ⟨e, rfl⟩
    | ok bytes =>
      rw [hr] at hread
      have hsome := List.length_pos_of_ne_nil (hread.progress (by rwa [length_flat]) hbuf)
      exact absurd hlost (hread.kept 0 hsome)

end Reads

/-! ## Every sequence of calls -/

theorem seekWithin_cases (message : String) (limit len pos : Nat) (whence : SeekFrom) :
    (∃ n, seekWithin message limit len pos whence = .ok n ∧ whence.target len pos = n ∧ n ≤ limit) ∨
      ∃ e, seekWithin message limit len pos whence = .error e ∧
        (whence.target len pos < 0 ∨ limit < whence.target len pos) := by
  unfold seekWithin
  by_cases h : whence.target len pos < 0 ∨ (limit : Int) < whence.target len pos
  · exact .inr ⟨_, if_pos h, h⟩
  · exact .inl ⟨_, if_neg h, by omega, by omega⟩

/-- The reader of the repaired file stands at a position of it. -/
def RecoveredReadSeek.At (src : List UInt8) (recovery : RecoveredPayload) (r : RecoveredReadSeek) (pos : Nat) : Prop :=
  r = ⟨src, recovery, src.length, pos⟩

/-- The bounded reader over the repaired file stands at a position of its part. -/
def BoundedReadSeek.At (src : List UInt8) (recovery : RecoveredPayload) (start len : Nat) (r : BoundedReadSeek) (pos : Nat) :
    Prop := r = ⟨.recovered src recovery src.length, start, len, pos⟩ ∧ pos ≤ len

theorem RecoveredReadSeek.answers_flat {recovery : RecoveredPayload} (hfits : recovery.Fits) (src : List UInt8)
    (pos : Nat) (calls : List (Call Nat)) :
    (recovery.flat src).Answers (2 ^ 64 - 1) pos calls (reader.answers ⟨src, recovery, src.length, pos⟩ calls) := by
  refine Flat.answers_of_steps (At src recovery) ?_ ?_ rfl calls
  · rintro s pos whence rfl
    rcases seekWithin_cases "invalid SQZ payload seek" (2 ^ 64 - 1) src.length pos whence with ⟨n, hn, ht, hle⟩ | ⟨e, he, ht⟩
    · simp only [reader, seek, hn]
      exact ⟨by rw [RecoveredPayload.length_flat]; exact ht, hle, rfl⟩
    · simp only [reader, seek, he]
      rw [RecoveredPayload.length_flat]
      exact ht
  · rintro s pos bufLen pick rfl
    have hread := recoveredRead_flat hfits src pos bufLen pick
    simp only [reader, read]
    cases hr : recoveredRead src recovery src.length pos bufLen pick with
    | ok bytes =>
      rw [hr] at hread
      exact ⟨hread, rfl⟩
    | error e =>
      rw [hr] at hread
      exact ⟨by rw [RecoveredPayload.length_flat]; exact hread.1, hread.2⟩

theorem BoundedReadSeek.answers_part {recovery : RecoveredPayload} (hfits : recovery.Fits) {src : List UInt8}
    {start len pos : Nat} (hpart : start + len ≤ src.length) (hsrc : src.length < 2 ^ 64) (hpos : pos ≤ len)
    (calls : List (Call Nat)) :
    ((recovery.flat src).part start len).Answers len pos calls
      (reader.answers ⟨.recovered src recovery src.length, start, len, pos⟩ calls) := by
  have hlen : ((recovery.flat src).part start len).content.length = len :=
    Flat.length_part (by rwa [RecoveredPayload.length_flat])
  refine Flat.answers_of_steps (At src recovery start len) ?_ ?_ ⟨rfl, hpos⟩ calls
  · rintro s pos whence ⟨rfl, -⟩
    rw [hlen]
    rcases seekWithin_cases "seek outside bounded SQZ payload" len len pos whence with ⟨n, hn, ht, hle⟩ | ⟨e, he, ht⟩
    · simp only [reader, seek, hn]
      exact ⟨ht, hle, rfl, hle⟩
    · simp only [reader, seek, he]
      exact ht
  · rintro s pos bufLen pick ⟨rfl, hpos⟩
    simp only [reader, read]
    by_cases hnone : len ≤ pos ∨ bufLen = 0
    · rw [if_pos hnone]
      exact ⟨Flat.reads_nil _ (by rwa [hlen]), rfl, hpos⟩
    rw [if_neg hnone, if_neg (by omega)]
    have hread := recoveredRead_flat hfits src (start + pos) (min (len - pos) bufLen) pick
    simp only [SqzSource.read]
    cases hr : recoveredRead src recovery src.length (start + pos) (min (len - pos) bufLen) pick with
    | ok bytes =>
      rw [hr] at hread
      have hle := hread.le
      exact ⟨hread.part (by rwa [RecoveredPayload.length_flat]) (by omega), rfl, by omega⟩
    | error e =>
      rw [hr] at hread
      exact ⟨by rw [hlen]; omega, by omega, hread.2.2⟩

/-- The readers over the source of a repaired container answer every sequence of seeks and reads as flat files do: the
file with its blocks replaced, and a part of it. A read fails exactly where it begins in an unrepaired block. -/
theorem answers_repaired_file {recovery : RecoveredPayload} (hfits : recovery.Fits) (src : List UInt8) :
    (∀ pos (calls : List (Call Nat)), (recovery.flat src).Answers (2 ^ 64 - 1) pos calls
      (RecoveredReadSeek.reader.answers ⟨src, recovery, src.length, pos⟩ calls)) ∧
    (∀ pos bufLen pick, (∃ e, recoveredRead src recovery src.length pos bufLen pick = .error e) ↔
      pos < src.length ∧ 0 < bufLen ∧ (recovery.flat src).lost pos) ∧
    ∀ start len pos, start + len ≤ src.length → src.length < 2 ^ 64 → pos ≤ len → ∀ calls : List (Call Nat),
      ((recovery.flat src).part start len).Answers len pos calls
        (BoundedReadSeek.reader.answers ⟨.recovered src recovery src.length, start, len, pos⟩ calls) := by
  refine ⟨RecoveredReadSeek.answers_flat hfits src, fun pos bufLen pick => recoveredRead_eq_error_iff hfits, ?_⟩
  intro start len pos hpart hsrc hpos calls
  exact BoundedReadSeek.answers_part hfits hpart hsrc hpos calls

/-- A payload of two blocks: the first is repaired, the second could not be. -/
def twoBlocks : RecoveredPayload := ⟨0, 4, 2, [(0, [1, 2])], [1]⟩

theorem twoBlocks_fits : twoBlocks.Fits := by
  refine ⟨by decide, fun index block h => ?_⟩
  rcases index with _ | index
  · cases h
    decide
  · cases h

theorem answers_repaired_file_twoBlocks :
    (twoBlocks.flat [9, 9, 3, 4]).Answers (2 ^ 64 - 1) 0 [.read 1 1, .read 5 5, .read 1 1]
      (RecoveredReadSeek.reader.answers ⟨[9, 9, 3, 4], twoBlocks, 4, 0⟩ [.read 1 1, .read 5 5, .read 1 1]) ∧
    ((twoBlocks.flat [9, 9, 3, 4]).part 1 2).Answers 2 0 [.seek (.fromEnd (-2)), .read 5 5]
      (BoundedReadSeek.reader.answers ⟨.recovered [9, 9, 3, 4] twoBlocks 4, 1, 2, 0⟩ [.seek (.fromEnd (-2)), .read 5 5]) := by
  obtain ⟨hwhole, -, hpart⟩ := answers_repaired_file twoBlocks_fits [9, 9, 3, 4]
  exact ⟨hwhole 0 _, hpart 1 2 0 (by decide) (by decide) (by decide) _⟩

/-- A read that only reaches into an unrepaired block ends where the block begins. -/
theorem read_ends_before_unrepaired : twoBlocks.Fits ∧ (∃ i, 0 ≤ i ∧ i < 0 + 4 ∧ (twoBlocks.flat [9, 9, 3, 4]).lost i) ∧
    RecoveredReadSeek.reader.answers ⟨[9, 9, 3, 4], twoBlocks, 4, 0⟩ [.read 4 4] = [.bytes [1, 2]] :=
  ⟨twoBlocks_fits, ⟨2, by decide, by decide, 1, List.mem_singleton_self 1, by decide⟩, by decide⟩

end Squallz.Sqz
