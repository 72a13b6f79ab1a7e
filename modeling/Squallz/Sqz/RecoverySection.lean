/-
Reads inside a recovery section: raw reads through the patches of repaired blocks, reads that
check the fingerprints of a verified prefix, and the hash check of the primary section.
-/
import Squallz.Sqz.Format

namespace Squallz.Sqz

open Squallz.Api Squallz.Bytes

def verifyChunk : Nat := 64 * 1024
def hashChunk : Nat := blockSize

theorem verifyChunk_pos : 0 < verifyChunk := by decide

theorem hashChunk_pos : 0 < hashChunk := by decide

def checkedAdd (left right : Nat) (message : String) : Res Nat :=
  if left + right < 2 ^ 64 then .ok (left + right) else corrupt message

def checkedMul (left right : Nat) : Res Nat :=
  if left * right < 2 ^ 64 then .ok (left * right) else corrupt "sqz recovery size overflows"

theorem checkedAdd_ok {left right : Nat} {message : String} (h : left + right < 2 ^ 64) :
    checkedAdd left right message = .ok (left + right) := if_pos h

theorem checkedMul_ok {left right : Nat} (h : left * right < 2 ^ 64) :
    checkedMul left right = .ok (left * right) := if_pos h

/-- A recovery section in its source, with the blocks repaired so far and the fingerprints of a
verified prefix. -/
structure RecoverySection where
  start : Nat
  len : Nat
  patchSize : Nat
  patches : List (Nat × List UInt8)
  verifiedLength : Nat
  verifiedHashes : List Digest
  patchSize_pos : 0 < patchSize

namespace RecoverySection

def new (start len : Nat) : Res RecoverySection := do
  let _ ← checkedAdd start len "sqz recovery section overflows"
  return {
    start := start
    len := len
    patchSize := blockSize
    patches := []
    verifiedLength := 0
    verifiedHashes := []
    patchSize_pos := blockSize_pos }

/-- The patch that covers position `within` of a block. -/
def patchAt (s : RecoverySection) (block within : Nat) : Option (List UInt8) :=
  (s.patches.lookup block).filter (within < ·.length)

/-- The first patched block after `block`. -/
def nextPatch (s : RecoverySection) (block : Nat) : Option Nat :=
  ((s.patches.map (·.1)).filter (block < ·)).min?

theorem patchAt_some {s : RecoverySection} {block within : Nat} {patch : List UInt8}
    (h : s.patchAt block within = some patch) :
    s.patches.lookup block = some patch ∧ within < patch.length := by
  unfold patchAt at h
  rw [Option.filter_eq_some_iff] at h
  exact ⟨h.1, by simpa using h.2⟩

theorem nextPatch_gt {s : RecoverySection} {block next : Nat} (h : s.nextPatch block = some next) :
    block < next := by
  have := List.min?_mem h
  simpa using (List.mem_filter.1 this).2

theorem offset_lt_next {s : RecoverySection} {offset next : Nat}
    (h : s.nextPatch (offset / s.patchSize) = some next) : offset < next * s.patchSize :=
  (Nat.div_lt_iff_lt_mul s.patchSize_pos).1 (nextPatch_gt h)

/-- The unpatched bytes that one step of `read_raw` takes from the source. -/
def sourceStep (s : RecoverySection) (offset step : Nat) : Nat :=
  match s.nextPatch (offset / s.patchSize) with
  | some next => min (next * s.patchSize - offset) step
  | none => step

theorem sourceStep_le (s : RecoverySection) (offset step : Nat) : s.sourceStep offset step ≤ step := by
  unfold sourceStep
  split
  · exact Nat.min_le_right _ _
  · exact Nat.le_refl _

theorem sourceStep_pos (s : RecoverySection) (offset : Nat) {step : Nat} (h : 0 < step) :
    0 < s.sourceStep offset step := by
  unfold sourceStep
  split
  · have := offset_lt_next ‹_›
    omega
  · exact h

/-- The loop of `read_raw`. -/
def readRawLoop (s : RecoverySection) (src : List UInt8) (offset count : Nat) : Res (List UInt8) :=
  if _hc : count = 0 then .ok []
  else
    let within := offset % s.patchSize
    let step := min count verifyChunk
    match _hp : s.patchAt (offset / s.patchSize) within with
    | some patch => do
      let step := min step (patch.length - within)
      let rest ← s.readRawLoop src (offset + step) (count - step)
      return slice patch within step ++ rest
    | none => do
      let step := s.sourceStep offset step
      let bytes ← ofIo (seekReadExact src (s.start + offset) step)
      let rest ← s.readRawLoop src (offset + step) (count - step)
      return bytes ++ rest
termination_by count
decreasing_by
  · have := (patchAt_some _hp).2
    unfold verifyChunk
    omega
  · have : 0 < min count verifyChunk := by unfold verifyChunk; omega
    have := s.sourceStep_pos offset this
    omega

def readRaw (s : RecoverySection) (src : List UInt8) (offset count : Nat) : Res (List UInt8) :=
  if 2 ^ 64 ≤ offset + count ∨ s.len < offset + count then corrupt "truncated sqz recovery section"
  else s.readRawLoop src offset count

/-- `read_exact`: the bytes of the verified prefix are checked against their fingerprints. -/
def readExact (P : Primitives) (s : RecoverySection) (src : List UInt8) (offset count : Nat) :
    Res (List UInt8) :=
  if _h : count = 0 ∨ s.verifiedLength ≤ offset then s.readRaw src offset count
  else
    let index := offset / hashChunk
    let start := index * hashChunk
    let within := offset - start
    let len := min (s.verifiedLength - start) hashChunk
    do
      let block ← s.readRaw src start len
      if s.verifiedHashes[index]? ≠ some (P.blake3 block) then
        corrupt "sqz recovery section changed while opening archive"
      else
        let copied := min count (len - within)
        let rest ← s.readExact P src (offset + copied) (count - copied)
        return slice block within copied ++ rest
termination_by count
decreasing_by
  have := Nat.div_mul_le_self offset hashChunk
  have := Nat.lt_div_mul_add (a := offset) hashChunk_pos
  omega

/-- `verify_primary`: whether the first `len` bytes have the expected hash; if so their
fingerprints are kept. -/
def verifyPrimary (P : Primitives) (s : RecoverySection) (src : List UInt8) (len : Nat)
    (expected : List UInt8) : Res (Bool × RecoverySection) := do
  let chunks ← (List.range (divCeil len hashChunk)).mapM fun i =>
    s.readRaw src (i * hashChunk) (min (len - i * hashChunk) hashChunk)
  if (P.blake3 chunks.flatten).bytes ≠ expected then return (false, s)
  else return (true, { s with verifiedLength := len, verifiedHashes := chunks.map P.blake3 })

/-! ## What the reads return -/

/-- The section with its patches applied. -/
def view (s : RecoverySection) (src : List UInt8) : List UInt8 :=
  patched s.patchSize (fun block => s.patches.lookup block) (slice src s.start s.len)

/-- A section inside its source whose patches stay within their blocks. -/
structure Sound (s : RecoverySection) (src : List UInt8) : Prop where
  inside : s.start + s.len ≤ src.length
  len_lt : s.len < 2 ^ 64
  patches_le : ∀ b p, s.patches.lookup b = some p → p.length ≤ s.patchSize

theorem Sound.length_view {s : RecoverySection} {src : List UInt8} (h : s.Sound src) :
    (s.view src).length = s.len := by
  rw [view, length_patched, length_slice_of_le h.inside]

section Reads

variable {P : Primitives} {s : RecoverySection} {src : List UInt8}

/-- Inside a patch the view is the patch. -/
theorem slice_view_patch (h : s.Sound src) {offset step : Nat} {patch : List UInt8}
    (hp : s.patches.lookup (offset / s.patchSize) = some patch)
    (hstep : offset % s.patchSize + step ≤ patch.length) (hlen : offset + step ≤ s.len) :
    slice (s.view src) offset step = slice patch (offset % s.patchSize) step := by
  have hle := h.patches_le _ _ hp
  have hdm := Nat.div_add_mod offset s.patchSize
  apply List.ext_getElem?
  intro i
  rw [getElem?_slice, getElem?_slice]
  split
  · rename_i hi
    have hdiv : (offset + i) / s.patchSize = offset / s.patchSize := by
      apply Nat.div_eq_of_lt_le
      · rw [Nat.mul_comm]
        omega
      · rw [Nat.succ_mul, Nat.mul_comm]
        omega
    have hmod : (offset + i) % s.patchSize = offset % s.patchSize + i := by
      have := Nat.div_add_mod (offset + i) s.patchSize
      rw [hdiv] at this
      omega
    rw [view, getElem?_patched_some (p := patch) (by rw [length_slice_of_le h.inside]; omega)
      (by rw [hdiv]; exact hp) (by omega), hmod]
  · rfl

/-- Up to the next patch the view is the source. -/
theorem slice_view_source {offset step : Nat}
    (hp : s.patchAt (offset / s.patchSize) (offset % s.patchSize) = none)
    (hlen : offset + s.sourceStep offset step ≤ s.len) :
    slice (s.view src) offset (s.sourceStep offset step) =
      slice src (s.start + offset) (s.sourceStep offset step) := by
  have hdm := Nat.div_add_mod offset s.patchSize
  apply List.ext_getElem?
  intro i
  rw [getElem?_slice, getElem?_slice]
  split
  · rename_i hi
    have hbase : (slice src s.start s.len)[offset + i]? = src[s.start + offset + i]? := by
      rw [getElem?_slice, if_pos (by omega), Nat.add_assoc]
    rw [← hbase, view]
    apply getElem?_patched_none
    by_cases hblock : (offset + i) / s.patchSize = offset / s.patchSize
    · -- still in the block of `offset`, whose patch ends before it
      have hmod : (offset + i) % s.patchSize = offset % s.patchSize + i := by
        have := Nat.div_add_mod (offset + i) s.patchSize
        rw [hblock] at this
        omega
      rw [hblock, hmod]
      rcases hl : s.patches.lookup (offset / s.patchSize) with _ | patch
      · rfl
      · have : ¬ offset % s.patchSize < patch.length := by
          intro hlt
          unfold patchAt at hp
          rw [hl] at hp
          simp only [Option.filter, hlt, decide_true, if_true, reduceCtorEq] at hp
        rw [Option.bind_some, List.getElem?_eq_none (by omega)]
    · -- a later block before the next patch
      have hgt : offset / s.patchSize < (offset + i) / s.patchSize := by
        have := Nat.div_le_div_right (c := s.patchSize) (Nat.le_add_right offset i)
        omega
      rcases hl : s.patches.lookup ((offset + i) / s.patchSize) with _ | patch
      · rfl
      · exfalso
        have hmem : (offset + i) / s.patchSize ∈
            (s.patches.map (·.1)).filter (offset / s.patchSize < ·) := by
          rw [List.mem_filter]
          refine ⟨?_, by simpa using hgt⟩
          rw [List.lookup_eq_some_iff] at hl
          obtain ⟨l₁, l₂, heq, -⟩ := hl
          rw [heq]
          simp
        unfold sourceStep nextPatch at hi
        split at hi
        · rename_i next hnext
          have hle := (List.min?_eq_some_iff.1 hnext).2 _ hmem
          have : (offset + i) / s.patchSize * s.patchSize ≤ offset + i := Nat.div_mul_le_self _ _
          have : next * s.patchSize ≤ (offset + i) / s.patchSize * s.patchSize :=
            Nat.mul_le_mul_right _ hle
          omega
        · rename_i hnone
          rw [List.min?_eq_none_iff] at hnone
          rw [hnone] at hmem
          cases hmem
  · rfl

theorem readRawLoop_eq (h : s.Sound src) {offset count : Nat} (hc : offset + count ≤ s.len) :
    s.readRawLoop src offset count = .ok (slice (s.view src) offset count) := by
  induction count using Nat.strong_induction_on generalizing offset with
  | _ count ih =>
    unfold readRawLoop
    split
    · rename_i h0
      rw [h0, slice_zero]
    · have hstep : 0 < min count verifyChunk := by unfold verifyChunk; omega
      simp only
      split
      · rename_i patch hp
        obtain ⟨hl, hlt⟩ := patchAt_some hp
        set step := min (min count verifyChunk) (patch.length - offset % s.patchSize)
        have hrest := @ih (count - step) (by omega) (offset + step) (by omega)
        rw [hrest, ok_bind, pure_eq_ok, ← slice_view_patch h hl (by omega) (by omega), ← slice_add]
        congr 2
        omega
      · rename_i hp
        have hle := s.sourceStep_le offset (min count verifyChunk)
        have hpos := s.sourceStep_pos offset hstep
        have hview := @slice_view_source s src offset (min count verifyChunk) hp (by omega)
        set step := s.sourceStep offset (min count verifyChunk)
        have hrest := @ih (count - step) (by omega) (offset + step) (by omega)
        have hin := h.inside
        rw [seekReadExact_ok (by omega), ofIo_ok, ok_bind, hrest, ok_bind, pure_eq_ok, ← hview,
          ← slice_add]
        congr 2
        omega

/-- A raw read returns the view, or fails where it leaves the section. -/
theorem readRaw_eq (h : s.Sound src) (offset count : Nat) :
    s.readRaw src offset count =
      if offset + count ≤ s.len then .ok (slice (s.view src) offset count)
      else corrupt "truncated sqz recovery section" := by
  have := h.len_lt
  unfold readRaw
  by_cases hc : offset + count ≤ s.len
  · rw [if_neg (by omega), if_pos hc, readRawLoop_eq h hc]
  · rw [if_pos (by omega), if_neg hc]

/-- The fingerprints are those of the view. -/
structure Verified (P : Primitives) (s : RecoverySection) (src : List UInt8) : Prop where
  le : s.verifiedLength ≤ s.len
  hashes : ∀ i, i < divCeil s.verifiedLength hashChunk → s.verifiedHashes[i]? =
    some (P.blake3 (block hashChunk ((s.view src).take s.verifiedLength) i))

/-- Checked reads of an unchanged section are raw reads. -/
theorem readExact_eq (h : s.Sound src) (hv : s.Verified P src) (offset count : Nat) :
    s.readExact P src offset count =
      if offset + count ≤ s.len then .ok (slice (s.view src) offset count)
      else corrupt "truncated sqz recovery section" := by
  induction count using Nat.strong_induction_on generalizing offset with
  | _ count ih =>
    unfold readExact
    split
    · exact readRaw_eq h offset count
    · rename_i hcond
      have hlo := Nat.div_mul_le_self offset hashChunk
      have hhi := Nat.lt_div_mul_add (a := offset) hashChunk_pos
      have hle := hv.le
      have hlt : s.verifiedLength > offset := by omega
      have hprint := hv.hashes _ ((lt_divCeil hashChunk_pos).2 (lt_of_le_of_lt hlo hlt))
      rw [← slice_chunk] at hprint
      simp only [hprint]
      generalize offset / hashChunk * hashChunk = start at hlo hhi ⊢
      generalize hashChunk = chunk at hhi ⊢
      rw [readRaw_eq h, if_pos (by omega), ok_bind, if_neg (by simp)]
      generalize hlen : min (s.verifiedLength - start) chunk = len
      generalize hcopied : min count (len - (offset - start)) = copied
      rw [ih (count - copied) (by omega)]
      have hend : offset + copied + (count - copied) = offset + count := by omega
      rw [hend]
      split
      · rw [ok_bind, pure_eq_ok, slice_slice (by omega)]
        have hoff : start + (offset - start) = offset := by omega
        rw [hoff, ← slice_add]
        congr 2
        omega
      · rfl

/-- The hash check reads the view; a section that passes is verified up to `len`. -/
theorem verifyPrimary_eq (h : s.Sound src) {len : Nat} (hl : len ≤ s.len) (expected : List UInt8) :
    s.verifyPrimary P src len expected =
      if (P.blake3 ((s.view src).take len)).bytes ≠ expected then .ok (false, s)
      else .ok (true, { s with
        verifiedLength := len
        verifiedHashes := (List.range (divCeil len hashChunk)).map fun i =>
          P.blake3 (block hashChunk ((s.view src).take len) i) }) := by
  have hlen : ((s.view src).take len).length = len := by
    rw [List.length_take, h.length_view, Nat.min_eq_left hl]
  have hchunks : (List.range (divCeil len hashChunk)).mapM (fun i =>
      s.readRaw src (i * hashChunk) (min (len - i * hashChunk) hashChunk)) =
      .ok ((List.range (divCeil len hashChunk)).map (block hashChunk ((s.view src).take len))) := by
    apply mapM_eq_ok
    intro i hi
    have := (lt_divCeil hashChunk_pos).1 (List.mem_range.1 hi)
    rw [readRaw_eq h, if_pos (by omega), slice_chunk]
  have hflat := flatten_blocks hashChunk_pos ((s.view src).take len)
  rw [hlen] at hflat
  unfold verifyPrimary
  rw [hchunks, ok_bind, hflat, List.map_map]
  rfl

end Reads

end RecoverySection

end Squallz.Sqz
