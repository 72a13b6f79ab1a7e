/-
What the reads of a recovery section return at any place: the section with its patches over it, an error where they leave
it, and for a checked read an error where a block that it touches is not the one that was verified.
-/
import Squallz.Sqz.RecoverySection
import Squallz.Sqz.RoundTrip

namespace Squallz.Sqz

open Squallz.Api Squallz.Bytes

namespace RecoverySection

variable {P : Primitives} {s : RecoverySection} {src : List UInt8}

/-- A read of the flat section with the patches written over it. -/
def readPatched (s : RecoverySection) (src : List UInt8) (offset count : Nat) : Res (List UInt8) :=
  if offset + count ≤ s.len then .ok (slice (s.view src) offset count) else corrupt "truncated sqz recovery section"

/-- The verified block at a position still has its fingerprint. -/
def UnchangedAt (P : Primitives) (s : RecoverySection) (src : List UInt8) (position : Nat) : Prop :=
  s.verifiedHashes[position / hashChunk]? =
    some (P.blake3 (block hashChunk ((s.view src).take s.verifiedLength) (position / hashChunk)))

/-- The verified blocks that a read touches still have their fingerprints. -/
def Unchanged (P : Primitives) (s : RecoverySection) (src : List UInt8) (offset count : Nat) : Prop :=
  ∀ position, offset ≤ position → position < offset + count → position < s.verifiedLength → s.UnchangedAt P src position

/-- What is read of a block, and what is left to read behind it. -/
theorem unchanged_iff {offset count copied : Nat} (hoffset : offset < s.verifiedLength) (hcount : count ≠ 0)
    (hcopied : copied = min count (min (s.verifiedLength - offset / hashChunk * hashChunk) hashChunk -
      (offset - offset / hashChunk * hashChunk))) :
    s.Unchanged P src offset count ↔
      s.UnchangedAt P src offset ∧ s.Unchanged P src (offset + copied) (count - copied) := by
  have hlo := Nat.div_mul_le_self offset hashChunk
  have hhi := Nat.lt_div_mul_add (a := offset) hashChunk_pos
  constructor
  · intro h
    refine ⟨h offset (Nat.le_refl _) (by omega) hoffset, fun position hle hlt hverified => ?_⟩
    exact h position (by omega) (by omega) hverified
  · rintro ⟨hfirst, hrest⟩ position hle hlt hverified
    by_cases hblock : position < offset + copied
    · -- still in the first block
      have hdiv : position / hashChunk = offset / hashChunk := by
        refine Nat.div_eq_of_lt_le (by omega) ?_
        rw [Nat.succ_mul]
        omega
      unfold UnchangedAt at hfirst ⊢
      rw [hdiv]
      exact hfirst
    · exact hrest position (by omega) (by omega) hverified

/-- A checked read that touches no block that has changed is a raw read, and any other one fails. -/
theorem readExact_cases (h : s.Sound src) (hverified : s.verifiedLength ≤ s.len) (offset count : Nat) :
    (s.Unchanged P src offset count → s.readExact P src offset count = s.readPatched src offset count) ∧
      (¬ s.Unchanged P src offset count →
        s.readExact P src offset count = corrupt "sqz recovery section changed while opening archive") := by
  induction count using Nat.strong_induction_on generalizing offset with
  | _ count ih =>
    unfold readExact
    by_cases hcond : count = 0 ∨ s.verifiedLength ≤ offset
    · rw [dif_pos hcond]
      refine ⟨fun _ => readRaw_eq h offset count, fun hnot => absurd (fun position hle hlt hlast => ?_) hnot⟩
      omega
    · have hlo := Nat.div_mul_le_self offset hashChunk
      have hhi := Nat.lt_div_mul_add (a := offset) hashChunk_pos
      rw [dif_neg hcond]
      dsimp only
      rw [readRaw_eq h, if_pos (by omega), ok_bind, slice_chunk]
      generalize hcopied : min count (min (s.verifiedLength - offset / hashChunk * hashChunk) hashChunk -
        (offset - offset / hashChunk * hashChunk)) = copied
      obtain ⟨hok, hfailed⟩ := ih (count - copied) (by omega) (offset + copied)
      rw [unchanged_iff (by omega) (by omega) hcopied.symm]
      by_cases hfirst : s.UnchangedAt P src offset
      · have hprint := hfirst
        unfold UnchangedAt at hprint
        rw [if_neg (not_not.2 hprint)]
        refine ⟨fun hall => ?_, fun hnot => ?_⟩
        · rw [hok hall.2]
          unfold readPatched
          rw [show offset + copied + (count - copied) = offset + count by omega]
          by_cases hend : offset + count ≤ s.len
          · rw [if_pos hend, if_pos hend, ok_bind, pure_eq_ok, ← slice_chunk, slice_slice (by omega),
              Nat.add_sub_of_le hlo, ← slice_add, Nat.add_sub_of_le (by omega)]
          · rw [if_neg hend, if_neg hend]
            rfl
        · rw [hfailed fun hrest => hnot ⟨hfirst, hrest⟩]
          rfl
      · have hprint := hfirst
        unfold UnchangedAt at hprint
        rw [if_pos hprint]
        exact ⟨fun hall => absurd hall.1 hfirst, fun _ => rfl⟩

/-- Reads of a section are reads of the flat section with its patches written over it: of any place and length, with patches
that may be short, and with an error where they leave the section. A checked read is the same read unless a verified block
that it touches has changed. -/
theorem section_reads_eq (h : s.Sound src) (hverified : s.verifiedLength ≤ s.len) (offset count : Nat) :
    s.readRaw src offset count = s.readPatched src offset count ∧
      (s.Unchanged P src offset count → s.readExact P src offset count = s.readPatched src offset count) ∧
      (¬ s.Unchanged P src offset count →
        s.readExact P src offset count = corrupt "sqz recovery section changed while opening archive") :=
  ⟨readRaw_eq h offset count, readExact_cases h hverified offset count⟩

/-- A verified section of ten bytes in blocks of four, the second one repaired and the last one with a short patch. -/
def sampleSection : RecoverySection where
  start := 2
  len := 10
  patchSize := 4
  patches := [(1, [40, 50, 60, 70]), (2, [80])]
  verifiedLength := 10
  verifiedHashes := [samplePrimitives.blake3 [7, 7, 7, 7, 40, 50, 60, 70, 80, 7]]
  patchSize_pos := by decide

theorem sampleSection_sound : sampleSection.Sound (List.replicate 12 7) := by
  refine ⟨by decide, by decide, fun b p h => ?_⟩
  have hshort : ∀ p ∈ sampleSection.patches.map Prod.snd, p.length ≤ sampleSection.patchSize := by decide
  refine hshort p ?_
  obtain ⟨l₁, l₂, heq, -⟩ := List.lookup_eq_some_iff.1 h
  rw [heq]
  simp

theorem sampleSection_unchanged :
    sampleSection.Unchanged samplePrimitives (List.replicate 12 7) 3 7 := by
  intro position _ _ hlt
  have hfirst : position / hashChunk = 0 := Nat.div_eq_of_lt (Nat.lt_trans hlt (by decide))
  unfold UnchangedAt
  rw [hfirst]
  decide

theorem section_reads_sample :
    sampleSection.Sound (List.replicate 12 7) ∧
      sampleSection.Unchanged samplePrimitives (List.replicate 12 7) 3 7 ∧
      sampleSection.readExact samplePrimitives (List.replicate 12 7) 3 7 = .ok [7, 40, 50, 60, 70, 80, 7] :=
  ⟨sampleSection_sound, sampleSection_unchanged,
    (section_reads_eq sampleSection_sound (by decide) 3 7).2.1 sampleSection_unchanged⟩

end RecoverySection

end Squallz.Sqz
