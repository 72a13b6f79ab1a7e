/-
The repaired blocks of every archive that opens are as long as the parts of the payload that they are read in place of.
-/
import Squallz.Sqz.FooterRebuild
import Squallz.Sqz.Seeking

namespace Squallz.Sqz

open Squallz.Api Squallz.Bytes Squallz.Erasure

/-! ## Lengths of reads -/

theorem length_seekReadExact {src bytes : List UInt8} {pos n : Nat} (h : seekReadExact src pos n = .ok bytes) :
    bytes.length = n := by
  unfold seekReadExact at h
  split at h
  · cases h
    assumption
  · cases h

theorem ofIo_eq_ok {α : Type} {x : Except IoError α} {a : α} : ofIo x = .ok a ↔ x = .ok a := by
  cases x with
  | ok b => simp
  | error e => simp [ofIo, raise]

namespace RecoverySection

variable {P : Primitives} {s : RecoverySection} {src bytes : List UInt8} {offset count : Nat}

theorem length_readRawLoop (h : s.readRawLoop src offset count = .ok bytes) : bytes.length = count := by
  induction count using Nat.strong_induction_on generalizing offset bytes with
  | _ count ih =>
    rw [readRawLoop] at h
    split at h
    · rename_i hcount
      cases h
      exact hcount.symm
    · simp only at h
      have hchunk : 0 < min count verifyChunk := by unfold verifyChunk; omega
      split at h
      · rename_i patch hp
        simp only [bind_eq_ok, pure_eq_ok] at h
        obtain ⟨rest, hrest, h⟩ := h
        cases h
        have hwithin := (patchAt_some hp).2
        have hlen := ih _ (by omega) hrest
        rw [List.length_append, hlen, length_slice_of_le (by omega)]
        omega
      · simp only [bind_eq_ok, pure_eq_ok] at h
        obtain ⟨part, hpart, rest, hrest, h⟩ := h
        cases h
        have hpos := s.sourceStep_pos offset hchunk
        have hle := s.sourceStep_le offset (min count verifyChunk)
        have hlen := ih _ (by omega) hrest
        rw [List.length_append, hlen, length_seekReadExact (ofIo_eq_ok.1 hpart)]
        omega

theorem length_readRaw (h : s.readRaw src offset count = .ok bytes) : bytes.length = count := by
  unfold readRaw at h
  split at h
  · cases h
  · exact length_readRawLoop h

theorem length_readExact (h : s.readExact P src offset count = .ok bytes) : bytes.length = count := by
  induction count using Nat.strong_induction_on generalizing offset bytes with
  | _ count ih =>
    rw [readExact] at h
    split at h
    · exact length_readRaw h
    · have hle := Nat.div_mul_le_self offset hashChunk
      have hlt := Nat.lt_div_mul_add (a := offset) hashChunk_pos
      simp only [bind_eq_ok] at h
      obtain ⟨block, hblock, h⟩ := h
      split at h
      · cases h
      · simp only [bind_eq_ok, pure_eq_ok] at h
        obtain ⟨rest, hrest, h⟩ := h
        cases h
        have hwhole := length_readRaw hblock
        rw [List.length_append, ih _ (by omega) hrest, length_slice_of_le (by omega)]
        omega

end RecoverySection

/-! ## Repair -/

/-- The shards that a codec rebuilds are as long as the shards it is given. -/
def KeepsLength {α : Type} (c : ErasureCodec α) : Prop := ∀ d p shards out n, c.reconstructData d p shards = some out →
  (∀ shard, some shard ∈ shards → shard.length = n) → ∀ shard, some shard ∈ out → shard.length = n

namespace RecoveryState

/-- The blocks repaired so far are whole. -/
structure Whole (size : Nat) (state : RecoveryState) : Prop where
  blockSize_eq : state.blockSize = size
  repaired : ∀ index block, state.repairedBlocks.lookup index = some block →
    state.blockActualLen index ≤ block.length

variable {P : Primitives} {src : List UInt8} {state : RecoveryState} {size : Nat}

theorem Whole.fits (h : state.Whole size) (hpos : 0 < size) : (RecoveredPayload.ofState state).Fits where
  blockSize_pos := by
    show 0 < state.blockSize
    rw [h.blockSize_eq]
    exact hpos
  whole index block hblock := by
    rw [Nat.min_comm]
    exact h.repaired index block hblock

theorem Whole.fileBlock {start slot : Nat} {shards : List (Option (List UInt8))}
    (hshards : ∀ shard, some shard ∈ shards → shard.length = size) (h : state.Whole size) :
    (fileBlock P start shards state slot).Whole size := by
  unfold RecoveryState.fileBlock
  split
  · exact ⟨h.blockSize_eq, h.repaired⟩
  · rename_i shard hshard
    simp only
    split
    · refine ⟨h.blockSize_eq, fun index block hblock => ?_⟩
      simp only [List.lookup_cons] at hblock
      split at hblock
      · rename_i hindex
        have hmem := List.mem_of_getElem? (Option.join_eq_some_iff.1 hshard)
        have hle : state.blockActualLen index ≤ state.blockSize := Nat.min_le_right _ _
        have hlen := hshards shard hmem
        rw [← h.blockSize_eq] at hlen
        rw [eq_of_beq hindex] at hle ⊢
        cases hblock
        show state.blockActualLen (start + slot) ≤ _
        rw [List.length_take]
        omega
      · exact h.repaired index block hblock
    · exact ⟨h.blockSize_eq, h.repaired⟩

theorem Whole.fileBlocks {start : Nat} {shards : List (Option (List UInt8))} {missing : List Nat}
    (hshards : ∀ shard, some shard ∈ shards → shard.length = size) (h : state.Whole size) :
    (missing.foldl (RecoveryState.fileBlock P start shards) state).Whole size := by
  induction missing generalizing state with
  | nil => exact h
  | cons slot missing ih => exact ih (h.fileBlock hshards)

theorem length_readPayloadBlock (index : Nat) : (readPayloadBlock src state index).length = state.blockSize := by
  refine length_padTo ?_
  rw [length_slice]
  exact Nat.le_trans (Nat.min_le_left _ _) (Nat.min_le_right _ _)

theorem Whole.repairGroup {state' : RecoveryState} {group : Nat} (hcodec : KeepsLength P.reedSolomon)
    (hrepair : state.repairGroup P src group = .ok state') (h : state.Whole size) : state'.Whole size := by
  unfold RecoveryState.repairGroup at hrepair
  simp only at hrepair
  split at hrepair
  · cases hrepair
    exact h
  · simp only [bind_eq_ok] at hrepair
    obtain ⟨parity, hparity, hrepair⟩ := hrepair
    split at hrepair
    · cases hrepair
    · split at hrepair
      · cases hrepair
        exact ⟨h.blockSize_eq, h.repaired⟩
      · rename_i shards hshards
        cases hrepair
        refine h.fileBlocks (hcodec _ _ _ _ _ hshards fun shard hshard => ?_)
        rcases List.mem_append.1 hshard with hcell | hcell
        · obtain ⟨slot, -, hslot⟩ := List.mem_map.1 hcell
          unfold payloadCell at hslot
          simp only at hslot
          split at hslot
          · cases hslot
            rw [length_readPayloadBlock, h.blockSize_eq]
          · cases hslot
        · obtain ⟨block, hblock, heq⟩ := List.mem_map.1 hcell
          cases heq
          obtain ⟨i, -, hi⟩ := mem_of_mapM_ok hparity hblock
          rw [RecoverySection.length_readExact hi, h.blockSize_eq]
theorem Whole.repair {state' : RecoveryState} (hcodec : KeepsLength P.reedSolomon)
    (hrepair : state.repair P src = .ok state') (h : state.Whole size) : state'.Whole size := by
  unfold RecoveryState.repair at hrepair
  generalize List.range _ = groups at hrepair
  induction groups generalizing state with
  | nil =>
    cases hrepair
    exact h
  | cons group groups ih =>
    rw [List.foldlM_cons, bind_eq_ok] at hrepair
    obtain ⟨next, hnext, hrepair⟩ := hrepair
    exact ih (h.repairGroup hcodec hnext) hrepair

/-! ## Opening -/

/-- A state that is read from a primary section holds no repaired block yet. -/
theorem readPrimary_whole {s : RecoverySection} {limit consumed : Nat}
    (h : readPrimary P src s limit = .ok (state, consumed)) : ∃ size, 0 < size ∧ state.Whole size := by
  unfold readPrimary at h
  simp only [bind_eq_ok] at h
  obtain ⟨header, -, ⟨magic, buf⟩, -, h⟩ := h
  simp only at h
  split at h
  · cases h
  simp only [bind_eq_ok] at h
  obtain ⟨⟨version, buf₁⟩, -, h⟩ := h
  simp only at h
  split at h
  · cases h
  simp only [bind_eq_ok] at h
  obtain ⟨⟨algo, buf₂⟩, -, h⟩ := h
  simp only at h
  split at h
  · cases h
  simp only [bind_eq_ok] at h
  obtain ⟨⟨size, buf₃⟩, -, ⟨dataShards, buf₄⟩, -, ⟨parityShards, buf₅⟩, -, ⟨reserved, buf₆⟩, -, ⟨payloadStart, buf₇⟩, -,
    ⟨payloadLength, buf₈⟩, -, ⟨blockCount, buf₉⟩, -, ⟨indexLength, buf₁₀⟩, -, ⟨indexHash, buf₁₁⟩, -, _, hshards, h⟩ := h
  simp only at hshards h
  have hsize : 0 < size := by
    unfold validateShards at hshards
    split at hshards
    · cases hshards
    · omega
  split at h
  · cases h
  simp only [bind_eq_ok] at h
  obtain ⟨payloadEnd, -, h⟩ := h
  split at h
  · cases h
  simp only [bind_eq_ok] at h
  obtain ⟨hashLen, -, parityOffset, -, shardCount, -, parityLen, -, indexOffset, -, consumed', -, h⟩ := h
  split at h
  · cases h
  simp only [bind_eq_ok] at h
  obtain ⟨chunks, -, mirror, -, h⟩ := h
  split at h
  · cases h
  cases h
  exact ⟨size, hsize, rfl, fun index block hblock => by cases hblock⟩

theorem mapError_eq_ok {α : Type} {f : Fault → Fault} {x : Res α} {a : α} : x.mapError f = .ok a ↔ x = .ok a := by
  cases x with
  | ok b => simp [Except.mapError]
  | error e => simp [Except.mapError]

theorem readProtected_whole {s : RecoverySection} (h : readProtected P src s = .ok state) :
    ∃ size, 0 < size ∧ state.Whole size := by
  unfold readProtected at h
  split at h
  · cases h
  simp only [bind_eq_ok] at h
  obtain ⟨trailer, -, h⟩ := h
  split at h
  · split at h
    · cases h
    unfold readWithTrailer at h
    simp only [bind_eq_ok] at h
    obtain ⟨s', -, ⟨state', consumed⟩, hread, h⟩ := h
    simp only at h
    split at h
    · cases h
    · cases h
      exact readPrimary_whole hread
  · cases h
  · split at h
    · unfold readWithDamagedTrailer at h
      simp only [bind_eq_ok] at h
      obtain ⟨⟨first, primaryLen⟩, -, matched, -, h⟩ := h
      simp only at h
      split at h
      · cases h
      · simp only [bind_eq_ok] at h
        obtain ⟨⟨state', consumed⟩, hread, h⟩ := h
        simp only at h
        split at h
        · cases h
        · cases h
          exact readPrimary_whole (mapError_eq_ok.1 hread)
    · cases h

theorem load_fits {footer : Footer} (hcodec : KeepsLength P.reedSolomon) (h : load P src footer = .ok (some state)) :
    (RecoveredPayload.ofState state).Fits := by
  unfold load at h
  split at h
  · cases h
  simp only [bind_eq_ok] at h
  obtain ⟨s, -, h⟩ := h
  split at h
  · cases h
  simp only [bind_eq_ok, pure_eq_ok] at h
  obtain ⟨first, hread, repaired, hrepair, h⟩ := h
  cases h
  obtain ⟨size, hpos, hwhole⟩ := readProtected_whole hread
  exact (hwhole.repair hcodec hrepair).fits hpos

end RecoveryState

/-- The state of a rebuilt footer is read from a section. -/
theorem openFooter_whole {P : Primitives} {src : List UInt8} {footer : Footer} {state : RecoveryState}
    (h : openFooter P src src.length = .ok (footer, some state)) : ∃ size, 0 < size ∧ state.Whole size := by
  cases huuid : validHeaderUuid P src with
  | error e =>
    unfold openFooter recoverFooterFromRecoveryScan at h
    rw [huuid] at h
    simp only [error_bind] at h
    split at h
    · cases h
    · split at h <;> cases h
    · cases h
  | ok uuid =>
    cases uuid with
    | none =>
      unfold openFooter recoverFooterFromRecoveryScan at h
      rw [huuid] at h
      simp only [ok_bind, pure_eq_ok] at h
      split at h <;> cases h
    | some uuid =>
      cases (openFooter_eq_ok huuid).1 h with
      | rebuilt damaged topmost =>
        obtain ⟨-, s, -, hread⟩ := candidateAt_some topmost.accepted
        exact RecoveryState.readProtected_whole hread

/-- The repaired blocks of every archive that opens fit its payload. -/
theorem openEntrySet_fits {P : Primitives} (hcodec : KeepsLength P.reedSolomon) {src : List UInt8}
    {reader : EntrySetSqzReader} {innerFormat : String} {recovery : RecoveredPayload}
    (h : openEntrySet P src = .ok (reader, innerFormat)) (hrecovery : reader.recovery = some recovery) :
    recovery.Fits := by
  unfold openEntrySet at h
  simp only at h
  split at h
  · cases h
  simp only [bind_eq_ok] at h
  obtain ⟨⟨footer, recovered⟩, hfooter, indexEnd, -, h⟩ := h
  simp only at h
  split at h
  · cases h
  simp only [bind_eq_ok, pure_eq_ok] at h
  obtain ⟨format, -, index, -, loaded, hloaded, index', -, records, -, -, -, h⟩ := h
  cases h
  simp only at hrecovery
  obtain ⟨state, rfl, rfl⟩ := Option.map_eq_some_iff.1 hrecovery
  cases recovered with
  | none => exact RecoveryState.load_fits hcodec hloaded
  | some first =>
    simp only [bind_eq_ok] at hloaded
    obtain ⟨repaired, hrepair, heq⟩ := hloaded
    cases heq
    obtain ⟨size, hpos, hwhole⟩ := openFooter_whole hfooter
    exact (hwhole.repair hcodec hrepair).fits hpos

end Squallz.Sqz
