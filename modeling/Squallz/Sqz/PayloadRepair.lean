/-
The repair of payload blocks: which blocks end up repaired and which unrepaired, for any damage to
the payload bytes.
-/
import Squallz.Sqz.Damage
import Squallz.Sqz.Primary

namespace Squallz.Sqz

open Squallz.Api Squallz.Bytes Squallz.Erasure

/-- The codec is maximum distance separable for every group with `p` parity shards. -/
def GroupsMds (P : Primitives) (p : Nat) : Prop :=
  ∀ d, 1 ≤ d → d ≤ dataShards → P.reedSolomon.Mds d p

/-! ## One group -/

section Group

variable {P : Primitives} {src payload payload' index : List UInt8} {s : RecoverySection}
  {parityShards start : Nat}

/-- The state of a reader whose payload reads as `payload'`. -/
structure Facing (P : Primitives) (src : List UInt8) (s : RecoverySection) (parityShards start : Nat)
    (payload payload' index : List UInt8) : Prop where
  shows : ShowsPrimary P src s (primaryOf P parityShards start payload index)
  parity_pos : 1 ≤ parityShards
  parity_le : parityShards ≤ 8
  reads : slice src start payload.length = payload'
  length_eq : payload'.length = payload.length
  distinguishes : DistinguishesBlocks P payload payload'
  mds : payload' ≠ payload → GroupsMds P parityShards

/-- A state that differs from the one read only in the blocks filed so far. -/
def withBlocks (state : RecoveryState) (repaired : List (Nat × List UInt8)) (unrepaired : List Nat) :
    RecoveryState :=
  { state with repairedBlocks := repaired, unrepairedBlocks := unrepaired }

section Fields

variable (state : RecoveryState) (repaired : List (Nat × List UInt8)) (unrepaired : List Nat)

@[simp] theorem withBlocks_blockSize : (withBlocks state repaired unrepaired).blockSize = state.blockSize := rfl

@[simp] theorem withBlocks_dataShards : (withBlocks state repaired unrepaired).dataShards = state.dataShards := rfl

@[simp] theorem withBlocks_parityShards :
    (withBlocks state repaired unrepaired).parityShards = state.parityShards := rfl

@[simp] theorem withBlocks_blockHashes :
    (withBlocks state repaired unrepaired).blockHashes = state.blockHashes := rfl

@[simp] theorem withBlocks_parityOffset :
    (withBlocks state repaired unrepaired).parityOffset = state.parityOffset := rfl

@[simp] theorem withBlocks_recoverySection :
    (withBlocks state repaired unrepaired).recoverySection = state.recoverySection := rfl

end Fields

variable {repaired : List (Nat × List UInt8)} {unrepaired : List Nat} {g : Nat}

theorem length_block_eq (h : Facing P src s parityShards start payload payload' index) (i : Nat) :
    (block blockSize payload' i).length = (block blockSize payload i).length := by
  rw [length_block, length_block, h.length_eq]

/-- The data length of a block. -/
theorem blockActualLen_eq (i : Nat) :
    (withBlocks (stateOf P parityShards start payload index s) repaired unrepaired).blockActualLen i =
      (block blockSize payload i).length := by
  rw [length_block, Nat.min_comm]
  rfl

theorem hashAt {i : Nat} (hi : i < blockCountOf payload) :
    (withBlocks (stateOf P parityShards start payload index s) repaired unrepaired).blockHashes[i]? =
      some (P.blake3 (block blockSize payload i)) := by
  show (hashesOf P payload (blockCountOf payload))[i]? = _
  simp [hashesOf, hi]

/-- A payload block read back, padded. -/
theorem readPayloadBlock_eq (h : Facing P src s parityShards start payload payload' index) (i : Nat) :
    RecoveryState.readPayloadBlock src
      (withBlocks (stateOf P parityShards start payload index s) repaired unrepaired) i =
      shard 0 blockSize payload' i := by
  have hblock := block_slice blockSize start payload.length src i
  rw [h.reads] at hblock
  rw [shard, hblock]
  rfl

/-- A cell holds the original shard unless its block is damaged. -/
theorem payloadCell_eq (h : Facing P src s parityShards start payload payload' index) {i : Nat}
    (hi : i < blockCountOf payload) :
    RecoveryState.payloadCell P src
      (withBlocks (stateOf P parityShards start payload index s) repaired unrepaired) i =
      if !damagedBlock payload payload' i then some (shard 0 blockSize payload i) else none := by
  unfold RecoveryState.payloadCell
  simp only [readPayloadBlock_eq h, blockActualLen_eq, hashAt hi]
  rw [take_shard (length_block_eq h i).symm]
  by_cases hd : block blockSize payload' i = block blockSize payload i
  · simp [damagedBlock, hd, shard]
  · have hne : P.blake3 (block blockSize payload i) ≠ P.blake3 (block blockSize payload' i) :=
      fun heq => hd (h.distinguishes i hi heq.symm)
    simp [damagedBlock, hd, hne]

/-- The parity shards of a group as the repair reads them. -/
theorem readParity (h : Facing P src s parityShards start payload payload' index)
    (hg : g < divCeil (blockCountOf payload) dataShards) :
    (List.range parityShards).mapM (fun j => s.readExact P src
      (parityOffsetOf (blockCountOf payload) + g * parityShards * blockSize + j * blockSize) blockSize) =
      .ok (groupParity P parityShards payload (blockCountOf payload) g) := by
  have hlen := length_primaryOf P parityShards start payload index
  set n := blockCountOf payload
  have hgroups : g * parityShards * blockSize + parityShards * blockSize ≤
      divCeil n dataShards * parityShards * blockSize := by
    rw [Nat.mul_assoc, Nat.mul_assoc, ← Nat.succ_mul]
    exact Nat.mul_le_mul_right _ hg
  have hparity := slice_parityOf P parityShards payload hg
  rw [← slice_primaryOf_parity P parityShards start payload index, slice_slice hgroups] at hparity
  have hcut := map_slice_flatten fun l (hl : l ∈ groupParity P parityShards payload n g) =>
    width_groupParity hg hl
  rw [length_groupParity, ← hparity] at hcut
  rw [← hcut]
  apply mapM_eq_ok
  intro j hj
  have hj' : j * blockSize + blockSize ≤ parityShards * blockSize := by
    rw [← Nat.succ_mul]
    exact Nat.mul_le_mul_right _ (List.mem_range.1 hj)
  rw [h.shows.readExact (by omega), slice_slice hj']

/-- Filing rebuilt blocks one after another. -/
theorem foldl_fileBlock {startBlock : Nat} {out : List (Option (List UInt8))} {missing : List Nat}
    (hin : ∀ j ∈ missing, startBlock + j < blockCountOf payload)
    (hout : ∀ j ∈ missing, out[j]?.join = some (shard 0 blockSize payload (startBlock + j))) :
    missing.foldl (RecoveryState.fileBlock P startBlock out)
      (withBlocks (stateOf P parityShards start payload index s) repaired unrepaired) =
      withBlocks (stateOf P parityShards start payload index s)
        ((missing.reverse.map fun j => (startBlock + j, block blockSize payload (startBlock + j))) ++ repaired)
        unrepaired := by
  induction missing generalizing repaired with
  | nil => rfl
  | cons j missing ih =>
    have hfile : RecoveryState.fileBlock P startBlock out
        (withBlocks (stateOf P parityShards start payload index s) repaired unrepaired) j =
        withBlocks (stateOf P parityShards start payload index s)
          ((startBlock + j, block blockSize payload (startBlock + j)) :: repaired) unrepaired := by
      unfold RecoveryState.fileBlock
      simp only [hout j List.mem_cons_self, blockActualLen_eq, hashAt (hin j List.mem_cons_self),
        take_shard rfl, if_true]
      rfl
    rw [List.foldl_cons, hfile, ih (fun k hk => hin k (List.mem_cons_of_mem _ hk))
      (fun k hk => hout k (List.mem_cons_of_mem _ hk))]
    simp

/-- What the repair of one group adds. -/
theorem repairGroup_eq (h : Facing P src s parityShards start payload payload' index)
    (hg : g < divCeil (blockCountOf payload) dataShards) :
    RecoveryState.repairGroup P src
      (withBlocks (stateOf P parityShards start payload index s) repaired unrepaired) g =
      .ok (if damagedIn payload payload' g ≤ parityShards then
        withBlocks (stateOf P parityShards start payload index s)
          (((missingIn payload payload' g).reverse.map fun j =>
            (g * dataShards + j, block blockSize payload (g * dataShards + j))) ++ repaired) unrepaired
      else withBlocks (stateOf P parityShards start payload index s) repaired
        ((missingIn payload payload' g).map (g * dataShards + ·) ++ unrepaired)) := by
  have hcountLe := groupLen_le (blockCountOf payload) g
  have hcountPos := groupLen_pos hg
  set d := groupLen (blockCountOf payload) g with hd
  have hin : ∀ j, j < d → g * dataShards + j < blockCountOf payload := by
    intro j hj
    rw [hd, groupLen] at hj
    omega
  have hcount : min ((hashesOf P payload (blockCountOf payload)).length - g * dataShards) dataShards = d := by
    rw [length_hashesOf]
    rfl
  -- the cells keep the undamaged shards
  set keep : Nat → Bool := fun j => !damagedBlock payload payload' (g * dataShards + j) with hkeep
  set f : Nat → List UInt8 := fun j => shard 0 blockSize payload (g * dataShards + j) with hf
  have hcells : (List.range d).map (fun j => RecoveryState.payloadCell P src
      (withBlocks (stateOf P parityShards start payload index s) repaired unrepaired)
      (g * dataShards + j)) = kept keep f d := by
    apply List.map_congr_left
    intro j hj
    exact payloadCell_eq h (hin j (List.mem_range.1 hj))
  have hmissing : (List.range d).filter (fun j => (kept keep f d)[j]?.join.isNone) =
      missingIn payload payload' g := by
    rw [filter_kept, ← filter_groupLen h.length_eq, ← hd]
    simp only [hkeep, Bool.not_not]
  have hlost : present (kept keep f d) + damagedIn payload payload' g = d := by
    have := present_kept_add keep f d
    simp only [hkeep, Bool.not_not] at this
    rw [damagedIn_eq_length, ← filter_groupLen h.length_eq, ← hd, ← List.countP_eq_length_filter]
    exact this
  have hmem : ∀ j ∈ missingIn payload payload' g, j < d := by
    intro j hj
    rw [← filter_groupLen h.length_eq, ← hd] at hj
    exact List.mem_range.1 (List.mem_filter.1 hj).1
  unfold RecoveryState.repairGroup
  simp only [withBlocks_dataShards, withBlocks_blockHashes, withBlocks_parityShards, withBlocks_blockSize,
    withBlocks_parityOffset, withBlocks_recoverySection, stateOf_dataShards, stateOf_blockHashes,
    stateOf_parityShards, stateOf_blockSize, stateOf_parityOffset, stateOf_recoverySection, hcount, hcells,
    hmissing]
  by_cases hnil : missingIn payload payload' g = []
  · rw [if_pos hnil, if_pos (by rw [damagedIn_eq_length, hnil]; exact Nat.zero_le _), hnil]
    rfl
  · rw [if_neg hnil]
    rw [readParity h hg, ok_bind, reedSolomonNew_ok hcountPos h.parity_pos (by
      have := h.parity_le
      have : dataShards = 8 := rfl
      omega)]
    simp only [groupParity, ← hd]
    have hne : payload' ≠ payload := by
      rintro rfl
      exact hnil (missingIn_self _ _)
    have hmds := h.mds hne d hcountPos hcountLe
    by_cases hfit : damagedIn payload payload' g ≤ parityShards
    · rw [if_pos hfit]
      obtain ⟨out, hrec, htake⟩ := hmds.rebuilds (erased_kept keep f d) (by simp) blockSize_pos
        (fun l hl => by
          obtain ⟨j, -, rfl⟩ := List.mem_map.1 hl
          exact length_shard _ _ _ _) (by omega)
      rw [show shards 0 blockSize payload (g * dataShards) d = (List.range d).map f from rfl, hrec]
      simp only [pure_eq_ok]
      rw [foldl_fileBlock]
      · intro j hj
        exact hin j (hmem j hj)
      · intro j hj
        have hj' := hmem j hj
        have hget : (out.take d)[j]? = some (some (f j)) := by
          rw [htake]
          simp [hj']
        rw [List.getElem?_take, if_pos hj'] at hget
        rw [hget]
        rfl
    · rw [if_neg hfit]
      have hnone := hmds.gives_up (length_kept keep f d)
        (P.reedSolomon.length_parity d parityShards ((List.range d).map f)) (by omega)
      rw [show shards 0 blockSize payload (g * dataShards) d = (List.range d).map f from rfl, hnone]
      rfl

/-! ## All groups -/

/-- The repair of a payload files every damaged block: as repaired, with its original bytes, where
its group can be rebuilt, and as unrepaired elsewhere. -/
theorem repair_eq (h : Facing P src s parityShards start payload payload' index) :
    ∃ repaired unrepaired,
      RecoveryState.repair P src (stateOf P parityShards start payload index s) =
        .ok (withBlocks (stateOf P parityShards start payload index s) repaired unrepaired) ∧
      Filed parityShards payload payload' (divCeil (blockCountOf payload) dataShards)
        repaired unrepaired := by
  have key : ∀ k, k ≤ divCeil (blockCountOf payload) dataShards →
      ∃ repaired unrepaired,
        (List.range k).foldlM (RecoveryState.repairGroup P src)
          (stateOf P parityShards start payload index s) =
          .ok (withBlocks (stateOf P parityShards start payload index s) repaired unrepaired) ∧
        Filed parityShards payload payload' k repaired unrepaired := by
    intro k
    induction k with
    | zero =>
      intro _
      exact ⟨[], [], rfl, ⟨fun i => by simp, fun i => by simp⟩⟩
    | succ k ih =>
      intro hk
      obtain ⟨repaired, unrepaired, heq, hfiled⟩ := ih (by omega)
      have hgroup := @repairGroup_eq P src payload payload' index s parityShards start repaired unrepaired k h hk
      rw [List.range_succ, List.foldlM_append, heq, ok_bind, List.foldlM_cons, hgroup, ok_bind,
        List.foldlM_nil, pure_eq_ok]
      split
      · exact ⟨_, _, rfl, hfiled.step.1 ‹_›⟩
      · exact ⟨_, _, rfl, hfiled.step.2 (by omega)⟩
  have hrange : divCeil (stateOf P parityShards start payload index s).blockHashes.length
      (stateOf P parityShards start payload index s).dataShards =
      divCeil (blockCountOf payload) dataShards := by
    rw [stateOf_blockHashes, stateOf_dataShards, length_hashesOf]
  unfold RecoveryState.repair
  rw [hrange]
  exact key _ (Nat.le_refl _)

end Group

end Squallz.Sqz
