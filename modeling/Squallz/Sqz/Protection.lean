/-
The protection of the recovery section: what the reader makes of a written trailer, the repair of
a damaged primary section, and the state read from a protected section.
-/
import Squallz.Sqz.Damage
import Squallz.Sqz.Primary

namespace Squallz.Sqz

open Squallz.Api Squallz.Bytes Squallz.Erasure

/-! ## The trailer -/

/-- The trailer of a primary section as the reader parses it. -/
def trailerFor (P : Primitives) (primary : List UInt8) : RecoveryProtectionTrailer where
  blockSize := blockSize
  dataShards := recoveryDataShards
  parityShards := recoveryParityShards
  primaryLength := primary.length
  blockCount := blockCountOf primary
  protectionLength := (protectionOf P primary).length
  primaryHash := P.blake3 primary
  blockSize_pos := blockSize_pos

section Sizes

variable {P : Primitives} (primary : List UInt8)

@[simp] theorem trailerFor_blockSize : (trailerFor P primary).blockSize = blockSize := rfl

@[simp] theorem trailerFor_dataShards : (trailerFor P primary).dataShards = dataShards := rfl

@[simp] theorem trailerFor_parityShards :
    (trailerFor P primary).parityShards = recoveryParityShards := rfl

@[simp] theorem trailerFor_primaryLength : (trailerFor P primary).primaryLength = primary.length := rfl

@[simp] theorem trailerFor_blockCount : (trailerFor P primary).blockCount = blockCountOf primary := rfl

@[simp] theorem trailerFor_protectionLength :
    (trailerFor P primary).protectionLength = (protectionOf P primary).length := rfl

@[simp] theorem trailerFor_primaryHash : (trailerFor P primary).primaryHash = P.blake3 primary := rfl

theorem length_trailerFields (P : Primitives) (n len : Nat) : (trailerFields P primary n len).length = 76 := by
  simp [trailerFields, recoveryProtectionMagic, (P.blake3 primary).width]

@[simp] theorem length_trailerOf (P : Primitives) :
    (trailerOf P primary).length = recoveryProtectionTrailerLen := by
  rw [trailerOf, List.length_append, length_trailerFields, length_leBytes]
  rfl

theorem length_protectionParity (P : Primitives) (g : Nat) :
    (protectionParity P primary g).length = recoveryParityShards :=
  P.reedSolomon.length_parity _ _ _

theorem width_protectionParity {g : Nat} {s : List UInt8} (h : s ∈ protectionParity P primary g) :
    s.length = blockSize :=
  P.reedSolomon.width_parity _ _ _ blockSize (by decide) (length_shards _ _ _ _ _)
    (fun _ => width_shards) s h

theorem length_protectionOf (P : Primitives) :
    (protectionOf P primary).length = blockCountOf primary * 32 +
      divCeil (blockCountOf primary) recoveryDataShards * recoveryParityShards * blockSize := by
  rw [protectionOf, List.length_append, length_flatMap_digests, length_hashesOf, List.flatMap_def,
    length_flatten_of_width (w := blockSize), length_flatten_of_width (w := recoveryParityShards)]
  · simp
  · intro l hl
    obtain ⟨g, -, rfl⟩ := List.mem_map.1 hl
    exact length_protectionParity primary P g
  · intro l hl
    obtain ⟨group, hgroup, hl⟩ := List.mem_flatten.1 hl
    obtain ⟨g, -, rfl⟩ := List.mem_map.1 hgroup
    exact width_protectionParity primary hl

theorem slice_protectionOf_hash {i : Nat} (hi : i < blockCountOf primary) :
    slice (protectionOf P primary) (i * 32) 32 = (P.blake3 (block blockSize primary i)).bytes := by
  have hlen : i < (hashesOf P primary (blockCountOf primary)).length := by rw [length_hashesOf]; exact hi
  have hend : i * 32 + 32 ≤ blockCountOf primary * 32 := by omega
  rw [protectionOf, slice_append_left (by rw [length_flatMap_digests, length_hashesOf]; exact hend),
    slice_flatMap_digests hlen]
  simp [hashesOf]

theorem slice_protectionOf_parity {g : Nat} (hg : g < divCeil (blockCountOf primary) recoveryDataShards) :
    slice (protectionOf P primary) (blockCountOf primary * 32 + g * recoveryParityShards * blockSize)
      (recoveryParityShards * blockSize) = (protectionParity P primary g).flatten := by
  have hlt : g < ((List.range (divCeil (blockCountOf primary) recoveryDataShards)).map
      (protectionParity P primary)).length := by simpa using hg
  rw [protectionOf, slice_append_right (by rw [length_flatMap_digests, length_hashesOf]; omega),
    length_flatMap_digests, length_hashesOf, Nat.add_sub_cancel_left, List.flatMap_def, slice_groups _ _ hlt]
  · simp
  · intro group hgroup
    obtain ⟨g', -, rfl⟩ := List.mem_map.1 hgroup
    exact length_protectionParity primary P g'
  · intro group hgroup l hl
    obtain ⟨g', -, rfl⟩ := List.mem_map.1 hgroup
    exact width_protectionParity primary hl

end Sizes

/-- The magic of a trailer whose CRC bytes are `crc`. -/
theorem slice_trailer_magic (P : Primitives) (primary crc : List UInt8) (n len : Nat) :
    slice (trailerFields P primary n len ++ crc) 0 4 = recoveryProtectionMagic := by
  rw [trailerFields, List.append_assoc]
  exact slice_prefix recoveryProtectionMagic _

theorem slice_trailer_fields (P : Primitives) (primary crc : List UInt8) (n len : Nat) :
    slice (trailerFields P primary n len ++ crc) 0 76 = trailerFields P primary n len := by
  rw [← length_trailerFields primary P n len, slice_prefix]

theorem slice_trailer_crc (P : Primitives) (primary : List UInt8) {crc : List UInt8} (n len : Nat)
    (hcrc : crc.length = 4) : slice (trailerFields P primary n len ++ crc) 76 4 = crc :=
  slice_suffix (length_trailerFields primary P n len).symm hcrc.symm

/-- A written trailer parses to what it was written for. -/
theorem parseTrailer_trailerOf {P : Primitives} {primary : List UInt8} (hlen : primary.length < 2 ^ 64)
    (hprot : (protectionOf P primary).length < 2 ^ 64) :
    parseRecoveryProtectionTrailer P (trailerOf P primary) = .ok (some (trailerFor P primary)) := by
  have hblocks : blockCountOf primary < 2 ^ 64 := by
    have := length_protectionOf primary P
    omega
  have hsize := length_trailerOf primary P
  unfold parseRecoveryProtectionTrailer
  rw [if_neg (by omega)]
  simp only [hsize, Nat.sub_self, List.drop_zero]
  have hcrc : leNat (leBytes 4 (P.crc32c (trailerFields P primary (blockCountOf primary)
      (protectionOf P primary).length)).toNat) = (P.crc32c (trailerFields P primary (blockCountOf primary)
      (protectionOf P primary).length)).toNat := leNat_leBytes_of_lt (UInt32.toNat_lt _)
  rw [trailerOf, slice_trailer_magic, if_neg (fun h => h rfl), slice_trailer_fields,
    slice_trailer_crc _ _ _ _ (length_leBytes _ _), if_neg (fun h => h hcrc)]
  rw [← List.append_nil (trailerFields P primary (blockCountOf primary) (protectionOf P primary).length ++ _)]
  have hversion : recoveryProtectionVersion % 2 ^ 16 = recoveryProtectionVersion := rfl
  have halgo : recoveryAlgoRsGf8 % 2 ^ 16 = recoveryAlgoRsGf8 := rfl
  have hblock : blockSize % 2 ^ 32 = blockSize := rfl
  have hdata : recoveryDataShards % 2 ^ 16 = recoveryDataShards := rfl
  have hparity : recoveryParityShards % 2 ^ 16 = recoveryParityShards := rfl
  have hcount : blockCountOf primary = if primary.length = 0 then 0 else divCeil primary.length blockSize := by
    split
    · rename_i h0
      rw [blockCountOf, h0, divCeil_zero]
    · rfl
  simp only [trailerFields, List.append_assoc, readExact_append (a := recoveryProtectionMagic) (n := 4) rfl,
    ok_bind, readU16_append, readU32_append, readU64_append, readDigest_append, hversion, halgo, hblock, hdata,
    hparity, Nat.mod_eq_of_lt hlen, Nat.mod_eq_of_lt hblocks, Nat.mod_eq_of_lt hprot, ne_eq, not_true_eq_false,
    if_false]
  rw [dif_neg (by decide), if_neg (by decide), if_neg (fun h => h hcount)]
  rfl

/-! ## The repair of one group -/

section Group

variable {P : Primitives} {src primary primary' trailer : List UInt8} {s : RecoverySection}

/-- A section whose primary part reads as `primary'` and whose protection is intact. -/
structure Guarded (P : Primitives) (src : List UInt8) (s : RecoverySection)
    (primary primary' trailer : List UInt8) : Prop where
  inside : s.start + s.len ≤ src.length
  len_lt : s.len < 2 ^ 64
  patchSize : s.patchSize = blockSize
  unverified : s.verifiedLength = 0
  bytes : slice src s.start s.len = primary' ++ (protectionOf P primary ++ trailer)
  length_eq : primary'.length = primary.length
  distinguishes : DistinguishesBlocks P primary primary'
  tells : P.blake3 primary' = P.blake3 primary → primary' = primary
  mds : primary' ≠ primary → P.reedSolomon.Mds recoveryDataShards recoveryParityShards

/-- The primary part with the blocks repaired so far. -/
def seen (s : RecoverySection) (primary' : List UInt8) : List UInt8 :=
  patched blockSize (fun i => s.patches.lookup i) primary'

variable {k : Nat} {t : RecoveryProtectionTrailer}

theorem Filed.patchFits (h : Filed recoveryParityShards primary primary' k s.patches [])
    (hl : primary'.length = primary.length) :
    PatchFits blockSize (fun i => s.patches.lookup i) primary' := by
  intro i p hp
  simp only [h.repaired] at hp
  split at hp
  · cases hp
    rw [length_block, length_block, hl]
  · cases hp

theorem Guarded.view (hg : Guarded P src s primary primary' trailer)
    (hf : Filed recoveryParityShards primary primary' k s.patches []) :
    s.view src = seen s primary' ++ (protectionOf P primary ++ trailer) := by
  rw [RecoverySection.view, hg.bytes, hg.patchSize, patched_append (hf.patchFits hg.length_eq)]
  rfl

theorem Guarded.sound (hg : Guarded P src s primary primary' trailer)
    (hf : Filed recoveryParityShards primary primary' k s.patches []) : s.Sound src := by
  refine ⟨hg.inside, hg.len_lt, fun i p hp => ?_⟩
  rw [hf.patchFits hg.length_eq i p hp, length_block, hg.patchSize]
  exact Nat.min_le_left _ _

theorem Guarded.verified (hg : Guarded P src s primary primary' trailer) : s.Verified P src := by
  refine ⟨by rw [hg.unverified]; exact Nat.zero_le _, fun i hi => ?_⟩
  rw [hg.unverified, divCeil_zero] at hi
  omega

theorem Guarded.len_eq (hg : Guarded P src s primary primary' trailer) :
    s.len = primary.length + (protectionOf P primary).length + trailer.length := by
  have h := congrArg List.length hg.bytes
  rw [length_slice_of_le hg.inside, List.length_append, List.length_append, hg.length_eq] at h
  omega

/-- Reads of the primary part. -/
theorem Guarded.readPrimary (hg : Guarded P src s primary primary' trailer)
    (hf : Filed recoveryParityShards primary primary' k s.patches []) {off n : Nat}
    (hle : off + n ≤ primary.length) : s.readExact P src off n = .ok (slice (seen s primary') off n) := by
  have hlen := hg.len_eq
  rw [RecoverySection.readExact_eq (hg.sound hf) hg.verified, if_pos (by omega), hg.view hf,
    slice_append_left (by rw [seen, length_patched, hg.length_eq]; exact hle)]

/-- Reads of the protection. -/
theorem Guarded.readProtection (hg : Guarded P src s primary primary' trailer)
    (hf : Filed recoveryParityShards primary primary' k s.patches []) {off n : Nat}
    (hle : off + n ≤ (protectionOf P primary).length) :
    s.readExact P src (primary.length + off) n = .ok (slice (protectionOf P primary) off n) := by
  have hlen := hg.len_eq
  have hseen : (seen s primary').length = primary.length := by rw [seen, length_patched, hg.length_eq]
  rw [RecoverySection.readExact_eq (hg.sound hf) hg.verified, if_pos (by omega), hg.view hf,
    slice_append_right (by omega), hseen, Nat.add_sub_cancel_left, slice_append_left hle]

/-- A block of the primary part: the original one where it has been repaired. -/
theorem block_seen (hf : Filed recoveryParityShards primary primary' k s.patches [])
    (hl : primary'.length = primary.length) (i : Nat) :
    block blockSize (seen s primary') i =
      if i / dataShards < k ∧ damagedIn primary primary' (i / dataShards) ≤ recoveryParityShards
      then block blockSize primary i else block blockSize primary' i := by
  have hlook := hf.repaired i
  by_cases hk : i / dataShards < k ∧ damagedIn primary primary' (i / dataShards) ≤ recoveryParityShards
  · rw [if_pos hk]
    by_cases hd : damagedBlock primary primary' i
    · rw [if_pos ⟨hk.1, hd, hk.2⟩] at hlook
      exact block_patched_some hlook (by rw [length_block, length_block, hl])
    · rw [if_neg fun hc => hd hc.2.1] at hlook
      rw [seen, block_patched_none hlook]
      simpa [damagedBlock] using hd
  · rw [if_neg hk]
    rw [if_neg fun hc => hk ⟨hc.1, hc.2.2⟩] at hlook
    exact block_patched_none hlook

/-- The stored hash of a position, zeros past the last block. -/
def storedHash (P : Primitives) (primary : List UInt8) (i : Nat) : List UInt8 :=
  if i < blockCountOf primary then (P.blake3 (block blockSize primary i)).bytes else List.replicate 32 0

theorem Digest.bytes_inj {a b : Digest} : a.bytes = b.bytes ↔ a = b := by
  cases a
  cases b
  simp

/-- A cell of a group still to be repaired. -/
theorem protectedCell_eq (hg : Guarded P src s primary primary' trailer)
    (hf : Filed recoveryParityShards primary primary' k s.patches []) {i : Nat} (hi : i / dataShards = k) :
    protectedCell P src s (trailerFor P primary) i =
      .ok (if !damagedBlock primary primary' i then some (shard 0 blockSize primary i) else none,
        storedHash P primary i) := by
  have hblock : block blockSize (seen s primary') i = block blockSize primary' i := by
    rw [block_seen hf hg.length_eq, if_neg (by omega)]
  unfold protectedCell storedHash
  by_cases hlt : i < blockCountOf primary
  · have hstart := (lt_divCeil blockSize_pos).1 hlt
    have hprot := length_protectionOf primary P
    have hslice : slice (seen s primary') (i * blockSize) (min (primary.length - i * blockSize) blockSize) =
        block blockSize primary' i := by
      rw [slice_chunk, List.take_of_length_le (by rw [seen, length_patched, hg.length_eq]), hblock]
    rw [if_neg (show ¬ (trailerFor P primary).blockCount ≤ i from Nat.not_le.2 hlt), if_pos hlt]
    simp only [trailerFor_blockSize, trailerFor_primaryLength]
    rw [hg.readPrimary hf (by omega), ok_bind,
      hg.readProtection hf (by omega), ok_bind, hslice, slice_protectionOf_hash primary hlt]
    by_cases hd : block blockSize primary' i = block blockSize primary i
    · simp [damagedBlock, hd, shard]
    · have hne : P.blake3 (block blockSize primary' i) ≠ P.blake3 (block blockSize primary i) :=
        fun heq => hd (hg.distinguishes i hlt heq)
      simp [damagedBlock, hd, Digest.bytes_inj, hne]
  · have hintact : damagedBlock primary primary' i = false := by
      by_contra hd
      exact hlt (lt_of_damagedBlock hg.length_eq (by simpa using hd))
    have hnil : block blockSize primary i = [] := by
      have : primary.length ≤ i * blockSize := by
        rw [blockCountOf, lt_divCeil blockSize_pos] at hlt
        omega
      rw [← List.length_eq_zero_iff, length_block]
      omega
    rw [if_pos (show (trailerFor P primary).blockCount ≤ i from Nat.le_of_not_lt hlt), if_neg hlt, hintact,
      shard, hnil]
    rfl

/-- The parity shards of a protection group as the repair reads them. -/
theorem readProtectionParity (hg : Guarded P src s primary primary' trailer)
    (hf : Filed recoveryParityShards primary primary' k s.patches [])
    (hk : k < divCeil (blockCountOf primary) recoveryDataShards) :
    (List.range recoveryParityShards).mapM (fun j => s.readExact P src
      (primary.length + blockCountOf primary * 32 + k * recoveryParityShards * blockSize + j * blockSize)
      blockSize) = .ok (protectionParity P primary k) := by
  have hlen := length_protectionOf primary P
  have hgroups : k * recoveryParityShards * blockSize + recoveryParityShards * blockSize ≤
      divCeil (blockCountOf primary) recoveryDataShards * recoveryParityShards * blockSize := by
    rw [Nat.mul_assoc, Nat.mul_assoc, ← Nat.succ_mul]
    exact Nat.mul_le_mul_right _ hk
  have hcut := map_slice_flatten fun l (hl : l ∈ protectionParity P primary k) =>
    width_protectionParity primary hl
  rw [length_protectionParity, ← slice_protectionOf_parity primary hk] at hcut
  rw [← hcut]
  apply mapM_eq_ok
  intro j hj
  have hj' : j * blockSize + blockSize ≤ recoveryParityShards * blockSize := by
    rw [← Nat.succ_mul]
    exact Nat.mul_le_mul_right _ (List.mem_range.1 hj)
  rw [slice_slice hj', ← hg.readProtection hf (by omega)]
  congr 1
  omega

/-- Taking over rebuilt blocks one after another. -/
theorem foldlM_patchBlock {startBlock : Nat} {out : List (Option (List UInt8))}
    {hashes : List (List UInt8)} {missing : List Nat}
    (hin : ∀ j ∈ missing, startBlock + j < blockCountOf primary)
    (hout : ∀ j ∈ missing, out[j]?.join = some (shard 0 blockSize primary (startBlock + j)))
    (hhash : ∀ j ∈ missing, hashes[j]? = some (storedHash P primary (startBlock + j))) :
    missing.foldlM (patchBlock P (trailerFor P primary) startBlock out hashes) s =
      .ok { s with patches := (missing.reverse.map fun j =>
        (startBlock + j, block blockSize primary (startBlock + j))) ++ s.patches } := by
  induction missing generalizing s with
  | nil => rfl
  | cons j missing ih =>
    have hlt := hin j List.mem_cons_self
    have hcount : min (primary.length - (startBlock + j) * blockSize) blockSize =
        (block blockSize primary (startBlock + j)).length := by rw [length_block, Nat.min_comm]
    have hpatch : patchBlock P (trailerFor P primary) startBlock out hashes s j =
        .ok { s with patches := (startBlock + j, block blockSize primary (startBlock + j)) :: s.patches } := by
      unfold patchBlock
      simp only [hout j List.mem_cons_self, hhash j List.mem_cons_self, trailerFor_primaryLength,
        trailerFor_blockSize, hcount, take_shard rfl, storedHash, if_pos hlt, ne_eq, not_true_eq_false, if_false]
    rw [List.foldlM_cons, hpatch, ok_bind, ih (fun i hi => hin i (List.mem_cons_of_mem _ hi))
      (fun i hi => hout i (List.mem_cons_of_mem _ hi)) (fun i hi => hhash i (List.mem_cons_of_mem _ hi))]
    simp

/-- What the repair of one protection group comes to. -/
theorem repairProtectedGroup_eq (hg : Guarded P src s primary primary' trailer)
    (hf : Filed recoveryParityShards primary primary' k s.patches [])
    (hk : k < divCeil (blockCountOf primary) recoveryDataShards) :
    repairProtectedGroup P src (trailerFor P primary) (blockCountOf primary * 32) s k =
      if damagedIn primary primary' k ≤ recoveryParityShards then
        .ok { s with patches := ((missingIn primary primary' k).reverse.map fun j =>
          (k * dataShards + j, block blockSize primary (k * dataShards + j))) ++ s.patches }
      else corrupt "sqz recovery section damage exceeds protection capacity" := by
  set keep : Nat → Bool := fun j => !damagedBlock primary primary' (k * dataShards + j) with hkeep
  set f : Nat → List UInt8 := fun j => shard 0 blockSize primary (k * dataShards + j) with hfd
  have hcells : (List.range dataShards).mapM (fun j =>
      protectedCell P src s (trailerFor P primary) (k * dataShards + j)) =
      .ok ((List.range dataShards).map fun j =>
        (if keep j then some (f j) else none, storedHash P primary (k * dataShards + j))) := by
    apply mapM_eq_ok
    intro j hj
    apply protectedCell_eq hg hf
    have hj' := List.mem_range.1 hj
    have hpos : 0 < dataShards := by decide
    rw [Nat.mul_comm, Nat.mul_add_div hpos, Nat.div_eq_of_lt hj', Nat.add_zero]
  have hshards : ((List.range dataShards).map fun j =>
      (if keep j then some (f j) else none, storedHash P primary (k * dataShards + j))).map (·.1) =
      kept keep f dataShards := by
    rw [List.map_map]
    rfl
  have hmissing : (List.range dataShards).filter (fun j => (kept keep f dataShards)[j]?.join.isNone) =
      missingIn primary primary' k := by
    rw [filter_kept]
    simp only [hkeep, Bool.not_not]
    rfl
  have hlost : present (kept keep f dataShards) + damagedIn primary primary' k = dataShards := by
    have := present_kept_add keep f dataShards
    simp only [hkeep, Bool.not_not] at this
    exact this
  have hlt : ∀ j ∈ missingIn primary primary' k, j < dataShards := fun j hj =>
    List.mem_range.1 (List.mem_filter.1 hj).1
  have hin : ∀ j ∈ missingIn primary primary' k, k * dataShards + j < blockCountOf primary := fun j hj =>
    lt_of_damagedBlock hg.length_eq (List.mem_filter.1 hj).2
  unfold repairProtectedGroup
  simp only [trailerFor_dataShards, trailerFor_parityShards, trailerFor_primaryLength, trailerFor_blockSize]
  rw [hcells, ok_bind]
  simp only [← List.getElem?_map, hshards, hmissing]
  by_cases hnil : missingIn primary primary' k = []
  · rw [if_pos hnil, if_pos (by rw [damagedIn_eq_length, hnil]; exact Nat.zero_le _), hnil]
    rfl
  · rw [if_neg hnil, readProtectionParity hg hf hk, ok_bind, reedSolomonNew_ok (by decide) (by decide) (by decide)]
    have hshard : protectionParity P primary k = P.reedSolomon.parity dataShards recoveryParityShards
        ((List.range dataShards).map f) := rfl
    have hne : primary' ≠ primary := by
      rintro rfl
      exact hnil (missingIn_self _ _)
    have hmds : P.reedSolomon.Mds dataShards recoveryParityShards := hg.mds hne
    by_cases hfit : damagedIn primary primary' k ≤ recoveryParityShards
    · rw [if_pos hfit]
      obtain ⟨out, hrec, htake⟩ := hmds.rebuilds (erased_kept keep f dataShards) (by simp) blockSize_pos
        (fun l hl => by
          obtain ⟨j, -, rfl⟩ := List.mem_map.1 hl
          exact length_shard _ _ _ _) (by omega)
      rw [hshard, hrec]
      simp only
      rw [foldlM_patchBlock hin]
      · intro j hj
        have hget : (out.take dataShards)[j]? = some (some (f j)) := by
          rw [htake]
          simp [hlt j hj]
        rw [List.getElem?_take, if_pos (hlt j hj)] at hget
        rw [hget]
        rfl
      · intro j hj
        simp [hlt j hj]
    · rw [if_neg hfit]
      have hnone := hmds.gives_up (length_kept keep f dataShards)
        (P.reedSolomon.length_parity dataShards recoveryParityShards ((List.range dataShards).map f))
        (by omega)
      rw [hshard, hnone]

/-! ## The repair of the section -/

theorem Guarded.withPatches (hg : Guarded P src s primary primary' trailer)
    (patches : List (Nat × List UInt8)) : Guarded P src { s with patches := patches } primary primary' trailer :=
  ⟨hg.inside, hg.len_lt, hg.patchSize, hg.unverified, hg.bytes, hg.length_eq, hg.distinguishes, hg.tells, hg.mds⟩

/-- The groups one after another: all blocks so far are restored, or a group has lost too many. -/
theorem repairProtectedGroups (hg : Guarded P src s primary primary' trailer) (hp : s.patches = []) (k : Nat)
    (hk : k ≤ divCeil (blockCountOf primary) recoveryDataShards) :
    (∃ patches, (List.range k).foldlM
        (repairProtectedGroup P src (trailerFor P primary) (blockCountOf primary * 32)) s =
          .ok { s with patches := patches } ∧
        Filed recoveryParityShards primary primary' k patches [] ∧
        ∀ g, g < k → damagedIn primary primary' g ≤ recoveryParityShards) ∨
      ((List.range k).foldlM
        (repairProtectedGroup P src (trailerFor P primary) (blockCountOf primary * 32)) s =
          corrupt "sqz recovery section damage exceeds protection capacity" ∧
        ∃ g, g < k ∧ recoveryParityShards < damagedIn primary primary' g) := by
  induction k with
  | zero =>
    refine Or.inl ⟨[], ?_, ⟨fun i => by simp, fun i => by simp⟩, fun g hlt => by omega⟩
    rw [← hp]
    rfl
  | succ k ih =>
    rw [List.range_succ, List.foldlM_append]
    rcases ih (by omega) with ⟨patches, heq, hf, hfits⟩ | ⟨heq, g, hlt, hover⟩
    · have hgroup := repairProtectedGroup_eq (hg.withPatches patches) hf hk
      rw [heq, ok_bind, List.foldlM_cons, hgroup]
      by_cases hfit : damagedIn primary primary' k ≤ recoveryParityShards
      · rw [if_pos hfit]
        refine Or.inl ⟨_, rfl, hf.step.1 hfit, fun g hlt => ?_⟩
        rcases Nat.lt_succ_iff_lt_or_eq.1 hlt with h | rfl
        · exact hfits g h
        · exact hfit
      · rw [if_neg hfit]
        exact Or.inr ⟨rfl, k, by omega, by omega⟩
    · rw [heq]
      exact Or.inr ⟨rfl, g, by omega, hover⟩

theorem protectionLayout_eq (hg : Guarded P src s primary primary' trailer) :
    protectionLayout (blockCountOf primary) recoveryDataShards recoveryParityShards blockSize =
      .ok (blockCountOf primary * 32, (protectionOf P primary).length) := by
  have hlen := length_protectionOf primary P
  have hsection := hg.len_eq
  have hlt := hg.len_lt
  have hle : divCeil (blockCountOf primary) recoveryDataShards * recoveryParityShards ≤
      divCeil (blockCountOf primary) recoveryDataShards * recoveryParityShards * blockSize :=
    Nat.le_mul_of_pos_right _ blockSize_pos
  unfold protectionLayout
  rw [checkedMul_ok (by omega), ok_bind, checkedMul_ok (by omega), ok_bind, checkedMul_ok (by omega), ok_bind,
    checkedAdd_ok (by omega), hlen]
  rfl

/-- Repaired blocks make up the original primary section. -/
theorem seen_eq (hf : Filed recoveryParityShards primary primary' k s.patches [])
    (hl : primary'.length = primary.length)
    (hk : divCeil (blockCountOf primary) dataShards ≤ k)
    (hfits : ∀ g, damagedIn primary primary' g ≤ recoveryParityShards) : seen s primary' = primary := by
  have hlen : (seen s primary').length = primary.length := by rw [seen, length_patched, hl]
  apply eq_of_blocks blockSize_pos hlen
  intro i hi
  rw [hlen] at hi
  have hgroup : i / dataShards < divCeil (blockCountOf primary) dataShards := by
    rw [lt_divCeil (by decide)]
    exact lt_of_le_of_lt (Nat.div_mul_le_self i dataShards) hi
  rw [block_seen hf hl, if_pos ⟨by omega, hfits _⟩]

/-- A section that reads as its primary section passes the hash check and shows it. -/
theorem verifyPrimary_shows (hs : s.Sound src) (hle : primary.length ≤ s.len)
    (hview : (s.view src).take primary.length = primary) :
    ∃ s', s.verifyPrimary P src primary.length (P.blake3 primary).bytes = .ok (true, s') ∧
      ShowsPrimary P src s' primary ∧ s'.start = s.start ∧ s'.len = s.len := by
  rw [RecoverySection.verifyPrimary_eq hs hle, hview, if_neg (fun h => h rfl)]
  refine ⟨_, rfl, ⟨⟨hs.inside, hs.len_lt, hs.patches_le⟩, ⟨hle, fun i hi => ?_⟩, hle, hview⟩, rfl, rfl⟩
  simp only [List.getElem?_map, List.getElem?_range hi, Option.map_some]
  congr 2
  exact congrArg (fun l => block hashChunk l i) hview.symm

/-- A section that does not read as its primary section fails the hash check. -/
theorem verifyPrimary_fails (hs : s.Sound src) (hle : primary.length ≤ s.len)
    (htells : P.blake3 ((s.view src).take primary.length) ≠ P.blake3 primary) :
    s.verifyPrimary P src primary.length (P.blake3 primary).bytes = .ok (false, s) := by
  rw [RecoverySection.verifyPrimary_eq hs hle, if_pos (by rw [ne_eq, Digest.bytes_inj]; exact htells)]

theorem take_view (hg : Guarded P src s primary primary' trailer)
    (hf : Filed recoveryParityShards primary primary' k s.patches []) :
    (s.view src).take primary.length = seen s primary' := by
  rw [hg.view hf, List.take_left']
  rw [seen, length_patched, hg.length_eq]

theorem filed_nil (hp : s.patches = []) : Filed recoveryParityShards primary primary' 0 s.patches [] := by
  rw [hp]
  exact ⟨fun i => by simp, fun i => by simp⟩

/-- The repair of a section, by what its groups have lost. -/
theorem repairProtectedRecovery_eq (hg : Guarded P src s primary primary' trailer) :
    repairProtectedRecovery P src s (trailerFor P primary) =
      (List.range (divCeil (blockCountOf primary) recoveryDataShards)).foldlM
        (repairProtectedGroup P src (trailerFor P primary) (blockCountOf primary * 32)) s := by
  have hlayout : protectionLayout (trailerFor P primary).blockCount (trailerFor P primary).dataShards
      (trailerFor P primary).parityShards (trailerFor P primary).blockSize =
      .ok (blockCountOf primary * 32, (protectionOf P primary).length) := protectionLayout_eq hg
  unfold repairProtectedRecovery
  rw [hlayout, ok_bind]
  exact if_neg fun h => h rfl

theorem take_view_unpatched (hg : Guarded P src s primary primary' trailer) (hp : s.patches = []) :
    (s.view src).take primary.length = primary' := by
  rw [take_view hg (filed_nil hp), seen, hp]
  exact patched_none _ _

/-- A section none of whose groups has lost too much is restored. -/
theorem restorePrimary_ok (hg : Guarded P src s primary primary' trailer) (hp : s.patches = [])
    (hfits : ∀ g, damagedIn primary primary' g ≤ recoveryParityShards) :
    ∃ s', RecoveryState.restorePrimary P src s (trailerFor P primary) = .ok s' ∧
      ShowsPrimary P src s' primary ∧ s'.start = s.start ∧ s'.len = s.len := by
  have hlen := hg.len_eq
  have hview := take_view_unpatched hg hp
  have hsound := hg.sound (filed_nil hp)
  unfold RecoveryState.restorePrimary
  simp only [trailerFor_primaryLength, trailerFor_primaryHash]
  by_cases hsame : primary' = primary
  · obtain ⟨s', hs', hshows⟩ := verifyPrimary_shows hsound (by omega) (hview.trans hsame)
    exact ⟨s', by rw [hs']; rfl, hshows⟩
  · rcases repairProtectedGroups hg hp _ (Nat.le_refl _) with ⟨patches, heq, hf, -⟩ | ⟨-, g, -, hover⟩
    · have hg' := hg.withPatches patches
      have hview' := take_view hg' hf
      rw [seen_eq hf hg.length_eq (Nat.le_refl _) hfits] at hview'
      obtain ⟨s', hs', hshows⟩ := verifyPrimary_shows (hg'.sound hf) (by simp only; omega) hview'
      refine ⟨s', ?_, hshows⟩
      rw [verifyPrimary_fails hsound (by omega) (by rw [hview]; exact fun h => hsame (hg.tells h)), ok_bind]
      simp only [Bool.false_eq_true, if_false, repairProtectedRecovery_eq hg, heq, ok_bind, hs']
      rfl
    · have := hfits g
      omega

/-- A section one of whose groups has lost too much is refused. -/
theorem restorePrimary_overloaded (hg : Guarded P src s primary primary' trailer) (hp : s.patches = [])
    {g : Nat} (hover : recoveryParityShards < damagedIn primary primary' g) :
    RecoveryState.restorePrimary P src s (trailerFor P primary) =
      corrupt "sqz recovery section damage exceeds protection capacity" := by
  have hlen := hg.len_eq
  have hview := take_view_unpatched hg hp
  have hsame : primary' ≠ primary := by
    rintro rfl
    rw [damagedIn_eq_length, missingIn_self] at hover
    exact absurd hover (by decide)
  have hgroup : g < divCeil (blockCountOf primary) recoveryDataShards := by
    rw [damagedIn_eq_length] at hover
    obtain ⟨j, hj⟩ := List.exists_mem_of_length_pos (l := missingIn primary primary' g) (by omega)
    have hlt := lt_of_damagedBlock hg.length_eq (List.mem_filter.1 hj).2
    rw [lt_divCeil (by decide)]
    exact lt_of_le_of_lt (Nat.le_add_right _ j) hlt
  unfold RecoveryState.restorePrimary
  simp only [trailerFor_primaryLength, trailerFor_primaryHash]
  rw [verifyPrimary_fails (hg.sound (filed_nil hp)) (by omega)
    (by rw [hview]; exact fun h => hsame (hg.tells h)), ok_bind]
  rcases repairProtectedGroups hg hp _ (Nat.le_refl _) with ⟨patches, -, -, hfits⟩ | ⟨heq, -⟩
  · have := hfits g hgroup
    omega
  · simp only [Bool.false_eq_true, if_false, repairProtectedRecovery_eq hg, heq]
    rfl

/-! ## Reading a protected section -/

/-- The trailer of a section as `read_protected` reads it. -/
theorem Guarded.readTrailer (hg : Guarded P src s primary primary' trailer) (hp : s.patches = [])
    (htl : trailer.length = recoveryProtectionTrailerLen) :
    s.readExact P src (s.len - recoveryProtectionTrailerLen) recoveryProtectionTrailerLen = .ok trailer := by
  have hlen := hg.len_eq
  have hl := hg.length_eq
  rw [RecoverySection.readExact_eq (hg.sound (filed_nil hp)) hg.verified, if_pos (by omega),
    hg.view (filed_nil hp), ← List.append_assoc]
  congr 1
  apply slice_suffix
  · rw [List.length_append, seen, length_patched]
    omega
  · exact htl.symm

theorem Guarded.normal (hg : Guarded P src s primary primary' trailer) :
    { s with patchSize := blockSize, patchSize_pos := blockSize_pos } = s := by
  cases s
  have := hg.patchSize
  simp only at this
  subst this
  rfl

/-- A protected section with its written trailer reads like its restored primary section. -/
theorem readProtected_eq (hg : Guarded P src s primary primary' (trailerOf P primary)) (hp : s.patches = []) :
    RecoveryState.readProtected P src s =
      RecoveryState.readWithTrailer P src s (trailerFor P primary) := by
  have hlen := hg.len_eq
  have hlt := hg.len_lt
  have htl := length_trailerOf primary P
  have hparse := @parseTrailer_trailerOf P primary (by omega) (by omega)
  have hsum : (trailerFor P primary).primaryLength + (trailerFor P primary).protectionLength =
      s.len - recoveryProtectionTrailerLen := by
    simp only [trailerFor_primaryLength, trailerFor_protectionLength]
    omega
  unfold RecoveryState.readProtected
  rw [if_neg (by omega)]
  simp only [hg.readTrailer hp htl, ok_bind, hparse]
  exact if_neg fun h => h hsum

section ReadProtected

variable {parityShards start : Nat} {payload index : List UInt8}

theorem readProtected_ok
    (hg : Guarded P src s (primaryOf P parityShards start payload index) primary'
      (trailerOf P (primaryOf P parityShards start payload index))) (hp : s.patches = [])
    (hpar : 1 ≤ parityShards ∧ parityShards ≤ 8) (hend : start + payload.length ≤ s.start)
    (hlt : s.start < 2 ^ 64)
    (hfits : ∀ g, damagedIn (primaryOf P parityShards start payload index) primary' g ≤ recoveryParityShards) :
    ∃ s', RecoveryState.readProtected P src s = .ok (stateOf P parityShards start payload index s') ∧
      ShowsPrimary P src s' (primaryOf P parityShards start payload index) := by
  obtain ⟨s', hs', hshows, hstart, -⟩ := restorePrimary_ok hg hp hfits
  refine ⟨s', ?_, hshows⟩
  rw [readProtected_eq hg hp]
  unfold RecoveryState.readWithTrailer
  simp only [trailerFor_blockSize, trailerFor_primaryLength]
  rw [hg.normal, hs', ok_bind, readPrimary_primaryOf hshows hpar (by omega) (by omega) (Nat.le_refl _), ok_bind]
  simp only [ne_eq, not_true_eq_false, if_false]
  rfl

theorem readProtected_overloaded
    (hg : Guarded P src s primary primary' (trailerOf P primary)) (hp : s.patches = []) {g : Nat}
    (hover : recoveryParityShards < damagedIn primary primary' g) :
    RecoveryState.readProtected P src s =
      corrupt "sqz recovery section damage exceeds protection capacity" := by
  rw [readProtected_eq hg hp]
  unfold RecoveryState.readWithTrailer
  simp only [trailerFor_blockSize, trailerFor_primaryLength]
  rw [hg.normal, restorePrimary_overloaded hg hp hover]
  rfl

end ReadProtected

end Group

end Squallz.Sqz
