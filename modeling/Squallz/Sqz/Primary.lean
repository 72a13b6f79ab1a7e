/-
Reading back the primary recovery section: the state that the reader makes of the section the
writer emits.
-/
import Squallz.Sqz.Encoder
import Squallz.Sqz.Recovery

namespace Squallz.Sqz

open Squallz.Api Squallz.Bytes Squallz.Erasure

/-! ## Sizes -/

variable {P : Primitives}

theorem length_flatMap_digests (hashes : List Digest) :
    (hashes.flatMap Digest.bytes).length = hashes.length * 32 := by
  rw [List.flatMap_def, length_flatten_of_width (w := 32), List.length_map]
  intro l hl
  obtain ⟨d, -, rfl⟩ := List.mem_map.1 hl
  exact d.width

theorem slice_flatMap_digests {hashes : List Digest} {i : Nat} (hi : i < hashes.length) :
    slice (hashes.flatMap Digest.bytes) (i * 32) 32 = hashes[i].bytes := by
  rw [List.flatMap_def, slice_flatten (w := 32) _ (by simpa using hi), List.getElem_map]
  intro l hl
  obtain ⟨d, -, rfl⟩ := List.mem_map.1 hl
  exact d.width

theorem length_primaryHeader (P : Primitives) (parityShards start : Nat) (payload index : List UInt8) :
    (primaryHeader P parityShards start payload index).length = recoveryHeaderLen := by
  simp [primaryHeader, recoveryMagic, (P.blake3 index).width, recoveryHeaderLen]

theorem length_groupParity (P : Primitives) (parityShards : Nat) (payload : List UInt8) (n g : Nat) :
    (groupParity P parityShards payload n g).length = parityShards :=
  P.reedSolomon.length_parity _ _ _

theorem width_groupParity {parityShards n g : Nat} {payload s : List UInt8}
    (hg : g < divCeil n dataShards) (h : s ∈ groupParity P parityShards payload n g) :
    s.length = blockSize :=
  P.reedSolomon.width_parity _ _ _ blockSize (groupLen_pos hg) (length_shards _ _ _ _ _)
    (fun _ => width_shards) s h

/-- Every shard of a list of groups is a full block. -/
theorem width_parityOf {parityShards n : Nat} {payload s : List UInt8}
    (h : s ∈ (parityOf P parityShards payload n (divCeil n dataShards)).flatten) :
    s.length = blockSize := by
  rw [List.mem_flatten] at h
  obtain ⟨group, hgroup, hs⟩ := h
  obtain ⟨g, hg, rfl⟩ := List.mem_map.1 hgroup
  exact width_groupParity (List.mem_range.1 hg) hs

theorem length_parityOf (P : Primitives) (parityShards : Nat) (payload : List UInt8) (n groups : Nat) :
    (parityOf P parityShards payload n groups).flatten.length = groups * parityShards := by
  rw [length_flatten_of_width (w := parityShards)]
  · simp [parityOf]
  · intro l hl
    obtain ⟨g, -, rfl⟩ := List.mem_map.1 hl
    exact length_groupParity _ _ _ _ _

/-- The parity shards of group `g` inside the parity of all groups. -/
theorem slice_parityOf (P : Primitives) (parityShards : Nat) (payload : List UInt8) {n g : Nat} (hg : g < divCeil n dataShards) :
    slice (parityOf P parityShards payload n (divCeil n dataShards)).flatten.flatten
      (g * parityShards * blockSize) (parityShards * blockSize) =
      (groupParity P parityShards payload n g).flatten := by
  have hlt : g < (parityOf P parityShards payload n (divCeil n dataShards)).length := by
    simpa [parityOf] using hg
  rw [slice_groups _ _ hlt]
  · simp [parityOf]
  · intro group hgroup
    obtain ⟨g', -, rfl⟩ := List.mem_map.1 hgroup
    exact length_groupParity _ _ _ _ _
  · intro group hgroup l hl
    obtain ⟨g', hg', rfl⟩ := List.mem_map.1 hgroup
    exact width_groupParity (List.mem_range.1 hg') hl

/-! ## Sections of the primary -/

/-- Where the parity of the primary section starts. -/
def parityOffsetOf (n : Nat) : Nat := recoveryHeaderLen + n * 32

theorem length_primaryOf (P : Primitives) (parityShards start : Nat) (payload index : List UInt8) :
    (primaryOf P parityShards start payload index).length =
      parityOffsetOf (blockCountOf payload) +
        divCeil (blockCountOf payload) dataShards * parityShards * blockSize + index.length := by
  simp only [primaryOf, List.length_append, length_primaryHeader, length_flatMap_digests, length_hashesOf,
    parityOffsetOf]
  rw [length_flatten_of_width (w := blockSize) fun _ => width_parityOf, length_parityOf]
  omega

/-! ## Hashes -/

theorem digestsOf_append {a : List UInt8} (b : List UInt8) (h : 32 ∣ a.length) :
    digestsOf (a ++ b) = digestsOf a ++ digestsOf b := by
  obtain ⟨k, hk⟩ := h
  induction k generalizing a with
  | zero =>
    have ha : a = [] := List.eq_nil_of_length_eq_zero (by omega)
    subst ha
    rw [digestsOf.eq_def [], dif_neg (by simp), List.nil_append, List.nil_append]
  | succ k ih =>
    have hrest := ih (a := a.drop 32) (by rw [List.length_drop]; omega)
    rw [digestsOf, dif_pos (by rw [List.length_append]; omega), digestsOf.eq_def a, dif_pos (by omega),
      List.cons_append, List.drop_append_of_le_length (by omega), hrest]
    congr 2
    exact List.take_append_of_le_length (by omega)

theorem digestsOf_flatMap (hashes : List Digest) : digestsOf (hashes.flatMap Digest.bytes) = hashes := by
  induction hashes with
  | nil => rw [List.flatMap_nil, digestsOf, dif_neg (by simp)]
  | cons d hashes ih =>
    have hone : digestsOf d.bytes = [d] := by
      rw [digestsOf, dif_pos d.width.ge, List.drop_eq_nil_of_le d.width.le, digestsOf, dif_neg (by simp)]
      have : d.bytes.take 32 = d.bytes := List.take_of_length_le d.width.le
      simp only [this]
    rw [List.flatMap_cons, digestsOf_append _ (by rw [d.width]), ih, hone, List.singleton_append]

/-- Cutting the hashes chunk by chunk gives all of them. -/
theorem digestsOf_blocks {size : Nat} (hs : 0 < size) (hd : 32 ∣ size) {l : List UInt8}
    (hl : 32 ∣ l.length) :
    ((List.range (divCeil l.length size)).map (block size l)).flatMap digestsOf = digestsOf l := by
  have key : ∀ k, ((List.range k).map (block size l)).flatMap digestsOf = digestsOf (l.take (k * size)) := by
    intro k
    induction k with
    | zero => rw [Nat.zero_mul, List.take_zero, digestsOf, dif_neg (by simp)]; rfl
    | succ k ih =>
      have hdiv : 32 ∣ (l.take (k * size)).length := by
        rw [List.length_take]
        rcases Nat.le_total (k * size) l.length with h | h
        · rw [Nat.min_eq_left h]
          exact Dvd.dvd.mul_left hd k
        · rwa [Nat.min_eq_right h]
      rw [List.range_succ, List.map_append, List.flatMap_append, ih, take_succ_mul,
        digestsOf_append _ hdiv]
      simp
  rw [key, List.take_of_length_le (divCeil_mul_le hs)]

/-! ## The state -/

/-- The state that the primary section of a payload and its index stands for. -/
def stateOf (P : Primitives) (parityShards start : Nat) (payload index : List UInt8)
    (s : RecoverySection) : RecoveryState where
  payloadStart := start
  payloadLength := payload.length
  blockSize := blockSize
  dataShards := dataShards
  parityShards := parityShards
  blockHashes := hashesOf P payload (blockCountOf payload)
  parityOffset := parityOffsetOf (blockCountOf payload)
  recoverySection := s
  indexHash := P.blake3 index
  indexMirror := index
  repairedBlocks := []
  unrepairedBlocks := []

section Fields

variable (parityShards start : Nat) (payload index : List UInt8) (s : RecoverySection)

@[simp] theorem stateOf_blockSize : (stateOf P parityShards start payload index s).blockSize = blockSize := rfl

@[simp] theorem stateOf_dataShards : (stateOf P parityShards start payload index s).dataShards = dataShards := rfl

@[simp] theorem stateOf_parityShards :
    (stateOf P parityShards start payload index s).parityShards = parityShards := rfl

@[simp] theorem stateOf_blockHashes : (stateOf P parityShards start payload index s).blockHashes =
    hashesOf P payload (blockCountOf payload) := rfl

@[simp] theorem stateOf_parityOffset : (stateOf P parityShards start payload index s).parityOffset =
    parityOffsetOf (blockCountOf payload) := rfl

@[simp] theorem stateOf_recoverySection :
    (stateOf P parityShards start payload index s).recoverySection = s := rfl

end Fields

section ReadPrimary

variable {src payload index : List UInt8} {s : RecoverySection} {parityShards start limit : Nat}

/-- A section that shows a written primary section, whatever stands behind it. -/
structure ShowsPrimary (P : Primitives) (src : List UInt8) (s : RecoverySection)
    (primary : List UInt8) : Prop where
  sound : s.Sound src
  verified : s.Verified P src
  le : primary.length ≤ s.len
  take : (s.view src).take primary.length = primary

theorem ShowsPrimary.readExact {primary : List UInt8} (h : ShowsPrimary P src s primary) {off n : Nat}
    (hle : off + n ≤ primary.length) : s.readExact P src off n = .ok (slice primary off n) := by
  have := h.le
  rw [RecoverySection.readExact_eq h.sound h.verified, if_pos (by omega), ← slice_take hle, h.take]

theorem slice_primaryOf_header (P : Primitives) (parityShards start : Nat) (payload index : List UInt8) :
    slice (primaryOf P parityShards start payload index) 0 recoveryHeaderLen =
      primaryHeader P parityShards start payload index := by
  rw [primaryOf, ← length_primaryHeader P parityShards start payload index, slice_prefix]

theorem slice_primaryOf_hashes (P : Primitives) (parityShards start : Nat) (payload index : List UInt8) :
    slice (primaryOf P parityShards start payload index) recoveryHeaderLen (blockCountOf payload * 32) =
      (hashesOf P payload (blockCountOf payload)).flatMap Digest.bytes := by
  apply slice_middle (length_primaryHeader _ _ _ _ _).symm
  rw [length_flatMap_digests, length_hashesOf]

theorem slice_primaryOf_parity (P : Primitives) (parityShards start : Nat) (payload index : List UInt8) :
    slice (primaryOf P parityShards start payload index) (parityOffsetOf (blockCountOf payload))
      (divCeil (blockCountOf payload) dataShards * parityShards * blockSize) =
      (parityOf P parityShards payload (blockCountOf payload)
        (divCeil (blockCountOf payload) dataShards)).flatten.flatten := by
  rw [primaryOf, ← List.append_assoc]
  apply slice_middle
  · rw [List.length_append, length_primaryHeader, length_flatMap_digests, length_hashesOf, parityOffsetOf]
  · rw [length_flatten_of_width (w := blockSize) fun _ => width_parityOf, length_parityOf]

theorem slice_primaryOf_index (P : Primitives) (parityShards start : Nat) (payload index : List UInt8) :
    slice (primaryOf P parityShards start payload index) (parityOffsetOf (blockCountOf payload) +
      divCeil (blockCountOf payload) dataShards * parityShards * blockSize) index.length = index := by
  rw [primaryOf, ← List.append_assoc, ← List.append_assoc]
  apply slice_suffix _ rfl
  rw [List.length_append, List.length_append, length_primaryHeader, length_flatMap_digests,
    length_hashesOf, length_flatten_of_width (w := blockSize) fun _ => width_parityOf, length_parityOf,
    parityOffsetOf]

/-- The chunked read of the block hashes. -/
theorem readHashes (h : ShowsPrimary P src s (primaryOf P parityShards start payload index)) :
    (List.range (divCeil (blockCountOf payload * 32) verifyChunk)).mapM (fun i =>
      s.readExact P src (recoveryHeaderLen + i * verifyChunk)
        (min (blockCountOf payload * 32 - i * verifyChunk) verifyChunk)) =
    .ok ((List.range (divCeil (blockCountOf payload * 32) verifyChunk)).map
      (block verifyChunk ((hashesOf P payload (blockCountOf payload)).flatMap Digest.bytes))) := by
  have hlen := length_primaryOf P parityShards start payload index
  unfold parityOffsetOf at hlen
  apply mapM_eq_ok
  intro i hi
  have hlt := (lt_divCeil verifyChunk_pos).1 (List.mem_range.1 hi)
  rw [h.readExact (by omega), ← slice_primaryOf_hashes P parityShards start payload index, block_slice]

/-- Reading a written primary section gives the state it stands for. -/
theorem readPrimary_primaryOf (h : ShowsPrimary P src s (primaryOf P parityShards start payload index))
    (hp : 1 ≤ parityShards ∧ parityShards ≤ 8) (hend : start + payload.length ≤ s.start)
    (hlt : s.start < 2 ^ 64)
    (hlimit : (primaryOf P parityShards start payload index).length ≤ limit) :
    RecoveryState.readPrimary P src s limit =
      .ok (stateOf P parityShards start payload index s,
        (primaryOf P parityShards start payload index).length) := by
  have hlen := length_primaryOf P parityShards start payload index
  have hsize : (primaryOf P parityShards start payload index).length < 2 ^ 64 :=
    lt_of_le_of_lt h.le h.sound.len_lt
  have hpar : divCeil (blockCountOf payload) dataShards * parityShards ≤
      divCeil (blockCountOf payload) dataShards * parityShards * blockSize :=
    Nat.le_mul_of_pos_right _ blockSize_pos
  have hblocks : blockCountOf payload < 2 ^ 64 := by unfold parityOffsetOf at hlen; omega
  have hoffset : parityOffsetOf (blockCountOf payload) - recoveryHeaderLen = blockCountOf payload * 32 := by
    unfold parityOffsetOf; omega
  unfold RecoveryState.readPrimary
  rw [h.readExact (by unfold parityOffsetOf at hlen; omega), slice_primaryOf_header, ok_bind]
  have hheader : primaryHeader P parityShards start payload index =
      primaryHeader P parityShards start payload index ++ [] := (List.append_nil _).symm
  rw [hheader]
  unfold primaryHeader
  simp only [List.append_assoc, readExact_append (a := recoveryMagic) (n := 4) rfl, ok_bind, readU16_append,
    readU32_append, readU64_append, readDigest_append]
  have hversion : recoveryVersion % 2 ^ 16 = recoveryVersion := rfl
  have halgo : recoveryAlgoRsGf8 % 2 ^ 16 = recoveryAlgoRsGf8 := rfl
  have hblock : blockSize % 2 ^ 32 = blockSize := rfl
  have hdata : dataShards % 2 ^ 16 = dataShards := rfl
  have hparity : parityShards % 2 ^ 16 = parityShards := Nat.mod_eq_of_lt (by omega)
  have hstart : start % 2 ^ 64 = start := Nat.mod_eq_of_lt (by omega)
  have hpayload : payload.length % 2 ^ 64 = payload.length := Nat.mod_eq_of_lt (by omega)
  have hcount : blockCountOf payload % 2 ^ 64 = blockCountOf payload := Nat.mod_eq_of_lt hblocks
  have hindex : index.length % 2 ^ 64 = index.length := Nat.mod_eq_of_lt (by omega)
  have hshards : validateShards blockSize dataShards parityShards = .ok () := by
    unfold validateShards dataShards
    rw [if_neg (by decide), if_neg (by omega)]
  have hmirror := slice_primaryOf_index P parityShards start payload index
  have hchunks := readHashes h
  have hbytes : ((hashesOf P payload (blockCountOf payload)).flatMap Digest.bytes).length =
      blockCountOf payload * 32 := by rw [length_flatMap_digests, length_hashesOf]
  have hdigests := digestsOf_blocks verifyChunk_pos (by decide) (hbytes ▸ Dvd.intro_left _ rfl)
  rw [hbytes, digestsOf_flatMap] at hdigests
  have hle := h.le
  unfold parityOffsetOf at hlen hoffset hmirror
  simp only [hversion, halgo, hblock, hdata, hparity, hstart, hpayload, hcount, hindex, hshards, ne_eq,
    not_true_eq_false, if_false, ok_bind]
  rw [if_neg (fun hne => hne rfl), checkedAdd_ok (by omega), ok_bind, if_neg (by omega),
    checkedMul_ok (by omega), ok_bind, checkedAdd_ok (by omega), ok_bind, checkedMul_ok (by omega), ok_bind,
    checkedMul_ok (by omega), ok_bind, checkedAdd_ok (by omega), ok_bind, checkedAdd_ok (by omega), ok_bind,
    if_neg (by omega)]
  simp only [hoffset]
  rw [hchunks, ok_bind, h.readExact (by omega), hmirror, ok_bind, if_neg (fun hne => hne rfl),
    hdigests, pure_eq_ok, hlen]
  rfl

end ReadPrimary

end Squallz.Sqz
