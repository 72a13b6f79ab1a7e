/-
A protection trailer whose CRC does not hold: the reader falls back to the primary section, and takes
it when the protection behind it is the one computed from it.
-/
import Squallz.Sqz.Protection

namespace Squallz.Sqz

open Squallz.Api Squallz.Bytes Squallz.Erasure

/-! ## Trying positions in turn -/

/-- A search whose positions are good or bad yields all values when every position is good. -/
theorem tryAll_eq {β : Type} {f : Nat → Res (Option β)} {good : Nat → Prop} [DecidablePred good]
    {value : Nat → β} {is : List Nat} (h : ∀ i ∈ is, f i = .ok (if good i then some (value i) else none)) :
    tryAll f is = .ok (if ∀ i ∈ is, good i then some (is.map value) else none) := by
  induction is with
  | nil => rfl
  | cons i is ih =>
    have hi := h i List.mem_cons_self
    have hrest := ih fun j hj => h j (List.mem_cons_of_mem _ hj)
    unfold tryAll
    rw [hi, ok_bind]
    by_cases hg : good i
    · rw [if_pos hg]
      simp only
      rw [hrest, ok_bind]
      by_cases hall : ∀ j ∈ is, good j
      · rw [if_pos hall, if_pos (List.forall_mem_cons.2 ⟨hg, hall⟩)]
        rfl
      · rw [if_neg hall, if_neg fun hc => hall (List.forall_mem_cons.1 hc).2]
        rfl
    · rw [if_neg hg, if_neg fun hc => hg (List.forall_mem_cons.1 hc).1]
      rfl

/-- The positions of a group that have a block. -/
theorem flatMap_guard {β : Type} (f : Nat → β) (n start d : Nat) :
    ((List.range d).flatMap fun j => if start + j < n then [f (start + j)] else []) =
      (List.range (min (n - start) d)).map fun j => f (start + j) := by
  induction d with
  | zero => simp
  | succ d ih =>
    rw [List.range_succ, List.flatMap_append, ih, List.flatMap_singleton]
    by_cases h : start + d < n
    · rw [if_pos h, show min (n - start) (d + 1) = d + 1 by omega, show min (n - start) d = d by omega,
        List.range_succ, List.map_append]
      rfl
    · rw [if_neg h, List.append_nil, show min (n - start) (d + 1) = min (n - start) d by omega]

/-! ## The protection of a primary section -/

section Matches

variable {P : Primitives} {src : List UInt8} {s : RecoverySection} {primary rest : List UInt8}

/-- A section that reads as a primary section followed by other bytes. -/
structure Reads (P : Primitives) (src : List UInt8) (s : RecoverySection) (primary rest : List UInt8) : Prop where
  sound : s.Sound src
  verified : s.Verified P src
  view : ∃ tail, s.view src = primary ++ (rest ++ tail)

theorem Reads.length_le (h : Reads P src s primary rest) : primary.length + rest.length ≤ s.len := by
  obtain ⟨tail, hview⟩ := h.view
  have := h.sound.length_view
  rw [hview, List.length_append, List.length_append] at this
  omega

theorem Reads.readPrimary (h : Reads P src s primary rest) {off n : Nat} (hle : off + n ≤ primary.length) :
    s.readExact P src off n = .ok (slice primary off n) := by
  have := h.length_le
  obtain ⟨tail, hview⟩ := h.view
  rw [RecoverySection.readExact_eq h.sound h.verified, if_pos (by omega), hview, slice_append_left hle]

theorem Reads.readRest (h : Reads P src s primary rest) {off n : Nat} (hle : off + n ≤ rest.length) :
    s.readExact P src (primary.length + off) n = .ok (slice rest off n) := by
  have := h.length_le
  obtain ⟨tail, hview⟩ := h.view
  rw [RecoverySection.readExact_eq h.sound h.verified, if_pos (by omega), hview,
    slice_append_right (by omega), Nat.add_sub_cancel_left, slice_append_left hle]

/-- Whether the hash stored for block `i` is its hash. -/
def HashMatches (P : Primitives) (primary rest : List UInt8) (i : Nat) : Prop :=
  i < blockCountOf primary → slice rest (i * 32) 32 = (P.blake3 (block blockSize primary i)).bytes

instance (i : Nat) : Decidable (HashMatches P primary rest i) := by
  unfold HashMatches
  infer_instance

/-- Whether parity shard `j` of group `g` is the one stored. -/
def ParityMatches (P : Primitives) (primary rest : List UInt8) (g j : Nat) : Prop :=
  (protectionParity P primary g)[j]? =
    some (slice rest (blockCountOf primary * 32 + g * recoveryParityShards * blockSize + j * blockSize) blockSize)

instance (g j : Nat) : Decidable (ParityMatches P primary rest g j) := by
  unfold ParityMatches
  infer_instance

theorem matchBlock_eq (h : Reads P src s primary rest)
    (hlen : rest.length = (protectionOf P primary).length) (i : Nat) :
    matchBlock P src s primary.length (blockCountOf primary) i =
      .ok (if HashMatches P primary rest i then
        some (shard 0 blockSize primary i,
          if i < blockCountOf primary then [P.blake3 (block blockSize primary i)] else [])
        else none) := by
  unfold matchBlock HashMatches
  by_cases hlt : i < blockCountOf primary
  · have hstart := (lt_divCeil blockSize_pos).1 hlt
    have hprot := length_protectionOf primary P
    have hhash : i * 32 + 32 ≤ rest.length := by omega
    rw [if_pos hlt]
    simp only
    rw [h.readPrimary (by omega), ok_bind, h.readRest hhash, ok_bind, slice_chunk,
      List.take_of_length_le (Nat.le_refl _)]
    simp only [hlt, forall_const, if_true]
    by_cases hm : slice rest (i * 32) 32 = (P.blake3 (block blockSize primary i)).bytes
    · rw [if_pos hm, if_neg (fun hne => hne hm.symm)]
      rfl
    · rw [if_neg hm, if_pos (fun heq => hm heq.symm)]
      rfl
  · have hnil : block blockSize primary i = [] := by
      have : primary.length ≤ i * blockSize := by
        rw [blockCountOf, lt_divCeil blockSize_pos] at hlt
        omega
      rw [← List.length_eq_zero_iff, length_block]
      omega
    rw [if_neg hlt]
    simp only [hlt, false_implies, if_true, if_false, shard, hnil]
    rfl

theorem matchGroup_eq (h : Reads P src s primary rest)
    (hlen : rest.length = (protectionOf P primary).length) {g : Nat}
    (hg : g < divCeil (blockCountOf primary) recoveryDataShards) :
    matchGroup P src s primary.length (blockCountOf primary) (blockCountOf primary * 32) g =
      .ok (if (∀ slot ∈ List.range recoveryDataShards,
          HashMatches P primary rest (g * recoveryDataShards + slot)) ∧
          ∀ j ∈ List.range recoveryParityShards, ParityMatches P primary rest g j then
        some ((List.range (min (blockCountOf primary - g * recoveryDataShards) recoveryDataShards)).map fun j =>
          P.blake3 (block blockSize primary (g * recoveryDataShards + j)))
        else none) := by
  have hprot := length_protectionOf primary P
  have hblocks := tryAll_eq (f := fun slot => matchBlock P src s primary.length (blockCountOf primary)
    (g * recoveryDataShards + slot))
    fun slot (_ : slot ∈ List.range recoveryDataShards) => matchBlock_eq h hlen (g * recoveryDataShards + slot)
  have hroom : g * recoveryParityShards * blockSize + recoveryParityShards * blockSize ≤
      divCeil (blockCountOf primary) recoveryDataShards * recoveryParityShards * blockSize := by
    rw [Nat.mul_assoc, Nat.mul_assoc, ← Nat.succ_mul]
    exact Nat.mul_le_mul_right _ hg
  have hparity := @tryAll_eq _ (fun index => do
      let expected ← s.readExact P src (primary.length + blockCountOf primary * 32 +
        g * recoveryParityShards * blockSize + index * blockSize) blockSize
      if (protectionParity P primary g)[index]? ≠ some expected then return none else return some ())
    (ParityMatches P primary rest g) _ (fun _ => ()) (List.range recoveryParityShards) (by
      intro j hj
      have hj' : j * blockSize + blockSize ≤ recoveryParityShards * blockSize := by
        rw [← Nat.succ_mul]
        exact Nat.mul_le_mul_right _ (List.mem_range.1 hj)
      have hread := @Reads.readRest P src s primary rest h
        (blockCountOf primary * 32 + g * recoveryParityShards * blockSize + j * blockSize) blockSize (by omega)
      rw [show primary.length + blockCountOf primary * 32 + g * recoveryParityShards * blockSize + j * blockSize =
        primary.length + (blockCountOf primary * 32 + g * recoveryParityShards * blockSize + j * blockSize) by omega,
        hread, ok_bind]
      by_cases hm : ParityMatches P primary rest g j
      · rw [if_pos hm, if_neg fun hne => hne hm]
        rfl
      · rw [if_neg hm]
        exact if_pos hm)
  have hshards : ((List.range recoveryDataShards).map fun slot =>
      (shard 0 blockSize primary (g * recoveryDataShards + slot),
        if g * recoveryDataShards + slot < blockCountOf primary then
          [P.blake3 (block blockSize primary (g * recoveryDataShards + slot))] else [])).map (·.1) =
      shards 0 blockSize primary (g * recoveryDataShards) recoveryDataShards := by
    rw [List.map_map]
    rfl
  have hencode : (P.encode recoveryDataShards recoveryParityShards
      (shards 0 blockSize primary (g * recoveryDataShards) recoveryDataShards ++
        List.replicate recoveryParityShards (List.replicate blockSize 0))).drop recoveryDataShards =
      protectionParity P primary g := by
    rw [Primitives.encode, List.take_left' (length_shards _ _ _ _ _), List.drop_left' (length_shards _ _ _ _ _)]
    rfl
  unfold matchGroup
  rw [hblocks, ok_bind]
  by_cases hall : ∀ slot ∈ List.range recoveryDataShards,
      HashMatches P primary rest (g * recoveryDataShards + slot)
  · simp only [if_pos hall, hshards, hencode]
    rw [hparity, ok_bind]
    by_cases hpar : ∀ j ∈ List.range recoveryParityShards, ParityMatches P primary rest g j
    · rw [if_pos hpar, if_pos ⟨hall, hpar⟩, List.flatMap_map]
      simp only [flatMap_guard (fun i => P.blake3 (block blockSize primary i))]
      rfl
    · rw [if_neg hpar, if_neg fun hc => hpar hc.2]
      rfl
  · rw [if_neg hall, if_neg fun hc => hall hc.1]
    rfl

/-- A parity shard of a protection. -/
theorem slice_protectionOf_shard {g j : Nat} (hg : g < divCeil (blockCountOf primary) recoveryDataShards)
    (hj : j < recoveryParityShards) :
    (protectionParity P primary g)[j]? = some (slice (protectionOf P primary)
      (blockCountOf primary * 32 + g * recoveryParityShards * blockSize + j * blockSize) blockSize) := by
  have hlen := length_protectionParity primary P g
  have hroom : j * blockSize + blockSize ≤ recoveryParityShards * blockSize := by
    rw [← Nat.succ_mul]
    exact Nat.mul_le_mul_right _ hj
  rw [← slice_slice hroom, slice_protectionOf_parity primary hg,
    slice_flatten (fun _ => width_protectionParity primary) (by omega)]
  exact List.getElem?_eq_getElem (by omega)

/-- Two byte lists of one length agree when their pieces of a width agree. -/
theorem slice_eq_of_pieces {a b : List UInt8} {w off count : Nat} (hw : 0 < w)
    (ha : off + count * w ≤ a.length) (hb : off + count * w ≤ b.length)
    (h : ∀ i, i < count → slice a (off + i * w) w = slice b (off + i * w) w) :
    slice a off (count * w) = slice b off (count * w) := by
  have hcount : divCeil (count * w) w = count := by
    apply Nat.le_antisymm
    · exact (divCeil_le_iff hw).2 (Nat.le_refl _)
    · by_contra hlt
      exact lt_irrefl _ ((lt_divCeil hw).2 (Nat.mul_lt_mul_of_pos_right (Nat.lt_of_not_le hlt) hw))
  apply eq_of_blocks hw
  · rw [length_slice_of_le ha, length_slice_of_le hb]
  · intro i hi
    rw [length_slice_of_le ha, hcount] at hi
    have hfit : (i + 1) * w ≤ count * w := Nat.mul_le_mul_right _ hi
    rw [Nat.succ_mul] at hfit
    rw [block_slice, block_slice, show min (count * w - i * w) w = w by omega]
    exact h i hi

/-- A stored protection whose hashes and parity shards all match is the protection. -/
theorem eq_protectionOf_iff (hlen : rest.length = (protectionOf P primary).length) :
    rest = protectionOf P primary ↔
      ∀ g ∈ List.range (divCeil (blockCountOf primary) recoveryDataShards),
        (∀ slot ∈ List.range recoveryDataShards,
          HashMatches P primary rest (g * recoveryDataShards + slot)) ∧
        ∀ j ∈ List.range recoveryParityShards, ParityMatches P primary rest g j := by
  have hprot := length_protectionOf primary P
  constructor
  · rintro rfl g hg
    refine ⟨fun slot _ hlt => slice_protectionOf_hash primary hlt, fun j hj => ?_⟩
    exact slice_protectionOf_shard (List.mem_range.1 hg) (List.mem_range.1 hj)
  · intro h
    set groups := divCeil (blockCountOf primary) recoveryDataShards
    have hhashes : slice rest 0 (blockCountOf primary * 32) =
        slice (protectionOf P primary) 0 (blockCountOf primary * 32) := by
      refine slice_eq_of_pieces (by decide) (by omega) (by omega) fun i hi => ?_
      have hgroup : i / recoveryDataShards < groups := by
        rw [lt_divCeil (by decide)]
        exact lt_of_le_of_lt (Nat.div_mul_le_self i _) hi
      have hmatch := (h _ (List.mem_range.2 hgroup)).1 (i % recoveryDataShards)
        (List.mem_range.2 (Nat.mod_lt _ (by decide)))
      rw [Nat.div_add_mod'] at hmatch
      rw [Nat.zero_add, hmatch hi, slice_protectionOf_hash primary hi]
    have hparity : slice rest (blockCountOf primary * 32) (groups * recoveryParityShards * blockSize) =
        slice (protectionOf P primary) (blockCountOf primary * 32)
          (groups * recoveryParityShards * blockSize) := by
      refine slice_eq_of_pieces blockSize_pos (by omega) (by omega) fun i hi => ?_
      have hgroup : i / recoveryParityShards < groups := (Nat.div_lt_iff_lt_mul (by decide)).2 hi
      have hslot : i % recoveryParityShards < recoveryParityShards := Nat.mod_lt _ (by decide)
      have hmatch := (h _ (List.mem_range.2 hgroup)).2 _ (List.mem_range.2 hslot)
      have hshard := @slice_protectionOf_shard P primary _ _ hgroup hslot
      unfold ParityMatches at hmatch
      rw [hshard] at hmatch
      have hoff : i * blockSize = i / recoveryParityShards * recoveryParityShards * blockSize +
          i % recoveryParityShards * blockSize := by
        rw [← Nat.add_mul, Nat.div_add_mod']
      rw [hoff, ← Nat.add_assoc]
      exact (Option.some.inj hmatch).symm
    calc rest = slice rest 0 (blockCountOf primary * 32 + groups * recoveryParityShards * blockSize) := by
          rw [← hprot, ← hlen, slice_full]
      _ = slice (protectionOf P primary) 0
          (blockCountOf primary * 32 + groups * recoveryParityShards * blockSize) := by
          rw [slice_add, slice_add, hhashes, Nat.zero_add, hparity]
      _ = protectionOf P primary := by rw [← hprot, slice_full]

/-- The layout of a protection is that of the bytes that are written. -/
theorem protectionLayout_protectionOf (hlt : (protectionOf P primary).length < 2 ^ 64) :
    protectionLayout (blockCountOf primary) recoveryDataShards recoveryParityShards blockSize =
      .ok (blockCountOf primary * 32, (protectionOf P primary).length) := by
  have hprot := length_protectionOf primary P
  rw [hprot] at hlt
  have hshards : divCeil (blockCountOf primary) recoveryDataShards * recoveryParityShards ≤
      divCeil (blockCountOf primary) recoveryDataShards * recoveryParityShards * blockSize :=
    Nat.le_mul_of_pos_right _ blockSize_pos
  unfold protectionLayout
  rw [hprot, checkedMul_ok (by omega), ok_bind, checkedMul_ok (by omega), ok_bind, checkedMul_ok (by omega),
    ok_bind, checkedAdd_ok hlt]
  rfl

/-- The check of a protection without its trailer. -/
theorem protectionMatchesPrimary_eq (h : Reads P src s primary rest) :
    protectionMatchesPrimary P src s primary.length rest.length =
      .ok (if rest = protectionOf P primary then
        some { s with
          verifiedLength := primary.length
          verifiedHashes := hashesOf P primary (blockCountOf primary) }
        else none) := by
  have hprot := length_protectionOf primary P
  have hle := h.length_le
  have hlt := h.sound.len_lt
  have hn : blockCountOf primary ≤ divCeil (blockCountOf primary) recoveryDataShards * recoveryDataShards :=
    divCeil_mul_le (by decide)
  have hcount : divCeil primary.length blockSize = blockCountOf primary := rfl
  have hlayout : protectionLayout (blockCountOf primary) recoveryDataShards recoveryParityShards blockSize =
      .ok (blockCountOf primary * 32, (protectionOf P primary).length) := protectionLayout_protectionOf (by
    have hblocks : blockCountOf primary * blockSize < primary.length + blockSize := divCeil_mul_lt _ blockSize_pos
    have hgroups : divCeil (blockCountOf primary) recoveryDataShards * recoveryDataShards <
        blockCountOf primary + recoveryDataShards := divCeil_mul_lt _ (by decide)
    rw [hprot]
    generalize divCeil (blockCountOf primary) recoveryDataShards = groups at hgroups ⊢
    unfold recoveryDataShards at hgroups
    unfold recoveryParityShards
    unfold blockSize at hblocks ⊢
    omega)
  unfold protectionMatchesPrimary
  simp only [hcount, hlayout, ok_bind]
  by_cases hlen : rest.length = (protectionOf P primary).length
  · rw [if_neg (fun hne => hne hlen)]
    have hcodec : reedSolomonNew recoveryDataShards recoveryParityShards = .ok () := rfl
    simp only [hcodec]
    rw [tryAll_eq (fun g hg => matchGroup_eq h hlen (List.mem_range.1 hg)), ok_bind]
    by_cases hmatch : rest = protectionOf P primary
    · rw [if_pos ((eq_protectionOf_iff hlen).1 hmatch), if_pos hmatch]
      have hhashes := flatMap_groups (fun i => P.blake3 (block blockSize primary i)) (blockCountOf primary)
        recoveryDataShards (divCeil (blockCountOf primary) recoveryDataShards)
      rw [Nat.min_eq_left hn, ← hashesOf, List.flatMap_def] at hhashes
      simp only [Option.map_some, hhashes, pure_eq_ok]
    · rw [if_neg fun hc => hmatch ((eq_protectionOf_iff hlen).2 hc), if_neg hmatch]
      rfl
  · rw [if_pos hlen, if_neg fun heq => hlen (congrArg List.length heq)]
    rfl

end Matches

/-! ## The fallback -/

section Fallback

variable {P : Primitives} {src : List UInt8} {s s' : RecoverySection}

/-- A state read from a section stays within the limit and the section, and every section with the same
reads gives it as well. -/
theorem readPrimary_transfer {limit consumed : Nat} {state : RecoveryState} (hstart : s'.start = s.start)
    (hlen : s'.len = s.len) (hread : ∀ off n, s'.readExact P src off n = s.readExact P src off n)
    (h : RecoveryState.readPrimary P src s limit = .ok (state, consumed)) :
    consumed ≤ limit ∧ consumed ≤ s.len ∧ state.recoverySection = s ∧
      ∀ limit', consumed ≤ limit' →
        RecoveryState.readPrimary P src s' limit' = .ok ({ state with recoverySection := s' }, consumed) := by
  unfold RecoveryState.readPrimary at h ⊢
  simp only [hread, hstart, hlen]
  simp only [bind_eq_ok] at h
  obtain ⟨header, hheader, ⟨magic, buf⟩, hmagic, h⟩ := h
  simp only at h
  split at h
  · cases h
  rename_i hm
  simp only [bind_eq_ok] at h
  obtain ⟨⟨version, buf₁⟩, hversion, h⟩ := h
  simp only at h
  split at h
  · cases h
  rename_i hv
  simp only [bind_eq_ok] at h
  obtain ⟨⟨algo, buf₂⟩, halgo, h⟩ := h
  simp only at h
  split at h
  · cases h
  rename_i ha
  simp only [bind_eq_ok] at h
  obtain ⟨⟨size, buf₃⟩, h₃, ⟨dataShards, buf₄⟩, h₄, ⟨parityShards, buf₅⟩, h₅, ⟨reserved, buf₆⟩, h₆,
    ⟨payloadStart, buf₇⟩, h₇, ⟨payloadLength, buf₈⟩, h₈, ⟨blockCount, buf₉⟩, h₉, ⟨indexLength, buf₁₀⟩, h₁₀,
    ⟨indexHash, buf₁₁⟩, h₁₁, _, hshards, h⟩ := h
  simp only at h₄ h₅ h₆ h₇ h₈ h₉ h₁₀ h₁₁ hshards h
  split at h
  · cases h
  rename_i hcount
  simp only [bind_eq_ok] at h
  obtain ⟨payloadEnd, hend, h⟩ := h
  split at h
  · cases h
  rename_i hoverlap
  simp only [bind_eq_ok] at h
  obtain ⟨hashLen, hhash, parityOffset, hoffset, shardCount, hshard, parityLen, hparity, indexOffset, hindex,
    consumed', hconsumed, h⟩ := h
  split at h
  · cases h
  rename_i hfits
  simp only [bind_eq_ok] at h
  obtain ⟨chunks, hchunks, mirror, hmirror, h⟩ := h
  split at h
  · cases h
  rename_i hmatch
  cases h
  refine ⟨by omega, by omega, rfl, fun limit' hlimit => ?_⟩
  simp only [hheader, hmagic, ok_bind]
  rw [if_neg hm]
  simp only [hversion, ok_bind]
  rw [if_neg hv]
  simp only [halgo, ok_bind]
  rw [if_neg ha]
  simp only [h₃, h₄, h₅, h₆, h₇, h₈, h₉, h₁₀, h₁₁, hshards, ok_bind]
  rw [if_neg hcount]
  simp only [hend, ok_bind]
  rw [if_neg hoverlap]
  simp only [hhash, hoffset, hshard, hparity, hindex, hconsumed, ok_bind]
  rw [if_neg (show ¬ (limit' < consumed ∨ s.len < consumed) by omega)]
  simp only [hchunks, hmirror, ok_bind]
  rw [if_neg hmatch]
  rfl

/-- The section whose first bytes have passed as `primary`. -/
def verifiedAs (P : Primitives) (s : RecoverySection) (primary : List UInt8) : RecoverySection :=
  { s with
    verifiedLength := primary.length
    verifiedHashes := hashesOf P primary (blockCountOf primary) }

/-- Passing does not change what the section reads. -/
theorem readExact_verifiedAs (hs : s.Sound src) (hv : s.Verified P src) {primary : List UInt8}
    (hle : primary.length ≤ s.len) (hview : (s.view src).take primary.length = primary) (off n : Nat) :
    (verifiedAs P s primary).readExact P src off n = s.readExact P src off n := by
  have hs' : (verifiedAs P s primary).Sound src := ⟨hs.inside, hs.len_lt, hs.patches_le⟩
  have hv' : (verifiedAs P s primary).Verified P src := by
    refine ⟨hle, fun i hi => ?_⟩
    have hi' : i < blockCountOf primary := hi
    show (hashesOf P primary (blockCountOf primary))[i]? = some (P.blake3 (block blockSize
      ((s.view src).take primary.length) i))
    rw [hview]
    simp [hashesOf, hi']
  rw [RecoverySection.readExact_eq hs' hv', RecoverySection.readExact_eq hs hv]
  rfl

/-- Without its trailer a section is taken exactly when its primary section reads completely and the
bytes behind it, up to the trailer, are the protection computed from it. -/
theorem readWithDamagedTrailer_ok_iff (hs : s.Sound src) (hv : s.Verified P src)
    {content trailer : List UInt8} (hview : s.view src = content ++ trailer)
    (htrailer : trailer.length = recoveryProtectionTrailerLen) (state : RecoveryState) :
    RecoveryState.readWithDamagedTrailer P src s = .ok state ↔
      ∃ read consumed, RecoveryState.readPrimary P src s content.length = .ok (read, consumed) ∧
        content.drop consumed = protectionOf P (content.take consumed) ∧
        state = { read with recoverySection := verifiedAs P s (content.take consumed) } := by
  have hlen := hs.length_view
  rw [hview, List.length_append, htrailer] at hlen
  have hstart : s.len - recoveryProtectionTrailerLen = content.length := by omega
  unfold RecoveryState.readWithDamagedTrailer
  simp only [hstart]
  cases hprimary : RecoveryState.readPrimary P src s content.length with
  | error e =>
    constructor
    · intro h
      cases h
    · rintro ⟨read, consumed, h, -⟩
      cases h
  | ok result =>
    obtain ⟨read, consumed⟩ := result
    obtain ⟨hle, -, hsect, -⟩ := readPrimary_transfer rfl rfl (fun _ _ => rfl) hprimary
    have hlenp : (content.take consumed).length = consumed := by rw [List.length_take]; omega
    have hreads : Reads P src s (content.take consumed) (content.drop consumed) :=
      ⟨hs, hv, trailer, by rw [hview, ← List.append_assoc, List.take_append_drop]⟩
    have hmatch := protectionMatchesPrimary_eq hreads
    rw [hlenp, List.length_drop] at hmatch
    simp only [Except.mapError, ok_bind, hsect, hmatch]
    by_cases hprot : content.drop consumed = protectionOf P (content.take consumed)
    · have hsame := @readExact_verifiedAs P src s hs hv (content.take consumed) (by omega)
        (by rw [hlenp, hview, List.take_append_of_le_length hle])
      have hagain := (@readPrimary_transfer P src s (verifiedAs P s (content.take consumed)) _ _ _ rfl rfl hsame
        hprimary).2.2.2 consumed (Nat.le_refl _)
      have hverified : verifiedAs P s (content.take consumed) = { s with
          verifiedLength := consumed
          verifiedHashes := hashesOf P (content.take consumed) (blockCountOf (content.take consumed)) } := by
        rw [verifiedAs, hlenp]
      rw [if_pos hprot]
      simp only [← hverified, hagain, ok_bind, ne_eq, not_true_eq_false, if_false]
      constructor
      · intro h
        cases h
        exact ⟨read, consumed, rfl, hprot, rfl⟩
      · rintro ⟨read', consumed', h, -, rfl⟩
        cases h
        rfl
    · rw [if_neg hprot]
      constructor
      · intro h
        cases h
      · rintro ⟨read', consumed', h, hprot', -⟩
        cases h
        exact absurd hprot' hprot

/-- A trailer whose CRC bytes do not hold. -/
theorem parseTrailer_crc {primary crc : List UInt8} {n len : Nat} (hcrc : crc.length = 4)
    (hne : leNat crc ≠ (P.crc32c (trailerFields P primary n len)).toNat) :
    (∃ e, parseRecoveryProtectionTrailer P (trailerFields P primary n len ++ crc) = .error e) ∧
      trailerCrcMismatch P (trailerFields P primary n len ++ crc) = true := by
  have hlen : (trailerFields P primary n len ++ crc).length = recoveryProtectionTrailerLen := by
    rw [List.length_append, length_trailerFields, hcrc]
    rfl
  constructor
  · unfold parseRecoveryProtectionTrailer
    rw [if_neg (by omega)]
    simp only [hlen, Nat.sub_self, List.drop_zero]
    rw [slice_trailer_magic, if_neg (fun h => h rfl), slice_trailer_fields, slice_trailer_crc _ _ _ _ hcrc,
      if_pos hne]
    exact ⟨_, rfl⟩
  · unfold trailerCrcMismatch
    rw [slice_trailer_magic, slice_trailer_fields, slice_trailer_crc _ _ _ _ hcrc]
    simpa using fun h => hne h.symm

/-- A section whose trailer has only its CRC damaged. -/
theorem readProtected_damagedCrc (hs : s.Sound src) (hv : s.Verified P src) {content primary crc : List UInt8}
    {n len : Nat} (hcrc : crc.length = 4) (hne : leNat crc ≠ (P.crc32c (trailerFields P primary n len)).toNat)
    (hview : s.view src = content ++ (trailerFields P primary n len ++ crc)) :
    RecoveryState.readProtected P src s = RecoveryState.readWithDamagedTrailer P src s := by
  have htrailer : (trailerFields P primary n len ++ crc).length = recoveryProtectionTrailerLen := by
    rw [List.length_append, length_trailerFields, hcrc]
    rfl
  have hlen := hs.length_view
  rw [hview, List.length_append, htrailer] at hlen
  obtain ⟨⟨e, hparse⟩, hmismatch⟩ := parseTrailer_crc hcrc hne
  unfold RecoveryState.readProtected
  rw [if_neg (by omega)]
  simp only
  rw [RecoverySection.readExact_eq hs hv, if_pos (by omega), ok_bind, hview,
    slice_suffix (by omega) htrailer.symm, hparse]
  exact if_pos hmismatch

end Fallback

end Squallz.Sqz
