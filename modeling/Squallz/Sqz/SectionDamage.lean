/-
Damage to the recovery section of a container: what the reader makes of damaged primary blocks behind
an intact protection, and of a section whose trailer has lost its CRC.
-/
import Squallz.Sqz.DamagedTrailer
import Squallz.Sqz.PayloadDamage

namespace Squallz.Sqz

open Squallz.Api Squallz.Bytes Squallz.Erasure

namespace Container

variable {P : Primitives} (c : Container P)

/-- What the primary section stands for. -/
def state (s : RecoverySection) : RecoveryState :=
  stateOf P c.opts.parityShards c.payloadStart c.payload c.index s

/-- The fields of the trailer, without their CRC. -/
def trailerFields : List UInt8 :=
  Sqz.trailerFields P c.primary (blockCountOf c.primary) (protectionOf P c.primary).length

/-- A file with `bytes` in the place of the recovery section. -/
structure ShowsSection (src bytes : List UInt8) : Prop where
  inside : c.recoveryOffset + c.recoverySection.length ≤ src.length
  reads : slice src c.recoveryOffset c.recoverySection.length = bytes

variable {c} {src : List UInt8} {s : RecoverySection}

theorem new_eq (h : RecoverySection.new c.recoveryOffset c.recoverySection.length = .ok s) :
    s = { start := c.recoveryOffset
          len := c.recoverySection.length
          patchSize := blockSize
          patches := []
          verifiedLength := 0
          verifiedHashes := []
          patchSize_pos := blockSize_pos } := by
  simp only [RecoverySection.new, bind_eq_ok, pure_eq_ok] at h
  obtain ⟨_, -, h⟩ := h
  cases h
  rfl

theorem recoverySection_lt : c.recoverySection.length < 2 ^ 64 := by
  have hlt := c.bytes_lt
  have hparts : c.footerOffset = c.recoveryOffset + c.recoverySection.length + c.index.length := rfl
  omega

/-- A new section over what the file shows. -/
theorem new_reads (h : RecoverySection.new c.recoveryOffset c.recoverySection.length = .ok s) {bytes : List UInt8}
    (hb : ShowsSection c src bytes) : s.Sound src ∧ s.Verified P src ∧ s.view src = bytes := by
  rw [new_eq h]
  refine ⟨⟨hb.inside, recoverySection_lt, fun b p hp => by cases hp⟩, ⟨Nat.zero_le _, fun i hi => ?_⟩, ?_⟩
  · simp [divCeil_zero] at hi
  · exact (patched_none blockSize _).trans hb.reads

theorem new_guarded (h : RecoverySection.new c.recoveryOffset c.recoverySection.length = .ok s)
    {primary' : List UInt8} (hb : ShowsSection c src (primary' ++ (protectionOf P c.primary ++ trailerOf P c.primary)))
    (hl : primary'.length = c.primary.length) (hd : DistinguishesBlocks P c.primary primary')
    (ht : P.blake3 primary' = P.blake3 c.primary → primary' = c.primary)
    (hm : P.reedSolomon.Mds recoveryDataShards recoveryParityShards) :
    Guarded P src s c.primary primary' (trailerOf P c.primary) := by
  rw [new_eq h]
  exact ⟨hb.inside, recoverySection_lt, rfl, rfl, hb.reads, hl, hd, ht, fun _ => hm⟩

/-- The primary section is restored where every group has lost no more than its parity. -/
theorem readProtected_restores (h : RecoverySection.new c.recoveryOffset c.recoverySection.length = .ok s)
    {primary' : List UInt8} (hg : Guarded P src s c.primary primary' (trailerOf P c.primary))
    (hfits : ∀ g, damagedIn c.primary primary' g ≤ recoveryParityShards) :
    ∃ s', RecoveryState.readProtected P src s = .ok (c.state s') ∧ ShowsPrimary P src s' c.primary := by
  have hlt := c.bytes_lt
  have hparts : c.footerOffset = c.recoveryOffset + c.recoverySection.length + c.index.length := rfl
  have hrec : c.recoveryOffset = c.payloadStart + c.payload.length := rfl
  have hstart : s.start = c.recoveryOffset := by rw [new_eq h]
  exact readProtected_ok hg (by rw [new_eq h]) c.opts.parityShards_bounds (by omega) (by omega) hfits

end Container

/-- The recovery section of a written container: with an intact protection the primary section is
restored where no group has lost more than its parity and refused otherwise; with only the CRC of the
trailer damaged the section is taken exactly when its primary section reads completely and the bytes
behind it are the protection computed from it. -/
theorem readProtected_writeContainer {P : Primitives} {ctx : WriterContext} {capacity : UInt64}
    {opts : SqzCreateOptions} {entries : List (EntryMeta × Option Body)} {bytes : List UInt8}
    (h : writeContainer P ctx capacity opts entries = .ok bytes) :
    ∃ c : Container P, c.bytes = bytes ∧ c.opts = opts ∧ c.payload = payloadOf entries ∧
      ∀ src s, RecoverySection.new c.recoveryOffset c.recoverySection.length = .ok s →
        (∀ primary', c.ShowsSection src (primary' ++ (protectionOf P c.primary ++ trailerOf P c.primary)) →
          primary'.length = c.primary.length → DistinguishesBlocks P c.primary primary' →
          (P.blake3 primary' = P.blake3 c.primary → primary' = c.primary) →
          P.reedSolomon.Mds recoveryDataShards recoveryParityShards →
          ((∀ g, damagedIn c.primary primary' g ≤ recoveryParityShards) →
            ∃ s', RecoveryState.readProtected P src s = .ok (c.state s') ∧ ShowsPrimary P src s' c.primary) ∧
          ∀ g, recoveryParityShards < damagedIn c.primary primary' g →
            ∃ message, RecoveryState.readProtected P src s = corrupt message) ∧
        ∀ content crc, c.ShowsSection src (content ++ (c.trailerFields ++ crc)) → crc.length = 4 →
          leNat crc ≠ (P.crc32c c.trailerFields).toNat → ∀ state,
          RecoveryState.readProtected P src s = .ok state ↔
            ∃ read consumed, RecoveryState.readPrimary P src s content.length = .ok (read, consumed) ∧
              content.drop consumed = protectionOf P (content.take consumed) ∧
              state = { read with recoverySection := verifiedAs P s (content.take consumed) } := by
  obtain ⟨c, rfl, rfl, hpayload, -⟩ := writeContainer_ok h
  refine ⟨c, rfl, rfl, hpayload, fun src s hnew => ⟨fun primary' hb hl hd ht hm => ⟨fun hfits => ?_, fun g hover => ?_⟩,
    fun content crc hb hcrc hne state => ?_⟩⟩
  · exact Container.readProtected_restores hnew (Container.new_guarded hnew hb hl hd ht hm) hfits
  · exact ⟨_, readProtected_overloaded (Container.new_guarded hnew hb hl hd ht hm)
      (by rw [Container.new_eq hnew]) hover⟩
  · obtain ⟨hs, hv, hview⟩ := Container.new_reads hnew hb
    have htrailer : (c.trailerFields ++ crc).length = recoveryProtectionTrailerLen := by
      rw [List.length_append, hcrc, Container.trailerFields, length_trailerFields]
      rfl
    rw [readProtected_damagedCrc hs hv hcrc hne hview]
    exact readWithDamagedTrailer_ok_iff hs hv hview htrailer state

/-! ## An altered first byte -/

section FirstByte

variable {x y : UInt8} {l : List UInt8}

theorem block_cons_succ (size i : Nat) (hs : 0 < size) :
    block size (x :: l) (i + 1) = block size (y :: l) (i + 1) := by
  have hpos : 0 < (i + 1) * size := Nat.mul_pos (Nat.succ_pos i) hs
  obtain ⟨k, hk⟩ := Nat.exists_eq_succ_of_ne_zero (Nat.ne_of_gt hpos)
  rw [block, block, slice, slice, hk]
  rfl

theorem block_cons_zero : block blockSize (x :: l) 0 = x :: l.take (blockSize - 1) := by
  rw [block, slice, Nat.zero_mul, List.drop_zero, show blockSize = blockSize - 1 + 1 from rfl, List.take_succ_cons]
  rfl

theorem damagedIn_cons_le (g : Nat) : damagedIn (x :: l) (y :: l) g ≤ 1 := by
  have hzero : ∀ j ∈ List.range dataShards, damagedBlock (x :: l) (y :: l) (g * dataShards + j) = true →
      decide (j = 0) = true := by
    intro j _ hd
    rw [damagedBlock_iff] at hd
    rw [decide_eq_true_eq]
    by_contra hj
    obtain ⟨k, hk⟩ := Nat.exists_eq_succ_of_ne_zero (show g * dataShards + j ≠ 0 by omega)
    rw [hk] at hd
    exact hd (block_cons_succ blockSize k blockSize_pos)
  exact le_trans (List.countP_mono_left hzero) (by decide)

theorem distinguishes_cons (h : x ≠ y) : DistinguishesBlocks samplePrimitives (x :: l) (y :: l) := by
  intro i _ heq
  cases i with
  | zero =>
    rw [block_cons_zero, block_cons_zero] at heq
    have := congrArg (fun d : Digest => d.bytes.head?) heq
    simp only [head_blake3] at this
    exact absurd (Option.some.inj this).symm h
  | succ i => exact block_cons_succ blockSize i blockSize_pos

end FirstByte

theorem primaryOf_cons (P : Primitives) (parityShards start : Nat) (payload index : List UInt8) :
    ∃ rest, primaryOf P parityShards start payload index = 82 :: rest := ⟨_, rfl⟩

namespace Container

variable {P : Primitives} (c : Container P)

/-- The file of a container whose recovery section has been replaced. -/
def withSection (sect : List UInt8) : List UInt8 := { c.parts with recoverySection := sect }.bytes

theorem showsSection_withSection (sect : List UInt8) (hl : sect.length = c.recoverySection.length) :
    c.ShowsSection (c.withSection sect) sect := by
  have hheader : c.header.length = headerLen := c.length_header
  constructor
  · have hbytes := c.length_bytes
    have hparts : c.footerOffset = c.recoveryOffset + c.recoverySection.length + c.index.length := rfl
    have : (c.withSection sect).length = c.bytes.length := by
      simp only [withSection, bytes, Parts.bytes, List.length_append, hl]
      rfl
    omega
  · exact Parts.slice_recoverySection { c.parts with recoverySection := sect }
      (by rw [recoveryOffset, payloadStart, ← hheader]; rfl) hl.symm

theorem exists_new : ∃ s, RecoverySection.new c.recoveryOffset c.recoverySection.length = .ok s := by
  have hlt := c.bytes_lt
  have hparts : c.footerOffset = c.recoveryOffset + c.recoverySection.length + c.index.length := rfl
  unfold RecoverySection.new
  rw [checkedAdd_ok (by omega)]
  exact ⟨_, rfl⟩

end Container

theorem readProtected_writeContainer_sample : ∃ (c : Container samplePrimitives) (primary' src : List UInt8)
    (s s' : RecoverySection), primary' ≠ c.primary ∧
    c.ShowsSection src (primary' ++ (protectionOf samplePrimitives c.primary ++ trailerOf samplePrimitives c.primary)) ∧
    RecoverySection.new c.recoveryOffset c.recoverySection.length = .ok s ∧
    RecoveryState.readProtected samplePrimitives src s = .ok (c.state s') ∧
    ShowsPrimary samplePrimitives src s' c.primary := by
  obtain ⟨bytes, h⟩ := writeContainer_fileEntry 97 [1, 2, 3] rfl (by decide)
  obtain ⟨c, -, -, -, hsect⟩ := readProtected_writeContainer h
  obtain ⟨rest, hprimary⟩ : ∃ rest, c.primary = 82 :: rest := primaryOf_cons _ _ _ _ _
  obtain ⟨s, hnew⟩ := c.exists_new
  have hne : (0 : UInt8) :: rest ≠ c.primary := by
    rw [hprimary]
    exact fun heq => absurd (List.cons.inj heq).1 (by decide)
  have hb := c.showsSection_withSection ((0 :: rest) ++ (protectionOf samplePrimitives c.primary ++
    trailerOf samplePrimitives c.primary)) (by
      rw [Container.recoverySection, protectedOf]
      simp only [hprimary, List.length_append, List.length_cons])
  obtain ⟨s', hread, hshows⟩ := ((hsect _ s hnew).1 _ hb (by rw [hprimary]; rfl)
    (by rw [hprimary]; exact distinguishes_cons (by decide))
    (fun heq => by
      rw [hprimary] at heq
      have := congrArg (fun d : Digest => d.bytes.head?) heq
      simp only [head_blake3] at this
      exact absurd (Option.some.inj this) (by decide)) (galois8_mds (by decide) (by decide))).1
    (fun g => by
      rw [hprimary]
      exact le_trans (damagedIn_cons_le g) (by decide))
  exact ⟨c, _, _, s, s', hne, hb, hnew, hread, hshows⟩

/-! ## A section that its trailer does not describe -/

/-- The payload start of a primary section is within its first 32 bytes. -/
theorem take_primaryOf_ne {parityShards start start' : Nat} {payload index : List UInt8} (hs : start < 2 ^ 64)
    (hs' : start' < 2 ^ 64) (hne : start ≠ start') :
    (primaryOf samplePrimitives parityShards start payload index).take 32 ≠
      (primaryOf samplePrimitives parityShards start' payload index).take 32 := by
  intro h
  have hfield : ∀ n, slice ((primaryOf samplePrimitives parityShards n payload index).take 32) 20 8 = leBytes 8 n := by
    intro n
    rw [slice_take (by decide)]
    simp only [primaryOf, primaryHeader, List.append_assoc, slice_append_right, length_leBytes,
      show recoveryMagic.length = 4 from rfl, Nat.reduceLeDiff, Nat.reduceSub, slice_head, Nat.le_refl]
  have heq := congrArg (fun l => leNat (slice l 20 8)) h
  simp only [hfield] at heq
  rw [leNat_leBytes_of_lt hs, leNat_leBytes_of_lt hs'] at heq
  exact hne heq

theorem blake3_sample_ne {a b : List UInt8} (ha : 32 ≤ a.length) (hb : 32 ≤ b.length) (h : a.take 32 ≠ b.take 32) :
    samplePrimitives.blake3 a ≠ samplePrimitives.blake3 b := by
  intro heq
  have hbytes : ∀ l : List UInt8, 32 ≤ l.length → (samplePrimitives.blake3 l).bytes = l.take 32 := by
    intro l hl
    show padTo 0 32 (l.take 32) = l.take 32
    rw [padTo, List.length_take, Nat.min_eq_left hl, Nat.sub_self, List.replicate_zero, List.append_nil]
  have := congrArg Digest.bytes heq
  rw [hbytes a ha, hbytes b hb] at this
  exact h this

/-- With the CRC of the trailer damaged, a primary section that differs from the one the trailer
describes is taken when its protection has been computed anew. -/
theorem undescribed_primary_accepted : ∃ (bytes : List UInt8) (c : Container samplePrimitives)
    (src content crc : List UInt8) (s : RecoverySection) (state : RecoveryState),
    writeContainer samplePrimitives sampleContext 0xFFFFFFFFFFFFFFFF ⟨.sqz, 5⟩ [fileEntry 97 [1, 2, 3]] = .ok bytes ∧
    c.bytes = bytes ∧ RecoverySection.new c.recoveryOffset c.recoverySection.length = .ok s ∧
    c.ShowsSection src (content ++ (c.trailerFields ++ crc)) ∧ crc.length = 4 ∧
    leNat crc ≠ (samplePrimitives.crc32c c.trailerFields).toNat ∧
    samplePrimitives.blake3 (content.take c.primary.length) ≠ samplePrimitives.blake3 c.primary ∧
    RecoveryState.readProtected samplePrimitives src s = .ok state := by
  obtain ⟨bytes, h⟩ := writeContainer_fileEntry 97 [1, 2, 3] rfl (by decide)
  obtain ⟨c, hbytes, -, -, -⟩ := writeContainer_ok h
  obtain ⟨s, hnew⟩ := c.exists_new
  have hlt := c.bytes_lt
  have hparts : c.footerOffset = c.recoveryOffset + c.recoverySection.length + c.index.length := rfl
  have hrec : c.recoveryOffset = c.payloadStart + c.payload.length := rfl
  have hpos : 0 < c.payloadStart := Nat.lt_of_lt_of_le (by decide) (Nat.le_add_right headerLen _)
  -- a primary section whose payload starts one byte earlier, and its protection
  set other := primaryOf samplePrimitives c.opts.parityShards (c.payloadStart - 1) c.payload c.index with hother
  have hlen : other.length = c.primary.length := by
    rw [hother, Container.primary, length_primaryOf, length_primaryOf]
  have hprot : (protectionOf samplePrimitives other).length = (protectionOf samplePrimitives c.primary).length := by
    rw [length_protectionOf, length_protectionOf, blockCountOf, blockCountOf, hlen]
  set crc := leBytes 4 (((samplePrimitives.crc32c c.trailerFields).toNat + 1) % 2 ^ 32) with hcrc
  have hclen : crc.length = 4 := length_leBytes _ _
  have hcne : leNat crc ≠ (samplePrimitives.crc32c c.trailerFields).toNat := by
    have hmod := Nat.mod_lt ((samplePrimitives.crc32c c.trailerFields).toNat + 1) (show 0 < 2 ^ 32 by decide)
    rw [hcrc, leNat_leBytes_of_lt (by omega)]
    have := (samplePrimitives.crc32c c.trailerFields).toNat_lt
    omega
  have htlen : (c.trailerFields ++ crc).length = recoveryProtectionTrailerLen := by
    rw [List.length_append, hclen, Container.trailerFields, length_trailerFields]
    rfl
  obtain ⟨src, hb⟩ : ∃ src, c.ShowsSection src ((other ++ protectionOf samplePrimitives other) ++
      (c.trailerFields ++ crc)) := ⟨_, c.showsSection_withSection _ (by
      have := length_trailerOf c.primary samplePrimitives
      simp only [Container.recoverySection, protectedOf, List.length_append] at htlen ⊢
      omega)⟩
  obtain ⟨hs, hv, hview⟩ := Container.new_reads hnew hb
  have hshows : ShowsPrimary samplePrimitives src s other := by
    refine ⟨hs, hv, ?_, ?_⟩
    · have := hs.length_view
      rw [hview, List.length_append, List.length_append] at this
      omega
    · rw [hview, List.append_assoc, List.take_left' rfl]
  have hstart : s.start = c.recoveryOffset := by rw [Container.new_eq hnew]
  have hfits : other.length ≤ (other ++ protectionOf samplePrimitives other).length := by
    rw [List.length_append]
    omega
  have hread := readPrimary_primaryOf hshows c.opts.parityShards_bounds (by omega) (by omega) hfits
  have hok := (readWithDamagedTrailer_ok_iff hs hv hview htlen _).2
    ⟨_, _, hread, by rw [← hother, List.drop_left' rfl, List.take_left' rfl], rfl⟩
  rw [← readProtected_damagedCrc hs hv hclen hcne hview] at hok
  refine ⟨bytes, c, src, _, crc, s, _, h, hbytes, hnew, hb, hclen, hcne, ?_, hok⟩
  rw [List.take_left' hlen]
  have hplen : 32 ≤ c.primary.length := by
    rw [Container.primary, length_primaryOf, parityOffsetOf, recoveryHeaderLen]
    omega
  exact blake3_sample_ne (by omega) hplen (take_primaryOf_ne (by omega) (by omega) (by omega))

end Squallz.Sqz
