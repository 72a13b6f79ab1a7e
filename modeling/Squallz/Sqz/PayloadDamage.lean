/-
Damage to the payload of a container: which blocks are repaired when it is opened, which are marked
unrepaired, and what reading an entry returns.
-/
import Squallz.Sqz.RoundTrip

namespace Squallz.Sqz

open Squallz.Api Squallz.Bytes Squallz.Erasure

/-! ## Opening -/

namespace Container

variable {P : Primitives} (c : Container P) (payload' : List UInt8)

/-- The file of a container whose payload has been replaced. -/
def withPayload : List UInt8 := { c.parts with payload := payload' }.bytes

variable {c payload'}

theorem length_withPayload (hl : payload'.length = c.payload.length) :
    (c.withPayload payload').length = c.bytes.length := by
  simp only [withPayload, bytes, Parts.bytes, List.length_append, hl]
  rfl

/-- Opening the entry set of a container with a damaged payload. -/
theorem openEntrySet_withPayload (hl : payload'.length = c.payload.length)
    (hd : DistinguishesBlocks P c.payload payload') (hm : GroupsMds P c.opts.parityShards) :
    ∃ repaired unrepaired,
      openEntrySet P (c.withPayload payload') =
        .ok (c.opened (c.withPayload payload') repaired unrepaired, c.opts.innerFormat.asStr) ∧
      PayloadIs c (c.withPayload payload') payload' ∧
      Filed c.opts.parityShards c.payload payload' (divCeil (blockCountOf c.payload) dataShards)
        repaired unrepaired := by
  have hlen := length_withPayload hl
  have hheader : c.header.length = headerLen := c.length_header
  have hp : PayloadIs c (c.withPayload payload') payload' :=
    ⟨Parts.slice_payload { c.parts with payload := payload' } (by rw [payloadStart, ← hheader]; rfl) hl.symm,
      hl, hd, fun _ => hm⟩
  have hsect : slice (c.withPayload payload') c.recoveryOffset c.recoverySection.length = c.recoverySection :=
    Parts.slice_recoverySection { c.parts with payload := payload' }
      (by rw [recoveryOffset, payloadStart, ← hheader, ← hl]; rfl) rfl
  have hindex : slice (c.withPayload payload') c.indexOffset c.index.length = c.index :=
    Parts.slice_index { c.parts with payload := payload' }
      (by rw [indexOffset, recoveryOffset, payloadStart, ← hheader, ← hl]; rfl) rfl
  have hfoot : slice (c.withPayload payload') c.footerOffset footerLen = c.footer :=
    Parts.slice_footer { c.parts with payload := payload' }
      (by rw [footerOffset, indexOffset, recoveryOffset, payloadStart, ← hheader, ← hl]; rfl)
      c.length_footer.symm
  have hfooter : openFooter P (c.withPayload payload') (c.withPayload payload').length =
      .ok (c.footerFields, none) := by
    unfold openFooter
    rw [readFooter_eq hlen hfoot]
  obtain ⟨repaired, unrepaired, hopen, hfiled⟩ := openEntrySet_eq hlen hfooter
    (readDescriptor_eq hlen (Parts.slice_header { c.parts with payload := payload' } hheader.symm)
      (Parts.slice_descriptor { c.parts with payload := payload' } hheader.symm rfl)) hsect hindex hp
  exact ⟨repaired, unrepaired, hopen, hp, hfiled⟩

end Container

/-! ## Repair and reading -/

/-- What a reader of a container with a damaged payload shows: the repaired blocks, the unrepaired
blocks, and for every file its data or an error. -/
structure Repairs {P : Primitives} (c : Container P) (entries : List (EntryMeta × Option Body))
    (payload' : List UInt8) (reader : EntrySetSqzReader) : Prop where
  entries_eq : reader.entries = entries.map listed
  recovery : ∃ recovery, reader.recovery = some recovery ∧
    (∀ i, damagedBlock c.payload payload' i →
      damagedIn c.payload payload' (i / dataShards) ≤ c.opts.parityShards →
        recovery.repairedBlocks.lookup i = some (block blockSize c.payload i)) ∧
    ∀ i, i ∈ recovery.unrepairedBlocks ↔ damagedBlock c.payload payload' i ∧
      c.opts.parityShards < damagedIn c.payload payload' (i / dataShards)
  file : ∀ path entryMeta data, entryAt entries path = some (entryMeta, data) → entryMeta.entryType = .file →
    ∃ body r, data = some body ∧ r ∈ c.records ∧ Stored P c.payloadStart c.payload (entryMeta, data) r ∧
      ((∀ i, r.Overlaps c.payloadStart i →
          damagedIn c.payload payload' (i / dataShards) ≤ c.opts.parityShards) →
        ∃ entryData, reader.readEntry path = .ok entryData ∧ entryData.Yields (Body.bytes body)) ∧
      (∀ i, r.Overlaps c.payloadStart i → damagedBlock c.payload payload' i →
          c.opts.parityShards < damagedIn c.payload payload' (i / dataShards) →
        ∃ message, reader.readEntry path = corrupt message) ∧
      ∀ entryData, reader.readEntry path = .ok entryData → entryData.Yields (Body.bytes body)

/-- Opening the container with a damaged payload. -/
theorem Container.repairs_withPayload {P : Primitives} {c : Container P} {entries : List (EntryMeta × Option Body)}
    {payload' : List UInt8} (hstored : List.Forall₂ (Stored P c.payloadStart c.payload) entries c.records)
    (hl : payload'.length = c.payload.length) (hd : DistinguishesBlocks P c.payload payload')
    (hm : GroupsMds P c.opts.parityShards) :
    ∃ reader, openEntrySet P (c.withPayload payload') = .ok (reader, c.opts.innerFormat.asStr) ∧
      Repairs c entries payload' reader := by
  obtain ⟨repaired, unrepaired, hopen, hp, hfiled⟩ := Container.openEntrySet_withPayload hl hd hm
  have hlen := Container.length_withPayload hl
  -- every damaged block lies in one of the groups that are repaired
  have hgroup : ∀ i, damagedBlock c.payload payload' i →
      i / dataShards < divCeil (blockCountOf c.payload) dataShards := by
    intro i hi
    rw [lt_divCeil (by decide)]
    exact lt_of_le_of_lt (Nat.div_mul_le_self i dataShards) (lt_of_damagedBlock hl hi)
  have hunrepaired : ∀ i, i ∈ unrepaired ↔ damagedBlock c.payload payload' i ∧
      c.opts.parityShards < damagedIn c.payload payload' (i / dataShards) := by
    intro i
    rw [hfiled.unrepaired]
    exact ⟨fun h => h.2, fun h => ⟨hgroup i h.1, h⟩⟩
  refine ⟨_, hopen, Container.entries_opened hstored, ⟨_, rfl, ?_, hunrepaired⟩, ?_⟩
  · intro i hi hfit
    show repaired.lookup i = _
    rw [hfiled.repaired, if_pos ⟨hgroup i hi, hi, hfit⟩]
  · intro path entryMeta data hat hfile
    obtain ⟨r, hr, hs, hfind⟩ := Container.find_opened (c.withPayload payload') repaired unrepaired hstored hat
    have hrfile : r.entryMeta.entryType = .file := by rw [hs.entryMeta, hfile]
    obtain ⟨body, hbody, -⟩ := hs.file hfile
    simp only at hbody
    subst hbody
    have hgood : (∀ i ∈ unrepaired, ¬ r.Overlaps c.payloadStart i) → ∃ entryData,
        (c.opened (c.withPayload payload') repaired unrepaired).readEntry path = .ok entryData ∧
          entryData.Yields (Body.bytes body) :=
      Container.readEntry_ok hlen hp hfiled hr hs hfile hfind
    refine ⟨body, r, rfl, hr, hs, fun hfit => hgood fun i hi hover => ?_, fun i hover hdam hlost => ?_,
      fun entryData hread => ?_⟩
    · have := ((hunrepaired i).1 hi).2
      have := hfit i hover
      omega
    · exact Container.readEntry_damaged hr hrfile hfind ((hunrepaired i).2 ⟨hdam, hlost⟩) hover
    · by_cases hall : ∀ i ∈ unrepaired, ¬ r.Overlaps c.payloadStart i
      · obtain ⟨entryData', hread', hyields⟩ := hgood hall
        rw [hread] at hread'
        cases hread'
        exact hyields
      · push Not at hall
        obtain ⟨i, hi, hover⟩ := hall
        obtain ⟨message, hcorrupt⟩ := Container.readEntry_damaged hr hrfile hfind hi hover
        rw [hread] at hcorrupt
        cases hcorrupt

theorem openArchive_of_sqz {P : Primitives} {src : List UInt8} {reader : EntrySetSqzReader} {R : Type}
    (formats : InnerFormats R) {format : SqzInnerFormat} (hsqz : format = .sqz)
    (h : openEntrySet P src = .ok (reader, format.asStr)) :
    openArchive P formats src = .ok (.entrySet reader) := by
  subst hsqz
  unfold openArchive
  rw [h, ok_bind]
  rfl

/-- Opening a container with a damaged payload repairs every damaged block of a group that has lost no
more than its parity, marks the damaged blocks of every other group unrepaired, and no entry ever
reads back as anything but its original bytes. -/
theorem openEntrySet_repairs {P : Primitives} {ctx : WriterContext} {capacity : UInt64}
    {opts : SqzCreateOptions} {entries : List (EntryMeta × Option Body)} {bytes : List UInt8} {R : Type}
    (formats : InnerFormats R) (h : writeContainer P ctx capacity opts entries = .ok bytes) :
    ∃ c : Container P, c.bytes = bytes ∧ c.opts = opts ∧ c.payload = payloadOf entries ∧
      ∀ payload', payload'.length = c.payload.length → DistinguishesBlocks P c.payload payload' →
        GroupsMds P opts.parityShards →
        ∃ reader, openEntrySet P (c.withPayload payload') = .ok (reader, opts.innerFormat.asStr) ∧
          (opts.innerFormat = .sqz →
            openArchive P formats (c.withPayload payload') = .ok (.entrySet reader)) ∧
          Repairs c entries payload' reader := by
  obtain ⟨c, rfl, rfl, hpayload, hstored⟩ := writeContainer_ok h
  refine ⟨c, rfl, rfl, hpayload, fun payload' hl hd hm => ?_⟩
  obtain ⟨reader, hopen, hrepairs⟩ := Container.repairs_withPayload hstored hl hd hm
  exact ⟨reader, hopen, fun hsqz => openArchive_of_sqz formats hsqz hopen, hrepairs⟩

theorem openEntrySet_repairs_sample : ∃ (c : Container samplePrimitives) (reader : EntrySetSqzReader)
    (entryData : EntryData), c.payload = [1, 2, 3] ∧
    openArchive samplePrimitives noFormats (c.withPayload [9, 2, 3]) = .ok (.entrySet reader) ∧
    reader.readEntry ⟨[97], "f", "utf-8"⟩ = .ok entryData ∧ entryData.Yields [1, 2, 3] := by
  obtain ⟨bytes, h⟩ := writeContainer_fileEntry 97 [1, 2, 3] rfl (by decide)
  obtain ⟨c, -, hopts, hpayload, hrepairs⟩ := openEntrySet_repairs noFormats h
  rw [payloadOf_fileEntry] at hpayload
  obtain ⟨reader, -, hopen, hreader⟩ := hrepairs [9, 2, 3] (by rw [hpayload]; rfl)
    (by
      rw [hpayload]
      intro i hi heq
      obtain rfl : i = 0 := Nat.lt_one_iff.1 (show i < 1 from hi)
      exact absurd heq (by decide +kernel)) (fun d hd hd' => galois8_mds hd (by
      have : SqzCreateOptions.parityShards ⟨.sqz, 5⟩ = 1 := by decide
      rw [this]
      unfold dataShards at hd'
      omega))
  obtain ⟨body, r, hbody, hr, hs, hread, -⟩ := hreader.file ⟨[97], "f", "utf-8"⟩ _ _ rfl rfl
  cases hbody
  obtain ⟨entryData, hdata, hyields⟩ := hread fun i hover => by
    -- the data lies in the first block
    obtain ⟨k, hk, hi⟩ := hover
    obtain ⟨-, -, -, -, hlo, hhi, -⟩ := hs.file rfl
    rw [hpayload] at hhi ⊢
    have hzero : i = 0 := by
      rw [← hi, Nat.div_eq_of_lt]
      simp only [List.length_cons, List.length_nil] at hhi
      unfold blockSize
      omega
    rw [hzero, hopts]
    decide +kernel
  exact ⟨c, reader, entryData, hpayload, hopen rfl, hdata, hyields⟩

/-! ## Groups beyond repair -/

section Overloaded

/-- A block of zeros, and the same with its first byte altered. -/
def zeroBlock : List UInt8 := List.replicate blockSize 0

def alteredBlock : List UInt8 := 1 :: List.replicate (blockSize - 1) 0

theorem length_zeroBlock : zeroBlock.length = blockSize := List.length_replicate

theorem length_alteredBlock : alteredBlock.length = blockSize := by
  rw [alteredBlock, List.length_cons, List.length_replicate]
  rfl

theorem zeroBlock_eq : zeroBlock = 0 :: List.replicate (blockSize - 1) 0 := by
  rw [zeroBlock, ← List.replicate_succ, Nat.sub_add_cancel blockSize_pos]

theorem altered_ne_zero : alteredBlock ≠ zeroBlock := by
  rw [alteredBlock, zeroBlock_eq]
  intro h
  exact absurd (List.cons.inj h).1 (by decide)

theorem head_blake3 (x : UInt8) (l : List UInt8) : (samplePrimitives.blake3 (x :: l)).bytes.head? = some x := rfl

/-- The sample hash tells the altered block. -/
theorem blake3_altered_ne : samplePrimitives.blake3 alteredBlock ≠ samplePrimitives.blake3 zeroBlock := by
  rw [alteredBlock, zeroBlock_eq]
  intro h
  have := congrArg (fun d : Digest => d.bytes.head?) h
  simp only [head_blake3] at this
  exact absurd (Option.some.inj this) (by decide)

theorem block_three (a b d : List UInt8) (ha : a.length = blockSize) (hb : b.length = blockSize)
    (hd : d.length = blockSize) :
    block blockSize [a, b, d].flatten 0 = a ∧ block blockSize [a, b, d].flatten 1 = b ∧
      block blockSize [a, b, d].flatten 2 = d := by
  have hw : ∀ l ∈ [a, b, d], l.length = blockSize := by simp [ha, hb, hd]
  refine ⟨?_, ?_, ?_⟩
  · exact slice_flatten hw (i := 0) (by simp)
  · exact slice_flatten hw (i := 1) (by simp)
  · exact slice_flatten hw (i := 2) (by simp)

/-- A group with two of its three blocks altered and one parity shard: the third block is not marked
unrepaired. -/
theorem intact_block_of_overloaded_group : ∃ (bytes : List UInt8) (c : Container samplePrimitives)
    (payload' : List UInt8) (reader : EntrySetSqzReader) (recovery : RecoveredPayload),
    writeContainer samplePrimitives sampleContext 0xFFFFFFFFFFFFFFFF ⟨.sqz, 5⟩
      [fileEntry 97 [zeroBlock, zeroBlock, zeroBlock].flatten] = .ok bytes ∧ c.bytes = bytes ∧
    payload'.length = c.payload.length ∧ GroupsMds samplePrimitives c.opts.parityShards ∧
    DistinguishesBlocks samplePrimitives c.payload payload' ∧
    openArchive samplePrimitives noFormats (c.withPayload payload') = .ok (.entrySet reader) ∧
    reader.recovery = some recovery ∧ c.opts.parityShards < damagedIn c.payload payload' (2 / dataShards) ∧
    2 < blockCountOf c.payload ∧ 2 ∉ recovery.unrepairedBlocks := by
  have hwidth : ∀ {a b d : List UInt8}, a.length = blockSize → b.length = blockSize → d.length = blockSize →
      [a, b, d].flatten.length = 3 * blockSize := by
    intro a b d ha hb hd
    simp only [List.flatten_cons, List.flatten_nil, List.length_append, List.length_nil, ha, hb, hd]
    rfl
  have hz := length_zeroBlock
  have ha := length_alteredBlock
  obtain ⟨hz₀, hz₁, hz₂⟩ := block_three zeroBlock zeroBlock zeroBlock hz hz hz
  obtain ⟨ha₀, ha₁, ha₂⟩ := block_three alteredBlock alteredBlock zeroBlock ha ha hz
  have hlz := hwidth hz hz hz
  have hla := hwidth ha ha hz
  have hcount : blockCountOf [zeroBlock, zeroBlock, zeroBlock].flatten = 3 := by
    rw [blockCountOf, hlz]
    decide
  obtain ⟨bytes, h⟩ := writeContainer_fileEntry 97 _ hlz (by decide)
  obtain ⟨c, hbytes, hopts, hpayload, hstored⟩ := writeContainer_ok h
  rw [payloadOf_fileEntry] at hpayload
  set payload' := [alteredBlock, alteredBlock, zeroBlock].flatten with hpayload'
  have hp : SqzCreateOptions.parityShards ⟨.sqz, 5⟩ = 1 := by decide
  have hmds : GroupsMds samplePrimitives 1 := fun d hd hd' => galois8_mds hd (by unfold dataShards at hd'; omega)
  have hdist : DistinguishesBlocks samplePrimitives c.payload payload' := by
    intro i hi heq
    rw [hpayload, hcount] at hi
    rw [hpayload] at heq ⊢
    obtain rfl | rfl | rfl : i = 0 ∨ i = 1 ∨ i = 2 := by omega
    · rw [ha₀, hz₀] at heq
      exact absurd heq blake3_altered_ne
    · rw [ha₁, hz₁] at heq
      exact absurd heq blake3_altered_ne
    · rw [ha₂, hz₂]
  have hlen : payload'.length = c.payload.length := by rw [hpayload, hla, hlz]
  obtain ⟨reader, hset, hreader⟩ := Container.repairs_withPayload hstored hlen hdist (by rw [hopts, hp]; exact hmds)
  have hopen := openArchive_of_sqz noFormats (by rw [hopts]) hset
  obtain ⟨recovery, hrec, -, hunrepaired⟩ := hreader.recovery
  have hdam : ∀ i, i < 2 → damagedBlock c.payload payload' i = true := by
    intro i hi
    rw [hpayload]
    obtain rfl | rfl : i = 0 ∨ i = 1 := by omega
    · exact damagedBlock_iff.2 (by rw [ha₀, hz₀]; exact altered_ne_zero)
    · exact damagedBlock_iff.2 (by rw [ha₁, hz₁]; exact altered_ne_zero)
  have hintact : ¬ damagedBlock c.payload payload' 2 = true := by
    rw [hpayload, damagedBlock_iff, ha₂, hz₂]
    exact fun h => h rfl
  have hlost : 1 < damagedIn c.payload payload' (2 / dataShards) := by
    show 1 < (List.range (2 + 6)).countP _
    rw [List.range_add, List.countP_append]
    have : (List.range 2).countP (fun j => damagedBlock c.payload payload' (2 / dataShards * dataShards + j)) = 2 := by
      show (List.range 2).countP _ = (List.range 2).length
      rw [List.countP_eq_length]
      intro j hj
      rw [show 2 / dataShards * dataShards = 0 from rfl, Nat.zero_add]
      exact hdam j (List.mem_range.1 hj)
    omega
  refine ⟨bytes, c, payload', reader, recovery, h, hbytes, hlen, by rw [hopts, hp]; exact hmds, hdist, hopen,
    hrec, by rw [hopts, hp]; exact hlost, by rw [hpayload, hcount]; decide, fun hmem => ?_⟩
  exact hintact ((hunrepaired 2).1 hmem).1

end Overloaded

end Squallz.Sqz
