/-
Damage to the footer and to the trailer of the recovery section: which place the reader then starts
from, and when it shows the entries of the container.
-/
import Squallz.Sqz.HeaderDamage
import Squallz.Sqz.Scan
import Squallz.Sqz.SectionDamage

namespace Squallz.Sqz

open Squallz.Api Squallz.Bytes Squallz.Erasure

/-! ## Where the reader starts from -/

/-- The footer, and the recovery state if the scan has found it, that a file leads its reader to. -/
inductive LedTo (P : Primitives) (src : List UInt8) (uuidHi uuidLo : Nat) : Footer → Option RecoveryState → Prop
  | read {footer : Footer} (readable : readFooter P src src.length = .ok footer) :
      LedTo P src uuidHi uuidLo footer none
  | rebuilt {message : String} {trailerAbs : Nat} {footer : Footer} {state : RecoveryState}
      (damaged : readFooter P src src.length = corrupt message)
      (topmost : Topmost P src uuidHi uuidLo trailerAbs (footer, state)) :
      LedTo P src uuidHi uuidLo footer (some state)

theorem openFooter_eq_ok {P : Primitives} {src : List UInt8} {uuidHi uuidLo : Nat}
    (huuid : validHeaderUuid P src = .ok (some (uuidHi, uuidLo))) {footer : Footer}
    {recovered : Option RecoveryState} :
    openFooter P src src.length = .ok (footer, recovered) ↔ LedTo P src uuidHi uuidLo footer recovered := by
  unfold openFooter
  constructor
  · intro h
    split at h
    · rename_i hread
      cases h
      exact .read hread
    · rename_i message hread
      split at h
      · rename_i hscan
        cases h
        obtain ⟨t, htop⟩ := (recoverFooterFromRecoveryScan_eq_some huuid).1 hscan
        exact .rebuilt hread htop
      · cases h
      · split at h <;> cases h
    · cases h
  · intro h
    cases h with
    | read readable => rw [readable]
    | rebuilt damaged topmost =>
      have hscan := (recoverFooterFromRecoveryScan_eq_some huuid).2 ⟨_, topmost⟩
      rw [damaged]
      simp only [corrupt, raise]
      rw [hscan]

/-- What a candidate that holds consists of. -/
theorem candidateAt_some {P : Primitives} {src : List UInt8} {uuidHi uuidLo t : Nat} {footer : Footer}
    {state : RecoveryState} (h : candidateAt P src uuidHi uuidLo t = .ok (some (footer, state))) :
    footer.indexOffset = t + recoveryProtectionTrailerLen ∧
      ∃ s, RecoverySection.new footer.recoveryOffset footer.recoveryLength = .ok s ∧
        RecoveryState.readProtected P src s = .ok state := by
  unfold candidateAt scanCandidate at h
  split at h
  · cases h
  split at h
  · cases h
  · cases h
  simp only at h
  split at h
  · cases h
  split at h
  · cases h
  rw [bind_eq_ok] at h
  obtain ⟨s, hnew, h⟩ := h
  split at h
  · split at h <;> cases h
  rename_i hread
  split at h
  · cases h
  cases h
  exact ⟨rfl, s, hnew, hread⟩

/-! ## Inner archives behind equal reads -/

/-- Two bounded readers that stand alike and return the same bytes wherever they stand. -/
structure BoundedReadSeek.SameReads (a b : BoundedReadSeek) : Prop where
  len_eq : a.len = b.len
  pos_eq : a.pos = b.pos
  reads : ∀ pos bufLen pick, ({ a with pos := pos }.read bufLen pick).map Prod.fst =
    ({ b with pos := pos }.read bufLen pick).map Prod.fst

/-- Inner readers know their source by its reads only: behind equal reads they list the same. -/
def InnerFormats.KnowsReads {R : Type} (formats : InnerFormats R) : Prop :=
  ∀ format a b, a.SameReads b →
    (formats.openAs format a).map formats.entries = (formats.openAs format b).map formats.entries

/-- What a file lists. -/
def listing {R : Type} (P : Primitives) (formats : InnerFormats R) (src : List UInt8) : Res (List (Res EntryMeta)) :=
  (openArchive P formats src).map (·.entries formats)

/-- What a file lists if its reader starts from a footer and a recovery state. -/
def listingFrom {R : Type} (P : Primitives) (formats : InnerFormats R) (src : List UInt8) (footer : Footer)
    (recovered : Option RecoveryState) : Res (List (Res EntryMeta)) := do
  let (reader, innerFormat) ← openFrom P src footer recovered
  (reader.openInnerProfile formats innerFormat).map (·.entries formats)

/-- Opening a file fails, or lists what the undamaged container lists. -/
def KeepsListing {R : Type} (P : Primitives) (formats : InnerFormats R) (src bytes : List UInt8) : Prop :=
  (∃ e, listing P formats src = .error e) ∨ listing P formats src = listing P formats bytes

namespace Container

variable {P : Primitives} {c : Container P} {src : List UInt8}

theorem sameReads (hp : slice src c.payloadStart c.payload.length = c.payload) :
    (BoundedReadSeek.new (.file src) c.payloadStart c.payload.length).SameReads
      (BoundedReadSeek.new (.file c.bytes) c.payloadStart c.payload.length) where
  len_eq := rfl
  pos_eq := rfl
  reads pos bufLen pick := by
    have hslice : ∀ n, n ≤ c.payload.length - pos → pos < c.payload.length →
        slice src (c.payloadStart + pos) n = slice c.bytes (c.payloadStart + pos) n := by
      intro n hn hpos
      rw [← @slice_slice _ src c.payloadStart c.payload.length pos n (by omega), hp,
        ← @slice_slice _ c.bytes c.payloadStart c.payload.length pos n (by omega), c.slice_payload]
    unfold BoundedReadSeek.read BoundedReadSeek.new
    simp only
    split
    · rfl
    · rename_i hroom
      split
      · rfl
      · simp only [SqzSource.read, sourceRead, ok_bind]
        rw [hslice _ (by omega) (by omega)]
        rfl

/-- A file that opens as its container lists what the container lists. -/
theorem listing_eq {R : Type} {formats : InnerFormats R} (hformats : formats.KnowsReads)
    {ctx : WriterContext} {capacity : UInt64} {entries : List (EntryMeta × Option Body)}
    (h : Written P ctx capacity c.opts entries c.bytes) (hpayload : c.payload = payloadOf entries)
    (hstored : List.Forall₂ (Stored P c.payloadStart c.payload) entries c.records)
    (hopen : openEntrySet P src = .ok (c.opened src [] [], c.opts.innerFormat.asStr))
    (hp : slice src c.payloadStart c.payload.length = c.payload) :
    listing P formats src = listing P formats c.bytes := by
  unfold listing
  cases h with
  | entrySet profile _ =>
    have hsqz : c.opts.innerFormat = .sqz := by
      cases hformat : c.opts.innerFormat <;> rw [hformat] at profile <;> first | rfl | cases profile
    rw [openArchive_of_sqz formats hsqz hopen, openArchive_of_sqz formats hsqz c.openEntrySet_bytes]
    rfl
  | inner selected _ =>
    rw [openArchive_inner formats hopen selected hpayload hstored,
      openArchive_inner formats c.openEntrySet_bytes selected hpayload hstored]
    have hmap : ∀ x : Res R, (x.map SqzArchiveReader.inner).map (·.entries formats) = x.map formats.entries := by
      rintro (e | r) <;> rfl
    rw [hmap, hmap]
    exact hformats c.opts.innerFormat _ _ (sameReads hp)

/-! ## Damaged trailers and footers -/

variable (c) in
/-- The file of a container whose protection trailer and footer have been replaced. -/
def withTail (trailer' footer' : List UInt8) : List UInt8 :=
  { c.parts with
    recoverySection := c.primary ++ (protectionOf P c.primary ++ trailer')
    footer := footer' }.bytes

variable {trailer' footer' : List UInt8}

/-- The parts of the damaged file that are not damaged. -/
structure ShowsRest (c : Container P) (src : List UInt8) (trailer' : List UInt8) : Prop where
  length_eq : src.length = c.bytes.length
  header : slice src 0 headerLen = c.header
  descriptor : slice src headerLen c.descriptor.length = c.descriptor
  payload : slice src c.payloadStart c.payload.length = c.payload
  sect : slice src c.recoveryOffset c.recoverySection.length = c.primary ++ (protectionOf P c.primary ++ trailer')
  index : slice src c.indexOffset c.index.length = c.index

theorem showsRest_withTail (ht : trailer'.length = recoveryProtectionTrailerLen) (hf : footer'.length = footerLen) :
    c.ShowsRest (c.withTail trailer' footer') trailer' := by
  have hlen : (c.primary ++ (protectionOf P c.primary ++ trailer')).length = c.recoverySection.length := by
    rw [recoverySection, protectedOf]
    simp only [List.length_append, ht, length_trailerOf]
  have hheader := c.length_header
  refine ⟨?_, ?_, ?_, ?_, ?_, ?_⟩
  · have hfooter := c.length_footer
    simp only [withTail, bytes, Parts.bytes, List.length_append, hf] at hlen ⊢
    simp only [parts, hfooter]
    omega
  · exact Parts.slice_header { c.parts with
      recoverySection := c.primary ++ (protectionOf P c.primary ++ trailer'), footer := footer' } hheader.symm
  · exact Parts.slice_descriptor { c.parts with
      recoverySection := c.primary ++ (protectionOf P c.primary ++ trailer'), footer := footer' } hheader.symm rfl
  · exact Parts.slice_payload { c.parts with
      recoverySection := c.primary ++ (protectionOf P c.primary ++ trailer'), footer := footer' }
      (by rw [payloadStart, ← hheader]; rfl) rfl
  · exact Parts.slice_recoverySection { c.parts with
      recoverySection := c.primary ++ (protectionOf P c.primary ++ trailer'), footer := footer' }
      (by rw [recoveryOffset, payloadStart, ← hheader]; rfl) hlen.symm
  · exact Parts.slice_index { c.parts with
      recoverySection := c.primary ++ (protectionOf P c.primary ++ trailer'), footer := footer' }
      (by rw [indexOffset, recoveryOffset, payloadStart, ← hheader, ← hlen]; rfl) rfl

theorem validHeaderUuid_eq (h : c.ShowsRest src trailer') :
    validHeaderUuid P src = .ok (some (c.uuidHi, c.uuidLo)) := by
  have hend := footer_lt h.length_eq
  have hlt := c.bytes_lt
  have hparts : c.footerOffset = headerLen + c.descriptor.length + c.payload.length +
    c.recoverySection.length + c.index.length := rfl
  obtain ⟨hmajor, hhi, hlo, -, -⟩ := header_fields P c.uuidHi c.uuidLo c.descriptor.length c.uuidHi_lt
    c.uuidLo_lt (by omega)
  unfold validHeaderUuid
  rw [seekReadExact_ok (by omega), ofIo_ok, ok_bind, h.header, Container.header,
    if_neg (fun h => h (slice_header_magic _ _ _ _)), if_neg (fun h => h (slice_header_crc _ _ _ _))]
  simp only [hmajor, hhi, hlo]
  rw [if_neg (fun h => h rfl)]
  rfl

/-- Led to its own footer behind an unaltered trailer, the reader opens the container. -/
theorem openFrom_own (h : c.ShowsRest src (trailerOf P c.primary)) {recovered : Option RecoveryState}
    (hled : LedTo P src c.uuidHi c.uuidLo c.footerFields recovered) :
    openFrom P src c.footerFields recovered = .ok (c.opened src [] [], c.opts.innerFormat.asStr) := by
  have hp : PayloadIs c src c.payload := ⟨h.payload, rfl, fun _ _ _ => rfl, fun h => absurd rfl h⟩
  have hdesc := readDescriptor_eq h.length_eq h.header h.descriptor
  cases hled with
  | read readable =>
    obtain ⟨s, repaired, unrepaired, hload, hfiled⟩ := load_eq h.length_eq h.sect hp
    rw [hfiled.repaired_nil, hfiled.unrepaired_nil] at hload
    exact openFrom_eq h.length_eq hdesc h.index hload
  | rebuilt damaged topmost =>
    rename_i state
    obtain ⟨-, s, hnew, hread⟩ := candidateAt_some topmost.accepted
    obtain ⟨s₀, hnew₀, hguard, -⟩ := guarded h.length_eq h.sect
    have hs := hnew.symm.trans hnew₀
    cases hs
    obtain ⟨s', hstate, hshows⟩ := readProtected_restores hnew hguard (fun g => by
      rw [damagedIn_eq_length, missingIn_self]
      exact Nat.zero_le _)
    rw [hread] at hstate
    cases hstate
    obtain ⟨repaired, unrepaired, hrepair, hfiled⟩ := repair_eq (facing hp hshows)
    rw [hfiled.repaired_nil, hfiled.unrepaired_nil] at hrepair
    have hload : loadRecovery P src c.footerFields (some (c.state s')) = .ok (some (withBlocks
        (stateOf P c.opts.parityShards c.payloadStart c.payload c.index s') [] [])) := by
      show (do
        let recovery ← RecoveryState.repair P src (stateOf P c.opts.parityShards c.payloadStart c.payload c.index s')
        return some recovery) = _
      rw [hrepair, ok_bind]
      rfl
    exact openFrom_eq h.length_eq hdesc h.index hload

end Container

/-- A file as long as a container lists what it lists from the place its reader is led to. -/
theorem listing_eq_listingFrom {P : Primitives} {c : Container P} {src : List UInt8} {R : Type}
    (formats : InnerFormats R) (hlen : src.length = c.bytes.length) :
    listing P formats src = (do
      let (footer, recovered) ← openFooter P src src.length
      listingFrom P formats src footer recovered) := by
  unfold listing listingFrom openArchive
  rw [Container.openEntrySet_eq_openFrom hlen]
  rcases openFooter P src src.length with e | ⟨footer, recovered⟩
  · rfl
  · simp only [ok_bind]
    rcases openFrom P src footer recovered with e | ⟨reader, innerFormat⟩ <;> rfl

theorem noFormats_knowsReads : noFormats.KnowsReads := by
  intro format a b _
  cases format <;> rfl

section Embedded

variable {P : Primitives} {pre rest src primary : List UInt8}

/-- The section over a protected primary section inside a file. -/
theorem exists_guarded (hsrc : src = pre ++ (protectedOf P primary ++ rest)) (hlt : src.length < 2 ^ 64) :
    ∃ s, RecoverySection.new pre.length (protectedOf P primary).length = .ok s ∧
      Guarded P src s primary primary (trailerOf P primary) ∧ s.patches = [] ∧ s.start = pre.length := by
  have hslen := congrArg List.length hsrc
  rw [List.length_append, List.length_append] at hslen
  have hsect : slice src pre.length (protectedOf P primary).length = protectedOf P primary := by
    rw [hsrc]
    exact slice_middle rfl rfl
  refine ⟨{
    start := pre.length
    len := (protectedOf P primary).length
    patchSize := blockSize
    patches := []
    verifiedLength := 0
    verifiedHashes := []
    patchSize_pos := blockSize_pos }, ?_, ⟨?_, ?_, rfl, rfl, hsect, rfl, fun i _ _ => rfl, fun _ => rfl,
      fun h => absurd rfl h⟩, rfl, rfl⟩
  · unfold RecoverySection.new
    rw [checkedAdd_ok (by omega)]
    rfl
  · simp only
    omega
  · simp only
    omega

theorem slice_embedded_trailer (hsrc : src = pre ++ (protectedOf P primary ++ rest)) :
    slice src (pre.length + (primary.length + (protectionOf P primary).length)) recoveryProtectionTrailerLen =
      trailerOf P primary := by
  rw [hsrc, protectedOf, List.append_assoc, List.append_assoc, ← List.append_assoc primary, ← List.append_assoc pre]
  exact slice_middle (by rw [List.length_append, List.length_append]) (length_trailerOf _ P).symm

/-- The candidate that a protected primary section makes if it can be read. -/
theorem candidateAt_of_readProtected {uuidHi uuidLo : Nat} {s : RecoverySection} {state : RecoveryState}
    (hsrc : src = pre ++ (protectedOf P primary ++ rest)) (hpre : headerLen ≤ pre.length)
    (hnew : RecoverySection.new pre.length (protectedOf P primary).length = .ok s)
    (hread : RecoveryState.readProtected P src s = .ok state) (hindex : state.indexMirror ≠ [])
    (hrest : state.indexMirror.length + footerLen ≤ rest.length) (hlt : src.length < 2 ^ 64) :
    candidateAt P src uuidHi uuidLo (pre.length + (primary.length + (protectionOf P primary).length)) =
      .ok (some (⟨pre.length + (protectedOf P primary).length, state.indexMirror.length, pre.length,
        (protectedOf P primary).length, uuidHi, uuidLo⟩, state)) := by
  have hslen := congrArg List.length hsrc
  have hplen := length_protectedOf_add P primary
  rw [List.length_append, List.length_append, hplen] at hslen
  have hpos := List.length_pos_of_ne_nil hindex
  have htlen : recoveryProtectionTrailerLen = 80 := rfl
  have htrailer := slice_embedded_trailer hsrc
  have hmagic : slice src (pre.length + (primary.length + (protectionOf P primary).length)) 4 =
      recoveryProtectionMagic := by
    have := @slice_slice _ src (pre.length + (primary.length + (protectionOf P primary).length))
      recoveryProtectionTrailerLen 0 4 (by omega)
    rw [Nat.add_zero, htrailer] at this
    rw [← this, trailerOf]
    exact slice_trailer_magic _ _ _ _ _
  have hparse := @parseTrailer_trailerOf P primary (by omega) (by omega)
  have hprotection : (trailerFor P primary).protectionLength = (protectionOf P primary).length := rfl
  unfold candidateAt scanCandidate
  rw [hmagic, if_neg (fun h => h rfl), htrailer, hparse]
  simp only [trailerFor_primaryLength, hprotection]
  rw [if_neg (by omega), Nat.add_sub_cancel, if_neg (by omega), ← hplen, hnew, ok_bind, hread]
  simp only
  rw [if_neg (by omega), hplen]
  simp only [Nat.add_assoc]
  rfl

end Embedded

/-! ## A link to a container -/

section Link

/-- An index without records. -/
def emptyIndex : List UInt8 := indexMagic ++ (leBytes 2 1 ++ (leBytes 2 0 ++ leBytes 8 0))

theorem buildIndex_nil : buildIndex [] = .ok emptyIndex := rfl

/-- The primary recovery section of a container without entries. -/
def emptyPrimary : List UInt8 := primaryOf samplePrimitives 1 headerLen [] emptyIndex

/-- The recovery section and the index of a container without entries. -/
def emptyTail : List UInt8 := protectedOf samplePrimitives emptyPrimary ++ emptyIndex

theorem length_emptyPrimary : emptyPrimary.length = 100 := by
  rw [emptyPrimary, length_primaryOf]
  decide

theorem length_emptyProtection : (protectionOf samplePrimitives emptyPrimary).length = 131104 := by
  rw [length_protectionOf, blockCountOf, length_emptyPrimary]
  decide

theorem length_emptyTail : emptyTail.length = 131300 := by
  rw [emptyTail, List.length_append, length_protectedOf_add, length_emptyPrimary, length_emptyProtection]
  rfl

/-- A symbolic link to a target. -/
def linkEntry (target : List UInt8) : EntryMeta × Option Body :=
  ({ path := ⟨[97], "f", "utf-8"⟩
     entryType := .symlink target
     size := 0
     compressedSize := none
     modified := none
     unixMode := none
     crc32 := none
     encrypted := false }, none)

theorem writeContainer_linkEntry : ∃ bytes,
    writeContainer samplePrimitives sampleContext 0xFFFFFFFFFFFFFFFF ⟨.sqz, 5⟩ [linkEntry emptyTail] = .ok bytes := by
  obtain ⟨descriptor, hdesc, hlen⟩ := exists_descriptor
  have hlink : (linkTarget (linkEntry emptyTail).1.entryType).length = 131300 := length_emptyTail
  refine writeContainer_accepts samplePrimitives hdesc (fun entry hentry => ?_) ?_
  · rw [List.mem_singleton.1 hentry]
    exact
      { file := fun h => by cases h
        raw_lt := (by decide : 1 < 2 ^ 32)
        display_lt := (by decide +kernel : (utf8Bytes "f").length < 2 ^ 32)
        encoding_lt := (by decide +kernel : (utf8Bytes "utf-8").length < 2 ^ 16)
        link_lt := by rw [hlink]; decide }
  · have hdata : dataLength [linkEntry emptyTail] = 0 := rfl
    have hindex : indexLength [linkEntry emptyTail] = 131405 := by
      have hdisplay : (utf8Bytes "f").length = 1 := by decide +kernel
      have hencoding : (utf8Bytes "utf-8").length = 5 := by decide +kernel
      have hrecord : recordLength (linkEntry emptyTail).1 = 131389 := by
        rw [recordLength, hlink]
        show 82 + 1 + (utf8Bytes "f").length + (utf8Bytes "utf-8").length + 131300 = 131389
        rw [hdisplay, hencoding]
      rw [indexLength, List.map_singleton, List.sum_singleton, hrecord]
    rw [containerLength, hdata, hindex, hlen]
    decide

/-- The link target ends the index of a container with one entry. -/
theorem index_ends {record : PendingRecord} {index : List UInt8} (h : buildIndex [record] = .ok index) :
    ∃ pre, index = pre ++ linkTarget record.entryMeta.entryType := by
  simp only [buildIndex, putRecords, putRecord, bind_eq_ok, pure_eq_ok] at h
  obtain ⟨bytes, ⟨one, ⟨raw, -, display, -, encoding, -, link, -, hone⟩, rest, hrest, hbytes⟩, hindex⟩ := h
  cases hrest
  cases hone
  cases hbytes
  cases hindex
  simp only [List.append_nil, ← List.append_assoc, ← List.cons_append]
  exact ⟨_, rfl⟩

/-- A footer of zeros. -/
def zeroFooter : List UInt8 := List.replicate footerLen 0

def zeroTrailer : List UInt8 := List.replicate recoveryProtectionTrailerLen 0

set_option maxRecDepth 100000 in
theorem emptyTrailerCrc : samplePrimitives.crc32c (trailerFields samplePrimitives emptyPrimary 1 131104) =
    260260247 := by decide +kernel

/-- No trailer begins behind the trailer of the link. -/
theorem no_magic_above : ∀ j, j < 80 →
    slice (trailerOf samplePrimitives emptyPrimary ++ (emptyIndex ++ zeroFooter)) (j + 1) 4 ≠
      recoveryProtectionMagic := by
  have htrailer : trailerOf samplePrimitives emptyPrimary = trailerFields samplePrimitives emptyPrimary 1 131104 ++
      leBytes 4 (samplePrimitives.crc32c (trailerFields samplePrimitives emptyPrimary 1 131104)).toNat := by
    rw [trailerOf, length_emptyProtection, blockCountOf, length_emptyPrimary]
    rfl
  have hfields : trailerFields samplePrimitives emptyPrimary 1 131104 =
      [82, 83, 80, 67, 1, 0, 1, 0, 0, 0, 1, 0, 8, 0, 2, 0, 0, 0, 0, 0, 100, 0, 0, 0, 0, 0, 0, 0, 1, 0, 0, 0, 0, 0,
        0, 0, 32, 0, 2, 0, 0, 0, 0, 0] ++ emptyPrimary.take 32 := by decide +kernel
  rw [htrailer, emptyTrailerCrc, hfields]
  decide +kernel

/-- A damaged file that leads its reader to the recovery section of a container without entries. -/
theorem listingFrom_empty {c : Container samplePrimitives} {src pre trailer' : List UInt8} {s : RecoverySection}
    (hrest : c.ShowsRest src trailer') (hsqz : c.opts.innerFormat = .sqz)
    (hsrc : src = pre ++ (protectedOf samplePrimitives emptyPrimary ++ (emptyIndex ++ zeroFooter)))
    (hpre : c.payloadStart ≤ pre.length) {footer : Footer}
    (hfooter : footer = ⟨pre.length + (protectedOf samplePrimitives emptyPrimary).length, emptyIndex.length,
      pre.length, (protectedOf samplePrimitives emptyPrimary).length, c.uuidHi, c.uuidLo⟩) :
    listingFrom samplePrimitives noFormats src footer (some (stateOf samplePrimitives 1 headerLen [] emptyIndex s)) =
      .ok [] := by
  have hlt := c.bytes_lt
  have hend := Container.footer_lt hrest.length_eq
  have hslen := congrArg List.length hsrc
  simp only [List.length_append] at hslen
  have hflen : zeroFooter.length = footerLen := rfl
  have hdesc : readDescriptorIfPresent samplePrimitives src footer = .ok "sqz" := by
    have := @Container.readDescriptor_of _ c src footer hrest.length_eq hrest.header hrest.descriptor
      (by rw [hfooter]; exact ⟨rfl, rfl⟩) (by rw [hfooter]; simp only; omega)
    rw [hsqz] at this
    exact this
  have hindex : slice src footer.indexOffset footer.indexLength = emptyIndex := by
    rw [hfooter, hsrc, ← List.append_assoc]
    exact slice_middle (by rw [List.length_append]) rfl
  have hparse : parseIndex samplePrimitives emptyIndex = .ok [] :=
    @parseIndex_buildIndex samplePrimitives [] emptyIndex (fun r hr => by cases hr) (by decide) buildIndex_nil
  have hload : loadRecovery samplePrimitives src footer (some (stateOf samplePrimitives 1 headerLen [] emptyIndex s)) =
      .ok (some (stateOf samplePrimitives 1 headerLen [] emptyIndex s)) := by
    have hnone : divCeil (stateOf samplePrimitives 1 headerLen [] emptyIndex s).blockHashes.length
        (stateOf samplePrimitives 1 headerLen [] emptyIndex s).dataShards = 0 := divCeil_zero _
    simp only [loadRecovery, RecoveryState.repair, hnone]
    rfl
  have hbytes : RecoveryState.indexBytes samplePrimitives (stateOf samplePrimitives 1 headerLen [] emptyIndex s)
      emptyIndex = .ok emptyIndex := if_pos rfl
  have hopen : openFrom samplePrimitives src footer (some (stateOf samplePrimitives 1 headerLen [] emptyIndex s)) =
      .ok (⟨.file src, [], some (.ofState (stateOf samplePrimitives 1 headerLen [] emptyIndex s))⟩, "sqz") := by
    unfold openFrom
    rw [hdesc, checkedAdd_ok (by rw [hfooter]; simp only; omega), ok_bind,
      if_neg (by rw [hfooter]; simp only; omega), ok_bind,
      seekReadExact_ok (by rw [hfooter]; simp only; omega), ofIo_ok, ok_bind, hindex, hload, ok_bind]
    simp only [hbytes, ok_bind, hparse]
    rfl
  unfold listingFrom
  rw [hopen]
  rfl

end Link

end Squallz.Sqz
