/-
Opening written containers: what the reader makes of the file header, the descriptor and the
footer of a container, and the entry set it opens when the payload may be damaged.
-/
import Squallz.Sqz.Container
import Squallz.Sqz.PayloadRepair
import Squallz.Sqz.Protection
import Squallz.Sqz.Reader

namespace Squallz.Sqz

open Squallz.Api Squallz.Bytes Squallz.Erasure

/-! ## Footer -/

section Footer

variable (P : Primitives) (a b c d e f : Nat)

@[simp] theorem length_magic : magic.length = 8 := rfl

theorem slice_footer_magic : slice (buildFooter P a b c d e f) 56 8 = tailMagic := by
  simp only [buildFooter, List.append_assoc, slice_append_right, length_leBytes, List.length_replicate,
    Nat.reduceLeDiff, Nat.reduceSub]
  rfl

theorem slice_footer_fields : slice (buildFooter P a b c d e f) 0 48 =
    leBytes 8 a ++ (leBytes 8 b ++ (leBytes 8 c ++ (leBytes 8 d ++ (leBytes 8 e ++ leBytes 8 f)))) := by
  rw [buildFooter, slice_head _ (by simp)]

theorem slice_footer_crc : leNat (slice (buildFooter P a b c d e f) 48 4) =
    (P.crc32c (slice (buildFooter P a b c d e f) 0 48)).toNat := by
  rw [slice_footer_fields, buildFooter, slice_append_right (by simp)]
  simp only [List.length_append, length_leBytes]
  rw [slice_head _ (by simp), leNat_leBytes_of_lt (UInt32.toNat_lt _)]

/-- The fields of a footer the writer emits. -/
theorem readFooter_buildFooter {src : List UInt8} {len : Nat} (hlen : footerLen ≤ len ∧ len ≤ src.length)
    (ha : a < 2 ^ 64) (hb : b < 2 ^ 64) (hc : c < 2 ^ 64) (hd : d < 2 ^ 64) (he : e < 2 ^ 64) (hf : f < 2 ^ 64)
    (h : slice src (len - footerLen) footerLen = buildFooter P a b c d e f) :
    readFooter P src len = .ok ⟨a, b, c, d, e, f⟩ := by
  have hword : ∀ {v : Nat}, v < 2 ^ 64 → leNat (leBytes 8 v) = v := fun hv => leNat_leBytes_of_lt hv
  unfold readFooter
  rw [seekReadExact_ok (by omega), ofIo_ok, ok_bind, h, if_neg (fun h => h (slice_footer_magic _ _ _ _ _ _ _)),
    if_neg (fun h => h (slice_footer_crc _ _ _ _ _ _ _))]
  simp only [buildFooter, List.append_assoc, slice_append_right, length_leBytes, Nat.reduceLeDiff,
    Nat.reduceSub, slice_head, Nat.le_refl, hword ha, hword hb, hword hc, hword hd, hword he, hword hf, pure_eq_ok]

end Footer

/-! ## File header and descriptor -/

section Header

variable (P : Primitives) (uuidHi uuidLo len : Nat)

theorem slice_header_magic : slice (buildHeader P uuidHi uuidLo len) 0 8 = magic := by
  rw [buildHeader, List.append_assoc]
  exact slice_head _ rfl

theorem slice_header_crc : leNat (slice (buildHeader P uuidHi uuidLo len) 52 4) =
    (P.crc32c (slice (buildHeader P uuidHi uuidLo len) 0 52)).toNat := by
  rw [buildHeader, slice_head _ (by simp), slice_append_right (by simp)]
  simp only [List.length_append, length_leBytes, length_magic]
  rw [slice_head _ (by simp), leNat_leBytes_of_lt (UInt32.toNat_lt _)]

/-- The fields of a header. -/
theorem header_fields (hhi : uuidHi < 2 ^ 64) (hlo : uuidLo < 2 ^ 64) (hlen : len < 2 ^ 64) :
    leNat (slice (buildHeader P uuidHi uuidLo len) 8 2) = versionMajor ∧
    leNat (slice (buildHeader P uuidHi uuidLo len) 16 8) = uuidHi ∧
    leNat (slice (buildHeader P uuidHi uuidLo len) 24 8) = uuidLo ∧
    leNat (slice (buildHeader P uuidHi uuidLo len) 32 8) = headerLen ∧
    leNat (slice (buildHeader P uuidHi uuidLo len) 40 8) = len := by
  have hword : ∀ {v : Nat}, v < 2 ^ 64 → leNat (leBytes 8 v) = v := fun hv => leNat_leBytes_of_lt hv
  have hmagic : ∀ (rest : List UInt8) {off n : Nat}, 8 ≤ off →
      slice (magic ++ rest) off n = slice rest (off - 8) n := fun rest off n h => slice_append_right h
  have hmajor : leNat (leBytes 2 versionMajor) = versionMajor := rfl
  have hheader : leNat (leBytes 8 headerLen) = headerLen := rfl
  simp only [buildHeader, List.append_assoc, hmagic, slice_append_right, length_leBytes, Nat.reduceLeDiff,
    Nat.reduceSub, slice_head, Nat.le_refl, hword hhi, hword hlo, hword hlen, hmajor, hheader, and_self]

end Header

/-- A field the writer puts is read back. -/
theorem readField_putTlv {tag : Nat} {value bytes : List UInt8} (htag : tag < 2 ^ 16)
    (h : putTlv tag value = .ok bytes) (rest : List UInt8) :
    readField (bytes ++ rest) = .ok (tag, value, rest) := by
  unfold putTlv at h
  split at h
  · rename_i hlen
    cases h
    unfold readField
    simp only [List.append_assoc, readU16_append, ok_bind, readU32_append, Nat.mod_eq_of_lt htag,
      Nat.mod_eq_of_lt hlen, readExact_append rfl, pure_eq_ok]
  · cases h

theorem parseDescriptorFrom_field {innerFormat : String} {tag : Nat} {value bytes rest : List UInt8}
    (h : readField bytes = .ok (tag, value, rest)) :
    parseDescriptorFrom innerFormat bytes =
      if tag = 0x0001 then
        match fromUtf8 value with
        | none => corrupt "sqz inner format is not UTF-8"
        | some inner => parseDescriptorFrom (toAsciiLowercase inner) rest
      else parseDescriptorFrom innerFormat rest := by
  have hne : bytes ≠ [] := by
    rintro rfl
    have := readField_length h
    simp at this
  rw [parseDescriptorFrom, if_neg hne]
  split
  · rename_i heq
    rw [h] at heq
    cases heq
  · rename_i heq
    rw [h] at heq
    cases heq
    rfl

theorem toAsciiLowercase_asStr (f : SqzInnerFormat) : toAsciiLowercase f.asStr = f.asStr := by
  cases f <;> decide +kernel

/-- The descriptor of a profile names its inner format. -/
theorem parseDescriptor_descriptorTlv {opts : SqzCreateOptions} {createdSecs : Nat} {bytes : List UInt8}
    (h : descriptorTlv opts createdSecs = .ok bytes) :
    parseDescriptor bytes = .ok opts.innerFormat.asStr ∧ bytes ≠ [] := by
  simp only [descriptorTlv, bind_eq_ok, pure_eq_ok] at h
  obtain ⟨inner, hinner, hint, hhint, created, hcreated, hbytes⟩ := h
  cases hbytes
  have h₁ := readField_putTlv (by decide) hinner (hint ++ created)
  have h₂ := readField_putTlv (by decide) hhint created
  have h₃ := readField_putTlv (by decide) hcreated []
  rw [List.append_nil] at h₃
  constructor
  · rw [parseDescriptor, parseDescriptorFrom_field h₁, if_pos rfl, fromUtf8_utf8Bytes]
    simp only [toAsciiLowercase_asStr]
    rw [parseDescriptorFrom_field h₂, if_neg (by decide), parseDescriptorFrom_field h₃, if_neg (by decide),
      parseDescriptorFrom, if_pos rfl]
  · intro hnil
    have := readField_length h₁
    rw [hnil] at this
    simp at this

/-! ## Opening behind the footer -/

/-- The recovery data that `open` goes on with: what the scan has found, or what the footer names. -/
def loadRecovery (P : Primitives) (src : List UInt8) (footer : Footer) (recovered : Option RecoveryState) :
    Res (Option RecoveryState) :=
  match recovered with
  | some recovery => do
    let recovery ← recovery.repair P src
    return some recovery
  | none => RecoveryState.load P src footer

/-- What `open` does once it has a footer. -/
def openFrom (P : Primitives) (src : List UInt8) (footer : Footer) (recovered : Option RecoveryState) :
    Res (EntrySetSqzReader × String) := do
  let indexEnd ← checkedAdd footer.indexOffset footer.indexLength "sqz footer index overflows"
  if src.length - footerLen < indexEnd then corrupt "sqz footer index points outside file"
  else
    let innerFormat ← readDescriptorIfPresent P src footer
    let index ← ofIo (seekReadExact src footer.indexOffset footer.indexLength)
    let recovery ← loadRecovery P src footer recovered
    let index ← (match recovery with
      | some recovery => recovery.indexBytes P index
      | none => .ok index)
    let records ← parseIndex P index
    records.forM (checkRecord footer recovery)
    let recovery := recovery.map RecoveredPayload.ofState
    let source := match recovery with
      | some recovery =>
        if recovery.repairedBlocks = [] then SqzSource.file src
        else SqzSource.recovered src recovery src.length
      | none => SqzSource.file src
    return (⟨source, records, recovery⟩, innerFormat)

/-! ## Parts of a container in a file -/

namespace Container

variable {P : Primitives} (c : Container P)

/-- The fields of the container's footer. -/
def footerFields : Footer :=
  ⟨c.indexOffset, c.index.length, c.recoveryOffset, c.recoverySection.length, c.uuidHi, c.uuidLo⟩

/-- The blocks a reader of the container knows. -/
def recovered (repaired : List (Nat × List UInt8)) (unrepaired : List Nat) : RecoveredPayload :=
  ⟨c.payloadStart, c.payload.length, blockSize, repaired, unrepaired⟩

/-- The entry set of the container on a file with some blocks filed. -/
def opened (src : List UInt8) (repaired : List (Nat × List UInt8)) (unrepaired : List Nat) :
    EntrySetSqzReader where
  source := if repaired = [] then .file src
    else .recovered src (c.recovered repaired unrepaired) src.length
  records := c.records.map PendingRecord.readBack
  recovery := some (c.recovered repaired unrepaired)

variable {c} {src payload' : List UInt8}

theorem footer_lt (hlen : src.length = c.bytes.length) : c.footerOffset + footerLen = src.length := by
  rw [hlen, c.length_bytes]

/-- The footer of a file that shows the container's footer. -/
theorem readFooter_eq (hlen : src.length = c.bytes.length)
    (hfooter : slice src c.footerOffset footerLen = c.footer) :
    readFooter P src src.length = .ok c.footerFields := by
  have hend := footer_lt hlen
  have hlt := c.bytes_lt
  have hoff : c.footerOffset = src.length - footerLen := by omega
  have hparts : c.indexOffset + c.index.length = c.footerOffset := rfl
  have hsect : c.recoveryOffset + c.recoverySection.length = c.indexOffset := rfl
  rw [hoff] at hfooter
  exact readFooter_buildFooter P _ _ _ _ _ _ ⟨by omega, Nat.le_refl _⟩ (by omega) (by omega) (by omega)
    (by omega) c.uuidHi_lt c.uuidLo_lt hfooter

/-- The inner format of a file that shows the container's header and descriptor, behind any footer with
the container's UUID. -/
theorem readDescriptor_of {footer : Footer} (hlen : src.length = c.bytes.length)
    (hheader : slice src 0 headerLen = c.header) (hdesc : slice src headerLen c.descriptor.length = c.descriptor)
    (huuid : footer.uuidHi = c.uuidHi ∧ footer.uuidLo = c.uuidLo) (hindex : c.payloadStart ≤ footer.indexOffset) :
    readDescriptorIfPresent P src footer = .ok c.opts.innerFormat.asStr := by
  have hend := footer_lt hlen
  have hlt := c.bytes_lt
  obtain ⟨hparse, hne⟩ := parseDescriptor_descriptorTlv c.descriptor_eq
  have hpos := List.length_pos_of_ne_nil hne
  have hparts : c.footerOffset = headerLen + c.descriptor.length + c.payload.length +
    c.recoverySection.length + c.index.length := rfl
  have hstart : c.payloadStart = headerLen + c.descriptor.length := rfl
  obtain ⟨hmajor, hhi, hlo, hoffset, hdlen⟩ := header_fields P c.uuidHi c.uuidLo c.descriptor.length c.uuidHi_lt
    c.uuidLo_lt (by omega)
  unfold readDescriptorIfPresent
  rw [seekReadExact_ok (by omega), ofIo_ok, ok_bind, hheader, Container.header,
    if_neg (fun h => h (slice_header_magic _ _ _ _)), if_neg (fun h => h (slice_header_crc _ _ _ _))]
  simp only [hmajor, hhi, hlo, hoffset, hdlen, huuid]
  rw [if_neg (fun h => h rfl), if_neg (fun h => h.elim (fun h => h rfl) fun h => h rfl), if_neg (fun h => h rfl),
    if_neg (by omega), if_neg (by omega), if_neg (by omega), seekReadExact_ok (by omega), ofIo_ok, ok_bind,
    hdesc, hparse]

theorem readDescriptor_eq (hlen : src.length = c.bytes.length) (hheader : slice src 0 headerLen = c.header)
    (hdesc : slice src headerLen c.descriptor.length = c.descriptor) :
    readDescriptorIfPresent P src c.footerFields = .ok c.opts.innerFormat.asStr :=
  readDescriptor_of hlen hheader hdesc ⟨rfl, rfl⟩
    (Nat.le_trans (Nat.le_add_right _ c.payload.length) (Nat.le_add_right _ _))

/-- The recovery section of a container reads as its protected primary section. -/
theorem guarded (hlen : src.length = c.bytes.length)
    (hsect : slice src c.recoveryOffset c.recoverySection.length = c.recoverySection) :
    ∃ s, RecoverySection.new c.recoveryOffset c.recoverySection.length = .ok s ∧
      Guarded P src s c.primary c.primary (trailerOf P c.primary) ∧ s.patches = [] ∧
      s.start = c.recoveryOffset ∧ s.len = c.recoverySection.length := by
  have hend := footer_lt hlen
  have hlt := c.bytes_lt
  have hparts : c.footerOffset = c.recoveryOffset + c.recoverySection.length + c.index.length := rfl
  refine ⟨{
    start := c.recoveryOffset
    len := c.recoverySection.length
    patchSize := blockSize
    patches := []
    verifiedLength := 0
    verifiedHashes := []
    patchSize_pos := blockSize_pos }, ?_, ⟨?_, ?_, rfl, rfl, hsect, rfl, fun i _ _ => rfl, fun _ => rfl,
      fun h => absurd rfl h⟩, rfl, rfl, rfl⟩
  · unfold RecoverySection.new
    rw [checkedAdd_ok (by omega)]
    rfl
  · simp only
    omega
  · simp only
    omega

/-- What is assumed of the payload bytes of a file that a container has become. -/
structure PayloadIs (c : Container P) (src payload' : List UInt8) : Prop where
  reads : slice src c.payloadStart c.payload.length = payload'
  length_eq : payload'.length = c.payload.length
  distinguishes : DistinguishesBlocks P c.payload payload'
  mds : payload' ≠ c.payload → GroupsMds P c.opts.parityShards

theorem facing (hp : PayloadIs c src payload') {s : RecoverySection} (hshows : ShowsPrimary P src s c.primary) :
    Facing P src s c.opts.parityShards c.payloadStart c.payload payload' c.index :=
  ⟨hshows, c.opts.parityShards_bounds.1, c.opts.parityShards_bounds.2, hp.reads, hp.length_eq,
    hp.distinguishes, hp.mds⟩

/-- Loading the recovery data files every damaged block. -/
theorem load_eq (hlen : src.length = c.bytes.length)
    (hsect : slice src c.recoveryOffset c.recoverySection.length = c.recoverySection)
    (hp : PayloadIs c src payload') :
    ∃ s repaired unrepaired,
      RecoveryState.load P src c.footerFields = .ok (some (withBlocks
        (stateOf P c.opts.parityShards c.payloadStart c.payload c.index s) repaired unrepaired)) ∧
      Filed c.opts.parityShards c.payload payload' (divCeil (blockCountOf c.payload) dataShards)
        repaired unrepaired := by
  have hlt := c.bytes_lt
  have hparts : c.footerOffset = c.recoveryOffset + c.recoverySection.length + c.index.length := rfl
  have hindex : c.indexOffset = c.recoveryOffset + c.recoverySection.length := rfl
  have hrec : c.recoveryOffset = c.payloadStart + c.payload.length := rfl
  obtain ⟨s, hnew, hguard, hnil, hstart, hslen⟩ := guarded hlen hsect
  obtain ⟨s', hread, hshows⟩ := readProtected_ok hguard hnil c.opts.parityShards_bounds (by omega) (by omega)
    (fun g => by
      show damagedIn c.primary c.primary g ≤ _
      rw [damagedIn_eq_length, missingIn_self]
      exact Nat.zero_le _)
  obtain ⟨repaired, unrepaired, hrepair, hfiled⟩ := repair_eq (facing hp hshows)
  refine ⟨s', repaired, unrepaired, ?_, hfiled⟩
  have hne : c.recoverySection.length ≠ 0 := by
    have := List.length_pos_of_ne_nil (protectedOf_ne_nil P (primaryOf_ne_nil P c.opts.parityShards
      c.payloadStart c.payload c.index))
    exact Nat.ne_of_gt this
  unfold RecoveryState.load
  rw [if_neg (show c.footerFields.recoveryLength ≠ 0 from hne)]
  simp only [footerFields, hnew, ok_bind, hstart, hslen]
  rw [if_neg (by omega), hread, ok_bind, hrepair, ok_bind]
  rfl

end Container

/-- A record that lies in the payload passes the check of `open`. -/
theorem checkRecord_ok {footer : Footer} {state : RecoveryState} {record : SqzRecord}
    (hend : record.dataOffset + record.dataSize < 2 ^ 64)
    (hfile : record.entryMeta.entryType = .file →
      record.dataOffset + record.dataSize ≤ footer.indexOffset ∧ state.payloadStart ≤ record.dataOffset ∧
        record.dataOffset + record.dataSize ≤ state.payloadStart + state.payloadLength) :
    checkRecord footer (some state) record = .ok () := by
  unfold checkRecord
  rw [checkedAdd_ok hend, ok_bind]
  simp only
  split
  · rename_i hbad
    obtain ⟨hf, hbad⟩ := hbad
    obtain ⟨hindex, hstart, hpayload⟩ := hfile hf
    rcases hbad with h | h
    · omega
    · simp only [Bool.not_eq_true', decide_eq_false_iff_not] at h
      exact absurd ⟨hstart, by omega, by omega⟩ h
  · rfl

namespace Container

variable {P : Primitives} {c : Container P} {src payload' : List UInt8}

/-- Every record of a container passes. -/
theorem checkRecords_ok {s : RecoverySection} {repaired : List (Nat × List UInt8)} {unrepaired : List Nat}
    {footer : Footer} (hindex : c.recoveryOffset ≤ footer.indexOffset) :
    (c.records.map PendingRecord.readBack).forM (checkRecord footer (some (withBlocks
      (stateOf P c.opts.parityShards c.payloadStart c.payload c.index s) repaired unrepaired))) = .ok () := by
  apply forM_eq_ok
  intro record hrecord
  obtain ⟨r, hr, rfl⟩ := List.mem_map.1 hrecord
  refine checkRecord_ok (c.records_fit r hr).end_lt fun hfile => ?_
  obtain ⟨hlo, hhi⟩ := c.files_inside r hr hfile
  have hrec : c.recoveryOffset = headerLen + c.descriptor.length + c.payload.length := rfl
  exact ⟨by show r.dataOffset + r.dataSize ≤ _; omega, hlo, hhi⟩

/-- Opening behind the footer of a container: the recovery data, loaded or found before, has filed the
damaged blocks. -/
theorem openFrom_eq {innerFormat : String} {recovered : Option RecoveryState} {s : RecoverySection}
    {repaired : List (Nat × List UInt8)} {unrepaired : List Nat} (hlen : src.length = c.bytes.length)
    (hdesc : readDescriptorIfPresent P src c.footerFields = .ok innerFormat)
    (hindex : slice src c.indexOffset c.index.length = c.index)
    (hload : loadRecovery P src c.footerFields recovered = .ok (some (withBlocks
      (stateOf P c.opts.parityShards c.payloadStart c.payload c.index s) repaired unrepaired))) :
    openFrom P src c.footerFields recovered = .ok (c.opened src repaired unrepaired, innerFormat) := by
  have hend := footer_lt hlen
  have hlt := c.bytes_lt
  have hparts : c.footerOffset = c.indexOffset + c.index.length := rfl
  have hoff : c.recoveryOffset ≤ c.indexOffset := Nat.le_add_right _ _
  have hcount : c.records.length < 2 ^ 64 := by
    have := length_le_buildIndex c.index_eq
    omega
  have hparse := parseIndex_buildIndex c.records_fit hcount c.index_eq
  have hbytes : RecoveryState.indexBytes P (withBlocks (stateOf P c.opts.parityShards c.payloadStart c.payload
      c.index s) repaired unrepaired) c.index = .ok c.index := if_pos rfl
  unfold openFrom
  simp only [footerFields] at hload hdesc ⊢
  rw [checkedAdd_ok (by omega), ok_bind, if_neg (by omega), hdesc, ok_bind, seekReadExact_ok (by omega), ofIo_ok,
    ok_bind, hindex]
  simp only [hload, ok_bind, hbytes, hparse]
  rw [checkRecords_ok hoff]
  rfl

theorem openEntrySet_eq_openFrom (hlen : src.length = c.bytes.length) :
    openEntrySet P src = (do
      let (footer, recovered) ← openFooter P src src.length
      openFrom P src footer recovered) := by
  have hend := footer_lt hlen
  have hparts : c.footerOffset = headerLen + c.descriptor.length + c.payload.length + c.recoverySection.length +
    c.index.length := rfl
  unfold openEntrySet
  rw [if_neg (by omega)]
  rfl

/-- Opening a file that shows a container, its payload possibly altered. -/
theorem openEntrySet_eq {innerFormat : String} (hlen : src.length = c.bytes.length)
    (hfooter : openFooter P src src.length = .ok (c.footerFields, none))
    (hdesc : readDescriptorIfPresent P src c.footerFields = .ok innerFormat)
    (hsect : slice src c.recoveryOffset c.recoverySection.length = c.recoverySection)
    (hindex : slice src c.indexOffset c.index.length = c.index) (hp : PayloadIs c src payload') :
    ∃ repaired unrepaired,
      openEntrySet P src = .ok (c.opened src repaired unrepaired, innerFormat) ∧
      Filed c.opts.parityShards c.payload payload' (divCeil (blockCountOf c.payload) dataShards)
        repaired unrepaired := by
  obtain ⟨s, repaired, unrepaired, hload, hfiled⟩ := load_eq hlen hsect hp
  refine ⟨repaired, unrepaired, ?_, hfiled⟩
  rw [openEntrySet_eq_openFrom hlen, hfooter, ok_bind]
  exact openFrom_eq hlen hdesc hindex hload

end Container

end Squallz.Sqz
