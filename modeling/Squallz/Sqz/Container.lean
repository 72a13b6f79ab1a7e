/-
Written containers: the container that a run of the writer ends with, as a value that carries the
facts the reader relies on, and the proof that every run that succeeds ends with one.
-/
import Squallz.Sqz.Encoder

namespace Squallz.Sqz

open Squallz.Api Squallz.Bytes Squallz.Erasure

/-! ## Parts of a file -/

/-- A file cut into the parts of a container. -/
structure Parts where
  header : List UInt8
  descriptor : List UInt8
  payload : List UInt8
  recoverySection : List UInt8
  index : List UInt8
  footer : List UInt8

namespace Parts

variable (f : Parts)

def bytes : List UInt8 :=
  f.header ++ (f.descriptor ++ (f.payload ++ (f.recoverySection ++ (f.index ++ f.footer))))

theorem slice_header {n : Nat} (hn : n = f.header.length) : slice f.bytes 0 n = f.header := by
  rw [hn, bytes, slice_prefix]

theorem slice_descriptor {off n : Nat} (ho : off = f.header.length) (hn : n = f.descriptor.length) :
    slice f.bytes off n = f.descriptor :=
  slice_middle ho hn

theorem slice_payload {off n : Nat} (ho : off = f.header.length + f.descriptor.length)
    (hn : n = f.payload.length) : slice f.bytes off n = f.payload := by
  rw [bytes, ← List.append_assoc]
  exact slice_middle (by rw [ho, List.length_append]) hn

theorem slice_recoverySection {off n : Nat}
    (ho : off = f.header.length + f.descriptor.length + f.payload.length)
    (hn : n = f.recoverySection.length) : slice f.bytes off n = f.recoverySection := by
  rw [bytes, ← List.append_assoc, ← List.append_assoc]
  exact slice_middle (by rw [ho, List.length_append, List.length_append]) hn

theorem slice_index {off n : Nat}
    (ho : off = f.header.length + f.descriptor.length + f.payload.length + f.recoverySection.length)
    (hn : n = f.index.length) : slice f.bytes off n = f.index := by
  rw [bytes, ← List.append_assoc, ← List.append_assoc, ← List.append_assoc]
  exact slice_middle (by rw [ho, List.length_append, List.length_append, List.length_append]) hn

theorem slice_footer {off n : Nat}
    (ho : off = f.header.length + f.descriptor.length + f.payload.length + f.recoverySection.length +
      f.index.length) (hn : n = f.footer.length) : slice f.bytes off n = f.footer := by
  rw [bytes, ← List.append_assoc, ← List.append_assoc, ← List.append_assoc, ← List.append_assoc]
  exact slice_suffix (by
    rw [ho, List.length_append, List.length_append, List.length_append, List.length_append]) hn

end Parts

/-! ## Containers -/

/-- The parts of a written container and what holds of them. -/
structure Container (P : Primitives) where
  opts : SqzCreateOptions
  createdSecs : Nat
  uuidHi : Nat
  uuidLo : Nat
  descriptor : List UInt8
  payload : List UInt8
  records : List PendingRecord
  index : List UInt8
  uuidHi_lt : uuidHi < 2 ^ 64
  uuidLo_lt : uuidLo < 2 ^ 64
  descriptor_eq : descriptorTlv opts createdSecs = .ok descriptor
  index_eq : buildIndex records = .ok index
  records_fit : ∀ r ∈ records, r.Fits P
  files_inside : ∀ r ∈ records, r.entryMeta.entryType = .file →
    headerLen + descriptor.length ≤ r.dataOffset ∧
      r.dataOffset + r.dataSize ≤ headerLen + descriptor.length + payload.length
  length_lt : headerLen + descriptor.length + payload.length +
    (protectedOf P (primaryOf P opts.parityShards (headerLen + descriptor.length) payload index)).length +
    index.length + footerLen < 2 ^ 64

namespace Container

variable {P : Primitives} (c : Container P)

def payloadStart : Nat := headerLen + c.descriptor.length

def recoveryOffset : Nat := c.payloadStart + c.payload.length

/-- The primary recovery section. -/
def primary : List UInt8 := primaryOf P c.opts.parityShards c.payloadStart c.payload c.index

/-- The primary recovery section with its protection and trailer. -/
def recoverySection : List UInt8 := protectedOf P c.primary

def indexOffset : Nat := c.recoveryOffset + c.recoverySection.length

def footerOffset : Nat := c.indexOffset + c.index.length

def header : List UInt8 := buildHeader P c.uuidHi c.uuidLo c.descriptor.length

def footer : List UInt8 :=
  buildFooter P c.indexOffset c.index.length c.recoveryOffset c.recoverySection.length c.uuidHi c.uuidLo

def parts : Parts := ⟨c.header, c.descriptor, c.payload, c.recoverySection, c.index, c.footer⟩

/-- The container as a file. -/
def bytes : List UInt8 := c.parts.bytes

end Container

theorem length_buildHeader (P : Primitives) (uuidHi uuidLo len : Nat) :
    (buildHeader P uuidHi uuidLo len).length = headerLen := by
  simp [buildHeader, magic, headerLen]

theorem length_buildFooter (P : Primitives) (a b c d e f : Nat) :
    (buildFooter P a b c d e f).length = footerLen := by
  simp [buildFooter, tailMagic, footerLen]

namespace Container

variable {P : Primitives} (c : Container P)

@[simp] theorem length_header : c.header.length = headerLen := length_buildHeader _ _ _ _

@[simp] theorem length_footer : c.footer.length = footerLen := length_buildFooter _ _ _ _ _ _ _

theorem length_bytes : c.bytes.length = c.footerOffset + footerLen := by
  simp only [bytes, parts, Parts.bytes, List.length_append, length_header, length_footer, footerOffset, indexOffset,
    recoveryOffset, payloadStart]
  omega

theorem bytes_lt : c.footerOffset + footerLen < 2 ^ 64 := c.length_lt

theorem slice_header : slice c.bytes 0 headerLen = c.header :=
  c.parts.slice_header c.length_header.symm

theorem slice_descriptor : slice c.bytes headerLen c.descriptor.length = c.descriptor :=
  c.parts.slice_descriptor c.length_header.symm rfl

theorem slice_payload : slice c.bytes c.payloadStart c.payload.length = c.payload :=
  c.parts.slice_payload (by rw [payloadStart, ← c.length_header]; rfl) rfl

theorem slice_recoverySection :
    slice c.bytes c.recoveryOffset c.recoverySection.length = c.recoverySection :=
  c.parts.slice_recoverySection (by rw [recoveryOffset, payloadStart, ← c.length_header]; rfl) rfl

theorem slice_index : slice c.bytes c.indexOffset c.index.length = c.index :=
  c.parts.slice_index (by rw [indexOffset, recoveryOffset, payloadStart, ← c.length_header]; rfl) rfl

theorem slice_footer : slice c.bytes c.footerOffset footerLen = c.footer :=
  c.parts.slice_footer (by rw [footerOffset, indexOffset, recoveryOffset, payloadStart, ← c.length_header]; rfl)
    c.length_footer.symm

end Container

/-! ## Entries and their records -/

/-- A record that stands for an entry, its data in the payload that starts at `start`. -/
structure Stored (P : Primitives) (start : Nat) (payload : List UInt8)
    (entry : EntryMeta × Option Body) (record : PendingRecord) : Prop where
  entryMeta : record.entryMeta = entry.1
  file : entry.1.entryType = .file → ∃ body, entry.2 = some body ∧
    record.dataSize = entry.1.size.toNat ∧ record.dataSize = (Body.bytes body).length ∧
    start ≤ record.dataOffset ∧ record.dataOffset + record.dataSize ≤ start + payload.length ∧
    slice payload (record.dataOffset - start) record.dataSize = Body.bytes body ∧
    record.hash = P.blake3 (Body.bytes body) ∧ record.crc32c = P.crc32c (Body.bytes body)
  nonFile : entry.1.entryType ≠ .file →
    record.dataOffset = 0 ∧ record.dataSize = 0 ∧ record.hash = emptyHash P

theorem Stored.append {P : Primitives} {start : Nat} {payload : List UInt8}
    {entry : EntryMeta × Option Body} {record : PendingRecord} (h : Stored P start payload entry record)
    (more : List UInt8) : Stored P start (payload ++ more) entry record := by
  refine ⟨h.entryMeta, fun hf => ?_, h.nonFile⟩
  obtain ⟨body, hbody, hsize, hlen, hlo, hhi, hslice, hhash, hcrc⟩ := h.file hf
  refine ⟨body, hbody, hsize, hlen, hlo, ?_, ?_, hhash, hcrc⟩
  · rw [List.length_append]
    omega
  · rw [slice_append_left (by omega), hslice]

/-! ## Runs of the writer -/

/-- What holds of the writer after the entries so far. -/
structure Running (P : Primitives) (ctx : WriterContext) (opts : SqzCreateOptions)
    (descriptor payload : List UInt8) (entries : List (EntryMeta × Option Body))
    (w : SqzArchiveWriter) : Prop where
  contents : w.dst.contents = buildHeader P (newContainerUuid ctx).1 (newContainerUuid ctx).2
    descriptor.length ++ (descriptor ++ payload)
  uuid : (w.uuidHi, w.uuidLo) = newContainerUuid ctx
  holds : Holds P w.recovery payload
  payloadLength : w.recovery.payloadLength = payload.length
  payloadStart : w.recovery.payloadStart = headerLen + descriptor.length
  parityShards : w.recovery.parityShards = opts.parityShards
  stored : List.Forall₂ (Stored P (headerLen + descriptor.length) payload) entries w.records
  fits : w.dst.contents.length ≤ w.dst.capacity

/-- The data of entries, one after another. -/
def payloadOf (entries : List (EntryMeta × Option Body)) : List UInt8 :=
  entries.flatMap fun entry => if entry.1.entryType = .file then Body.bytes (entry.2.getD []) else []

theorem Sink.writeAll_ok {s s' : Sink} {bytes : List UInt8} (h : ofIo (s.writeAll bytes) = .ok s') :
    s'.contents = s.contents ++ bytes ∧ s'.capacity = s.capacity ∧
      s'.contents.length ≤ s'.capacity := by
  unfold writeAll at h
  split at h
  · cases h
    refine ⟨rfl, rfl, ?_⟩
    rw [List.length_append]
    assumption
  · cases h

namespace SqzArchiveWriter

variable {P : Primitives} {ctx : WriterContext} {opts : SqzCreateOptions}
  {descriptor payload : List UInt8} {entries : List (EntryMeta × Option Body)} {w w' : SqzArchiveWriter}

theorem new_running {capacity : UInt64} (h : new P ctx (Sink.create capacity) opts = .ok w) :
    ∃ descriptor, descriptorTlv opts ctx.createdSecs = .ok descriptor ∧
      Running P ctx opts descriptor [] [] w := by
  simp only [new, bind_eq_ok, pure_eq_ok] at h
  obtain ⟨descriptor, hdesc, dst₁, hdst₁, dst₂, hdst₂, hw⟩ := h
  cases hw
  obtain ⟨hc₁, -, -⟩ := Sink.writeAll_ok hdst₁
  obtain ⟨hc₂, -, hcap⟩ := Sink.writeAll_ok hdst₂
  have hcontents : dst₂.contents = buildHeader P (newContainerUuid ctx).1 (newContainerUuid ctx).2
      descriptor.length ++ (descriptor ++ []) := by
    rw [hc₂, hc₁, List.append_nil]
    rfl
  refine ⟨descriptor, hdesc, ⟨hcontents, rfl, RecoveryEncoder.new_holds _ _ _, rfl, ?_, rfl,
    List.Forall₂.nil, hcap⟩⟩
  show dst₂.contents.length = _
  rw [hcontents, List.append_nil, List.length_append, length_buildHeader]

/-- The copy loop appends the bytes of the body to the payload. -/
theorem copy_running {body : Body} {written written' : List UInt8}
    (hw : Running P ctx opts descriptor payload entries w) (h : w.copy P body written = .ok (w', written')) :
    Running P ctx opts descriptor (payload ++ Body.bytes body) entries w' ∧
      written' = written ++ Body.bytes body ∧ w'.records = w.records := by
  induction body generalizing w payload written with
  | nil =>
    cases h
    simpa [Body.bytes] using hw
  | cons read body ih =>
    cases read with
    | error e => cases h
    | ok chunk =>
      unfold copy at h
      split at h
      · rename_i hnil
        cases h
        simpa [Body.bytes, hnil] using hw
      · rename_i hne
        simp only [bind_eq_ok] at h
        obtain ⟨dst, hdst, recovery, hrec, h⟩ := h
        obtain ⟨hc, -, hcap⟩ := Sink.writeAll_ok hdst
        obtain ⟨recovery', hrec', hold, hlen, hps, hst⟩ := RecoveryEncoder.pushBytes_holds hw.holds
          hw.payloadLength (by rw [hw.parityShards]; exact opts.parityShards_bounds) chunk
        rw [hrec] at hrec'
        cases hrec'
        have hw₁ : Running P ctx opts descriptor (payload ++ chunk) entries
            { w with dst := dst, recovery := recovery } := by
          refine ⟨?_, hw.uuid, hold, hlen, by rw [← hw.payloadStart]; exact hst,
            by rw [← hw.parityShards]; exact hps, ?_, hcap⟩
          · simp only [hc, hw.contents, List.append_assoc]
          · exact hw.stored.imp fun _ _ hs => hs.append chunk
        obtain ⟨hw₂, hwritten, hrecords⟩ := ih hw₁ h
        simp only [Body.bytes, if_neg hne, ← List.append_assoc]
        exact ⟨hw₂, hwritten, hrecords⟩

/-- An accepted entry gets a record that stands for it. -/
theorem addEntry_running {entryMeta : EntryMeta} {data : Option Body}
    (hw : Running P ctx opts descriptor payload entries w) (h : w.addEntry P entryMeta data = .ok w') :
    Running P ctx opts descriptor (payload ++ payloadOf [(entryMeta, data)]) (entries ++ [(entryMeta, data)]) w' := by
  unfold addEntry at h
  split at h
  · rename_i hfile
    split at h
    · cases h
    · rename_i body
      simp only [bind_eq_ok] at h
      obtain ⟨⟨w₁, written⟩, hcopy, h⟩ := h
      obtain ⟨hw₁, hwritten, hrecords⟩ := copy_running hw hcopy
      rw [List.nil_append] at hwritten
      subst hwritten
      split at h
      · cases h
      · rename_i hsize
        cases h
        have hdata : payloadOf [(entryMeta, some body)] = Body.bytes body := by
          simp [payloadOf, hfile]
        rw [hdata]
        refine ⟨hw₁.contents, hw₁.uuid, hw₁.holds, hw₁.payloadLength, hw₁.payloadStart, hw₁.parityShards, ?_,
          hw₁.fits⟩
        apply List.rel_append hw₁.stored
        have hoff : w.dst.streamPosition = headerLen + descriptor.length + payload.length := by
          rw [Sink.streamPosition, hw.contents, List.length_append, List.length_append,
            length_buildHeader, Nat.add_assoc]
        refine List.Forall₂.cons ⟨rfl, fun _ => ⟨body, rfl, by simp at hsize; exact hsize.1, rfl, ?_, ?_, ?_, rfl, rfl⟩,
          fun hne => absurd hfile hne⟩ List.Forall₂.nil
        · simp only [hoff]
          omega
        · simp only [hoff, List.length_append]
          omega
        · simp only [hoff, Nat.add_sub_cancel_left]
          have := slice_middle (a := payload) (x := Body.bytes body) (b := []) rfl rfl
          rwa [List.append_nil] at this
  · rename_i hnot
    cases h
    have hdata : payloadOf [(entryMeta, data)] = [] := by
      simpa [payloadOf] using fun hf => absurd hf hnot
    rw [hdata, List.append_nil]
    refine ⟨hw.contents, hw.uuid, hw.holds, hw.payloadLength, hw.payloadStart, hw.parityShards, ?_, hw.fits⟩
    apply List.rel_append hw.stored
    exact List.Forall₂.cons ⟨rfl, fun hf => absurd hf hnot, fun _ => ⟨rfl, rfl, rfl⟩⟩ List.Forall₂.nil

theorem addEntries_running {more : List (EntryMeta × Option Body)}
    (hw : Running P ctx opts descriptor payload entries w) (h : w.addEntries P more = .ok w') :
    Running P ctx opts descriptor (payload ++ payloadOf more) (entries ++ more) w' := by
  induction more generalizing w payload entries with
  | nil =>
    cases h
    simpa [payloadOf] using hw
  | cons entry more ih =>
    simp only [addEntries, List.foldlM_cons, bind_eq_ok] at h
    obtain ⟨w₁, hadd, hrest⟩ := h
    have hw₂ := ih (addEntry_running hw hadd) hrest
    rw [← List.append_cons, List.append_assoc] at hw₂
    simpa [payloadOf] using hw₂

end SqzArchiveWriter

/-! ## The container of a run -/

theorem buildIndex_ne_nil {records : List PendingRecord} {index : List UInt8}
    (h : buildIndex records = .ok index) : index ≠ [] := by
  simp only [buildIndex, bind_eq_ok, pure_eq_ok] at h
  obtain ⟨_, -, hindex⟩ := h
  cases hindex
  exact List.cons_ne_nil _ _

theorem primaryOf_ne_nil (P : Primitives) (parityShards start : Nat) (payload index : List UInt8) :
    primaryOf P parityShards start payload index ≠ [] :=
  List.cons_ne_nil _ _

theorem protectedOf_ne_nil (P : Primitives) {primary : List UInt8} (h : primary ≠ []) :
    protectedOf P primary ≠ [] :=
  List.append_ne_nil_of_left_ne_nil h _

theorem newContainerUuid_lt (ctx : WriterContext) :
    (newContainerUuid ctx).1 < 2 ^ 64 ∧ (newContainerUuid ctx).2 < 2 ^ 64 :=
  ⟨Nat.mod_lt _ (by decide), Nat.xor_lt_two_pow (Nat.mod_lt _ (by decide)) (Nat.mod_lt _ (by decide))⟩

theorem Stored.fits {P : Primitives} {start : Nat} {payload : List UInt8}
    {entry : EntryMeta × Option Body} {record : PendingRecord} (h : Stored P start payload entry record)
    (hlt : start + payload.length < 2 ^ 64) : record.Fits P := by
  by_cases hfile : entry.1.entryType = .file
  · obtain ⟨body, -, -, -, -, hhi, -⟩ := h.file hfile
    exact ⟨by omega, fun hne => absurd (by rw [h.entryMeta, hfile]) hne⟩
  · obtain ⟨hoff, hsize, hhash⟩ := h.nonFile hfile
    exact ⟨by omega, fun _ => hhash⟩

/-- A run that succeeds ends with a container that holds its entries in order. -/
theorem writeContainer_ok {P : Primitives} {ctx : WriterContext} {capacity : UInt64}
    {opts : SqzCreateOptions} {entries : List (EntryMeta × Option Body)} {bytes : List UInt8}
    (h : writeContainer P ctx capacity opts entries = .ok bytes) :
    ∃ c : Container P, c.bytes = bytes ∧ c.opts = opts ∧ c.payload = payloadOf entries ∧
      List.Forall₂ (Stored P c.payloadStart c.payload) entries c.records := by
  simp only [writeContainer, bind_eq_ok] at h
  obtain ⟨w₀, hnew, w, hadd, hfinish⟩ := h
  obtain ⟨descriptor, hdesc, hw₀⟩ := SqzArchiveWriter.new_running hnew
  have hw := SqzArchiveWriter.addEntries_running hw₀ hadd
  rw [List.nil_append, List.nil_append] at hw
  set payload := payloadOf entries with hpayload
  simp only [SqzArchiveWriter.finish, bind_eq_ok, pure_eq_ok] at hfinish
  obtain ⟨index, hindex, sect, hsect, dst₁, hdst₁, dst₂, hdst₂, dst₃, hdst₃, hbytes⟩ := hfinish
  have hne := buildIndex_ne_nil hindex
  rw [RecoveryEncoder.finish_eq hw.holds hw.payloadLength
    (by rw [hw.parityShards]; exact opts.parityShards_bounds) hne, hw.parityShards, hw.payloadStart] at hsect
  split at hsect
  · cases hsect
  have hsect' := protectRecoverySection_ok (primaryOf_ne_nil _ _ _ _ _) hsect
  subst hsect'
  rw [if_pos (protectedOf_ne_nil P (primaryOf_ne_nil _ _ _ _ _))] at hdst₁
  obtain ⟨hc₁, -, -⟩ := Sink.writeAll_ok hdst₁
  obtain ⟨hc₂, -, -⟩ := Sink.writeAll_ok hdst₂
  obtain ⟨hc₃, -, hcap⟩ := Sink.writeAll_ok hdst₃
  have hlt := lt_of_le_of_lt hcap dst₃.capacity_lt
  have hpos : w.dst.contents.length = headerLen + descriptor.length + payload.length := by
    rw [hw.contents, List.length_append, List.length_append, length_buildHeader, Nat.add_assoc]
  have hlen : headerLen + descriptor.length + payload.length +
      (protectedOf P (primaryOf P opts.parityShards (headerLen + descriptor.length) payload index)).length +
      index.length + footerLen < 2 ^ 64 := by
    simp only [hc₃, hc₂, hc₁, List.length_append, length_buildFooter, hpos] at hlt
    exact hlt
  have hstored : ∀ r ∈ w.records, ∃ entry,
      Stored P (headerLen + descriptor.length) payload entry r := by
    intro r hr
    obtain ⟨i, hi, rfl⟩ := List.getElem_of_mem hr
    exact ⟨_, List.Forall₂.get hw.stored (by rw [hw.stored.length_eq]; exact hi) hi⟩
  refine ⟨{
    opts := opts
    createdSecs := ctx.createdSecs
    uuidHi := w.uuidHi
    uuidLo := w.uuidLo
    descriptor := descriptor
    payload := payload
    records := w.records
    index := index
    uuidHi_lt := ?_
    uuidLo_lt := ?_
    descriptor_eq := hdesc
    index_eq := hindex
    records_fit := ?_
    files_inside := ?_
    length_lt := hlen }, ?_, rfl, rfl, hw.stored⟩
  · have := newContainerUuid_lt ctx
    rw [← hw.uuid] at this
    exact this.1
  · have := newContainerUuid_lt ctx
    rw [← hw.uuid] at this
    exact this.2
  · intro r hr
    obtain ⟨entry, hs⟩ := hstored r hr
    exact hs.fits (by omega)
  · intro r hr hfile
    obtain ⟨entry, hs⟩ := hstored r hr
    obtain ⟨body, -, -, -, hlo, hhi, -⟩ := hs.file (by rw [← hs.entryMeta]; exact hfile)
    exact ⟨hlo, hhi⟩
  · cases hbytes
    have hoff₁ : dst₁.streamPosition = headerLen + descriptor.length + payload.length +
        (protectedOf P (primaryOf P opts.parityShards (headerLen + descriptor.length) payload index)).length := by
      rw [Sink.streamPosition, hc₁, List.length_append, hpos]
    have hoff : w.dst.streamPosition = headerLen + descriptor.length + payload.length := hpos
    have hhead : w.dst.contents =
        buildHeader P w.uuidHi w.uuidLo descriptor.length ++ (descriptor ++ payload) := by
      rw [hw.contents, ← hw.uuid]
    rw [hc₃, hc₂, hc₁, hhead, hoff₁, hoff]
    simp only [Container.bytes, Container.parts, Parts.bytes, Container.header, Container.recoverySection, Container.primary,
      Container.payloadStart, Container.footer, Container.indexOffset, Container.recoveryOffset,
      List.append_assoc]

end Squallz.Sqz
