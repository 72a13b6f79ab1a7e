/-
Damage to the magic and the CRC of the file header: what the reader shows of a container of each inner
profile, against what it shows of the undamaged container.
-/
import Squallz.Sqz.PayloadDamage

namespace Squallz.Sqz

open Squallz.Api Squallz.Bytes Squallz.Erasure

/-! ## What a reader shows -/

/-- Reads the data of an entry to its end. -/
def EntryData.readToEnd (data : EntryData) : Res (List UInt8) := do
  let (bytes, _) ← ofIo (data.drain (List.replicate data.remaining (data.remaining, data.remaining)))
  return bytes

namespace SqzArchiveReader

variable {R : Type} (formats : InnerFormats R)

/-- The listing of a reader. -/
def entries : SqzArchiveReader R → List (Res EntryMeta)
  | .entrySet reader => reader.entries.map .ok
  | .inner reader => formats.entries reader

/-- The content of an entry of a reader. -/
def contents : SqzArchiveReader R → EntryPath → Res (List UInt8)
  | .entrySet reader, path => do
    let data ← reader.readEntry path
    data.readToEnd
  | .inner reader, path => formats.readEntry reader path

/-- Two readers with the same listing and the same contents. -/
def SameView (a b : SqzArchiveReader R) : Prop :=
  a.entries formats = b.entries formats ∧ ∀ path, a.contents formats path = b.contents formats path

end SqzArchiveReader

/-- The content that entries have at a path. -/
def contentOf (entries : List (EntryMeta × Option Body)) (path : EntryPath) : Res (List UInt8) :=
  let display := path.display
  match entryAt entries path with
  | none => raise (.other s!"entry not found: {display}")
  | some (entryMeta, data) =>
    if entryMeta.entryType ≠ .file then unsupported s!"sqz entry is not a file: {display}"
    else .ok (Body.bytes (data.getD []))

/-- Data that yields a content has all of it left. -/
theorem EntryData.Yields.remaining_eq {data : EntryData} {content : List UInt8} (h : data.Yields content) :
    data.remaining = content.length := by
  obtain ⟨n, rest, hdrain, hle, -, hrest⟩ := h []
  have hpair := Except.ok.inj hdrain
  have hnil : content.take n = [] := (congrArg Prod.fst hpair).symm
  have hdata : data = rest := congrArg Prod.snd hpair
  have := congrArg List.length hnil
  rw [List.length_take, List.length_nil] at this
  rw [hdata, hrest]
  omega

theorem EntryData.Yields.readToEnd_eq {data : EntryData} {content : List UInt8} (h : data.Yields content) :
    data.readToEnd = .ok content := by
  have hlen := h.remaining_eq
  obtain ⟨n, rest, hdrain, hle, hmin, -⟩ := h (List.replicate data.remaining (data.remaining, data.remaining))
  have hn : content.take n = content := by
    apply List.take_of_length_le
    by_cases h0 : data.remaining = 0
    · omega
    · have hcount : (List.replicate data.remaining (data.remaining, data.remaining)).countP
          (fun call => decide (0 < call.1)) = data.remaining := by
        rw [List.countP_replicate, if_pos (by simpa using Nat.pos_of_ne_zero h0)]
      rw [hcount] at hmin
      omega
  unfold EntryData.readToEnd
  rw [hdrain, hn]
  rfl

/-- An opened container without unrepaired blocks shows the contents of its entries. -/
theorem Container.contents_opened {P : Primitives} {c : Container P} {src : List UInt8} {R : Type}
    (formats : InnerFormats R) {entries : List (EntryMeta × Option Body)}
    (hlen : src.length = c.bytes.length) (hp : PayloadIs c src c.payload)
    (hstored : List.Forall₂ (Stored P c.payloadStart c.payload) entries c.records) (path : EntryPath) :
    (SqzArchiveReader.entrySet (c.opened src [] [])).contents formats path = contentOf entries path := by
  unfold SqzArchiveReader.contents contentOf
  cases hat : entryAt entries path with
  | none =>
    unfold EntrySetSqzReader.readEntry
    simp only [Container.find_opened_none src [] [] hstored hat]
    rfl
  | some entry =>
    obtain ⟨entryMeta, data⟩ := entry
    obtain ⟨r, hr, hs, hfind⟩ := Container.find_opened src [] [] hstored hat
    simp only
    by_cases hfile : entryMeta.entryType = .file
    · obtain ⟨body, hbody, -⟩ := hs.file hfile
      simp only at hbody
      subst hbody
      obtain ⟨entryData, hread, hyields⟩ := Container.readEntry_ok hlen hp c.filed_self hr hs hfile hfind
        fun i hi => absurd hi List.not_mem_nil
      rw [hread, ok_bind, hyields.readToEnd_eq, if_neg fun h => h hfile]
      rfl
    · have hrfile : r.readBack.entryMeta.entryType ≠ .file := by
        show r.entryMeta.entryType ≠ .file
        rw [hs.entryMeta]
        exact hfile
      unfold EntrySetSqzReader.readEntry
      simp only [hfind]
      rw [if_pos hrfile, if_pos hfile]
      rfl

/-! ## Damaged headers -/

namespace Container

variable {P : Primitives} (c : Container P)

/-- The file of a container whose header has been replaced. -/
def withHeader (header' : List UInt8) : List UInt8 := { c.parts with header := header' }.bytes

/-- A header altered at most in its magic and its CRC. -/
structure HeaderDamage (header' : List UInt8) : Prop where
  length_eq : header'.length = headerLen
  outside : ∀ i, 8 ≤ i → i < 52 ∨ 56 ≤ i → header'[i]? = c.header[i]?

variable {c} {header' : List UInt8}

theorem length_withHeader (h : c.HeaderDamage header') : (c.withHeader header').length = c.bytes.length := by
  have := c.length_header
  simp only [withHeader, bytes, Parts.bytes, List.length_append, h.length_eq, ← this]
  rfl

/-- A header that still has its magic and a CRC that holds is the header of the container. -/
theorem HeaderDamage.eq_of_readable (h : c.HeaderDamage header') (hmagic : slice header' 0 8 = magic)
    (hcrc : leNat (slice header' 52 4) = (P.crc32c (slice header' 0 52)).toNat) : header' = c.header := by
  have hlen := h.length_eq
  have hclen := c.length_header
  unfold headerLen at hlen hclen
  have hhead : slice header' 0 8 = slice c.header 0 8 := by rw [hmagic, header, slice_header_magic]
  have hmiddle : slice header' 8 44 = slice c.header 8 44 :=
    slice_congr fun i hlo hhi => h.outside i hlo (Or.inl (by omega))
  have hfields : slice header' 0 52 = slice c.header 0 52 := by
    rw [show 52 = 8 + 44 from rfl, slice_add, slice_add, hhead, Nat.zero_add, hmiddle]
  have hsum : slice header' 52 4 = slice c.header 52 4 := by
    apply leNat_inj
    · rw [length_slice_of_le (by omega), length_slice_of_le (by omega)]
    · rw [hcrc, hfields, header, slice_header_crc]
  have htail : slice header' 56 8 = slice c.header 56 8 :=
    slice_congr fun i hlo _ => h.outside i (by omega) (Or.inr hlo)
  have hfull := slice_full header'
  have hcfull := slice_full c.header
  rw [hlen, show 64 = 52 + 4 + 8 from rfl] at hfull
  rw [hclen, show 64 = 52 + 4 + 8 from rfl] at hcfull
  rw [← hfull, ← hcfull, slice_add, slice_add, slice_add, slice_add, hfields, Nat.zero_add, hsum, htail]

/-- Behind a header that is not readable the reader takes the container for an entry set. -/
theorem readDescriptor_damaged (h : c.HeaderDamage header') (hne : header' ≠ c.header) :
    readDescriptorIfPresent P (c.withHeader header') c.footerFields = .ok defaultInnerFormat := by
  have hbytes := c.length_bytes
  have hlen := length_withHeader h
  have hslice : slice (c.withHeader header') 0 headerLen = header' :=
    Parts.slice_header { c.parts with header := header' } h.length_eq.symm
  have hparts : c.footerOffset = headerLen + c.descriptor.length + c.payload.length + c.recoverySection.length +
    c.index.length := rfl
  unfold readDescriptorIfPresent
  rw [seekReadExact_ok (by omega), ofIo_ok, ok_bind, hslice]
  by_cases hmagic : slice header' 0 8 = magic
  · by_cases hcrc : leNat (slice header' 52 4) = (P.crc32c (slice header' 0 52)).toNat
    · exact absurd (h.eq_of_readable hmagic hcrc) hne
    · rw [if_neg fun hc => hc hmagic, if_pos hcrc]
      rfl
  · rw [if_pos hmagic]
    rfl

theorem openEntrySet_withHeader (h : c.HeaderDamage header') (hne : header' ≠ c.header) :
    openEntrySet P (c.withHeader header') = .ok (c.opened (c.withHeader header') [] [], defaultInnerFormat) ∧
      PayloadIs c (c.withHeader header') c.payload := by
  have hlen := length_withHeader h
  have hheader := h.length_eq
  have hp : PayloadIs c (c.withHeader header') c.payload :=
    ⟨Parts.slice_payload { c.parts with header := header' } (by rw [payloadStart, ← hheader]; rfl) rfl, rfl,
      fun _ _ _ => rfl, fun h => absurd rfl h⟩
  have hfoot : slice (c.withHeader header') c.footerOffset footerLen = c.footer :=
    Parts.slice_footer { c.parts with header := header' }
      (by rw [footerOffset, indexOffset, recoveryOffset, payloadStart, ← hheader]; rfl) c.length_footer.symm
  have hfooter : openFooter P (c.withHeader header') (c.withHeader header').length =
      .ok (c.footerFields, none) := by
    unfold openFooter
    rw [readFooter_eq hlen hfoot]
  obtain ⟨repaired, unrepaired, hopen, hfiled⟩ := openEntrySet_eq hlen hfooter (readDescriptor_damaged h hne)
    (Parts.slice_recoverySection { c.parts with header := header' }
      (by rw [recoveryOffset, payloadStart, ← hheader]; rfl) rfl)
    (Parts.slice_index { c.parts with header := header' }
      (by rw [indexOffset, recoveryOffset, payloadStart, ← hheader]; rfl) rfl) hp
  rw [hfiled.repaired_nil, hfiled.unrepaired_nil] at hopen
  exact ⟨hopen, hp⟩

end Container

/-! ## Inner profiles -/

/-- The reader that a profile opens its payload with. -/
def InnerFormats.openAs {R : Type} (formats : InnerFormats R) (format : SqzInnerFormat) : BoundedReadSeek → Res R :=
  match format with
  | .sqz => fun _ => unsupported "unsupported sqz inner format: sqz"
  | .zip => formats.openZip
  | .tar => formats.openTar
  | .sevenZip => formats.openSevenZ
  | .zstd => formats.openZstdTar

/-- The containers that `create` writes: entry sets, and one inner archive for the other profiles. -/
inductive Written (P : Primitives) (ctx : WriterContext) (capacity : UInt64) (opts : SqzCreateOptions) :
    List (EntryMeta × Option Body) → List UInt8 → Prop
  | entrySet {entries : List (EntryMeta × Option Body)} {bytes : List UInt8}
      (profile : profileOf opts.innerFormat = none) (run : writeContainer P ctx capacity opts entries = .ok bytes) :
      Written P ctx capacity opts entries bytes
  | inner {profile : InnerProfile} {size : UInt64} {modified : Option SystemTime} {body : Body} {bytes : List UInt8}
      (selected : profileOf opts.innerFormat = some profile)
      (run : writeInnerContainer P ctx capacity opts profile size modified body = .ok bytes) :
      Written P ctx capacity opts [(profile.payloadMeta size modified, some body)] bytes

theorem Written.run {P : Primitives} {ctx : WriterContext} {capacity : UInt64} {opts : SqzCreateOptions}
    {entries : List (EntryMeta × Option Body)} {bytes : List UInt8} (h : Written P ctx capacity opts entries bytes) :
    writeContainer P ctx capacity opts entries = .ok bytes := by
  cases h with
  | entrySet _ run => exact run
  | inner _ run => exact run

/-- Opening a file fails, or shows what the undamaged container shows. -/
def KeepsView {R : Type} (P : Primitives) (formats : InnerFormats R) (src bytes : List UInt8) : Prop :=
  (∃ e, openArchive P formats src = .error e) ∨
    ∃ a b, openArchive P formats src = .ok a ∧ openArchive P formats bytes = .ok b ∧ a.SameView formats b

/-- An inner archive that shows the entries that wrap it. -/
def ShowsAsOuter {R : Type} (formats : InnerFormats R) (entries : List (EntryMeta × Option Body)) (inner : R) : Prop :=
  formats.entries inner = entries.map (fun entry => .ok (listed entry)) ∧
    ∀ path, formats.readEntry inner path = contentOf entries path

section Profiles

variable {P : Primitives} {c : Container P} {src : List UInt8} {R : Type} (formats : InnerFormats R)
  {entries : List (EntryMeta × Option Body)}

theorem keepsView_refl (bytes : List UInt8) : KeepsView P formats bytes bytes := by
  unfold KeepsView
  cases openArchive P formats bytes with
  | error e => exact Or.inl ⟨e, rfl⟩
  | ok a => exact Or.inr ⟨a, a, rfl, rfl, rfl, fun _ => rfl⟩

theorem entries_entrySet (hstored : List.Forall₂ (Stored P c.payloadStart c.payload) entries c.records) :
    (SqzArchiveReader.entrySet (c.opened src [] [])).entries formats =
      entries.map fun entry => .ok (listed entry) := by
  unfold SqzArchiveReader.entries
  simp only [Container.entries_opened hstored, List.map_map]
  rfl

/-- The profile of a container that wraps an inner archive opens its payload with the reader of the
profile. -/
theorem openArchive_inner {profile : InnerProfile} {size : UInt64} {modified : Option SystemTime} {body : Body}
    (hopen : openEntrySet P src = .ok (c.opened src [] [], c.opts.innerFormat.asStr))
    (selected : profileOf c.opts.innerFormat = some profile)
    (hpayload : c.payload = payloadOf [(profile.payloadMeta size modified, some body)])
    (hstored : List.Forall₂ (Stored P c.payloadStart c.payload) [(profile.payloadMeta size modified, some body)]
      c.records) :
    openArchive P formats src =
      (formats.openAs c.opts.innerFormat (BoundedReadSeek.new (.file src) c.payloadStart c.payload.length)).map
        .inner := by
  obtain ⟨r, hs, hr⟩ : ∃ r, Stored P c.payloadStart c.payload (profile.payloadMeta size modified, some body) r ∧
      c.records = [r] := by
    rcases hrecords : c.records with _ | ⟨r, _ | ⟨r', rest⟩⟩
    · rw [hrecords] at hstored
      cases hstored
    · rw [hrecords] at hstored
      exact ⟨r, (List.forall₂_cons.1 hstored).1, rfl⟩
    · rw [hrecords] at hstored
      cases (List.forall₂_cons.1 hstored).2
  have hrfile : r.entryMeta.entryType = .file := by rw [hs.entryMeta]; rfl
  obtain ⟨body', hbody, -, hsize, hlo, hhi, -⟩ := hs.file rfl
  cases hbody
  have hlen : c.payload.length = r.dataSize := by
    rw [hpayload, hsize]
    simp [payloadOf, InnerProfile.payloadMeta]
  have hclear : ¬ (c.opened src [] []).recordHasUnrepairedBlock r.readBack = true := by
    rw [recordHasUnrepairedBlock_iff (hr ▸ List.mem_singleton_self r) hrfile]
    rintro ⟨i, hi, -⟩
    cases hi
  have hfilter : (c.opened src [] []).records.filter (fun record => record.entryMeta.entryType == .file) =
      [r.readBack] := by
    simp only [Container.opened, hr, List.map_cons, List.map_nil]
    rw [List.filter_cons_of_pos]
    · rfl
    · show (r.entryMeta.entryType == EntryType.file) = true
      rw [hrfile]
      rfl
  have hplace : BoundedReadSeek.new (c.opened src [] []).source r.readBack.dataOffset r.readBack.dataSize =
      BoundedReadSeek.new (.file src) c.payloadStart c.payload.length := by
    show BoundedReadSeek.new (.file src) r.dataOffset r.dataSize = _
    rw [hlen, show r.dataOffset = c.payloadStart by omega]
  unfold openArchive
  rw [hopen, ok_bind]
  simp only [EntrySetSqzReader.openInnerProfile, hfilter, hplace]
  rw [if_neg hclear]
  cases hformat : c.opts.innerFormat with
  | sqz =>
    rw [hformat] at selected
    cases selected
  | zip => cases h : formats.openZip (BoundedReadSeek.new (.file src) c.payloadStart c.payload.length) <;>
      simp [SqzInnerFormat.asStr, InnerFormats.openAs, h, Except.map]
  | tar => cases h : formats.openTar (BoundedReadSeek.new (.file src) c.payloadStart c.payload.length) <;>
      simp [SqzInnerFormat.asStr, InnerFormats.openAs, h, Except.map]
  | sevenZip => cases h : formats.openSevenZ (BoundedReadSeek.new (.file src) c.payloadStart c.payload.length) <;>
      simp [SqzInnerFormat.asStr, InnerFormats.openAs, h, Except.map]
  | zstd => cases h : formats.openZstdTar (BoundedReadSeek.new (.file src) c.payloadStart c.payload.length) <;>
      simp [SqzInnerFormat.asStr, InnerFormats.openAs, h, Except.map]

end Profiles

/-- What the damaged file shows, whatever the profile. -/
theorem openArchive_withHeader {P : Primitives} {c : Container P} {header' : List UInt8} {R : Type}
    (formats : InnerFormats R) {entries : List (EntryMeta × Option Body)} (hdam : c.HeaderDamage header')
    (hne : header' ≠ c.header) (hstored : List.Forall₂ (Stored P c.payloadStart c.payload) entries c.records) :
    ∃ reader : SqzArchiveReader R, openArchive P formats (c.withHeader header') = .ok reader ∧
      reader.entries formats = entries.map (fun entry => .ok (listed entry)) ∧
      ∀ path, reader.contents formats path = contentOf entries path := by
  obtain ⟨hopen, hp⟩ := Container.openEntrySet_withHeader hdam hne
  refine ⟨.entrySet (c.opened (c.withHeader header') [] []), ?_, entries_entrySet formats hstored,
    Container.contents_opened formats (Container.length_withHeader hdam) hp hstored⟩
  unfold openArchive
  rw [hopen, ok_bind]
  rfl

/-- A container keeps its view under damage to the magic and CRC of its header exactly when the header
is in fact unaltered, the container is an entry set, or the inner archive shows the very entries that
wrap it. -/
theorem keepsView_withHeader_iff {P : Primitives} {ctx : WriterContext} {capacity : UInt64}
    {opts : SqzCreateOptions} {entries : List (EntryMeta × Option Body)} {bytes : List UInt8} {R : Type}
    (formats : InnerFormats R) (h : Written P ctx capacity opts entries bytes) :
    ∃ c : Container P, c.bytes = bytes ∧ c.opts = opts ∧ ∀ header', c.HeaderDamage header' →
      (KeepsView P formats (c.withHeader header') bytes ↔
        header' = c.header ∨ opts.innerFormat = .sqz ∨
          ∃ inner, formats.openAs opts.innerFormat
              (BoundedReadSeek.new (.file bytes) c.payloadStart c.payload.length) = .ok inner ∧
            ShowsAsOuter formats entries inner) := by
  obtain ⟨c, rfl, rfl, hpayload, hstored⟩ := writeContainer_ok h.run
  refine ⟨c, rfl, rfl, fun header' hdam => ?_⟩
  by_cases hne : header' = c.header
  · subst hne
    exact ⟨fun _ => Or.inl rfl, fun _ => keepsView_refl formats c.bytes⟩
  obtain ⟨reader, hdamaged, hentries, hcontents⟩ := openArchive_withHeader formats hdam hne hstored
  cases h with
  | entrySet profile _ =>
    have hsqz : c.opts.innerFormat = .sqz := by
      cases hformat : c.opts.innerFormat <;> rw [hformat] at profile <;> first | rfl | cases profile
    refine ⟨fun _ => Or.inr (Or.inl hsqz), fun _ => Or.inr ⟨_, .entrySet (c.opened c.bytes [] []), hdamaged,
      openArchive_of_sqz formats hsqz c.openEntrySet_bytes, ?_, ?_⟩⟩
    · rw [hentries, entries_entrySet formats hstored]
    · intro path
      rw [hcontents, Container.contents_opened formats rfl c.payloadIs_self hstored]
  | inner selected _ =>
    have hbytes := openArchive_inner formats c.openEntrySet_bytes selected hpayload hstored
    constructor
    · rintro (⟨e, he⟩ | ⟨a, b, ha, hb, hsame⟩)
      · rw [hdamaged] at he
        cases he
      · rw [hdamaged] at ha
        cases ha
        rw [hbytes] at hb
        cases hinner : formats.openAs c.opts.innerFormat
            (BoundedReadSeek.new (.file c.bytes) c.payloadStart c.payload.length) with
        | error e =>
          rw [hinner] at hb
          cases hb
        | ok inner =>
          rw [hinner] at hb
          cases hb
          refine Or.inr (Or.inr ⟨inner, rfl, ?_, fun path => ?_⟩)
          · rw [← hentries]
            exact hsame.1.symm
          · rw [← hcontents path]
            exact (hsame.2 path).symm
    · rintro (heq | hsqz | ⟨inner, hinner, hshows⟩)
      · exact absurd heq hne
      · rw [hsqz] at selected
        cases selected
      · refine Or.inr ⟨_, .inner inner, hdamaged, by rw [hbytes, hinner]; rfl, ?_, fun path => ?_⟩
        · rw [hentries]
          exact hshows.1.symm
        · rw [hcontents]
          exact (hshows.2 path).symm

/-- A header with its first byte overwritten. -/
def overwriteFirst (header : List UInt8) : List UInt8 := 0 :: header.drop 1

theorem Container.headerDamage_overwriteFirst {P : Primitives} (c : Container P) :
    c.HeaderDamage (overwriteFirst c.header) where
  length_eq := by
    have := c.length_header
    unfold headerLen at this ⊢
    rw [overwriteFirst, List.length_cons, List.length_drop]
    omega
  outside i hlo _ := by
    obtain ⟨j, rfl⟩ : ∃ j, i = j + 1 := ⟨i - 1, by omega⟩
    rw [overwriteFirst, List.getElem?_cons_succ, List.getElem?_drop, Nat.add_comm]

theorem Container.overwriteFirst_ne {P : Primitives} (c : Container P) : overwriteFirst c.header ≠ c.header := by
  intro h
  have hread : slice (overwriteFirst c.header) 0 8 = magic := by rw [h, header, slice_header_magic]
  have hfirst := congrArg List.head? hread
  rw [overwriteFirst, slice, List.drop_zero, List.take_succ_cons] at hfirst
  exact absurd (Option.some.inj hfirst) (by decide)

theorem keepsView_withHeader_iff_sample : ∃ (bytes : List UInt8) (c : Container samplePrimitives),
    c.bytes = bytes ∧ c.HeaderDamage (overwriteFirst c.header) ∧
      KeepsView samplePrimitives noFormats (c.withHeader (overwriteFirst c.header)) bytes := by
  obtain ⟨bytes, h⟩ := @writeContainer_fileEntry 97 [1, 2, 3] 3 rfl (by decide)
  obtain ⟨c, hbytes, -, hiff⟩ := keepsView_withHeader_iff noFormats (.entrySet rfl h)
  exact ⟨bytes, c, hbytes, c.headerDamage_overwriteFirst,
    (hiff _ c.headerDamage_overwriteFirst).2 (Or.inr (Or.inl rfl))⟩

/-- A ZIP archive without entries: an end record of zeros. -/
def emptyZip : List UInt8 := [0x50, 0x4B, 0x05, 0x06] ++ List.replicate 18 0

/-- A reader of ZIP archives that knows the archive without entries. -/
def emptyZipFormats : InnerFormats Unit :=
  { noFormats with
    openZip := fun source => do
      let (bytes, _) ← ofIo (source.read 22 22)
      if bytes = emptyZip then return () else corrupt "no zip"
    readEntry := fun _ path => raise (.other s!"entry not found: {path.display}") }

theorem writeInnerContainer_emptyZip : ∃ bytes,
    writeInnerContainer samplePrimitives sampleContext 0xFFFFFFFFFFFFFFFF ⟨.zip, 5⟩ .zip 22 none [.ok emptyZip] =
      .ok bytes := by
  have hsome : (descriptorTlv ⟨.zip, 5⟩ 0).toOption.map List.length = some 82 := by decide +kernel
  cases hdesc : descriptorTlv ⟨.zip, 5⟩ 0 with
  | error e =>
    rw [hdesc] at hsome
    cases hsome
  | ok descriptor =>
    rw [hdesc] at hsome
    have hlen : descriptor.length = 82 := Option.some.inj hsome
    refine writeContainer_accepts samplePrimitives hdesc (fun entry hentry => ?_) ?_
    · rw [List.mem_singleton.1 hentry]
      exact
        { file := fun _ => ⟨[.ok emptyZip], rfl, Or.inr trivial, by decide⟩
          raw_lt := by decide +kernel
          display_lt := by decide +kernel
          encoding_lt := by decide +kernel
          link_lt := by decide }
    · rw [hlen]
      decide +kernel

/-- A container around a ZIP archive without entries shows that archive, and with its header overwritten
the file that wraps it. -/
theorem overwritten_header_shows_inner_file : ∃ (bytes : List UInt8) (c : Container samplePrimitives),
    Written samplePrimitives sampleContext 0xFFFFFFFFFFFFFFFF ⟨.zip, 5⟩
      [(InnerProfile.zip.payloadMeta 22 none, some [.ok emptyZip])] bytes ∧ c.bytes = bytes ∧
      c.HeaderDamage (overwriteFirst c.header) ∧
      ¬ KeepsView samplePrimitives emptyZipFormats (c.withHeader (overwriteFirst c.header)) bytes := by
  obtain ⟨bytes, h⟩ := writeInnerContainer_emptyZip
  obtain ⟨c, rfl, hopts, hpayload, hstored⟩ := writeContainer_ok h
  refine ⟨c.bytes, c, .inner rfl h, rfl, c.headerDamage_overwriteFirst, ?_⟩
  have hbytes := openArchive_inner emptyZipFormats c.openEntrySet_bytes (by rw [hopts]; rfl) hpayload hstored
  have hwhole : c.payload = emptyZip := by rw [hpayload]; rfl
  have hread : slice c.bytes c.payloadStart 22 = emptyZip := by
    have := c.slice_payload
    rwa [hwhole] at this
  have hinner : emptyZipFormats.openAs c.opts.innerFormat
      (BoundedReadSeek.new (.file c.bytes) c.payloadStart c.payload.length) = .ok () := by
    obtain ⟨next, hsource⟩ : ∃ next, (BoundedReadSeek.new (.file c.bytes) c.payloadStart c.payload.length).read
        22 22 = .ok (emptyZip, next) := by
      have hlt : ¬ 2 ^ 64 ≤ c.payloadStart + 0 := by
        have := c.bytes_lt
        unfold Container.footerOffset Container.indexOffset Container.recoveryOffset at this
        omega
      unfold BoundedReadSeek.new BoundedReadSeek.read
      simp only [hwhole]
      rw [if_neg (by decide), if_neg hlt]
      refine ⟨_, congrArg Except.ok (Prod.ext ?_ rfl)⟩
      exact hread
    rw [hopts]
    show (do
      let (bytes, _) ← ofIo ((BoundedReadSeek.new (.file c.bytes) c.payloadStart c.payload.length).read
        22 22)
      if bytes = emptyZip then return () else corrupt "no zip") = _
    rw [hsource, ofIo_ok, ok_bind]
    exact if_pos rfl
  obtain ⟨reader, hdamaged, hentries, -⟩ := openArchive_withHeader emptyZipFormats c.headerDamage_overwriteFirst
    c.overwriteFirst_ne hstored
  rintro (⟨e, he⟩ | ⟨a, b, ha, hb, hsame, -⟩)
  · rw [hdamaged] at he
    cases he
  · rw [hdamaged] at ha
    cases ha
    rw [hbytes, hinner] at hb
    cases hb
    rw [hentries] at hsame
    cases hsame

end Squallz.Sqz
