/-
What the writer accepts: entries whose data arrives without errors and has the announced size, whose
texts fit their length fields, and that leave room for the container.
-/
import Squallz.Sqz.Primary
import Squallz.Sqz.Container
import Squallz.Sqz.Protection

namespace Squallz.Sqz

open Squallz.Api Squallz.Bytes Squallz.Erasure

/-! ## Sizes -/

/-- A body whose reads return no error before its end. -/
def Body.Delivers : Body → Prop
  | [] => True
  | .ok chunk :: body => chunk = [] ∨ Body.Delivers body
  | .error _ :: _ => False

/-- An entry the writer takes in and can describe in the index. -/
structure Acceptable (entry : EntryMeta × Option Body) : Prop where
  file : entry.1.entryType = .file → ∃ body : Body, entry.2 = some body ∧ body.Delivers ∧
    body.bytes.length = entry.1.size.toNat
  raw_lt : entry.1.path.raw.length < 2 ^ 32
  display_lt : (utf8Bytes entry.1.path.display).length < 2 ^ 32
  encoding_lt : (utf8Bytes entry.1.path.encoding).length < 2 ^ 16
  link_lt : (linkTarget entry.1.entryType).length < 2 ^ 32

def dataLength (entries : List (EntryMeta × Option Body)) : Nat :=
  (entries.map fun entry => if entry.1.entryType = .file then entry.1.size.toNat else 0).sum

/-- The length of an index record. -/
def recordLength (entryMeta : EntryMeta) : Nat :=
  82 + entryMeta.path.raw.length + (utf8Bytes entryMeta.path.display).length +
    (utf8Bytes entryMeta.path.encoding).length + (linkTarget entryMeta.entryType).length

def indexLength (entries : List (EntryMeta × Option Body)) : Nat :=
  16 + (entries.map fun entry => recordLength entry.1).sum

/-- The length of a primary recovery section. -/
def primaryLength (parityShards payloadLength indexLength : Nat) : Nat :=
  parityOffsetOf (divCeil payloadLength blockSize) +
    divCeil (divCeil payloadLength blockSize) dataShards * parityShards * blockSize + indexLength

/-- The length of a primary section with its protection. -/
def protectedLength (primaryLength : Nat) : Nat :=
  primaryLength + (divCeil primaryLength blockSize * 32 +
    divCeil (divCeil primaryLength blockSize) recoveryDataShards * recoveryParityShards * blockSize +
    recoveryProtectionTrailerLen)

def containerLength (parityShards descriptorLength : Nat) (entries : List (EntryMeta × Option Body)) : Nat :=
  headerLen + descriptorLength + dataLength entries +
    protectedLength (primaryLength parityShards (dataLength entries) (indexLength entries)) +
    indexLength entries + footerLen

theorem length_protectedOf (P : Primitives) (primary : List UInt8) :
    (protectedOf P primary).length = protectedLength primary.length := by
  rw [protectedOf, List.length_append, List.length_append, length_protectionOf, length_trailerOf]
  rfl

theorem length_protectedOf_add (P : Primitives) (primary : List UInt8) : (protectedOf P primary).length =
    primary.length + (protectionOf P primary).length + recoveryProtectionTrailerLen := by
  rw [protectedOf, List.length_append, List.length_append, length_trailerOf, Nat.add_assoc]

/-! ## Index -/

theorem putRecord_ok {record : PendingRecord} (hraw : record.entryMeta.path.raw.length < 2 ^ 32)
    (hdisplay : (utf8Bytes record.entryMeta.path.display).length < 2 ^ 32)
    (hencoding : (utf8Bytes record.entryMeta.path.encoding).length < 2 ^ 16)
    (hlink : (linkTarget record.entryMeta.entryType).length < 2 ^ 32) :
    ∃ bytes, putRecord record = .ok bytes ∧ bytes.length = recordLength record.entryMeta := by
  simp only [putRecord, putLenU32, putLenU16, if_pos hraw, if_pos hdisplay, if_pos hencoding, if_pos hlink, ok_bind]
  refine ⟨_, rfl, ?_⟩
  simp only [List.length_append, List.length_cons, length_leBytes, record.hash.width, recordLength]
  omega

/-- The index of acceptable entries. -/
theorem buildIndex_ok {P : Primitives} {start : Nat} {payload : List UInt8}
    {entries : List (EntryMeta × Option Body)} {records : List PendingRecord}
    (h : List.Forall₂ (Stored P start payload) entries records) (hentries : ∀ e ∈ entries, Acceptable e) :
    ∃ index, buildIndex records = .ok index ∧ index.length = indexLength entries := by
  have key : ∃ bytes, putRecords records = .ok bytes ∧
      bytes.length = (entries.map fun entry => recordLength entry.1).sum := by
    induction h with
    | nil => exact ⟨[], rfl, rfl⟩
    | @cons entry record entries records hs _ ih =>
      have ha := hentries entry List.mem_cons_self
      obtain ⟨rest, hrest, hlen⟩ := ih fun e he => hentries e (List.mem_cons_of_mem _ he)
      obtain ⟨bytes, hbytes, hblen⟩ := @putRecord_ok record (by rw [hs.entryMeta]; exact ha.raw_lt)
        (by rw [hs.entryMeta]; exact ha.display_lt) (by rw [hs.entryMeta]; exact ha.encoding_lt)
        (by rw [hs.entryMeta]; exact ha.link_lt)
      refine ⟨bytes ++ rest, ?_, ?_⟩
      · rw [putRecords, hbytes, ok_bind, hrest, ok_bind]
        rfl
      · rw [List.length_append, hblen, hlen, hs.entryMeta, List.map_cons, List.sum_cons]
  obtain ⟨bytes, hbytes, hlen⟩ := key
  refine ⟨_, by rw [buildIndex, hbytes, ok_bind]; rfl, ?_⟩
  simp only [List.length_append, length_leBytes, hlen, indexLength, indexMagic, List.length_cons, List.length_nil]
  omega

/-! ## Runs that succeed -/

theorem Sink.writeAll_room {s : Sink} {bytes : List UInt8} (h : s.contents.length + bytes.length ≤ s.capacity) :
    s.writeAll bytes = .ok { s with contents := s.contents ++ bytes } := if_pos h

/-- Protecting a section that has room. -/
theorem protectRecoverySection_accepts {P : Primitives} {primary : List UInt8} (hne : primary ≠ [])
    (hroom : (protectedOf P primary).length < 2 ^ 64) :
    protectRecoverySection P primary = .ok (protectedOf P primary) := by
  have hcount : blockCountOf primary ≤ blockCountOf primary * 32 := Nat.le_mul_of_pos_right _ (by decide)
  have hlen := length_protectionOf primary P
  rw [protectedOf, List.length_append, List.length_append] at hroom
  rw [protectRecoverySection_eq P hne, if_neg (by omega), if_neg (by omega), if_neg (by omega)]

namespace SqzArchiveWriter

variable {P : Primitives} {ctx : WriterContext} {opts : SqzCreateOptions}
  {descriptor payload : List UInt8} {entries : List (EntryMeta × Option Body)} {w : SqzArchiveWriter}

/-- The copy loop with room for the body. -/
theorem copy_accepts {body : Body} (hw : Running P ctx opts descriptor payload entries w)
    (hbody : body.Delivers) (hroom : w.dst.contents.length + body.bytes.length ≤ w.dst.capacity)
    (written : List UInt8) : ∃ w' written', w.copy P body written = .ok (w', written') ∧
      w'.dst.capacity = w.dst.capacity := by
  induction body generalizing w payload written with
  | nil => exact ⟨w, written, rfl, rfl⟩
  | cons read body ih =>
    cases read with
    | error e => exact hbody.elim
    | ok chunk =>
      unfold copy
      by_cases hnil : chunk = []
      · rw [if_pos hnil]
        exact ⟨w, written, rfl, rfl⟩
      · simp only [Body.bytes, if_neg hnil, List.length_append] at hroom
        have hwrite : w.dst.writeAll chunk = .ok { w.dst with contents := w.dst.contents ++ chunk } :=
          Sink.writeAll_room (by omega)
        obtain ⟨recovery, hrec, hold, hlen, hps, hst⟩ := RecoveryEncoder.pushBytes_holds hw.holds
          hw.payloadLength (by rw [hw.parityShards]; exact opts.parityShards_bounds) chunk
        have hone : w.copy P [.ok chunk] written = .ok
            ({ w with dst := { w.dst with contents := w.dst.contents ++ chunk }, recovery := recovery },
              written ++ chunk) := by
          unfold copy
          rw [if_neg hnil, hwrite, ofIo_ok, ok_bind, hrec, ok_bind]
          rfl
        have hw' := (copy_running hw hone).1
        obtain ⟨w', written', hcopy, hcap⟩ := ih hw' (hbody.resolve_left hnil)
          (by simp only [List.length_append]; omega) (written ++ chunk)
        refine ⟨w', written', ?_, hcap⟩
        rw [if_neg hnil, hwrite, ofIo_ok, ok_bind, hrec, ok_bind]
        exact hcopy

theorem Running.length_contents (hw : Running P ctx opts descriptor payload entries w) :
    w.dst.contents.length = headerLen + descriptor.length + payload.length := by
  rw [hw.contents, List.length_append, List.length_append, length_buildHeader, Nat.add_assoc]

/-- An acceptable entry with room for its data. -/
theorem addEntry_accepts {entry : EntryMeta × Option Body} (hw : Running P ctx opts descriptor payload entries w)
    (ha : Acceptable entry) (hroom : w.dst.contents.length + dataLength [entry] ≤ w.dst.capacity) :
    ∃ w', w.addEntry P entry.1 entry.2 = .ok w' ∧ w'.dst.capacity = w.dst.capacity ∧
      w'.dst.contents.length = w.dst.contents.length + dataLength [entry] := by
  obtain ⟨entryMeta, data⟩ := entry
  simp only [dataLength, List.map_cons, List.map_nil, List.sum_cons, List.sum_nil, Nat.add_zero] at hroom ⊢
  by_cases hfile : entryMeta.entryType = .file
  · obtain ⟨body, hbody, hdel, hsize⟩ := ha.file hfile
    cases hbody
    rw [if_pos hfile, ← hsize] at hroom
    obtain ⟨w', written, hcopy, hcap⟩ := copy_accepts hw hdel hroom []
    obtain ⟨hw', hwritten, -⟩ := copy_running hw hcopy
    rw [List.nil_append] at hwritten
    subst hwritten
    unfold addEntry
    simp only [hfile, hcopy, ok_bind]
    rw [if_neg (by rw [hsize]; simp)]
    refine ⟨_, rfl, hcap, ?_⟩
    show w'.dst.contents.length = _
    rw [Running.length_contents hw', Running.length_contents hw, List.length_append, hsize]
    simp only [if_true]
    omega
  · rw [if_neg hfile, Nat.add_zero]
    unfold addEntry
    split
    · exact absurd ‹_› hfile
    · exact ⟨_, rfl, rfl, rfl⟩

theorem dataLength_cons (entry : EntryMeta × Option Body) (more : List (EntryMeta × Option Body)) :
    dataLength (entry :: more) = dataLength [entry] + dataLength more := by
  simp [dataLength]

/-- Acceptable entries with room for their data. -/
theorem addEntries_accepts {more : List (EntryMeta × Option Body)}
    (hw : Running P ctx opts descriptor payload entries w) (ha : ∀ e ∈ more, Acceptable e)
    (hroom : w.dst.contents.length + dataLength more ≤ w.dst.capacity) :
    ∃ w', w.addEntries P more = .ok w' ∧ w'.dst.capacity = w.dst.capacity ∧
      w'.dst.contents.length = w.dst.contents.length + dataLength more := by
  induction more generalizing w payload entries with
  | nil => exact ⟨w, rfl, rfl, rfl⟩
  | cons entry more ih =>
    rw [dataLength_cons] at hroom ⊢
    obtain ⟨w₁, hadd, hcap, hlen⟩ := addEntry_accepts hw (ha entry List.mem_cons_self) (by omega)
    have hw₁ := addEntry_running hw hadd
    obtain ⟨w₂, hrest, hcap', hlen'⟩ := ih hw₁ (fun e he => ha e (List.mem_cons_of_mem _ he)) (by omega)
    refine ⟨w₂, ?_, by rw [hcap', hcap], by omega⟩
    rw [addEntries, List.foldlM_cons, hadd, ok_bind]
    exact hrest

end SqzArchiveWriter

/-- The writer accepts every list of acceptable entries that leaves room for the container. -/
theorem writeContainer_accepts (P : Primitives) {ctx : WriterContext} {capacity : UInt64}
    {opts : SqzCreateOptions} {entries : List (EntryMeta × Option Body)} {descriptor : List UInt8}
    (hdesc : descriptorTlv opts ctx.createdSecs = .ok descriptor) (ha : ∀ e ∈ entries, Acceptable e)
    (hroom : containerLength opts.parityShards descriptor.length entries ≤ capacity.toNat) :
    ∃ bytes, writeContainer P ctx capacity opts entries = .ok bytes := by
  have hlt := capacity.toNat_lt
  unfold containerLength at hroom
  obtain ⟨w₀, hnew, hcap₀⟩ : ∃ w₀, SqzArchiveWriter.new P ctx (Sink.create capacity) opts = .ok w₀ ∧
      w₀.dst.capacity = capacity.toNat := by
    have h₁ : (Sink.create capacity).writeAll (buildHeader P (newContainerUuid ctx).1 (newContainerUuid ctx).2
        descriptor.length) = .ok _ := Sink.writeAll_room (by
      simp only [Sink.create, List.length_nil, length_buildHeader]
      omega)
    unfold SqzArchiveWriter.new
    simp only [hdesc, ok_bind, h₁, ofIo_ok]
    rw [Sink.writeAll_room (by
      simp only [Sink.create, List.nil_append, length_buildHeader]
      omega), ofIo_ok, ok_bind]
    exact ⟨_, rfl, rfl⟩
  obtain ⟨descriptor', hdesc', hw₀⟩ := SqzArchiveWriter.new_running hnew
  rw [hdesc] at hdesc'
  cases hdesc'
  have hlen₀ := SqzArchiveWriter.Running.length_contents hw₀
  rw [List.length_nil, Nat.add_zero] at hlen₀
  obtain ⟨w, hadd, hcap, hlen⟩ := SqzArchiveWriter.addEntries_accepts hw₀ ha (by omega)
  have hw := SqzArchiveWriter.addEntries_running hw₀ hadd
  rw [List.nil_append, List.nil_append] at hw
  set payload := payloadOf entries
  obtain ⟨index, hindex, hilen⟩ := buildIndex_ok hw.stored ha
  have hpayload : payload.length = dataLength entries := by
    have := SqzArchiveWriter.Running.length_contents hw
    omega
  have hprimary : (primaryOf P opts.parityShards w.recovery.payloadStart payload index).length =
      primaryLength opts.parityShards (dataLength entries) (indexLength entries) := by
    rw [length_primaryOf, blockCountOf, hpayload, hilen]
    rfl
  have hsect : w.recovery.finish P index =
      .ok (protectedOf P (primaryOf P opts.parityShards w.recovery.payloadStart payload index)) := by
    rw [RecoveryEncoder.finish_eq hw.holds hw.payloadLength (by rw [hw.parityShards]; exact opts.parityShards_bounds)
      (buildIndex_ne_nil hindex), if_neg (by omega), hw.parityShards]
    exact protectRecoverySection_accepts (primaryOf_ne_nil _ _ _ _ _)
      (by rw [length_protectedOf, hprimary]; omega)
  have hslen := length_protectedOf P (primaryOf P opts.parityShards w.recovery.payloadStart payload index)
  rw [hprimary] at hslen
  have hne := protectedOf_ne_nil P (primaryOf_ne_nil P opts.parityShards w.recovery.payloadStart payload index)
  simp only [writeContainer, hnew, ok_bind, hadd]
  unfold SqzArchiveWriter.finish
  rw [hindex, ok_bind, hsect, ok_bind]
  simp only
  rw [if_pos hne, Sink.writeAll_room (by omega), ofIo_ok, ok_bind, Sink.writeAll_room (by
    simp only [List.length_append]
    omega), ofIo_ok, ok_bind, Sink.writeAll_room (by
    simp only [List.length_append, length_buildFooter]
    omega), ofIo_ok, ok_bind]
  exact ⟨_, rfl⟩

end Squallz.Sqz
