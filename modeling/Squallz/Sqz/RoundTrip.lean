/-
The round trip of a container: what the writer has accepted, the reader lists in order and hands
back byte for byte.
-/
import Squallz.Bytes.Checksum
import Squallz.Erasure.ReedSolomon
import Squallz.Sqz.Acceptance
import Squallz.Sqz.Reading

namespace Squallz.Sqz

open Squallz.Api Squallz.Bytes Squallz.Erasure

/-- What an entry is listed with. -/
def listed (entry : EntryMeta × Option Body) : EntryMeta :=
  keptMeta entry.1 (if entry.1.entryType = .file then entry.1.size.toNat else 0)

/-- The entry that a path stands for: the first one with its raw bytes. -/
def entryAt (entries : List (EntryMeta × Option Body)) (path : EntryPath) : Option (EntryMeta × Option Body) :=
  entries.find? fun entry => entry.1.path.raw == path.raw

/-! ## Undamaged containers -/

namespace Container

variable {P : Primitives} (c : Container P)

/-- A container faces itself undamaged. -/
theorem payloadIs_self : PayloadIs c c.bytes c.payload :=
  ⟨c.slice_payload, rfl, fun _ _ _ => rfl, fun h => absurd rfl h⟩

/-- What the reader files of an undamaged payload. -/
theorem filed_self : Filed c.opts.parityShards c.payload c.payload (divCeil (blockCountOf c.payload) dataShards)
    [] [] := by
  refine ⟨fun i => ?_, fun i => ?_⟩
  · rw [if_neg fun h => by simp [damagedBlock] at h]
    rfl
  · simp [damagedBlock]

/-- Opening the entry set of an undamaged container. -/
theorem openEntrySet_bytes :
    openEntrySet P c.bytes = .ok (c.opened c.bytes [] [], c.opts.innerFormat.asStr) := by
  have hfooter : openFooter P c.bytes c.bytes.length = .ok (c.footerFields, none) := by
    unfold openFooter
    rw [readFooter_eq rfl c.slice_footer]
  obtain ⟨repaired, unrepaired, hopen, hfiled⟩ := openEntrySet_eq rfl hfooter
    (readDescriptor_eq rfl c.slice_header c.slice_descriptor) c.slice_recoverySection c.slice_index c.payloadIs_self
  rw [hopen, hfiled.repaired_nil, hfiled.unrepaired_nil]

end Container

/-! ## The round trip -/

/-- A container of accepted entries opens, lists them in order, and every file that its path finds
reads back completely. -/
theorem openArchive_writeContainer {P : Primitives} {ctx : WriterContext} {capacity : UInt64}
    {opts : SqzCreateOptions} {entries : List (EntryMeta × Option Body)} {bytes : List UInt8} {R : Type}
    (formats : InnerFormats R) (hsqz : opts.innerFormat = .sqz)
    (h : writeContainer P ctx capacity opts entries = .ok bytes) :
    ∃ reader, openArchive P formats bytes = .ok (.entrySet reader) ∧ reader.entries = entries.map listed ∧
      ∀ path entryMeta data, entryAt entries path = some (entryMeta, data) → entryMeta.entryType = .file →
        ∃ body entryData, data = some body ∧ reader.readEntry path = .ok entryData ∧
          entryData.Yields (Body.bytes body) := by
  obtain ⟨c, rfl, rfl, -, hstored⟩ := writeContainer_ok h
  refine ⟨c.opened c.bytes [] [], ?_, Container.entries_opened hstored, ?_⟩
  · unfold openArchive
    rw [c.openEntrySet_bytes, ok_bind, hsqz]
    rfl
  · intro path entryMeta data hat hfile
    obtain ⟨r, hr, hs, hfind⟩ := Container.find_opened c.bytes [] [] hstored hat
    obtain ⟨body, hbody, -⟩ := hs.file hfile
    simp only at hbody
    subst hbody
    obtain ⟨entryData, hread, hyields⟩ := Container.readEntry_ok rfl c.payloadIs_self c.filed_self hr hs hfile hfind
      fun i hi => absurd hi List.not_mem_nil
    exact ⟨body, entryData, rfl, hread, hyields⟩

/-! ## A small container -/

/-- Primitives to run the writer with: the checksum and the codec of the format, and a hash that keeps
the first 32 bytes. -/
def samplePrimitives : Primitives where
  blake3 bytes := ⟨padTo 0 32 (bytes.take 32), by rw [length_padTo (by simp)]⟩
  crc32c := crc32c
  reedSolomon := galois8

def sampleContext : WriterContext := ⟨1000, 7, 0⟩

/-- A file entry named by one byte, its data delivered in one read. -/
def fileEntry (name : UInt8) (content : List UInt8) : EntryMeta × Option Body :=
  ({ path := ⟨[name], "f", "utf-8"⟩
     entryType := .file
     size := UInt64.ofNat content.length
     compressedSize := none
     modified := some .beforeEpoch
     unixMode := some 0o644
     crc32 := none
     encrypted := false }, some [.ok content])

/-- Readers of inner formats that refuse everything. -/
def noFormats : InnerFormats Unit where
  openZip _ := corrupt "no zip"
  openTar _ := corrupt "no tar"
  openSevenZ _ := corrupt "no 7z"
  openZstdTar _ := corrupt "no zstd"
  entries _ := []
  readEntry _ _ := corrupt "no entry"

theorem fileEntry_acceptable {name : UInt8} {content : List UInt8} (h : content.length < 2 ^ 64) :
    Acceptable (fileEntry name content) where
  file _ := by
    refine ⟨[.ok content], rfl, Or.inr trivial, ?_⟩
    have hsize : (fileEntry name content).1.size.toNat = content.length := by
      show (UInt64.ofNat content.length).toNat = _
      rw [UInt64.toNat_ofNat', Nat.mod_eq_of_lt h]
    rw [hsize]
    by_cases hnil : content = []
    · simp [Body.bytes, hnil]
    · simp [Body.bytes, hnil]
  raw_lt := (by decide : 1 < 2 ^ 32)
  display_lt := (by decide +kernel : (utf8Bytes "f").length < 2 ^ 32)
  encoding_lt := (by decide +kernel : (utf8Bytes "utf-8").length < 2 ^ 16)
  link_lt := (by decide : 0 < 2 ^ 32)

/-- The length of the descriptor of a profile. -/
theorem exists_descriptor : ∃ descriptor, descriptorTlv ⟨.sqz, 5⟩ 0 = .ok descriptor ∧ descriptor.length = 82 := by
  have h : (descriptorTlv ⟨.sqz, 5⟩ 0).toOption.map List.length = some 82 := by decide +kernel
  cases hd : descriptorTlv ⟨.sqz, 5⟩ 0 with
  | error e =>
    rw [hd] at h
    cases h
  | ok descriptor =>
    rw [hd] at h
    exact ⟨descriptor, rfl, Option.some.inj h⟩

theorem payloadOf_fileEntry (name : UInt8) (content : List UInt8) :
    payloadOf [fileEntry name content] = content := by
  by_cases hnil : content = [] <;> simp [payloadOf, fileEntry, Body.bytes, hnil]

/-- A container of one file that leaves room is written. -/
theorem writeContainer_fileEntry (name : UInt8) (content : List UInt8) {n : Nat} (hn : content.length = n)
    (hroom : headerLen + 82 + n + protectedLength (primaryLength 1 n 105) + 105 + footerLen < 2 ^ 64) :
    ∃ bytes, writeContainer samplePrimitives sampleContext 0xFFFFFFFFFFFFFFFF ⟨.sqz, 5⟩
      [fileEntry name content] = .ok bytes := by
  obtain ⟨descriptor, hdesc, hlen⟩ := exists_descriptor
  have hlt : content.length < 2 ^ 64 := by omega
  refine writeContainer_accepts samplePrimitives hdesc (fun entry hentry => ?_) ?_
  · rw [List.mem_singleton.1 hentry]
    exact fileEntry_acceptable hlt
  · have hdata : dataLength [fileEntry name content] = n := by
      show (UInt64.ofNat content.length).toNat + 0 = n
      rw [UInt64.toNat_ofNat', Nat.mod_eq_of_lt hlt, hn, Nat.add_zero]
    have hindex : indexLength [fileEntry name content] = 105 := by
      show 16 + (82 + 1 + (utf8Bytes "f").length + (utf8Bytes "utf-8").length + 0 + 0) = 105
      decide +kernel
    have hp : SqzCreateOptions.parityShards ⟨.sqz, 5⟩ = 1 := by decide
    rw [containerLength, hdata, hindex, hlen, hp]
    have hcap : (0xFFFFFFFFFFFFFFFF : UInt64).toNat = 2 ^ 64 - 1 := rfl
    omega

theorem openArchive_writeContainer_sample : ∃ bytes reader entryData,
    writeContainer samplePrimitives sampleContext 0xFFFFFFFFFFFFFFFF ⟨.sqz, 5⟩
      [fileEntry 97 [1, 2, 3], fileEntry 98 []] = .ok bytes ∧
    openArchive samplePrimitives noFormats bytes = .ok (.entrySet reader) ∧
    reader.entries = [listed (fileEntry 97 [1, 2, 3]), listed (fileEntry 98 [])] ∧
    reader.readEntry ⟨[97], "f", "utf-8"⟩ = .ok entryData ∧ entryData.Yields [1, 2, 3] := by
  obtain ⟨descriptor, hdesc, hlen⟩ := exists_descriptor
  obtain ⟨bytes, h⟩ := @writeContainer_accepts samplePrimitives sampleContext 0xFFFFFFFFFFFFFFFF _
    [fileEntry 97 [1, 2, 3], fileEntry 98 []] _ hdesc
    (by
      intro entry hentry
      rcases List.mem_pair.1 hentry with rfl | rfl
      · exact fileEntry_acceptable (by decide)
      · exact fileEntry_acceptable (by decide))
    (by rw [hlen]; decide +kernel)
  obtain ⟨reader, hopen, hentries, hread⟩ := openArchive_writeContainer noFormats rfl h
  obtain ⟨body, entryData, hbody, hdata, hyields⟩ := hread ⟨[97], "f", "utf-8"⟩ _ _ rfl rfl
  cases hbody
  exact ⟨bytes, reader, entryData, h, hopen, hentries, hdata, hyields⟩

end Squallz.Sqz
