/-
The index of a container: the packed records that the writer emits and the reader parses, and
that parsing an emitted index gives every record back as far as the format keeps it.
-/
import Squallz.Sqz.Format

namespace Squallz.Sqz

open Squallz.Api Squallz.Bytes

/-! ## Writing -/

/-- An entry the writer has taken in, with the place of its data. -/
structure PendingRecord where
  entryMeta : EntryMeta
  dataOffset : Nat
  dataSize : Nat
  hash : Digest
  crc32c : UInt32
deriving DecidableEq

def emptyHash (P : Primitives) : Digest := P.blake3 []

def kindOf : EntryType → UInt8
  | .file => kindFile
  | .dir => kindDir
  | .symlink _ => kindSymlink
  | .hardlink _ => kindHardlink
  | .other => kindOther

def linkTarget : EntryType → List UInt8
  | .symlink target => target
  | .hardlink target => target
  | _ => []

def modifiedSecs : Option SystemTime → Nat
  | some time => time.secsSinceEpoch.getD absentTimestampSecs
  | none => absentTimestampSecs

def unixModeField : Option UInt32 → Nat
  | some mode => mode.toNat
  | none => absentUnixMode

def putLenU32 (len : Nat) (label : String) : Res (List UInt8) :=
  if len < 2 ^ 32 then .ok (leBytes 4 len) else unsupported s!"{label} exceeds 4 GiB"

def putLenU16 (len : Nat) (label : String) : Res (List UInt8) :=
  if len < 2 ^ 16 then .ok (leBytes 2 len) else unsupported s!"{label} exceeds 64 KiB"

/-- One record of `build_index`. -/
def putRecord (record : PendingRecord) : Res (List UInt8) := do
  let entryMeta := record.entryMeta
  let fixed := kindOf entryMeta.entryType :: (if entryMeta.encrypted then 1 else 0) ::
    (leBytes 2 0 ++ (leBytes 8 record.dataOffset ++ (leBytes 8 record.dataSize ++
    (leBytes 8 (modifiedSecs entryMeta.modified) ++ (leBytes 4 (unixModeField entryMeta.unixMode) ++
    (leBytes 4 record.crc32c.toNat ++ record.hash.bytes))))))
  let raw := entryMeta.path.raw
  let display := utf8Bytes entryMeta.path.display
  let encoding := utf8Bytes entryMeta.path.encoding
  let link := linkTarget entryMeta.entryType
  let rawLen ← putLenU32 raw.length "sqz path"
  let displayLen ← putLenU32 display.length "sqz display path"
  let encodingLen ← putLenU16 encoding.length "sqz encoding label"
  let linkLen ← putLenU32 link.length "sqz link target"
  return fixed ++ (rawLen ++ (displayLen ++ (encodingLen ++ (linkLen ++
    (raw ++ (display ++ (encoding ++ link)))))))

def putRecords : List PendingRecord → Res (List UInt8)
  | [] => .ok []
  | record :: records => do
    let bytes ← putRecord record
    let rest ← putRecords records
    return bytes ++ rest

def buildIndex (records : List PendingRecord) : Res (List UInt8) := do
  let bytes ← putRecords records
  return indexMagic ++ (leBytes 2 1 ++ (leBytes 2 0 ++ (leBytes 8 records.length ++ bytes)))

/-! ## Parsing -/

/-- An entry as the reader lists it, with the place of its data. -/
structure SqzRecord where
  entryMeta : EntryMeta
  dataOffset : Nat
  dataSize : Nat
  hash : Digest
  crc32c : UInt32
deriving DecidableEq

def readModified (secs : Nat) : Res (Option SystemTime) :=
  if secs = absentTimestampSecs then .ok none
  else do
    let time ← SystemTime.ofUnixSecs secs
    return some time

def readUnixMode (mode : Nat) : Option UInt32 :=
  if mode = absentUnixMode then none else some (UInt32.ofNat mode)

def readEntryType (kind : UInt8) (link : List UInt8) : Res EntryType :=
  if kind = kindFile then .ok .file
  else if kind = kindDir then .ok .dir
  else if kind = kindSymlink then .ok (.symlink link)
  else if kind = kindHardlink then .ok (.hardlink link)
  else if kind = kindOther then .ok .other
  else corrupt s!"unknown sqz entry type: {kind}"

def readText (bytes : List UInt8) (context : String) : Res String :=
  match fromUtf8 bytes with
  | some text => .ok text
  | none => corrupt context

/-- One record of `parse_index`. -/
def parseRecord (P : Primitives) (buf : List UInt8) : Res (SqzRecord × List UInt8) := do
  let (kind, buf) ← readU8 buf
  let (encrypted, buf) ← readU8 buf
  let (_reserved, buf) ← readU16 buf
  let (dataOffset, buf) ← readU64 buf
  let (dataSize, buf) ← readU64 buf
  let (secs, buf) ← readU64 buf
  let modified ← readModified secs
  let (mode, buf) ← readU32 buf
  let (crc32c, buf) ← readU32 buf
  let (hash, buf) ← readDigest buf
  let (rawLen, buf) ← readU32 buf
  let (displayLen, buf) ← readU32 buf
  let (encodingLen, buf) ← readU16 buf
  let (linkLen, buf) ← readU32 buf
  let (raw, buf) ← readExact buf rawLen
  let (display, buf) ← readExact buf displayLen
  let display ← readText display "sqz display path is not UTF-8"
  let (encoding, buf) ← readExact buf encodingLen
  let encoding ← readText encoding "sqz encoding label is not UTF-8"
  let (link, buf) ← readExact buf linkLen
  let entryType ← readEntryType kind link
  if entryType ≠ .file ∧ hash ≠ emptyHash P then
    corrupt s!"non-file sqz entry carries data hash: {display}"
  else
    return ({
      entryMeta := {
        path := ⟨raw, display, encodingLabel encoding⟩
        entryType := entryType
        size := UInt64.ofNat dataSize
        compressedSize := some (UInt64.ofNat dataSize)
        modified := modified
        unixMode := readUnixMode mode
        crc32 := none
        encrypted := encrypted != 0 }
      dataOffset := dataOffset
      dataSize := dataSize
      hash := hash
      crc32c := UInt32.ofNat crc32c }, buf)

def parseRecords (P : Primitives) : Nat → List UInt8 → Res (List SqzRecord × List UInt8)
  | 0, buf => .ok ([], buf)
  | count + 1, buf => do
    let (record, buf) ← parseRecord P buf
    let (records, buf) ← parseRecords P count buf
    return (record :: records, buf)

def parseIndex (P : Primitives) (index : List UInt8) : Res (List SqzRecord) := do
  let (head, buf) ← readExact index 4
  if head ≠ indexMagic then corrupt "missing sqz index magic"
  else
    let (version, buf) ← readU16 buf
    if version ≠ 1 then unsupported s!"unsupported sqz index version: {version}"
    else
      let (_flags, buf) ← readU16 buf
      let (count, buf) ← readU64 buf
      let (records, buf) ← parseRecords P count buf
      if buf ≠ [] then corrupt "trailing bytes in sqz footer index" else return records

/-! ## The round trip -/

/-- The time the format keeps of a time: whole seconds from the epoch on. -/
def keptTime (modified : Option SystemTime) : Option SystemTime :=
  modified.bind fun time =>
    if 0 ≤ time.secs then some { time with nanos := 0, nanos_lt := zero_nanos_lt } else none

/-- The mode the format keeps: the all-ones mode stands for an absent one. -/
def keptMode (mode : Option UInt32) : Option UInt32 := mode.filter (·.toNat ≠ absentUnixMode)

/-- The metadata an entry is listed with, given the size of its data. -/
def keptMeta (entryMeta : EntryMeta) (dataSize : Nat) : EntryMeta where
  path := ⟨entryMeta.path.raw, entryMeta.path.display, encodingLabel entryMeta.path.encoding⟩
  entryType := entryMeta.entryType
  size := UInt64.ofNat dataSize
  compressedSize := some (UInt64.ofNat dataSize)
  modified := keptTime entryMeta.modified
  unixMode := keptMode entryMeta.unixMode
  crc32 := none
  encrypted := entryMeta.encrypted

/-- What the reader makes of a record. -/
def PendingRecord.readBack (record : PendingRecord) : SqzRecord where
  entryMeta := keptMeta record.entryMeta record.dataSize
  dataOffset := record.dataOffset
  dataSize := record.dataSize
  hash := record.hash
  crc32c := record.crc32c

/-- A record whose numbers fit their fields. -/
structure PendingRecord.Fits (P : Primitives) (record : PendingRecord) : Prop where
  end_lt : record.dataOffset + record.dataSize < 2 ^ 64
  nonFile : record.entryMeta.entryType ≠ .file → record.hash = emptyHash P

theorem PendingRecord.Fits.offset_lt {P : Primitives} {record : PendingRecord} (h : record.Fits P) :
    record.dataOffset < 2 ^ 64 := lt_of_le_of_lt (Nat.le_add_right _ _) h.end_lt

theorem PendingRecord.Fits.size_lt {P : Primitives} {record : PendingRecord} (h : record.Fits P) :
    record.dataSize < 2 ^ 64 := lt_of_le_of_lt (Nat.le_add_left _ _) h.end_lt

theorem putLenU32_ok {len : Nat} {label : String} {bytes : List UInt8}
    (h : putLenU32 len label = .ok bytes) : len < 2 ^ 32 ∧ bytes = leBytes 4 len := by
  unfold putLenU32 at h
  split at h
  · cases h
    exact ⟨‹_›, rfl⟩
  · cases h

theorem putLenU16_ok {len : Nat} {label : String} {bytes : List UInt8}
    (h : putLenU16 len label = .ok bytes) : len < 2 ^ 16 ∧ bytes = leBytes 2 len := by
  unfold putLenU16 at h
  split at h
  · cases h
    exact ⟨‹_›, rfl⟩
  · cases h

theorem readModified_modifiedSecs (modified : Option SystemTime) :
    readModified (modifiedSecs modified % 2 ^ 64) = .ok (keptTime modified) := by
  unfold readModified modifiedSecs keptTime
  rcases modified with _ | time
  · rfl
  · have ht := time.secs_lt
    by_cases h0 : 0 ≤ time.secs
    · have hlt : time.secs.toNat < 2 ^ 63 := by omega
      have hmod : time.secs.toNat % 2 ^ 64 = time.secs.toNat := Nat.mod_eq_of_lt (by omega)
      have hne : time.secs.toNat ≠ absentTimestampSecs := by unfold absentTimestampSecs; omega
      simp only [SystemTime.secsSinceEpoch, h0, if_true, Option.getD_some, hmod, hne, if_false,
        SystemTime.ofUnixSecs, hlt, dite_true, pure_eq_ok, Option.bind_some, Int.toNat_of_nonneg]
      rfl
    · simp only [SystemTime.secsSinceEpoch, h0, if_false, Option.getD_none, Option.bind_some]
      rfl

theorem readUnixMode_unixModeField (mode : Option UInt32) :
    readUnixMode (unixModeField mode % 2 ^ 32) = keptMode mode := by
  unfold readUnixMode unixModeField keptMode
  rcases mode with _ | mode
  · rfl
  · have hlt : mode.toNat < 2 ^ 32 := mode.toNat_lt
    simp only [Nat.mod_eq_of_lt hlt, Option.filter_some]
    by_cases h : mode.toNat = absentUnixMode
    · simp [h]
    · simp [h, UInt32.ofNat_toNat]

theorem readEntryType_kindOf (t : EntryType) : readEntryType (kindOf t) (linkTarget t) = .ok t := by
  cases t <;> rfl

@[simp] theorem readText_utf8Bytes (s context : String) : readText (utf8Bytes s) context = .ok s := by
  simp [readText]

/-- A written record is read back, whatever follows it. -/
theorem parseRecord_putRecord {P : Primitives} {record : PendingRecord} {bytes : List UInt8}
    (hfit : record.Fits P) (h : putRecord record = .ok bytes) (rest : List UInt8) :
    parseRecord P (bytes ++ rest) = .ok (record.readBack, rest) := by
  unfold putRecord at h
  simp only [bind_eq_ok, pure_eq_ok] at h
  obtain ⟨rawLen, hraw, displayLen, hdisplay, encodingLen, hencoding, linkLen, hlink, hbytes⟩ := h
  obtain ⟨rawLt, rfl⟩ := putLenU32_ok hraw
  obtain ⟨displayLt, rfl⟩ := putLenU32_ok hdisplay
  obtain ⟨encodingLt, rfl⟩ := putLenU16_ok hencoding
  obtain ⟨linkLt, rfl⟩ := putLenU32_ok hlink
  cases hbytes
  have hcrc : record.crc32c.toNat % 2 ^ 32 = record.crc32c.toNat := Nat.mod_eq_of_lt record.crc32c.toNat_lt
  have henc : ((if record.entryMeta.encrypted then (1 : UInt8) else 0) != 0) = record.entryMeta.encrypted := by
    cases record.entryMeta.encrypted <;> rfl
  unfold parseRecord
  simp only [List.cons_append, List.append_assoc, readU8_cons, readU16_append, readU32_append,
    readU64_append, readDigest_append, ok_bind, readModified_modifiedSecs,
    Nat.mod_eq_of_lt hfit.offset_lt, Nat.mod_eq_of_lt hfit.size_lt, Nat.mod_eq_of_lt rawLt,
    Nat.mod_eq_of_lt displayLt, Nat.mod_eq_of_lt encodingLt, Nat.mod_eq_of_lt linkLt,
    readExact_append rfl, readText_utf8Bytes, readEntryType_kindOf]
  rw [if_neg fun hne => hne.2 (hfit.nonFile hne.1)]
  simp only [pure_eq_ok, readUnixMode_unixModeField, hcrc, henc, UInt32.ofNat_toNat]
  rfl

theorem parseRecords_putRecords {P : Primitives} {records : List PendingRecord} {bytes : List UInt8}
    (hfit : ∀ r ∈ records, r.Fits P) (h : putRecords records = .ok bytes) (rest : List UInt8) :
    parseRecords P records.length (bytes ++ rest) =
      .ok (records.map PendingRecord.readBack, rest) := by
  induction records generalizing bytes with
  | nil =>
    cases h
    rfl
  | cons record records ih =>
    simp only [putRecords, bind_eq_ok, pure_eq_ok] at h
    obtain ⟨head, hhead, tail, htail, hbytes⟩ := h
    cases hbytes
    have hrec := parseRecord_putRecord (hfit record List.mem_cons_self) hhead (tail ++ rest)
    have hrest := ih (fun r hr => hfit r (List.mem_cons_of_mem _ hr)) htail
    simp only [List.length_cons, parseRecords, List.append_assoc, hrec, hrest, ok_bind, pure_eq_ok,
      List.map_cons]

/-- Parsing a built index gives every record back. -/
theorem parseIndex_buildIndex {P : Primitives} {records : List PendingRecord} {index : List UInt8}
    (hfit : ∀ r ∈ records, r.Fits P) (hcount : records.length < 2 ^ 64)
    (h : buildIndex records = .ok index) :
    parseIndex P index = .ok (records.map PendingRecord.readBack) := by
  simp only [buildIndex, bind_eq_ok, pure_eq_ok] at h
  obtain ⟨bytes, hbytes, hindex⟩ := h
  cases hindex
  have hrecords := parseRecords_putRecords hfit hbytes []
  rw [List.append_nil] at hrecords
  unfold parseIndex
  simp only [readExact_append (a := indexMagic) (n := 4) rfl, ok_bind, readU16_append, readU64_append,
    Nat.mod_eq_of_lt hcount, hrecords, ne_eq, not_true_eq_false, if_false, pure_eq_ok]
  rfl

/-- A built index is longer than the number of its records. -/
theorem length_le_buildIndex {records : List PendingRecord} {index : List UInt8}
    (h : buildIndex records = .ok index) : records.length ≤ index.length := by
  have key : ∀ {records : List PendingRecord} {bytes : List UInt8}, putRecords records = .ok bytes →
      records.length ≤ bytes.length := by
    intro records
    induction records with
    | nil => intro bytes _; exact Nat.zero_le _
    | cons record records ih =>
      intro bytes h
      simp only [putRecords, putRecord, bind_eq_ok, pure_eq_ok] at h
      obtain ⟨head, ⟨_, _, _, _, _, _, _, _, hhead⟩, tail, htail, hbytes⟩ := h
      cases hhead
      cases hbytes
      have := ih htail
      simp only [List.length_append, List.length_cons]
      omega
  simp only [buildIndex, bind_eq_ok, pure_eq_ok] at h
  obtain ⟨bytes, hbytes, hindex⟩ := h
  cases hindex
  have := key hbytes
  simp only [List.length_append]
  omega

end Squallz.Sqz
