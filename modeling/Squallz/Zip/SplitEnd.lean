/-
The end of a split ZIP: the end record of the final volume, the locator of the ZIP64 end record before it, and the ZIP64 end
record itself, whose bytes may stand in several volumes.
-/
import Squallz.Api.Checked
import Squallz.Bytes.LittleEndian

namespace Squallz.Zip

open Squallz.Api Squallz.Bytes

def maxSplitZipVolumeCount : Nat := 1000000
def eocdMinLen : Nat := 22
def eocdMaxCommentLen : Nat := 2 ^ 16 - 1
def zip64LocatorLen : Nat := 20
def zip64EocdMinLen : Nat := 56
def zip64EocdMinBodyLen : Nat := 44
def eocdMagic : List UInt8 := [0x50, 0x4B, 0x05, 0x06]
def zip64EocdMagic : List UInt8 := [0x50, 0x4B, 0x06, 0x06]
def zip64LocatorMagic : List UInt8 := [0x50, 0x4B, 0x06, 0x07]

/-- `u16::MAX`, which stands for a number of the ZIP64 records. -/
def u16Max : Nat := 2 ^ 16 - 1

structure SplitZipMetadata where
  finalDisk : Nat
  centralDirectoryDisk : Nat
deriving DecidableEq, Repr

structure Zip64Locator where
  finalDisk : Nat
  recordDisk : Nat
  recordOffset : Nat
  locatorOffset : Nat
deriving DecidableEq, Repr

inductive SplitZipEnd
  | standard (metadata : SplitZipMetadata)
  | zip64 (locator : Zip64Locator) (centralDirectoryDisk : Option Nat)
deriving DecidableEq, Repr

/-! ## Bounds -/

def volumeLimitError {α : Type} : Res α :=
  raise (.resourceLimitExceeded s!"split ZIP volume count exceeds {maxSplitZipVolumeCount}")

def ensureFinalDiskBounds (finalDisk : Nat) : Res Unit :=
  if finalDisk = 0 then corrupt "split ZIP metadata has no preceding data volume"
  else if maxSplitZipVolumeCount ≤ finalDisk then volumeLimitError
  else pure ()

def ensureMetadataBounds (metadata : SplitZipMetadata) : Res Unit := do
  ensureFinalDiskBounds metadata.finalDisk
  if metadata.finalDisk < metadata.centralDirectoryDisk then
    corrupt "split ZIP central directory starts after the final disk"
  else pure ()

/-- `read_archive_exact` at a position of a file. -/
def readArchiveExact (file : List UInt8) (position n : Nat) (field : String) : Res (List UInt8) :=
  match readExactAt file position n with
  | .error (.raised (.io ⟨.unexpectedEof, _⟩)) => corrupt s!"{field} is truncated"
  | result => result

/-! ## The final volume -/

structure EocdRecord where
  offset : Nat
  bytes : List UInt8

/-- The last end record in the file whose comment ends with the file. -/
def findEocd (file : List UInt8) : Option EocdRecord :=
  if file.length < eocdMinLen then none
  else
    let tailLen := min file.length (eocdMinLen + eocdMaxCommentLen)
    let tailStart := file.length - tailLen
    let tail := slice file tailStart tailLen
    (List.range (tailLen - eocdMinLen + 1)).reverse.findSome? fun offset =>
      if slice tail offset 4 ≠ eocdMagic then none
      else if offset + eocdMinLen + leNat (slice tail (offset + 20) 2) ≠ tailLen then none
      else some ⟨tailStart + offset, slice tail offset eocdMinLen⟩

def readZip64Locator (file : List UInt8) (eocdOffset : Nat) : Res Zip64Locator :=
  if eocdOffset < zip64LocatorLen then corrupt "split ZIP64 end locator is missing"
  else do
    let locatorOffset := eocdOffset - zip64LocatorLen
    let locator ← readArchiveExact file locatorOffset zip64LocatorLen "split ZIP64 end locator"
    if locator.take 4 ≠ zip64LocatorMagic then corrupt "split ZIP64 end locator signature is invalid"
    else
      let recordDisk := leNat (slice locator 4 4)
      let recordOffset := leNat (slice locator 8 8)
      let totalDisks := leNat (slice locator 16 4)
      if totalDisks = 0 then corrupt "split ZIP64 locator reports no disks"
      else do
        let finalDisk := totalDisks - 1
        ensureFinalDiskBounds finalDisk
        if finalDisk < recordDisk then corrupt "split ZIP64 end record starts after the final disk"
        else pure ⟨finalDisk, recordDisk, recordOffset, locatorOffset⟩

/-- `inspect_split_zip_end` of the final volume. -/
def inspectSplitZipEnd (file : List UInt8) : Res (Option SplitZipEnd) :=
  match findEocd file with
  | none => pure none
  | some eocd =>
    let disk := leNat (slice eocd.bytes 4 2)
    let directoryDisk := leNat (slice eocd.bytes 6 2)
    if disk = 0 ∧ directoryDisk = 0 then pure none
    else if disk ≠ u16Max ∧ directoryDisk ≠ u16Max then do
      ensureMetadataBounds ⟨disk, directoryDisk⟩
      pure (some (.standard ⟨disk, directoryDisk⟩))
    else do
      let locator ← readZip64Locator file eocd.offset
      if disk ≠ u16Max ∧ disk ≠ locator.finalDisk then
        corrupt "split ZIP disk number disagrees with its ZIP64 end locator"
      else
        let centralDirectoryDisk := if directoryDisk ≠ u16Max then some directoryDisk else none
        match centralDirectoryDisk with
        | some centralDirectoryDisk => ensureMetadataBounds ⟨locator.finalDisk, centralDirectoryDisk⟩
        | none => pure ()
        pure (some (.zip64 locator centralDirectoryDisk))

/-! ## The ZIP64 end record -/

/-- A volume that was opened, with the identities that are taken of it before and after it is read. -/
structure OpenVolume (Identity : Type) where
  bytes : List UInt8
  sized : bytes.length < 2 ^ 63
  initialIdentity : Identity
  finalIdentity : Identity

/-- The metadata and the declared length of a record, from its fixed part. -/
def parseZip64Record (record : List UInt8) (locator : Zip64Locator) (centralDirectoryDisk : Option Nat) :
    Res (SplitZipMetadata × Nat) :=
  if record.take 4 ≠ zip64EocdMagic then corrupt "split ZIP64 end record signature is invalid"
  else
    let recordBodyLen := leNat (slice record 4 8)
    if recordBodyLen < zip64EocdMinBodyLen then corrupt "split ZIP64 end record is too short"
    else
      match checkedAddU64 recordBodyLen 12 with
      | none => corrupt "split ZIP64 end record length overflows"
      | some declaredLen =>
        if leNat (slice record 16 4) ≠ locator.finalDisk then
          corrupt "split ZIP64 disk count disagrees with its end locator"
        else do
          let metadata := ⟨locator.finalDisk, centralDirectoryDisk.getD (leNat (slice record 20 4))⟩
          ensureMetadataBounds metadata
          pure (metadata, declaredLen)

/-- What is known of the record after some volumes. -/
structure RecordRead where
  fixed : List UInt8
  available : Nat
  parsed : Option (SplitZipMetadata × Nat)

section Volumes

variable {Identity : Type} [DecidableEq Identity] (openVolume : Nat → Res (OpenVolume Identity))
  (locator : Zip64Locator) (centralDirectoryDisk : Option Nat)

/-- The part of a volume between the start of the record and the locator. -/
def recordSpan (disk : Nat) (file : List UInt8) : Res (Nat × Nat) :=
  let start := if disk = locator.recordDisk then locator.recordOffset else 0
  let stop := if disk = locator.finalDisk then locator.locatorOffset else file.length
  if file.length < stop then corrupt "split ZIP64 end locator points outside the final volume"
  else if stop < start then corrupt "split ZIP64 end record offset is outside its start volume"
  else pure (start, stop - start)

/-- The bytes of the fixed part of the record, with those of one volume more. -/
def readFixed (fixed file : List UInt8) (start span : Nat) : Res (List UInt8) :=
  if fixed.length < zip64EocdMinLen ∧ span ≠ 0 then do
    let readLen := min span (zip64EocdMinLen - fixed.length)
    let read ← readArchiveExact file start readLen "split ZIP64 end record"
    pure (fixed ++ read)
  else pure fixed

/-- The body of the loop of `read_zip64_record_from_volumes`, until the record is found to be complete. -/
def readRecordVolume (s : RecordRead) (disk : Nat) : Res RecordRead := do
  let file ← openVolume disk
  let (start, span) ← recordSpan locator disk file.bytes
  match checkedAddU64 s.available span with
  | none => corrupt "split ZIP64 end record length overflows"
  | some available =>
    let fixed ← readFixed s.fixed file.bytes start span
    if file.finalIdentity ≠ file.initialIdentity then
      corrupt "a split ZIP volume changed while its directory metadata was read"
    else if fixed.length = zip64EocdMinLen ∧ s.parsed = none then do
      let parsed ← parseZip64Record fixed locator centralDirectoryDisk
      pure ⟨fixed, available, some parsed⟩
    else pure ⟨fixed, available, s.parsed⟩

def RecordRead.complete (s : RecordRead) : Option SplitZipMetadata :=
  match s.parsed with
  | some (metadata, declaredLen) => if declaredLen ≤ s.available then some metadata else none
  | none => none

def readRecordVolumes (s : RecordRead) : List Nat → Res SplitZipMetadata
  | [] =>
    if s.fixed.length < zip64EocdMinLen then corrupt "split ZIP64 end record is truncated across its volume set"
    else corrupt "split ZIP64 end record length exceeds the bytes before its locator"
  | disk :: disks => do
    let s ← readRecordVolume openVolume locator centralDirectoryDisk s disk
    match s.complete with
    | some metadata => pure metadata
    | none => readRecordVolumes s disks

def readZip64RecordFromVolumes : Res SplitZipMetadata :=
  readRecordVolumes openVolume locator centralDirectoryDisk ⟨[], 0, none⟩
    (List.range' locator.recordDisk (locator.finalDisk + 1 - locator.recordDisk))

end Volumes

end Squallz.Zip
