/-
The reader: opening a container, reading entries through repaired blocks, and the inner archives
a container may wrap. The readers of the inner formats enter as `InnerFormats`.
-/
import Squallz.Sqz.Recovery

namespace Squallz.Sqz

open Squallz.Api Squallz.Bytes

/-! ## Sources -/

structure RecoveredPayload where
  payloadStart : Nat
  payloadLength : Nat
  blockSize : Nat
  repairedBlocks : List (Nat × List UInt8)
  unrepairedBlocks : List Nat

def RecoveredPayload.ofState (state : RecoveryState) : RecoveredPayload where
  payloadStart := state.payloadStart
  payloadLength := state.payloadLength
  blockSize := state.blockSize
  repairedBlocks := state.repairedBlocks
  unrepairedBlocks := state.unrepairedBlocks

/-- A read of the source at `pos`: up to `want` bytes, fewer where the system returns fewer (`pick`),
none only at the end or for an empty buffer. -/
def sourceRead (src : List UInt8) (pos want pick : Nat) : List UInt8 :=
  slice src pos (min want (max pick 1))

/-- The source a reader reads from: the file itself, or the file seen through its repaired blocks. -/
inductive SqzSource
  | file (src : List UInt8)
  | recovered (src : List UInt8) (recovery : RecoveredPayload) (len : Nat)

/-- `RecoveredReadSeek::read` at `pos` into a buffer of `bufLen`. -/
def recoveredRead (src : List UInt8) (recovery : RecoveredPayload) (len pos bufLen pick : Nat) :
    Except IoError (List UInt8) :=
  if len ≤ pos ∨ bufLen = 0 then .ok []
  else
    let want := min (len - pos) bufLen
    if pos < recovery.payloadStart then
      .ok (sourceRead src pos (min (recovery.payloadStart - pos) want) pick)
    else
      let relative := pos - recovery.payloadStart
      if recovery.payloadLength ≤ relative then .ok (sourceRead src pos want pick)
      else
        let blockIndex := relative / recovery.blockSize
        let blockOffset := relative % recovery.blockSize
        let want := min (min (recovery.payloadLength - relative) want) (recovery.blockSize - blockOffset)
        if blockIndex ∈ recovery.unrepairedBlocks then
          .error ⟨.invalidData, "SQZ payload exceeds recovery capacity"⟩
        else
          match recovery.repairedBlocks.lookup blockIndex with
          | some block =>
            if block.length < blockOffset + want then
              .error ⟨.invalidData, "truncated SQZ repaired block"⟩
            else .ok (slice block blockOffset want)
          | none => .ok (sourceRead src pos want pick)

def SqzSource.read (source : SqzSource) (pos bufLen pick : Nat) : Except IoError (List UInt8) :=
  match source with
  | .file src => .ok (sourceRead src pos bufLen pick)
  | .recovered src recovery len => recoveredRead src recovery len pos bufLen pick

/-- The data of an entry while it is read. -/
structure EntryData where
  source : SqzSource
  pos : Nat
  remaining : Nat

/-- `EntryData::read` into a buffer of `bufLen`. -/
def EntryData.read (data : EntryData) (bufLen pick : Nat) : Except IoError (List UInt8 × EntryData) :=
  if data.remaining = 0 ∨ bufLen = 0 then .ok ([], data)
  else do
    let bytes ← data.source.read data.pos (min data.remaining bufLen) pick
    if bytes = [] then .error ⟨.unexpectedEof, "truncated SQZ file data"⟩
    else
      return (bytes, { data with
        pos := data.pos + bytes.length
        remaining := data.remaining - bytes.length })

/-- The reads of a consumer, each with its buffer length and the system's pick, and the bytes they
return together. -/
def EntryData.drain (data : EntryData) : List (Nat × Nat) → Except IoError (List UInt8 × EntryData)
  | [] => .ok ([], data)
  | (bufLen, pick) :: schedule => do
    let (bytes, data) ← data.read bufLen pick
    let (rest, data) ← data.drain schedule
    return (bytes ++ rest, data)

/-- A reader bounded to `len` bytes of the source from `start`. -/
structure BoundedReadSeek where
  source : SqzSource
  start : Nat
  len : Nat
  pos : Nat

def BoundedReadSeek.new (source : SqzSource) (start len : Nat) : BoundedReadSeek := ⟨source, start, len, 0⟩

def BoundedReadSeek.read (r : BoundedReadSeek) (bufLen pick : Nat) :
    Except IoError (List UInt8 × BoundedReadSeek) :=
  if r.len ≤ r.pos ∨ bufLen = 0 then .ok ([], r)
  else
    let want := min (r.len - r.pos) bufLen
    if 2 ^ 64 ≤ r.start + r.pos then .error ⟨.invalidInput, "bounded SQZ payload offset overflow"⟩
    else do
      let bytes ← r.source.read (r.start + r.pos) want pick
      return (bytes, { r with pos := r.pos + bytes.length })

/-! ## Inner formats -/

/-- The readers of the inner formats on a bounded source, and what an opened inner archive shows. -/
structure InnerFormats (R : Type) where
  openZip : BoundedReadSeek → Res R
  openTar : BoundedReadSeek → Res R
  openSevenZ : BoundedReadSeek → Res R
  openZstdTar : BoundedReadSeek → Res R
  entries : R → List (Res EntryMeta)
  readEntry : R → EntryPath → Res (List UInt8)

/-! ## Opening -/

structure EntrySetSqzReader where
  source : SqzSource
  records : List SqzRecord
  recovery : Option RecoveredPayload

inductive SqzArchiveReader (R : Type)
  | entrySet (reader : EntrySetSqzReader)
  | inner (reader : R)

namespace EntrySetSqzReader

/-- The first and the last payload block of a record's data. -/
def recordBlocks (reader : EntrySetSqzReader) (record : SqzRecord) : Option (Nat × Nat) :=
  match reader.recovery with
  | none => none
  | some recovery =>
    if record.dataSize = 0 then none
    else if record.dataOffset < recovery.payloadStart then none
    else
      let start := record.dataOffset - recovery.payloadStart
      let last := start + (record.dataSize - 1)
      if 2 ^ 64 ≤ last then none
      else some (start / recovery.blockSize, last / recovery.blockSize)

def recordHasUnrepairedBlock (reader : EntrySetSqzReader) (record : SqzRecord) : Bool :=
  match reader.recordBlocks record, reader.recovery with
  | some (first, last), some recovery =>
    recovery.unrepairedBlocks.any fun index => first ≤ index && index ≤ last
  | _, _ => false

def entries (reader : EntrySetSqzReader) : List EntryMeta := reader.records.map (·.entryMeta)

/-- `read_entry`: the data handed to the consumer. -/
def readEntry (reader : EntrySetSqzReader) (path : EntryPath) : Res EntryData :=
  let display := path.display
  match reader.records.find? fun record => record.entryMeta.path.raw == path.raw with
  | none => raise (.other s!"entry not found: {display}")
  | some record =>
    if record.entryMeta.entryType ≠ .file then unsupported s!"sqz entry is not a file: {display}"
    else if reader.recordHasUnrepairedBlock record then
      corrupt s!"sqz entry has unrepaired damaged data: {display}"
    else .ok ⟨reader.source, record.dataOffset, record.dataSize⟩

def openInnerProfile {R : Type} (formats : InnerFormats R) (reader : EntrySetSqzReader)
    (innerFormat : String) : Res (SqzArchiveReader R) :=
  if innerFormat = "sqz" ∨ innerFormat = "" then .ok (.entrySet reader)
  else if innerFormat = "zip" ∨ innerFormat = "tar" ∨ innerFormat = "7z" ∨ innerFormat = "zstd" then
    match reader.records.filter fun record => record.entryMeta.entryType == .file with
    | [record] =>
      if reader.recordHasUnrepairedBlock record then
        corrupt s!"sqz inner {innerFormat} payload has unrepaired damaged data"
      else do
        let payload := BoundedReadSeek.new reader.source record.dataOffset record.dataSize
        let inner ← (if innerFormat = "zstd" then formats.openZstdTar payload
          else if innerFormat = "zip" then formats.openZip payload
          else if innerFormat = "tar" then formats.openTar payload
          else formats.openSevenZ payload)
        return .inner inner
    | _ => corrupt s!"sqz {innerFormat} inner profile requires exactly one payload file"
  else unsupported s!"unsupported sqz inner format: {innerFormat}"

end EntrySetSqzReader

/-- Whether a file record lies in the payload, as `open` checks it. -/
def checkRecord (footer : Footer) (recovery : Option RecoveryState) (record : SqzRecord) : Res Unit := do
  let dataEnd ← checkedAdd record.dataOffset record.dataSize "sqz entry offset overflows"
  let insidePayload := match recovery with
    | none => true
    | some state =>
      decide (state.payloadStart ≤ record.dataOffset ∧
        record.dataOffset - state.payloadStart + record.dataSize < 2 ^ 64 ∧
        record.dataOffset - state.payloadStart + record.dataSize ≤ state.payloadLength)
  let path := record.entryMeta.path.display
  if record.entryMeta.entryType = .file ∧ (footer.indexOffset < dataEnd ∨ !insidePayload) then
    corrupt s!"sqz entry points outside payload: {path}"
  else return ()

/-- The footer, read or recovered by the scan, and the recovery state of a scan. -/
def openFooter (P : Primitives) (src : List UInt8) (len : Nat) : Res (Footer × Option RecoveryState) :=
  match readFooter P src len with
  | .ok footer => .ok (footer, none)
  | .error (.raised (.corruptArchive message)) =>
    match recoverFooterFromRecoveryScan P src len with
    | .ok (some (footer, recovery)) => .ok (footer, some recovery)
    | .ok none => corrupt message
    | .error error => if error.isDamage then corrupt message else .error error
  | .error error => .error error

/-- `open` up to the choice of the inner profile: the entry set and the inner format. -/
def openEntrySet (P : Primitives) (src : List UInt8) : Res (EntrySetSqzReader × String) := do
  let len := src.length
  if len < headerLen + footerLen then corrupt "sqz file is too small"
  else
    let (footer, recovered) ← openFooter P src len
    let indexEnd ← checkedAdd footer.indexOffset footer.indexLength "sqz footer index overflows"
    if len - footerLen < indexEnd then corrupt "sqz footer index points outside file"
    else
      let innerFormat ← readDescriptorIfPresent P src footer
      let index ← ofIo (seekReadExact src footer.indexOffset footer.indexLength)
      let recovery ← (match recovered with
        | some recovery => do
          let recovery ← recovery.repair P src
          return some recovery
        | none => RecoveryState.load P src footer)
      let index ← (match recovery with
        | some recovery => recovery.indexBytes P index
        | none => .ok index)
      let records ← parseIndex P index
      records.forM (checkRecord footer recovery)
      let recovery := recovery.map RecoveredPayload.ofState
      let source := match recovery with
        | some recovery =>
          if recovery.repairedBlocks = [] then SqzSource.file src
          else SqzSource.recovered src recovery len
        | none => SqzSource.file src
      return (⟨source, records, recovery⟩, innerFormat)

/-- `SqzArchiveReader::open`. -/
def openArchive {R : Type} (P : Primitives) (formats : InnerFormats R) (src : List UInt8) :
    Res (SqzArchiveReader R) := do
  let (reader, innerFormat) ← openEntrySet P src
  reader.openInnerProfile formats innerFormat

end Squallz.Sqz
