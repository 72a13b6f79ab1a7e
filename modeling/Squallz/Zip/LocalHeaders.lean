/-
The scan of a damaged ZIP for the local headers of its entries: sizes in the header, in a ZIP64 field or in a data
descriptor, which is searched for by its signature, before the next header and at the end.
-/
import Squallz.Api.Checked
import Squallz.Bytes.LittleEndian
import Squallz.Zip.Selection
import Squallz.Zip.Timestamps

namespace Squallz.Zip

open Squallz.Api Squallz.Bytes

def localHeaderSignature : List UInt8 := [0x50, 0x4B, 0x03, 0x04]

def descriptorSignature : List UInt8 := [0x50, 0x4B, 0x07, 0x08]

def u32Max : Nat := 2 ^ 32 - 1

/-! ## Data descriptors -/

structure Descriptor where
  crc : Nat
  compressedSize : Nat
  size : Nat
deriving DecidableEq, Repr

/-- `descriptor_field`: the width is the one of the number that is read. -/
def descriptorField (width : Nat) (fields : List UInt8) (start stop : Nat) (field : String) : Res Nat :=
  if fields.length < stop then
    corrupt s!"truncated ZIP data descriptor {field}: expected bytes {start}..{stop}"
  else
    let bytes := slice fields start (stop - start)
    if bytes.length ≠ width then
      corrupt s!"invalid ZIP data descriptor {field} width: expected {width} bytes, got {bytes.length}"
    else .ok (leNat bytes)

def descriptorU32 : List UInt8 → Nat → Nat → String → Res Nat := descriptorField 4

def descriptorU64 : List UInt8 → Nat → Nat → String → Res Nat := descriptorField 8

def parseDataDescriptorFields (fields : List UInt8) (zip64 : Bool) : Res Descriptor := do
  let crc ← descriptorU32 fields 0 4 "CRC"
  if zip64 then
    let compressedSize ← descriptorU64 fields 4 12 "compressed size"
    let size ← descriptorU64 fields 12 20 "uncompressed size"
    pure ⟨crc, compressedSize, size⟩
  else
    let compressedSize ← descriptorU32 fields 4 8 "compressed size"
    let size ← descriptorU32 fields 8 12 "uncompressed size"
    pure ⟨crc, compressedSize, size⟩

/-- The length of a descriptor without its signature. -/
def descriptorLen (zip64 : Bool) : Nat := if zip64 then 20 else 12

/-- A descriptor, and where the scan goes on behind it. -/
abbrev Found := Descriptor × Nat

def readUnsignedDataDescriptor (file : List UInt8) (dataOffset descriptorOffset nextOffset : Nat) (zip64 : Bool) :
    Res (Option Found) := do
  let fields ← readExactAt file descriptorOffset (if zip64 then 20 else 12)
  let descriptor ← parseDataDescriptorFields fields zip64
  if checkedAddU64 dataOffset descriptor.compressedSize = some descriptorOffset then
    pure (some (descriptor, nextOffset))
  else pure none

/-- The body of the first loop of `find_data_descriptor`. -/
def signedDescriptorAt (file : List UInt8) (dataOffset : Nat) (zip64 : Bool) (offset : Nat) : Res (Option Found) := do
  let signature ← readExactAt file offset 4
  if signature = descriptorSignature then
    let fields ← readExactAt file (offset + 4) (descriptorLen zip64)
    let descriptor ← parseDataDescriptorFields fields zip64
    if checkedAddU64 dataOffset descriptor.compressedSize = some offset then
      pure (some (descriptor, offset + (descriptorLen zip64 + 4)))
    else pure none
  else pure none

/-- The body of the second one. -/
def descriptorBeforeHeader (file : List UInt8) (dataOffset : Nat) (zip64 : Bool) (nextHeader : Nat) :
    Res (Option Found) := do
  let signature ← readExactAt file nextHeader 4
  if signature = localHeaderSignature then
    match checkedSubU64 nextHeader (descriptorLen zip64) with
    | none => pure none
    | some descriptorOffset => readUnsignedDataDescriptor file dataOffset descriptorOffset nextHeader zip64
  else pure none

/-- The positions from `start` on where `width` bytes are left. -/
def positions (file : List UInt8) (start width : Nat) : List Nat := List.range' start (file.length + 1 - (start + width))

/-- Both loops go from one position to the next, up to the last with room for what they look for. -/
def findDataDescriptor (file : List UInt8) (dataOffset : Nat) (zip64 : Bool) : Res (Option Found) := do
  let signed ← (positions file dataOffset (descriptorLen zip64 + 4)).findSomeM? (signedDescriptorAt file dataOffset zip64)
  match signed with
  | some found => pure (some found)
  | none =>
    let before ← (positions file (dataOffset + descriptorLen zip64) 4).findSomeM?
      (descriptorBeforeHeader file dataOffset zip64)
    match before with
    | some found => pure (some found)
    | none =>
      if (checkedAddU64 dataOffset (descriptorLen zip64)).any (· ≤ file.length) then
        readUnsignedDataDescriptor file dataOffset (file.length - descriptorLen zip64) file.length zip64
      else pure none

/-! ## Sizes of ZIP64 -/

def readZip64ExtraU64 (payload : List UInt8) (offset : Nat) : Option (Nat × Nat) :=
  if payload.length < offset + 8 then none else some (leNat (slice payload offset 8), offset + 8)

/-- The sizes in a ZIP64 field: those that the header has are not in it. -/
def zip64FieldSizes (payload : List UInt8) (compressedSize size : Option Nat) : Option (Nat × Nat) := do
  let (size, offset) ← match size with
    | some size => some (size, 0)
    | none => readZip64ExtraU64 payload 0
  let (compressedSize, _) ← match compressedSize with
    | some compressedSize => some (compressedSize, offset)
    | none => readZip64ExtraU64 payload offset
  some (compressedSize, size)

/-- The loop of `resolve_zip64_local_sizes`: every field has four bytes at least. -/
def zip64SizesFrom (compressedSize size : Option Nat) : Nat → List UInt8 → Option (Nat × Nat)
  | 0, _ => none
  | rounds + 1, extra =>
    if extra.length < 4 then none
    else
      let headerId := leNat (slice extra 0 2)
      let dataSize := leNat (slice extra 2 2)
      if extra.length < 4 + dataSize then none
      else if headerId = 0x0001 then zip64FieldSizes (slice extra 4 dataSize) compressedSize size
      else zip64SizesFrom compressedSize size rounds (extra.drop (4 + dataSize))

/-- The size of a header field, absent where the field says that it is elsewhere. -/
def fieldSize (value : Nat) : Option Nat := if value ≠ u32Max then some value else none

def resolveZip64LocalSizes (extra : List UInt8) (compressedSize32 size32 : Nat) : Option (Nat × Nat) :=
  match fieldSize compressedSize32, fieldSize size32 with
  | some compressedSize, some size => some (compressedSize, size)
  | compressedSize, size => zip64SizesFrom compressedSize size extra.length extra

/-! ## The scan -/

structure LocalCandidate where
  rawName : List UInt8
  flags : Nat
  method : Nat
  crc : Nat
  compressedSize : Nat
  size : Nat
  dataOffset : Nat
  modified : Option SystemTime
deriving DecidableEq, Repr

structure LocalZipEntry where
  metadata : EntryMeta
  method : Nat
  flags : Nat
  dataOffset : Nat
deriving DecidableEq, Repr

/-- How a round of the scan ends: with the end of the scan, or with the position of the next round. -/
inductive Round
  | stop
  | skip (next : Nat)
  | found (candidate : LocalCandidate) (next : Nat)
deriving DecidableEq, Repr

section Scan

variable {DosTime : Type} (tryFromMsdos : Nat → Nat → Option DosTime) (fromZipDatetime : DosTime → Option SystemTime)

/-- The CRC, the sizes and the end of an entry whose data begins at `dataOffset`. -/
def localSizes (file extra : List UInt8) (dataOffset flags crc compressedSize size : Nat) : Res (Option Found) :=
  if flags.testBit 3 then findDataDescriptor file dataOffset (compressedSize == u32Max || size == u32Max)
  else
    match resolveZip64LocalSizes extra compressedSize size with
    | none => pure none
    | some (compressedSize, size) =>
      match checkedAddU64 dataOffset compressedSize with
      | none => pure none
      | some nextOffset => if file.length < nextOffset then pure none else pure (some (⟨crc, compressedSize, size⟩, nextOffset))

/-- A round at the signature of a local header. -/
def headerRound (file fixed : List UInt8) (offset : Nat) : Res Round := do
  let flags := leNat (slice fixed 6 2)
  let method := leNat (slice fixed 8 2)
  let dos := tryFromMsdos (leNat (slice fixed 12 2)) (leNat (slice fixed 10 2))
  let crc := leNat (slice fixed 14 4)
  let compressedSize := leNat (slice fixed 18 4)
  let size := leNat (slice fixed 22 4)
  let nameLen := leNat (slice fixed 26 2)
  let extraLen := leNat (slice fixed 28 2)
  match checkedAddU64 offset 30 with
  | none => pure .stop
  | some nameOffset =>
    match checkedAddU64 nameOffset nameLen with
    | none => pure .stop
    | some extraOffset =>
      match checkedAddU64 extraOffset extraLen with
      | none => pure .stop
      | some dataOffset =>
        if nameLen = 0 ∨ file.length < dataOffset then pure (.skip (offset + 1))
        else
          let rawName ← readExactAt file nameOffset nameLen
          let extra ← readExactAt file extraOffset extraLen
          match ← localSizes file extra dataOffset flags crc compressedSize size with
          | none => pure .stop
          | some (sizes, nextOffset) =>
            pure (.found ⟨rawName, flags, method, sizes.crc, sizes.compressedSize, sizes.size, dataOffset,
              localModifiedTime fromZipDatetime dos extra⟩ nextOffset)

/-- The body of the loop of `scan_local_headers`. -/
def scanRound (file : List UInt8) (offset : Nat) : Res Round := do
  let room ← addU64 offset 30
  if file.length < room then pure .stop
  else
    let fixed ← readExactAt file offset 30
    if slice fixed 0 4 ≠ localHeaderSignature then pure (.skip (offset + 1))
    else headerRound tryFromMsdos fromZipDatetime file fixed offset

/-- The loop, given up after some rounds. -/
def scanRounds (file : List UInt8) : Nat → Nat → Option (Res (List LocalCandidate))
  | 0, _ => none
  | rounds + 1, offset =>
    match scanRound tryFromMsdos fromZipDatetime file offset with
    | .error fault => some (.error fault)
    | .ok .stop => some (.ok [])
    | .ok (.skip next) => scanRounds file rounds next
    | .ok (.found candidate next) => (scanRounds file rounds next).map fun later => (candidate :: ·) <$> later

variable {Encoding Glob : Type} (crates : Crates Encoding Glob)

def LocalCandidate.entry (fallback : Option Encoding) (candidate : LocalCandidate) : LocalZipEntry :=
  let path := decodeEntryName crates candidate.rawName fallback
  { metadata :=
      { path := path
        entryType := if path.display.endsWith "/" then .dir else .file
        size := .ofNat candidate.size
        compressedSize := some (.ofNat candidate.compressedSize)
        modified := candidate.modified
        unixMode := none
        crc32 := some (.ofNat candidate.crc)
        encrypted := candidate.flags.testBit 0 }
    method := candidate.method
    flags := candidate.flags
    dataOffset := candidate.dataOffset }

/-- `scan_local_headers` within some rounds of its loop, with the label of the encoding that is asked for. -/
def scanLocalHeaders (encodingOverride : Option String) (file : List UInt8) (rounds : Nat) :
    Option (Res (List LocalZipEntry)) :=
  (scanRounds tryFromMsdos fromZipDatetime file rounds 0).map fun scanned => do
    let candidates ← scanned
    let fallback := resolveFallbackEncoding crates (candidates.map (·.rawName)) encodingOverride
    pure (candidates.map (·.entry crates fallback))

end Scan

end Squallz.Zip
