/-
The inspection of the headers of a RAR volume: variable-length integers, the blocks of the two formats, and the loops that
go from block to block up to the main header and the end.
-/
import Squallz.Api.Checked
import Squallz.Bytes.Checksum
import Squallz.Bytes.LittleEndian

namespace Squallz.Rar

open Squallz.Api Squallz.Bytes

/-- `Rar!`, 0x1A, 0x07, 0x00. -/
def rar4Magic : List UInt8 := [0x52, 0x61, 0x72, 0x21, 0x1A, 0x07, 0x00]

def rar5Magic : List UInt8 := [0x52, 0x61, 0x72, 0x21, 0x1A, 0x07, 0x01, 0x00]

def maxRar5HeaderSize : Nat := 2 * 1024 * 1024

def rar5MainHeader : Nat := 1

def rar5EncryptionHeader : Nat := 4

def rar5EndHeader : Nat := 5

def rar4MainHeader : Nat := 0x73

def rar4FileHeader : Nat := 0x74

def rar4ServiceHeader : Nat := 0x7a

def rar4EndHeader : Nat := 0x7b

inductive RarVersion
  | rar4 | rar5
deriving DecidableEq, Repr

structure RarVolumeMetadata where
  version : RarVersion
  isVolume : Bool
  index : Option Nat
  hasNext : Option Bool
  headersEncrypted : Bool
  firstVolume : Option Bool
deriving DecidableEq, Repr

/-! ## Reads -/

/-- `read_archive_exact` at a position: the bytes, and the position behind them. -/
def readArchiveExact (data : List UInt8) (position n : Nat) (field : String) : Res (List UInt8 × Nat) :=
  if n ≠ 0 ∧ data.length < position + n then corrupt s!"{field} is truncated"
  else .ok (slice data position n, position + n)

/-- The loop of `read_vint_bytes`, with the number of bytes that may still come. -/
def readVintFrom (data : List UInt8) : Nat → Nat → Nat → Nat → List UInt8 → Res ((Nat × List UInt8) × Nat)
  | 0, _, _, _, _ => corrupt "RAR variable integer is too long"
  | left + 1, position, shiftIndex, value, bytes => do
    let (read, position) ← readArchiveExact data position 1 "RAR variable integer"
    let byte := read.headD 0
    let bytes := bytes ++ [byte]
    let shift := shiftIndex * 7
    let payload := (byte &&& 0x7f).toNat
    if (64 ≤ shift ∧ payload ≠ 0) ∨ (shift < 64 ∧ (2 ^ 64 - 1) >>> shift < payload) then
      corrupt "RAR variable integer overflows"
    else
      let value := if shift < 64 then value ||| (payload <<< shift) % 2 ^ 64 else value
      if byte &&& 0x80 = 0 then pure ((value, bytes), position)
      else readVintFrom data left position (shiftIndex + 1) value bytes

def readVintBytes (data : List UInt8) (maxBytes position : Nat) : Res ((Nat × List UInt8) × Nat) :=
  readVintFrom data maxBytes position 0 0 []

/-- `read_vint`, with the position behind the number. -/
def readVint (data : List UInt8) (maxBytes position : Nat) : Res (Nat × Nat) :=
  (fun result => (result.1.1, result.2)) <$> readVintBytes data maxBytes position

/-! ## RAR 5 -/

structure Rar5Block where
  headerType : Nat
  specificFields : List UInt8
  dataSize : Nat
deriving DecidableEq, Repr

def rar5ExtraSize (header : List UInt8) (headerFlags position : Nat) : Res (Nat × Nat) :=
  if headerFlags.testBit 0 then do
    let (extraSize, position) ← readVint header 10 position
    if header.length < extraSize then corrupt "RAR5 extra area size is invalid" else pure (extraSize, position)
  else pure (0, position)

def rar5DataSize (header : List UInt8) (headerFlags position : Nat) : Res (Nat × Nat) :=
  if headerFlags.testBit 1 then readVint header 10 position else pure (0, position)

/-- The fields of a header whose checksum is right. -/
def rar5Fields (header : List UInt8) : Res Rar5Block := do
  let (headerType, position) ← readVint header 10 0
  let (headerFlags, position) ← readVint header 10 position
  let (extraSize, position) ← rar5ExtraSize header headerFlags position
  let (dataSize, offset) ← rar5DataSize header headerFlags position
  match (checkedSubU64 header.length extraSize).filter (offset ≤ ·) with
  | none => corrupt "RAR5 extra area is truncated"
  | some specificEnd => pure ⟨headerType, slice header offset (specificEnd - offset), dataSize⟩

/-- `read_rar5_block`, with the position behind the header. -/
def readRar5Block (file : List UInt8) (position : Nat) : Res (Rar5Block × Nat) := do
  let (expectedCrc, position) ← readArchiveExact file position 4 "RAR5 header CRC"
  let ((headerSize, sizeBytes), position) ← readVintBytes file 3 position
  if headerSize = 0 ∨ maxRar5HeaderSize < headerSize then corrupt "RAR5 header size is invalid"
  else
    match checkedAddU64 position headerSize with
    | none => corrupt "RAR5 header offset overflows"
    | some headerEnd =>
      if file.length < headerEnd then corrupt "RAR5 header is truncated"
      else
        let (header, position) ← readArchiveExact file position headerSize "RAR5 header"
        if (crc32 (sizeBytes ++ header)).toNat ≠ leNat expectedCrc then corrupt "RAR5 header checksum does not match"
        else
          let block ← rar5Fields header
          pure (block, position)

/-- What the main header says: whether the file is a volume, and its number. -/
abbrev Rar5Main := Bool × Option Nat

def rar5Index (specificFields : List UInt8) (isVolume hasNumber : Bool) (position : Nat) : Res (Option Nat) :=
  if hasNumber then (fun result => some result.1) <$> readVint specificFields 10 position
  else if isVolume then pure (some 0)
  else pure none

def rar5Main (specificFields : List UInt8) : Res Rar5Main := do
  let (archiveFlags, position) ← readVint specificFields 10 0
  let isVolume := archiveFlags.testBit 0
  let hasNumber := archiveFlags.testBit 1
  let index ← rar5Index specificFields isVolume hasNumber position
  if !isVolume && hasNumber then corrupt "RAR main header carries a volume number without a volume flag"
  else pure (isVolume, index)

def rar5End (main : Option Rar5Main) (specificFields : List UInt8) : Res RarVolumeMetadata :=
  match main with
  | none => corrupt "RAR archive has no main header"
  | some (isVolume, index) => do
    let (endFlags, _) ← readVint specificFields 10 0
    pure ⟨.rar5, isVolume, index, some (endFlags.testBit 0), false, none⟩

/-- How a round of an inspection ends: with its result, or before the next block. -/
inductive Round (main : Type)
  | done (metadata : RarVolumeMetadata)
  | next (main : Option main) (position : Nat)

/-- The position of the next block. -/
def nextBlock {main : Type} (file : List UInt8) (format : String) (found : Option main) (position dataSize : Nat) :
    Res (Round main) :=
  match checkedAddU64 position dataSize with
  | none => corrupt s!"{format} data offset overflows"
  | some next =>
    if file.length < next then corrupt s!"{format} data block is truncated" else pure (.next found next)

/-- The body of the loop of `inspect_rar5`. -/
def rar5Round (file : List UInt8) (main : Option Rar5Main) (position : Nat) : Res (Round Rar5Main) := do
  let (block, position) ← readRar5Block file position
  if block.headerType = rar5EncryptionHeader ∧ main.isNone then raise .passwordRequired
  else if block.headerType = rar5MainHeader ∧ main.isNone then do
    let found ← rar5Main block.specificFields
    nextBlock file "RAR" (some found) position block.dataSize
  else if block.headerType = rar5EndHeader then do
    let metadata ← rar5End main block.specificFields
    pure (.done metadata)
  else nextBlock file "RAR" main position block.dataSize

/-- A loop from block to block, given up after some rounds. -/
def rounds {main : Type} (file : List UInt8) (round : Option main → Nat → Res (Round main))
    (atEnd : Option main → Res RarVolumeMetadata) : Nat → Option main → Nat → Option (Res RarVolumeMetadata)
  | 0, _, _ => none
  | left + 1, found, position =>
    if position < file.length then
      match round found position with
      | .error fault => some (.error fault)
      | .ok (.done metadata) => some (.ok metadata)
      | .ok (.next found position) => rounds file round atEnd left found position
    else some (atEnd found)

def inspectRar5 (file : List UInt8) (left : Nat) : Option (Res RarVolumeMetadata) :=
  rounds file (rar5Round file) (fun _ => corrupt "RAR archive has no end header") left none rar5Magic.length

/-! ## RAR 4 -/

/-- Two lower-case hexadecimal digits. -/
def hexByte (n : Nat) : String := String.ofList [Nat.digitChar (n / 16), Nat.digitChar (n % 16)]

def validateRar4HeaderFields (headerType flags : Nat) (remaining : List UInt8) : Res Unit :=
  let minimum :=
    if headerType = rar4MainHeader then 6
    else if headerType = rar4FileHeader ∨ headerType = rar4ServiceHeader then
      if flags.testBit 8 then 33 else 25
    else if flags.testBit 15 then 4
    else 0
  if remaining.length < minimum then corrupt s!"RAR4 header type 0x{hexByte headerType} is too short" else pure ()

def rar4DataSize (headerType flags : Nat) (remaining : List UInt8) : Res Nat :=
  if !flags.testBit 15 then pure 0
  else if remaining.length < 4 then corrupt "RAR4 long block is truncated"
  else
    let low := leNat (slice remaining 0 4)
    if !(headerType = rar4FileHeader ∨ headerType = rar4ServiceHeader) ∨ !flags.testBit 8 then pure low
    else if remaining.length < 25 + 4 then corrupt "RAR4 large file or service header is truncated"
    else
      let high := leNat (slice remaining 25 4)
      pure (low ||| high <<< 32)

structure Rar4Block where
  headerType : Nat
  flags : Nat
  dataSize : Nat
deriving DecidableEq, Repr

/-- The header of a block, with the position behind it. -/
def readRar4Block (file : List UInt8) (position : Nat) : Res (Rar4Block × Nat) := do
  let (common, position) ← readArchiveExact file position 7 "RAR4 header"
  let expectedCrc := leNat (slice common 0 2)
  let headerType := leNat (slice common 2 1)
  let flags := leNat (slice common 3 2)
  let headerSize := leNat (slice common 5 2)
  if headerSize < 7 then corrupt "RAR4 header size is invalid"
  else
    let remainingLen ← subU64 headerSize 7
    let (remaining, position) ← readArchiveExact file position remainingLen "RAR4 header"
    let _capacity ← subU64 headerSize 2
    if (crc32 (common.drop 2 ++ remaining)).toNat % 2 ^ 16 ≠ expectedCrc then
      corrupt "RAR4 header checksum does not match"
    else do
      validateRar4HeaderFields headerType flags remaining
      let dataSize ← rar4DataSize headerType flags remaining
      pure (⟨headerType, flags, dataSize⟩, position)

/-- What a main header says. -/
def rar4Main (flags : Nat) : RarVolumeMetadata :=
  let headersEncrypted := flags.testBit 7
  ⟨.rar4, flags.testBit 0, none, none, headersEncrypted, if headersEncrypted then some (flags.testBit 8) else none⟩

def noMainHeader : Res RarVolumeMetadata := corrupt "RAR archive has no main header"

/-- The body of the loop of `inspect_rar4`. -/
def rar4Round (file : List UInt8) (main : Option RarVolumeMetadata) (position : Nat) :
    Res (Round RarVolumeMetadata) := do
  let (block, position) ← readRar4Block file position
  if block.headerType = rar4MainHeader ∧ main.isNone then
    if (rar4Main block.flags).headersEncrypted then pure (.done (rar4Main block.flags))
    else nextBlock file "RAR4" (some (rar4Main block.flags)) position block.dataSize
  else if block.headerType = rar4EndHeader then
    match main with
    | none => corrupt "RAR archive has no main header"
    | some metadata => pure (.done { metadata with hasNext := some (block.flags.testBit 0) })
  else nextBlock file "RAR4" main position block.dataSize

def inspectRar4 (file : List UInt8) (left : Nat) : Option (Res RarVolumeMetadata) :=
  rounds file (rar4Round file) (fun main => (main.map .ok).getD noMainHeader) left none rar4Magic.length

/-! ## Both formats -/

/-- A stream and its position. -/
structure Source where
  file : List UInt8
  position : Nat
deriving DecidableEq

/-- `inspect_rar` within some rounds of its loops: wherever the inspection has come to, the position is set back. -/
def inspectRar (src : Source) (left : Nat) : Option (Res RarVolumeMetadata × Source) :=
  let original := src.position
  let result :=
    if src.file.length < 8 then some (corrupt "RAR header is truncated")
    else if slice src.file 0 8 = rar5Magic then inspectRar5 src.file left
    else if (slice src.file 0 8).take rar4Magic.length = rar4Magic then inspectRar4 src.file left
    else some (corrupt "RAR signature is invalid")
  result.map fun metadata => (metadata, { src with position := original })

end Squallz.Rar
