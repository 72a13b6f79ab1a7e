/-
The splitter: an archive cut into volumes, the headers of SQZ volumes, and the mirror of the tail and the parity files
that are written next to them.
-/
import Squallz.Bytes.Checksum
import Squallz.Bytes.LittleEndian
import Squallz.Erasure.Gf256
import Squallz.Volumes.Layout

namespace Squallz.Volumes

open Squallz.Api Squallz.Bytes Squallz.Destination Squallz.Erasure Squallz.Text

/-! ## Headers -/

def sqzMagic : List UInt8 := [0x53, 0x51, 0x5A, 0x41, 0x52, 0x43, 0x48, 0x1A]

def sqzHeaderLen : Nat := 64

def sqzHeaderFlagSplit : Nat := 8

def sqzvMagic : List UInt8 := [0x53, 0x51, 0x5A, 0x56]

def sqzrMagic : List UInt8 := [0x53, 0x51, 0x5A, 0x52]

def sqzrVersion : Nat := 1

def sqzrAlgoXorSingle : Nat := 1

def sqzrAlgoXorWeighted : Nat := 2

def sqzrAlgoXorQuadratic : Nat := 3

/-- A UUID: its high and its low half. -/
abbrev Uuid := Nat × Nat

/-- The text of a path. -/
def displayPath (path : Path) : String := .ofList (List.intercalate ['/'] (path.map toStringLossy))

/-- An I/O error that `?` raises. -/
def raiseIo {α : Type} (kind : IoErrorKind) (message : String) : Res α := raise (.ofIo ⟨kind, message⟩)

/-- Marks an SQZ archive as split. -/
def prepareSqzForSplit (archive : List UInt8) (path : Path) : Res (List UInt8 × Uuid) :=
  if archive.length < sqzHeaderLen then raiseIo .unexpectedEof "failed to fill whole buffer"
  else
    let header := archive.take sqzHeaderLen
    if header.take 8 ≠ sqzMagic then
      let name := displayPath path
      corrupt s!"cannot write SQZV volumes for non-SQZ archive: {name}"
    else
      let flags := leNat (slice header 12 4) ||| sqzHeaderFlagSplit
      let fields := header.take 12 ++ (leBytes 4 flags ++ slice header 16 36)
      let header := fields ++ (leBytes 4 (crc32c fields).toNat ++ header.drop 56)
      .ok (header ++ archive.drop sqzHeaderLen, (leNat (slice header 16 8), leNat (slice header 24 8)))

def sqzvHeader (index total : Nat) (uuid : Uuid) : Res (List UInt8) :=
  if 2 ^ 32 ≤ index ∨ 2 ^ 32 ≤ total then unsupported "too many SQZ volumes"
  else
    let fields := sqzvMagic ++ (leBytes 4 index ++ (leBytes 4 total ++ (leBytes 8 uuid.1 ++ leBytes 8 uuid.2)))
    .ok (fields ++ leBytes 4 (crc32c fields).toNat)

def sqzrHeader (total : Nat) (uuid : Uuid) (physicalVolumeSize tailPhysicalLen algorithm : Nat) : Res (List UInt8) :=
  if 2 ^ 32 ≤ total then unsupported "too many SQZ volumes"
  else
    let fields := sqzrMagic ++ (leBytes 2 sqzrVersion ++ (leBytes 2 algorithm ++ (leBytes 4 total ++ (leBytes 8 uuid.1 ++
      (leBytes 8 uuid.2 ++ (leBytes 8 physicalVolumeSize ++ (leBytes 8 tailPhysicalLen ++
      leBytes 8 physicalVolumeSize)))))))
    .ok (fields ++ (leBytes 4 (crc32c fields).toNat ++ List.replicate 8 0))

/-! ## Parity -/

def sqzrWeightedCoeff (index : Nat) : Res UInt8 :=
  if index = 0 ∨ 255 < index then unsupported "SQZ split recovery currently supports at most 255 volumes"
  else .ok (UInt8.ofNat index)

def sqzrQuadraticCoeff (index : Nat) : Res UInt8 := do
  let coeff ← sqzrWeightedCoeff index
  return gf256Mul coeff coeff

/-- The bytes of a volume, weighted, are added to a parity file. -/
def addParity (weight : UInt8 → UInt8) (file : List UInt8) (physicalOffset : Nat) (bytes : List UInt8) :
    Res (List UInt8) :=
  if bytes = [] then .ok file
  else
    let start := sqzrHeaderLen + physicalOffset
    if file.length < start + bytes.length then raiseIo .unexpectedEof "failed to fill whole buffer"
    else
      let existing := slice file start bytes.length
      .ok (file.take start ++ (List.zipWith (fun dst src => dst ^^^ weight src) existing bytes ++
        file.drop (start + bytes.length)))

def xorSqzrParity (file : List UInt8) (physicalOffset : Nat) (bytes : List UInt8) : Res (List UInt8) :=
  addParity id file physicalOffset bytes

def weightedSqzrParity (file : List UInt8) (physicalOffset index : Nat) (bytes : List UInt8) : Res (List UInt8) :=
  if bytes = [] then .ok file
  else do
    let coeff ← sqzrWeightedCoeff index
    addParity (gf256Mul coeff) file physicalOffset bytes

def quadraticSqzrParity (file : List UInt8) (physicalOffset index : Nat) (bytes : List UInt8) : Res (List UInt8) :=
  if bytes = [] then .ok file
  else do
    let coeff ← sqzrQuadraticCoeff index
    addParity (gf256Mul coeff) file physicalOffset bytes

/-- The parity files that are written, as far as the layout has them. -/
structure ParityFiles where
  parity : Option (List UInt8)
  weighted : Option (List UInt8)
  quadratic : Option (List UInt8)
deriving DecidableEq

/-- Bytes of a volume enter every parity file. -/
def ParityFiles.add (files : ParityFiles) (index physicalOffset : Nat) (bytes : List UInt8) : Res ParityFiles := do
  let parity ← files.parity.mapM (xorSqzrParity · physicalOffset bytes)
  let weighted ← files.weighted.mapM (weightedSqzrParity · physicalOffset index bytes)
  let quadratic ← files.quadratic.mapM (quadraticSqzrParity · physicalOffset index bytes)
  return ⟨parity, weighted, quadratic⟩

/-! ## Splitting -/

inductive SplitOutputRole
  | volume (index : Nat) (primary : Bool)
  | tailRecovery | parity | weightedParity | quadraticParity
deriving DecidableEq, Repr

structure SplitOutput where
  finalPath : Path
  role : SplitOutputRole
  content : List UInt8
deriving DecidableEq

def normalizedSplitOutputBase (base : Path) : Res Path :=
  match (fileName base).bind toStr with
  | none => unsupported "invalid split output file name"
  | some name =>
    match splitVolumeName name with
    | some (baseName, _) => .ok (withFileName base (osStr baseName))
    | none => .ok base

/-- What a volume holds of the archive. -/
def volumeData (layout : SplitLayout) (archive : List UInt8) (index : Nat) : List UInt8 :=
  slice archive ((index - 1) * layout.logicalVolumeSize)
    (min layout.logicalVolumeSize (archive.length - (index - 1) * layout.logicalVolumeSize))

/-- A volume: its header in an SQZ set, and its part of the archive. -/
def volumeContent (layout : SplitLayout) (uuid : Option Uuid) (archive : List UInt8) (index : Nat) : Res (List UInt8) :=
  if layout.writeSqzv then
    match uuid with
    | none => corrupt "SQZ UUID missing while writing SQZV volume header"
    | some uuid => do
      let header ← sqzvHeader index layout.count uuid
      return header ++ volumeData layout archive index
  else .ok (volumeData layout archive index)

/-- One round of the loop over the volumes: the volume and the parity files with it. Its header and its data enter them
one behind the other, in whatever pieces the data is read. -/
def writeVolume (layout : SplitLayout) (uuid : Option Uuid) (archive : List UInt8) (files : ParityFiles) (index : Nat) :
    Res (List UInt8 × ParityFiles) := do
  let content ← volumeContent layout uuid archive index
  let headerLen := if layout.writeSqzv then sqzvHeaderLen else 0
  let files ← if layout.writeSqzv then files.add index 0 (content.take headerLen) else pure files
  let files ← files.add index headerLen (content.drop headerLen)
  return (content, files)

/-- The rounds of the loop over the volumes from `index` on. -/
def writeVolumes (layout : SplitLayout) (uuid : Option Uuid) (archive : List UInt8) (files : ParityFiles) (index : Nat) :
    Nat → Res (List (List UInt8) × ParityFiles)
  | 0 => .ok ([], files)
  | rounds + 1 => do
    let (content, files) ← writeVolume layout uuid archive files index
    let (contents, files) ← writeVolumes layout uuid archive files (index + 1) rounds
    return (content :: contents, files)

/-- A parity file before the first volume is added to it. -/
def emptyParity (volumeSize : Nat) : List UInt8 := List.replicate (sqzrHeaderLen + volumeSize) 0

/-- A parity file with its header in place. -/
def finishParity (layout : SplitLayout) (uuid : Option Uuid) (volumeSize tailPhysicalLen algorithm : Nat) (target : String)
    (file : List UInt8) : Res (List UInt8) :=
  match uuid with
  | none => corrupt s!"SQZ UUID missing while writing {target}"
  | some uuid => do
    let header ← sqzrHeader layout.count uuid volumeSize tailPhysicalLen algorithm
    return header ++ file.drop sqzrHeaderLen

def volumeOutputs (base : Path) (contents : List (List UInt8)) : List SplitOutput :=
  contents.mapIdx fun i content => ⟨volumePath base (i + 1), .volume i (i = 0), content⟩

/-- The outputs that the splitter has written before it commits them, the volumes first. The source is the archive that
was staged, and `available` the free space next to the base. -/
def splitIntoVolumes (tmp base : Path) (volumeSize : Nat) (archive : List UInt8) (available : Nat) :
    Res (List SplitOutput) := do
  let base ← normalizedSplitOutputBase base
  let layout ← splitLayout base archive.length volumeSize
  let budget ← splitOutputBudget base archive.length volumeSize
  let (archive, uuid) ← if layout.writeSqzv then do
      let (archive, uuid) ← prepareSqzForSplit archive tmp
      pure (archive, some uuid)
    else pure (archive, none)
  if available < budget.additionalSpaceBytes then raise .diskFull
  else
    let reserve (written : Bool) := if written then some (emptyParity volumeSize) else none
    let (contents, files) ← writeVolumes layout uuid archive
      ⟨reserve (layout.writeSqzv && 1 < layout.count), reserve layout.writeWeightedParity,
        reserve layout.writeQuadraticParity⟩ 1 layout.count
    let tail := contents.getLastD []
    let parity ← files.parity.mapM
      (finishParity layout uuid volumeSize tail.length sqzrAlgoXorSingle "SQZR single parity header")
    let weighted ← files.weighted.mapM
      (finishParity layout uuid volumeSize tail.length sqzrAlgoXorWeighted "SQZR weighted parity header")
    let quadratic ← files.quadratic.mapM
      (finishParity layout uuid volumeSize tail.length sqzrAlgoXorQuadratic "SQZR quadratic parity header")
    return volumeOutputs base contents ++
      ((if layout.writeSqzv ∧ 1 < layout.count then [⟨recoveryVolumePath base layout.count, .tailRecovery, tail⟩] else []) ++
      ((parity.map fun file => ⟨recoveryParityVolumePath base, .parity, file⟩).toList ++
      ((weighted.map fun file => ⟨recoveryWeightedParityVolumePath base, .weightedParity, file⟩).toList ++
      (quadratic.map fun file => ⟨recoveryQuadraticParityVolumePath base, .quadraticParity, file⟩).toList)))

/-- The bytes of the outputs, as the splitter adds them up. -/
def totalOutputBytes (outputs : List SplitOutput) : Nat :=
  outputs.foldl (fun total output => saturatingAdd total output.content.length) 0

end Squallz.Volumes
