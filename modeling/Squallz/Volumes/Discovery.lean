/-
The volumes of an archive are found in a directory, and the volumes of an SQZ set that are missing there are given a part
all the same: the mirror of the tail, a reconstruction, or zeros.
-/
import Squallz.Volumes.Splitter

namespace Squallz.Volumes

open Squallz.Api Squallz.Bytes Squallz.Destination

/-! ## The directory -/

/-- What stands behind a path: a file, or something whose length can be asked but that is not a file. -/
inductive Node
  | file (content : List UInt8)
  | other (len : Nat)
deriving DecidableEq

/-- What stands behind the paths of a file system. -/
abbrev Nodes := Path → Option Node

namespace Nodes

def isFile (nodes : Nodes) (path : Path) : Bool :=
  match nodes path with
  | some (.file _) => true
  | _ => false

/-- `fs::metadata` of a path, for the length. -/
def metadataLen (nodes : Nodes) (path : Path) : Res Nat :=
  match nodes path with
  | some (.file content) => .ok content.length
  | some (.other len) => .ok len
  | none => raiseIo .notFound "No such file or directory"

/-- A file that is opened to be read. -/
def openFile (nodes : Nodes) (path : Path) : Res (List UInt8) :=
  match nodes path with
  | some (.file content) => .ok content
  | some (.other _) => raiseIo .other "Is a directory"
  | none => raiseIo .notFound "No such file or directory"

end Nodes

/-- A file system: what `read_dir` lists, in its order and with the entries it fails at, and what stands behind the
paths. -/
structure Disk where
  readDir : Path → Option (List (Option (List UInt8)))
  nodes : Nodes

def missingVolumePrefix : String := "missing volume: "

def missingVolume {α : Type} (path : Path) : Res α := corrupt (missingVolumePrefix ++ displayPath path)

/-! ## Headers -/

structure SqzvHeader where
  index : Nat
  total : Nat
  uuid : Uuid
deriving DecidableEq

def parseSqzvHeader (header : List UInt8) : Res (Option SqzvHeader) :=
  if header.take 4 ≠ sqzvMagic then .ok none
  else if leNat (slice header 28 4) ≠ (crc32c (header.take 28)).toNat then corrupt "SQZV volume header CRC-32C mismatch"
  else
    .ok (some {
      index := leNat (slice header 4 4)
      total := leNat (slice header 8 4)
      uuid := (leNat (slice header 12 8), leNat (slice header 20 8)) })

def readSqzvHeader (file : List UInt8) : Res (Option SqzvHeader) :=
  if file.length < sqzvHeaderLen then .ok none else parseSqzvHeader (file.take sqzvHeaderLen)

def validateSqzvHeader (header : SqzvHeader) (expectedIndex expectedTotal : Nat) : Res Unit :=
  if header.index ≠ expectedIndex ∨ header.total ≠ expectedTotal then
    corrupt s!"SQZV volume header mismatch: index {header.index} of {header.total}, expected {expectedIndex} of {expectedTotal}"
  else .ok ()

structure SqzrHeader where
  total : Nat
  uuid : Uuid
  physicalVolumeSize : Nat
  tailPhysicalLen : Nat
  parityLen : Nat
deriving DecidableEq

def SqzrHeader.physicalLenFor (header : SqzrHeader) (index total : Nat) : Res Nat :=
  let len := if index = total then header.tailPhysicalLen else header.physicalVolumeSize
  if len < sqzvHeaderLen ∨ header.parityLen < len then corrupt s!"invalid SQZ recovery volume length for index {index}"
  else .ok len

def readSqzrHeader (nodes : Nodes) (base : Path) (recoveryIndex expectedAlgorithm expectedTotal : Nat) (expectedUuid : Uuid) :
    Res (Option SqzrHeader) :=
  let path := recoveryVolumePath base recoveryIndex
  match nodes path with
  | some (.file file) =>
    if file.length < sqzrHeaderLen then raiseIo .unexpectedEof "failed to fill whole buffer"
    else
      let header := file.take sqzrHeaderLen
      if header.take 4 ≠ sqzrMagic then .ok none
      else if leNat (slice header 52 4) ≠ (crc32c (header.take 52)).toNat then
        corrupt "SQZ recovery volume header CRC-32C mismatch"
      else if leNat (slice header 4 2) ≠ sqzrVersion ∨ leNat (slice header 6 2) ≠ expectedAlgorithm then
        unsupported "unsupported SQZ recovery volume version or algorithm"
      else
        let parsed : SqzrHeader := {
          total := leNat (slice header 8 4)
          uuid := (leNat (slice header 12 8), leNat (slice header 20 8))
          physicalVolumeSize := leNat (slice header 28 8)
          tailPhysicalLen := leNat (slice header 36 8)
          parityLen := leNat (slice header 44 8) }
        if parsed.total ≠ expectedTotal ∨ parsed.uuid ≠ expectedUuid then corrupt "SQZ recovery volume identity mismatch"
        else if file.length ≠ sqzrHeaderLen + parsed.parityLen then
          let name := displayPath path
          corrupt s!"truncated SQZ recovery volume: {name}"
        else .ok (some parsed)
  | _ => .ok none

/-! ## Parts -/

inductive ReconstructedSource
  | singleXor (recoveryPath : Path)
  | dualWeighted (xorPath weightedPath : Path) (targetCoeff otherCoeff : UInt8)
  | tripleWeighted (xorPath weightedPath quadraticPath : Path) (targetCoeff : UInt8) (otherCoeffs : UInt8 × UInt8)
deriving DecidableEq

structure PeerVolume where
  index : Nat
  path : Path
  physicalLen : Nat
deriving DecidableEq

inductive VolumePartSource
  | file
  | missingZero
  | reconstructed (source : ReconstructedSource) (peers : List PeerVolume)
deriving DecidableEq

structure VolumePart where
  path : Path
  dataOffset : Nat
  logicalLen : Nat
  source : VolumePartSource
deriving DecidableEq

/-- A volume set: its parts, in order. -/
abbrev VolumeSet := List VolumePart

def sqzvRecoveryVolumePart (nodes : Nodes) (base : Path) (index total : Nat) (uuid : Uuid) : Res (Option VolumePart) :=
  let path := recoveryVolumePath base index
  match nodes path with
  | some (.file file) => do
    match ← readSqzvHeader file with
    | none =>
      let name := displayPath path
      corrupt s!"missing SQZV recovery volume header: {name}"
    | some header =>
      validateSqzvHeader header index total
      if header.uuid ≠ uuid then corrupt "SQZV recovery volume UUID mismatch"
      else if file.length < sqzvHeaderLen then
        let name := displayPath path
        corrupt s!"truncated SQZV recovery volume: {name}"
      else return some ⟨path, sqzvHeaderLen, file.length - sqzvHeaderLen, .file⟩
  | _ => .ok none

/-! ## Reconstruction -/

/-- A volume that a reconstruction reads beside the parity files. -/
def reconstructionPeer (nodes : Nodes) (base : Path) (total : Nat) (tailMirror : Option VolumePart) (peerIndex : Nat) :
    Res PeerVolume :=
  let path := volumePath base peerIndex
  match nodes path with
  | some (.file file) => .ok ⟨peerIndex, path, file.length⟩
  | _ =>
    match if peerIndex = total then tailMirror else none with
    | some part => .ok ⟨peerIndex, part.path, part.logicalLen + part.dataOffset⟩
    | none =>
      let name := displayPath path
      corrupt s!"SQZ recovery volume missing peer {name}"

/-- The loop over the indexes that are not missing. -/
def reconstructionPeers (nodes : Nodes) (base : Path) (total : Nat) (missing : List Nat) (tailMirror : Option VolumePart) :
    List Nat → Res (List PeerVolume)
  | [] => .ok []
  | peerIndex :: indexes =>
    if peerIndex ∈ missing then reconstructionPeers nodes base total missing tailMirror indexes
    else do
      let peer ← reconstructionPeer nodes base total tailMirror peerIndex
      let peers ← reconstructionPeers nodes base total missing tailMirror indexes
      return peer :: peers

/-- How the parity files give back a volume. -/
def reconstructionSource (base : Path) (index total : Nat) (missing : List Nat) (physicalLen : Nat)
    (dualParity tripleParity : Option SqzrHeader) : Res (Option ReconstructedSource) :=
  match missing.length with
  | 1 => .ok (some (.singleXor (recoveryParityVolumePath base)))
  | 2 =>
    match dualParity with
    | none => .ok none
    | some dualParity =>
      match missing.find? (· ≠ index) with
      | none => corrupt "missing SQZ recovery peer index"
      | some other => do
        let targetCoeff ← sqzrWeightedCoeff index
        let otherCoeff ← sqzrWeightedCoeff other
        if (← dualParity.physicalLenFor index total) ≠ physicalLen then corrupt "SQZ recovery volume length mismatch"
        else return some (.dualWeighted (recoveryParityVolumePath base) (recoveryWeightedParityVolumePath base) targetCoeff
          otherCoeff)
  | 3 =>
    match dualParity, tripleParity with
    | some dualParity, some tripleParity =>
      match missing.filter (· ≠ index) with
      | [first, second] => do
        let targetCoeff ← sqzrWeightedCoeff index
        let firstCoeff ← sqzrWeightedCoeff first
        let secondCoeff ← sqzrWeightedCoeff second
        -- The second parity file is asked first, and an error of the third is not seen when they differ.
        if (← dualParity.physicalLenFor index total) ≠ physicalLen then corrupt "SQZ recovery volume length mismatch"
        else if (← tripleParity.physicalLenFor index total) ≠ physicalLen then
          corrupt "SQZ recovery volume length mismatch"
        else return some (.tripleWeighted (recoveryParityVolumePath base) (recoveryWeightedParityVolumePath base)
          (recoveryQuadraticParityVolumePath base) targetCoeff (firstCoeff, secondCoeff))
      | _ => corrupt "missing SQZ recovery peer indices"
    | _, _ => .ok none
  | _ => .ok none

def reconstructSqzvPart (nodes : Nodes) (base : Path) (index total : Nat) (missing : List Nat)
    (singleParity dualParity tripleParity : Option SqzrHeader) (tailMirror : Option VolumePart) : Res (Option VolumePart) :=
  if index ∉ missing then .ok none
  else
    match singleParity with
    | none => .ok none
    | some singleParity => do
      let physicalLen ← singleParity.physicalLenFor index total
      match ← reconstructionSource base index total missing physicalLen dualParity tripleParity with
      | none => return none
      | some source =>
        let peers ← reconstructionPeers nodes base total missing tailMirror (List.range' 1 total)
        return some ⟨volumePath base index, sqzvHeaderLen, physicalLen - sqzvHeaderLen, .reconstructed source peers⟩

/-! ## SQZ sets -/

/-- The headers that were found, with what they say about the set. -/
structure HeaderScan where
  headers : List (Nat × SqzvHeader)
  total : Option Nat
  uuid : Option Uuid

def HeaderScan.has (scan : HeaderScan) (index : Nat) : Bool := (scan.headers.lookup index).isSome

/-- The loop over the volumes that are present. -/
def scanHeaders (nodes : Nodes) (scan : HeaderScan) : List (Nat × Path) → Res HeaderScan
  | [] => .ok scan
  | (index, path) :: present => do
    let file ← nodes.openFile path
    match ← readSqzvHeader file with
    | none => scanHeaders nodes scan present
    | some header =>
      if header.index ≠ index then
        let name := displayPath path
        corrupt s!"SQZV volume header mismatch: index {header.index} in {name}"
      else if scan.total.any (· ≠ header.total) then corrupt "SQZV volume total mismatch"
      else if scan.uuid.any (· ≠ header.uuid) then corrupt "SQZV volume UUID mismatch"
      else
        scanHeaders nodes
          ⟨(index, header) :: scan.headers, some (scan.total.getD header.total), some (scan.uuid.getD header.uuid)⟩ present

/-- The longest volume before the tail that is present. -/
def fullLogicalLen (nodes : Nodes) (total : Nat) (present : List (Nat × Path)) : Option Nat :=
  present.foldl (fun longest (index, path) =>
    if total ≤ index then longest
    else
      match nodes.metadataLen path with
      | .ok len =>
        if len < sqzvHeaderLen then longest
        else some (longest.elim (len - sqzvHeaderLen) (max · (len - sqzvHeaderLen)))
      | .error _ => longest) none

/-- What is known about a set before its parts are put together. -/
structure SqzvSet where
  total : Nat
  headers : HeaderScan
  tailMirror : Option VolumePart
  reconstructableMissing : List Nat
  singleParity : Option SqzrHeader
  dualParity : Option SqzrHeader
  tripleParity : Option SqzrHeader
  fullLogicalLen : Option Nat

/-- One round of the loop over the indexes of the set. -/
def sqzvPart (nodes : Nodes) (base : Path) (set : SqzvSet) (index : Nat) : Res VolumePart :=
  let path := volumePath base index
  match set.headers.headers.lookup index with
  | some header => do
    validateSqzvHeader header index set.total
    let physicalLen ← nodes.metadataLen path
    if physicalLen < sqzvHeaderLen then
      let name := displayPath path
      corrupt s!"truncated SQZV volume: {name}"
    else return ⟨path, sqzvHeaderLen, physicalLen - sqzvHeaderLen, .file⟩
  | none =>
    match if index = set.total then set.tailMirror else none with
    | some part => .ok part
    | none => do
      match ← reconstructSqzvPart nodes base index set.total set.reconstructableMissing set.singleParity set.dualParity
          set.tripleParity set.tailMirror with
      | some reconstructed => return reconstructed
      | none =>
        if index = set.total then
          let name := displayPath path
          corrupt s!"missing SQZV tail volume: {name}"
        else
          match set.fullLogicalLen with
          | none => corrupt "cannot infer missing SQZV volume size from only the tail volume"
          | some len => return ⟨path, sqzvHeaderLen, len, .missingZero⟩

/-- The sidecars of a set, as far as missing volumes need them. -/
def sqzvSet (nodes : Nodes) (base : Path) (present : List (Nat × Path)) (scan : HeaderScan) (total : Nat) (uuid : Uuid) :
    Res SqzvSet := do
  let rawMissing := (List.range' 1 total).filter fun index => ¬ scan.has index
  let tailMirror ← (if total ∈ rawMissing then sqzvRecoveryVolumePart nodes base total total uuid else .ok none :
    Res (Option VolumePart))
  let reconstructable := rawMissing.filter fun index => ¬ (index = total ∧ tailMirror.isSome)
  let singleParity ← (if reconstructable ≠ [] then readSqzrHeader nodes base 1 sqzrAlgoXorSingle total uuid else .ok none :
    Res (Option SqzrHeader))
  let dualParity ← (if 2 ≤ reconstructable.length ∧ reconstructable.length ≤ 3 ∧ total ≤ 255 then
      readSqzrHeader nodes base 2 sqzrAlgoXorWeighted total uuid
    else .ok none : Res (Option SqzrHeader))
  let tripleParity ← (if reconstructable.length = 3 ∧ total ≤ 255 then
      readSqzrHeader nodes base 3 sqzrAlgoXorQuadratic total uuid
    else .ok none : Res (Option SqzrHeader))
  return ⟨total, scan, tailMirror, reconstructable, singleParity, dualParity, tripleParity, fullLogicalLen nodes total present⟩

def collectSqzvVolumeSet (nodes : Nodes) (base : Path) (present : List (Nat × Path)) : Res (Option VolumeSet) := do
  let scan ← scanHeaders nodes ⟨[], none, none⟩ present
  match scan.total with
  | none => return none
  | some total =>
    match scan.uuid with
    | none => corrupt "SQZV volume UUID missing"
    | some uuid =>
      if total = 0 then corrupt "SQZV volume count must be greater than zero"
      else if maxSplitVolumeCount < total then
        raise (.resourceLimitExceeded s!"SQZV volume count {total} exceeds the {maxSplitVolumeCount}-volume limit")
      else if scan.headers.any (fun (index, _) => total < index) then
        corrupt "SQZV volume index exceeds the declared volume count"
      else
        let set ← sqzvSet nodes base present scan total uuid
        let parts ← (List.range' 1 total).mapM (sqzvPart nodes base set)
        return some parts

/-! ## Sets of any format -/

/-- The volumes that are present, by their index: a later name takes the place of an earlier one of the same index. -/
abbrev Present := Std.TreeMap Nat Path

/-- One entry of the directory. -/
def insertEntry (dir : Path) (baseName : List Char) (present : Present) (entry : Option (List UInt8)) : Present :=
  match entry with
  | none => present
  | some name =>
    match (toStr name).bind splitVolumeName with
    | none => present
    | some (volumeBase, index) => if volumeBase = baseName then present.insert index (dir ++ [name]) else present

def presentVolumes (disk : Disk) (base : Path) : Present :=
  ((disk.readDir (parent base)).getD []).foldl (insertEntry (parent base) (filenameOrEmpty base)) ∅

/-- The loop over the volumes that are present: their parts, and the index after them. -/
def plainParts (nodes : Nodes) (base : Path) (expectedIndex : Nat) : List (Nat × Path) → Res (VolumeSet × Nat)
  | [] => .ok ([], expectedIndex)
  | (index, part) :: present =>
    if index ≠ expectedIndex then missingVolume (volumePath base expectedIndex)
    else
      match nodes part with
      | some (.file content) => do
        let (parts, last) ← plainParts nodes base (expectedIndex + 1) present
        return (⟨part, 0, content.length, .file⟩ :: parts, last)
      | _ => missingVolume part

/-- What is made of the volumes that were found. -/
def collectPresent (nodes : Nodes) (base : Path) (selectedIndex : Nat) (present : List (Nat × Path)) : Res VolumeSet := do
  let maxIndex := (present.getLast?.map Prod.fst).getD 0
  if maxIndex = 0 then missingVolume (volumePath base 1)
  else
    match ← if isSqzBase base then collectSqzvVolumeSet nodes base present else pure none with
    | some set => return set
    | none =>
      let (parts, expectedIndex) ← plainParts nodes base 1 present
      if expectedIndex ≤ max maxIndex selectedIndex then missingVolume (volumePath base expectedIndex) else return parts

def collectVolumeSet (disk : Disk) (volume : Path) : Res VolumeSet :=
  match ((fileName volume).bind toStr).bind splitVolumeName with
  | none =>
    let name := displayPath volume
    unsupported s!"not a split volume: {name}"
  | some (baseName, selectedIndex) =>
    let base := withFileName volume (osStr baseName)
    collectPresent disk.nodes base selectedIndex (presentVolumes disk base).toList

end Squallz.Volumes
