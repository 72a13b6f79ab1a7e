/-
Reading a volume set as one stream: how the parts are opened, how a missing volume is worked out of the parity files, and
how the part that holds a position is found.
-/
import Squallz.Bytes.Stream
import Squallz.Volumes.Discovery

namespace Squallz.Volumes

open Squallz.Api Squallz.Bytes Squallz.Destination Squallz.Erasure

/-! ## Reconstruction -/

structure PeerReader where
  coeff : UInt8
  quadraticCoeff : UInt8
  file : List UInt8
  physicalLen : Nat
deriving DecidableEq

inductive ReconstructedReaderSource
  | singleXor (recovery : List UInt8)
  | dualWeighted (xor weighted : List UInt8) (otherCoeff denominatorInv : UInt8)
  | tripleWeighted (xor weighted quadratic : List UInt8) (otherCoeffs : UInt8 × UInt8) (denominatorInv : UInt8)
deriving DecidableEq

structure ReconstructedVolumeReader where
  source : ReconstructedReaderSource
  peers : List PeerReader
deriving DecidableEq

/-- `read_exact` at an offset. -/
def readExact (file : List UInt8) (offset len : Nat) : Res (List UInt8) :=
  if len = 0 then .ok []
  else if file.length < offset + len then raiseIo .unexpectedEof "failed to fill whole buffer"
  else .ok (slice file offset len)

/-- The bytes of a peer, weighted, are added to the beginning of a buffer. -/
def mix (weight : UInt8 → UInt8) (out bytes : List UInt8) : List UInt8 :=
  List.zipWith (fun dst src => dst ^^^ weight src) out bytes ++ out.drop bytes.length

/-- What a peer has at an offset, as far as it is long. -/
def PeerReader.read (peer : PeerReader) (physicalOffset len : Nat) : Res (List UInt8) :=
  if peer.physicalLen ≤ physicalOffset then .ok []
  else readExact peer.file physicalOffset (min len (peer.physicalLen - physicalOffset))

/-- The loop over the peers: every buffer with the weight it gives a peer. -/
def mixPeers (physicalOffset len : Nat) (peers : List PeerReader)
    (buffers : List ((PeerReader → UInt8 → UInt8) × List UInt8)) : Res (List (List UInt8)) :=
  match peers with
  | [] => .ok (buffers.map Prod.snd)
  | peer :: peers => do
    let bytes ← peer.read physicalOffset len
    mixPeers physicalOffset len peers (buffers.map fun (weight, buffer) => (weight, mix (weight peer) buffer bytes))

namespace ReconstructedVolumeReader

def openSource (nodes : Nodes) : ReconstructedSource → Res ReconstructedReaderSource
  | .singleXor recoveryPath => return .singleXor (← nodes.openFile recoveryPath)
  | .dualWeighted xorPath weightedPath targetCoeff otherCoeff =>
    match gf256Inv (targetCoeff ^^^ otherCoeff) with
    | none => corrupt "SQZ recovery volume has duplicate weighted coefficients"
    | some denominatorInv =>
      return .dualWeighted (← nodes.openFile xorPath) (← nodes.openFile weightedPath) otherCoeff denominatorInv
  | .tripleWeighted xorPath weightedPath quadraticPath targetCoeff otherCoeffs =>
    match gf256Inv (gf256Mul (targetCoeff ^^^ otherCoeffs.1) (targetCoeff ^^^ otherCoeffs.2)) with
    | none => corrupt "SQZ recovery volume has duplicate quadratic coefficients"
    | some denominatorInv =>
      return .tripleWeighted (← nodes.openFile xorPath) (← nodes.openFile weightedPath) (← nodes.openFile quadraticPath)
        otherCoeffs denominatorInv

/-- The coefficients that the source needs of a peer. -/
def peerCoeffs (source : ReconstructedReaderSource) (index : Nat) : Res (UInt8 × UInt8) :=
  match source with
  | .singleXor _ => .ok (0, 0)
  | .dualWeighted .. => return (← sqzrWeightedCoeff index, 0)
  | .tripleWeighted .. => do
    let coeff ← sqzrWeightedCoeff index
    return (coeff, gf256Mul coeff coeff)

def new (nodes : Nodes) (source : ReconstructedSource) (peers : List PeerVolume) : Res ReconstructedVolumeReader := do
  let source ← openSource nodes source
  let peers ← peers.mapM fun peer => do
    let (coeff, quadraticCoeff) ← peerCoeffs source peer.index
    return PeerReader.mk coeff quadraticCoeff (← nodes.openFile peer.path) peer.physicalLen
  return ⟨source, peers⟩

def readPhysical (reader : ReconstructedVolumeReader) (physicalOffset len : Nat) : Res (List UInt8) :=
  if len = 0 then .ok []
  else
    match reader.source with
    | .singleXor recovery => do
      let out ← readExact recovery (sqzrHeaderLen + physicalOffset) len
      let buffers ← mixPeers physicalOffset len reader.peers [(fun _ => id, out)]
      return buffers.headD []
    | .dualWeighted xor weighted otherCoeff denominatorInv => do
      let out ← readExact xor (sqzrHeaderLen + physicalOffset) len
      let weightedBuf ← readExact weighted (sqzrHeaderLen + physicalOffset) len
      let buffers ← mixPeers physicalOffset len reader.peers [(fun _ => id, out), (fun peer => gf256Mul peer.coeff, weightedBuf)]
      return List.zipWith (fun xorByte weightedByte =>
        gf256Mul (weightedByte ^^^ gf256Mul otherCoeff xorByte) denominatorInv) (buffers.headD []) (buffers.tail.headD [])
    | .tripleWeighted xor weighted quadratic otherCoeffs denominatorInv => do
      let out ← readExact xor (sqzrHeaderLen + physicalOffset) len
      let weightedBuf ← readExact weighted (sqzrHeaderLen + physicalOffset) len
      let quadraticBuf ← readExact quadratic (sqzrHeaderLen + physicalOffset) len
      let buffers ← mixPeers physicalOffset len reader.peers [(fun _ => id, out),
        (fun peer => gf256Mul peer.coeff, weightedBuf), (fun peer => gf256Mul peer.quadraticCoeff, quadraticBuf)]
      let bc := gf256Mul otherCoeffs.1 otherCoeffs.2
      let bXorC := otherCoeffs.1 ^^^ otherCoeffs.2
      return List.zipWith (fun xorByte (weightedByte, quadraticByte) =>
        gf256Mul (quadraticByte ^^^ gf256Mul bXorC weightedByte ^^^ gf256Mul bc xorByte) denominatorInv)
        (buffers.headD []) (List.zip (buffers.tail.headD []) (buffers.tail.tail.headD []))

end ReconstructedVolumeReader

/-! ## Searching -/

/-- `slice::binary_search`: where a value is, or where it would be inserted. -/
abbrev Search := List Nat → Nat → Except Nat Nat

/-- What is promised of a search in a sorted list: any place of the value, or the only place it could be inserted at. -/
structure Finds (search : Search) : Prop where
  found : ∀ (l : List Nat) (x i : Nat), l.Pairwise (· ≤ ·) → search l x = .ok i → l[i]? = some x
  absent : ∀ (l : List Nat) (x i : Nat), l.Pairwise (· ≤ ·) → search l x = .error i →
    i ≤ l.length ∧ (∀ j y, j < i → l[j]? = some y → y < x) ∧ ∀ j y, i ≤ j → l[j]? = some y → x < y

/-- The part that a search for a position leads to: the one that begins there, or the last one that begins before. -/
def foundPart : Except Nat Nat → Nat
  | .ok i => i
  | .error i => i - 1

/-! ## Opening a set -/

inductive PartReader
  | file (content : List UInt8)
  | missingZero
  | reconstructed (reader : ReconstructedVolumeReader)
deriving DecidableEq

structure MultiVolumeReader where
  parts : List PartReader
  offsets : List Nat
  dataOffsets : List Nat
  logicalLens : List Nat
  total : Nat
  pos : Nat
deriving DecidableEq

namespace MultiVolumeReader

/-- A part behind the others. The total is a `u64`, which wraps around. -/
def push (reader : MultiVolumeReader) (part : PartReader) (dataOffset logicalLen : Nat) : MultiVolumeReader :=
  { reader with
    parts := reader.parts ++ [part]
    offsets := reader.offsets ++ [reader.total]
    dataOffsets := reader.dataOffsets ++ [dataOffset]
    logicalLens := reader.logicalLens ++ [logicalLen]
    total := (reader.total + logicalLen) % 2 ^ 64 }

/-- What is opened of a part that is not missing: its reader, its length, and its header. -/
def openPart (nodes : Nodes) (part : VolumePart) : Res (Option (PartReader × Nat × Option SqzvHeader)) :=
  match part.source with
  | .missingZero => .ok none
  | .file => do
    let file ← nodes.openFile part.path
    return some (.file file, file.length, ← readSqzvHeader file)
  | .reconstructed source peers => do
    let reader ← ReconstructedVolumeReader.new nodes source peers
    let headerBytes ← reader.readPhysical 0 sqzvHeaderLen
    return some (.reconstructed reader, part.logicalLen + part.dataOffset, ← parseSqzvHeader headerBytes)

/-- Where the data of a part begins, and the UUID of the set from there on. -/
def checkHeader (part : VolumePart) (index count : Nat) (uuid : Option Uuid) (header : Option SqzvHeader) :
    Res (Nat × Option Uuid) :=
  match uuid, header with
  | none, none => .ok (0, none)
  | none, some header => do
    validateSqzvHeader header index count
    return (sqzvHeaderLen, some header.uuid)
  | some uuid, some header => do
    validateSqzvHeader header index count
    if uuid ≠ header.uuid then corrupt "SQZV volume UUID mismatch" else return (sqzvHeaderLen, some uuid)
  | some _, none =>
    let name := displayPath part.path
    corrupt s!"missing SQZV header: {name}"

/-- The loop over the parts, from the part `index` on. -/
def openParts (nodes : Nodes) (count index : Nat) (uuid : Option Uuid) (reader : MultiVolumeReader) :
    List VolumePart → Res MultiVolumeReader
  | [] => .ok reader
  | part :: parts => do
    match ← openPart nodes part with
    | none =>
      openParts nodes count (index + 1) uuid (reader.push .missingZero part.dataOffset part.logicalLen) parts
    | some (partReader, physicalLen, header) =>
      let (dataOffset, uuid) ← checkHeader part index count uuid header
      if physicalLen < dataOffset then
        let name := displayPath part.path
        corrupt s!"truncated SQZV volume: {name}"
      else
        openParts nodes count (index + 1) uuid (reader.push partReader dataOffset (physicalLen - dataOffset)) parts

/-- A set is opened. -/
def openSet (nodes : Nodes) (set : VolumeSet) : Res MultiVolumeReader :=
  openParts nodes set.length 1 none ⟨[], [], [], [], 0, 0⟩ set

/-! ## Reading and seeking -/

/-- The part that is read at the position. -/
def partIndex (search : Search) (reader : MultiVolumeReader) : Nat := foundPart (search reader.offsets reader.pos)

/-- The bytes that a part gives. The system picks how many bytes a read of a file returns. -/
def readPart (part : PartReader) (offset want pick : Nat) : Res (List UInt8) :=
  match part with
  | .file content => .ok (slice content offset (min want (max pick 1)))
  | .missingZero => .ok (List.replicate want 0)
  | .reconstructed reader => reader.readPhysical offset want

def read (search : Search) (reader : MultiVolumeReader) (bufLen pick : Nat) : Res (List UInt8 × MultiVolumeReader) :=
  if reader.total ≤ reader.pos ∨ bufLen = 0 then .ok ([], reader)
  else
    let idx := reader.partIndex search
    match reader.parts[idx]?, reader.offsets[idx]?, reader.dataOffsets[idx]?, reader.logicalLens[idx]? with
    | some part, some offset, some dataOffset, some logicalLen => do
      -- The difference is taken in a `u64`.
      let remaining := (logicalLen + 2 ^ 64 - (reader.pos - offset)) % 2 ^ 64
      let want := min bufLen remaining
      let bytes ← readPart part (dataOffset + (reader.pos - offset)) want pick
      return (bytes, { reader with pos := reader.pos + bytes.length })
    | _, _, _, _ => panic "index out of bounds"

def seek (reader : MultiVolumeReader) (whence : SeekFrom) : Res (Nat × MultiVolumeReader) :=
  let target := whence.target reader.total reader.pos
  if target < 0 ∨ (u64Max : Int) < target then raiseIo .invalidInput "seek before start of stream"
  else .ok (target.toNat, { reader with pos := target.toNat })

def stream (search : Search) : StreamReader MultiVolumeReader Nat Fault := ⟨seek, read search⟩

end MultiVolumeReader

end Squallz.Volumes
