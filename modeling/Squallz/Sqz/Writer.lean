/-
The writer: the streaming recovery encoder, the protection of the recovery section, the entry-set
writer and the writer that wraps an inner archive.
-/
import Squallz.Erasure.Blocks
import Squallz.Sqz.Index

namespace Squallz.Sqz

open Squallz.Api Squallz.Bytes Squallz.Erasure

/-! ## Recovery encoder -/

/-- The encoder's running state. The block being filled is never full between two calls. -/
structure RecoveryEncoder where
  payloadStart : Nat
  payloadLength : Nat
  parityShards : Nat
  currentBlock : List UInt8
  currentGroup : List (List UInt8)
  blockHashes : List Digest
  parityGroups : List (List (List UInt8))
  room : currentBlock.length < blockSize

namespace RecoveryEncoder

def new (payloadStart : Nat) (opts : SqzCreateOptions) : RecoveryEncoder where
  payloadStart := payloadStart
  payloadLength := 0
  parityShards := opts.parityShards
  currentBlock := []
  currentGroup := []
  blockHashes := []
  parityGroups := []
  room := blockSize_pos

def finishGroup (P : Primitives) (e : RecoveryEncoder) : Res RecoveryEncoder :=
  let dataCount := e.currentGroup.length
  match reedSolomonNew dataCount e.parityShards with
  | .error reason => raise (.other s!"sqz recovery encoder init failed: {reason}")
  | .ok () =>
    let shards := e.currentGroup ++ List.replicate e.parityShards (List.replicate blockSize 0)
    let shards := P.encode dataCount e.parityShards shards
    .ok { e with currentGroup := [], parityGroups := e.parityGroups ++ [shards.drop dataCount] }

/-- `finish_block` with `block` as the current block. -/
def finishBlock (P : Primitives) (e : RecoveryEncoder) (block : List UInt8) : Res RecoveryEncoder :=
  let e := { e with
    blockHashes := e.blockHashes ++ [P.blake3 block]
    currentBlock := []
    currentGroup := e.currentGroup ++ [padTo 0 blockSize block]
    room := blockSize_pos }
  if e.currentGroup.length = dataShards then e.finishGroup P else .ok e

/-- Filling what is free keeps within the block. -/
theorem length_filled_le (e : RecoveryEncoder) (bytes : List UInt8) :
    (e.currentBlock ++ bytes.take (min (blockSize - e.currentBlock.length) bytes.length)).length ≤
      blockSize := by
  have := e.room
  simp only [List.length_append, List.length_take]
  omega

/-- The loop of `push_bytes`. -/
def fill (P : Primitives) (e : RecoveryEncoder) (bytes : List UInt8) : Res RecoveryEncoder :=
  if _hne : bytes = [] then .ok e
  else
    let free := blockSize - e.currentBlock.length
    let take := min free bytes.length
    let block := e.currentBlock ++ bytes.take take
    let rest := bytes.drop take
    if hfull : block.length = blockSize then
      match e.finishBlock P block with
      | .error err => .error err
      | .ok next => fill P next rest
    else
      fill P { e with
        currentBlock := block
        room := lt_of_le_of_ne (e.length_filled_le bytes) hfull } rest
termination_by bytes.length
decreasing_by
  all_goals
    have := e.room
    have := List.length_pos_of_ne_nil _hne
    simp only [List.length_drop]
    omega

def pushBytes (P : Primitives) (e : RecoveryEncoder) (bytes : List UInt8) : Res RecoveryEncoder :=
  { e with payloadLength := e.payloadLength + bytes.length }.fill P bytes

end RecoveryEncoder

/-! ## Protection -/

/-- The block hashes and the parity shards of one protection group. -/
def protectGroup (P : Primitives) (primary : List UInt8) (blockCount groupStart : Nat) :
    List Digest × List (List UInt8) :=
  let dataCount := min (blockCount - groupStart) recoveryDataShards
  let blocks := (List.range dataCount).map fun j => block blockSize primary (groupStart + j)
  let shards := blocks.map (padTo 0 blockSize) ++
    List.replicate (recoveryDataShards - dataCount) (List.replicate blockSize 0) ++
    List.replicate recoveryParityShards (List.replicate blockSize 0)
  let shards := P.encode recoveryDataShards recoveryParityShards shards
  (blocks.map P.blake3, shards.drop recoveryDataShards)

/-- The protection trailer without its CRC. -/
def trailerFields (P : Primitives) (primary : List UInt8) (blockCount protectionLen : Nat) :
    List UInt8 :=
  recoveryProtectionMagic ++ (leBytes 2 recoveryProtectionVersion ++ (leBytes 2 recoveryAlgoRsGf8 ++
  (leBytes 4 blockSize ++ (leBytes 2 recoveryDataShards ++ (leBytes 2 recoveryParityShards ++
  (leBytes 4 0 ++ (leBytes 8 primary.length ++ (leBytes 8 blockCount ++ (leBytes 8 protectionLen ++
  (P.blake3 primary).bytes)))))))))

def protectRecoverySection (P : Primitives) (primary : List UInt8) : Res (List UInt8) :=
  if primary = [] then .ok []
  else
    let blockCount := divCeil primary.length blockSize
    match reedSolomonNew recoveryDataShards recoveryParityShards with
    | .error reason => raise (.other s!"sqz recovery protection init failed: {reason}")
    | .ok () =>
      let groups := (List.range (divCeil blockCount recoveryDataShards)).map fun g =>
        protectGroup P primary blockCount (g * recoveryDataShards)
      let protection := (groups.flatMap (·.1)).flatMap Digest.bytes ++
        (groups.flatMap (·.2)).flatten
      if 2 ^ 64 ≤ primary.length then unsupported "sqz recovery section exceeds 16 EiB"
      else if 2 ^ 64 ≤ blockCount then
        unsupported "sqz recovery protection block count exceeds 16 EiB"
      else if 2 ^ 64 ≤ protection.length then
        unsupported "sqz recovery protection exceeds 16 EiB"
      else
        let fields := trailerFields P primary blockCount protection.length
        .ok (primary ++ (protection ++ (fields ++ leBytes 4 (P.crc32c fields).toNat)))

namespace RecoveryEncoder

/-- The primary recovery section of a finished encoder. -/
def primary (P : Primitives) (e : RecoveryEncoder) (index : List UInt8) : List UInt8 :=
  recoveryMagic ++ (leBytes 2 recoveryVersion ++ (leBytes 2 recoveryAlgoRsGf8 ++
  (leBytes 4 blockSize ++ (leBytes 2 dataShards ++ (leBytes 2 e.parityShards ++ (leBytes 4 0 ++
  (leBytes 8 e.payloadStart ++ (leBytes 8 e.payloadLength ++ (leBytes 8 e.blockHashes.length ++
  (leBytes 8 index.length ++ ((P.blake3 index).bytes ++ (e.blockHashes.flatMap Digest.bytes ++
  (e.parityGroups.flatten.flatten ++ index)))))))))))))

def finish (P : Primitives) (e : RecoveryEncoder) (index : List UInt8) : Res (List UInt8) := do
  let e ← (if e.currentBlock ≠ [] then e.finishBlock P e.currentBlock else pure e)
  let e ← (if e.currentGroup ≠ [] then e.finishGroup P else pure e)
  if e.blockHashes = [] ∧ index = [] then return []
  else if 2 ^ 64 ≤ index.length then unsupported "sqz index mirror exceeds 16 EiB"
  else protectRecoverySection P (e.primary P index)

end RecoveryEncoder

/-! ## Entry-set writer -/

/-- The destination: what is written so far and how much it can hold. -/
structure Sink where
  contents : List UInt8
  capacity : Nat
  capacity_lt : capacity < 2 ^ 64

/-- A newly created destination. -/
def Sink.create (capacity : UInt64) : Sink := ⟨[], capacity.toNat, capacity.toNat_lt⟩

def Sink.writeAll (s : Sink) (bytes : List UInt8) : Except IoError Sink :=
  if s.contents.length + bytes.length ≤ s.capacity then
    .ok { s with contents := s.contents ++ bytes }
  else .error ⟨.storageFull, "No space left on device"⟩

def Sink.streamPosition (s : Sink) : Nat := s.contents.length

/-- The clock readings and the process id that a new container is stamped with. -/
structure WriterContext where
  nanos : Nat
  pid : Nat
  createdSecs : Nat

/-- `new_container_uuid`. -/
def newContainerUuid (ctx : WriterContext) : Nat × Nat :=
  ((ctx.nanos >>> 64) % 2 ^ 64, (ctx.nanos % 2 ^ 64) ^^^ ((ctx.pid <<< 32) % 2 ^ 64))

structure SqzArchiveWriter where
  dst : Sink
  records : List PendingRecord
  uuidHi : Nat
  uuidLo : Nat
  recovery : RecoveryEncoder

/-- What the reads of an entry's data return, one after another; an empty read ends the data. -/
abbrev Body := List (Except IoError (List UInt8))

/-- The bytes a body delivers up to its end. -/
def Body.bytes : Body → List UInt8
  | .ok chunk :: body => if chunk = [] then [] else chunk ++ Body.bytes body
  | _ => []

namespace SqzArchiveWriter

def new (P : Primitives) (ctx : WriterContext) (dst : Sink) (opts : SqzCreateOptions) :
    Res SqzArchiveWriter := do
  let (uuidHi, uuidLo) := newContainerUuid ctx
  let descriptor ← descriptorTlv opts ctx.createdSecs
  let header := buildHeader P uuidHi uuidLo descriptor.length
  let dst ← ofIo (dst.writeAll header)
  let dst ← ofIo (dst.writeAll descriptor)
  return {
    dst := dst
    records := []
    uuidHi := uuidHi
    uuidLo := uuidLo
    recovery := RecoveryEncoder.new dst.streamPosition opts }

/-- The copy loop of `add_entry`: the writer after it and the bytes it has copied. -/
def copy (P : Primitives) (w : SqzArchiveWriter) : Body → List UInt8 → Res (SqzArchiveWriter × List UInt8)
  | [], written => .ok (w, written)
  | .error e :: _, _ => ofIo (.error e)
  | .ok chunk :: body, written =>
    if chunk = [] then .ok (w, written)
    else do
      let dst ← ofIo (w.dst.writeAll chunk)
      let recovery ← w.recovery.pushBytes P chunk
      copy P { w with dst := dst, recovery := recovery } body (written ++ chunk)

def addEntry (P : Primitives) (w : SqzArchiveWriter) (entryMeta : EntryMeta) (data : Option Body) :
    Res SqzArchiveWriter :=
  match entryMeta.entryType with
  | .file =>
    let path := entryMeta.path.display
    match data with
    | none => raise (.other s!"file entry without data: {path}")
    | some body => do
      let dataOffset := w.dst.streamPosition
      let (w, written) ← w.copy P body []
      let size := entryMeta.size.toNat
      let count := written.length
      if count ≠ size ∨ size - count ≠ 0 then
        corrupt s!"input size changed while writing {path}: expected {size}, wrote {count}"
      else
        let record : PendingRecord := ⟨entryMeta, dataOffset, count, P.blake3 written, P.crc32c written⟩
        return { w with records := w.records ++ [record] }
  | _ =>
    let record : PendingRecord := ⟨entryMeta, 0, 0, emptyHash P, P.crc32c []⟩
    .ok { w with records := w.records ++ [record] }

/-- `finish`: the complete container. -/
def finish (P : Primitives) (w : SqzArchiveWriter) : Res (List UInt8) := do
  let index ← buildIndex w.records
  let recoverySection ← w.recovery.finish P index
  let recoveryOffset := w.dst.streamPosition
  let recoveryLength := recoverySection.length
  let dst ← (if recoverySection ≠ [] then ofIo (w.dst.writeAll recoverySection) else pure w.dst)
  let footerIndexOffset := dst.streamPosition
  let dst ← ofIo (dst.writeAll index)
  let footer := buildFooter P footerIndexOffset index.length recoveryOffset recoveryLength
    w.uuidHi w.uuidLo
  let dst ← ofIo (dst.writeAll footer)
  return dst.contents

/-- Adds entries in order. -/
def addEntries (P : Primitives) (w : SqzArchiveWriter) (entries : List (EntryMeta × Option Body)) :
    Res SqzArchiveWriter :=
  entries.foldlM (fun w entry => w.addEntry P entry.1 entry.2) w

end SqzArchiveWriter

/-- A whole run of the entry-set writer: `new`, every `add_entry`, `finish`. -/
def writeContainer (P : Primitives) (ctx : WriterContext) (capacity : UInt64) (opts : SqzCreateOptions)
    (entries : List (EntryMeta × Option Body)) : Res (List UInt8) := do
  let w ← SqzArchiveWriter.new P ctx (Sink.create capacity) opts
  let w ← w.addEntries P entries
  w.finish P

/-! ## Inner profiles -/

inductive InnerProfile
  | zip | tar | sevenZ | tarZstd
deriving DecidableEq, Repr

def InnerProfile.payloadName : InnerProfile → String
  | .zip => "__sqz_inner.zip"
  | .tar => "__sqz_inner.tar"
  | .sevenZ => "__sqz_inner.7z"
  | .tarZstd => "__sqz_inner.tar.zst"

/-- The profile that `create` selects, none for an entry set. -/
def profileOf : SqzInnerFormat → Option InnerProfile
  | .sqz => none
  | .zip => some .zip
  | .tar => some .tar
  | .sevenZip => some .sevenZ
  | .zstd => some .tarZstd

/-- The one entry of a container that wraps an inner archive. -/
def InnerProfile.payloadMeta (profile : InnerProfile) (size : UInt64) (modified : Option SystemTime) :
    EntryMeta where
  path := EntryPath.fromUtf8 profile.payloadName
  entryType := .file
  size := size
  compressedSize := some size
  modified := modified
  unixMode := none
  crc32 := none
  encrypted := false

/-- A run of `InnerArchiveSqzWriter`: the inner archive has become a file of `size` bytes, modified
at `modified`, whose reads return `body`. -/
def writeInnerContainer (P : Primitives) (ctx : WriterContext) (capacity : UInt64)
    (opts : SqzCreateOptions) (profile : InnerProfile) (size : UInt64) (modified : Option SystemTime)
    (body : Body) : Res (List UInt8) :=
  writeContainer P ctx capacity opts [(profile.payloadMeta size modified, some body)]

end Squallz.Sqz
