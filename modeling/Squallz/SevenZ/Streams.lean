/-
Access to the blocks of a 7z archive: the decoder of a block, the data of its entries one after the other, and the visit
that calls back for each entry and leaves out the data of blocks that are not asked for.
-/
import Squallz.Api.Entry
import Squallz.System.Parts

namespace Squallz.SevenZ

open Squallz.Api Squallz.Bytes Squallz.System

/-! ## Archives -/

structure ArchiveEntry where
  name : String
  isDirectory : Bool
  hasStream : Bool
  size : UInt64
  compressedSize : UInt64
  windowsAttributes : Option UInt32
  /-- In ticks of 100 ns. -/
  lastModifiedDate : Option UInt64
  crc : Option UInt64
deriving DecidableEq

inductive Coder
  | aes256Sha256 | other
deriving DecidableEq

structure Block where
  coders : List Coder
deriving DecidableEq

/-- The table of an archive. Files are told apart by their index, as the code does by their address. -/
structure Archive where
  files : List ArchiveEntry
  blocks : List Block
  fileBlockIndex : List (Option Nat)
  blockFirstFileIndex : List Nat

/-- The files of a block, in their order. -/
def Archive.filesOf (archive : Archive) (block : Nat) : List Nat :=
  (List.range archive.files.length).filter fun i => archive.fileBlockIndex[i]? = some (some block)

def Archive.sizeOf (archive : Archive) (i : Nat) : Nat := (archive.files[i]?.map fun entry => entry.size.toNat).getD 0

/-! ## Decoders -/

/-- The decoder of the blocks of an archive, which is not part of the code: it is set up for a block or fails, is turned to
one entry after the other, and a read yields some of the bytes that come next in the data of the block, or fails. -/
structure Decoder (D : Type) where
  data : Nat → List UInt8
  new : Nat → Except FormatError D
  toEntry : Nat → D → D
  read : D → Nat → Except IoError Nat × D

/-- A decoder at work on a block, and how many bytes of the block have been taken from it. -/
structure Session (D : Type) where
  block : Nat
  decoder : D
  taken : Nat

/-- What a callback reads from: nothing, or the data of an entry behind an `EntrySizeReader`, with the bytes that remain of
its size. -/
inductive Source (D : Type)
  | empty
  | entry (session : Session D) (remaining : Nat)

variable {D S : Type} (dec : Decoder D)

/-- A read of the data of an entry into a buffer. -/
def Source.read (n : Nat) : Source D → Except IoError (List UInt8) × Source D
  | .empty => (.ok [], .empty)
  | .entry session remaining =>
    if n = 0 then (.ok [], .entry session remaining)
    else
      match dec.read session.decoder n with
      | (.error error, decoder) => (.error error, .entry { session with decoder } remaining)
      | (.ok count, decoder) =>
        let bytes := slice (dec.data session.block) session.taken (min count n)
        let session := { session with decoder, taken := session.taken + bytes.length }
        if bytes = [] ∧ remaining ≠ 0 then
          (.error ⟨.unexpectedEof, "7z entry stream ended before its declared size"⟩, .entry session remaining)
        else if remaining < bytes.length then
          (.error ⟨.invalidData, "7z entry stream exceeded its declared size"⟩, .entry session remaining)
        else (.ok bytes, .entry session (remaining - bytes.length))

/-! ## Programs of callbacks -/

/-- A program on a state and a source. -/
abbrev Reading (S D α : Type) := Prog (S × Source D) Fault α

def onState {α : Type} (p : Prog S Fault α) : Reading S D α :=
  p.within ⟨Prod.fst, fun s t => (s, t.2), fun _ _ => rfl, fun _ _ _ => rfl, fun _ => rfl⟩

def setSource (source : Source D) : Reading S D Unit := .update fun t => (t.1, source)

def getSource : Reading S D (Source D) := .step id fun t => .ret t.2

/-- `read`, with its error for the caller to look at. -/
def readSource (n : Nat) : Reading S D (Except IoError (List UInt8)) :=
  .step (fun t => (t.1, (t.2.read dec n).2)) fun t => .ret (t.2.read dec n).1

/-! ## Visits -/

variable (archive : Archive) (each : Nat → Reading S D Bool)

/-- The decoder is turned to an entry. -/
def enter (i : Nat) : Reading S D Unit := .update fun t =>
  match t.2 with
  | .empty => t
  | .entry session _ => (t.1, .entry { session with decoder := dec.toEntry i session.decoder } (archive.sizeOf i))

/-- `for_each_entries` of a decoder of a block: whether all its entries were visited. -/
def decodeEntries : List Nat → Reading S D Bool
  | [] => pure true
  | i :: rest => do
    enter dec archive i
    if ← each i then decodeEntries rest else pure false

def decodeBlock (block : Nat) : Reading S D Bool := do
  let decoder ← .ofExcept (match dec.new block with | .ok decoder => .ok decoder | .error e => raise e)
  setSource (.entry ⟨block, decoder, 0⟩ 0)
  decodeEntries dec archive each (archive.filesOf block)

/-- The entries of a block that is not decoded, from its first one on. -/
def announceEntries (block : Nat) : List Nat → Reading S D Unit
  | [] => pure ()
  | i :: rest =>
    if archive.fileBlockIndex[i]? ≠ some (some block) then pure ()
    else do
      if ← each i then announceEntries block rest else pure ()

def announceBlock (block : Nat) : Reading S D Unit := do
  let start ← .ofExcept (match archive.blockFirstFileIndex[block]? with
    | some start => .ok start
    | none => corrupt "7z block is missing its first file")
  if archive.files.length < start then .fail (.raised (.corruptArchive "7z block references missing files"))
  else do
    setSource .empty
    announceEntries archive each block (List.range' start (archive.files.length - start))

/-- The loop of `visit` over the blocks: whether the visit goes on behind it. -/
def visitBlocks (blocks : Option (List Nat)) (includeMetadata : Bool) : List Nat → Reading S D Bool
  | [] => pure true
  | block :: rest =>
    if blocks.any fun blocks => !blocks.contains block then do
      (if includeMetadata then announceBlock archive each block else pure () : Reading S D Unit)
      visitBlocks blocks includeMetadata rest
    else do
      let complete ← decodeBlock dec archive each block
      if !complete && blocks.isNone && includeMetadata then pure false else visitBlocks blocks includeMetadata rest

/-- The entries without a block. -/
def visitUnassigned : List Nat → Reading S D Unit
  | [] => pure ()
  | i :: rest =>
    if archive.fileBlockIndex[i]? = some none then do
      if ← each i then visitUnassigned rest else pure ()
    else visitUnassigned rest

def visit (blocks : Option (List Nat)) (includeMetadata : Bool) : Reading S D Unit := do
  if ← visitBlocks dec archive each blocks includeMetadata (List.range archive.blocks.length) then
    if includeMetadata then do
      setSource .empty
      visitUnassigned archive each (List.range archive.files.length)

end Squallz.SevenZ
