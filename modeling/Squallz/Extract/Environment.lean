/-
What extraction works with: its options, the destination and the archive behind their calls, and programs over the state of
a run.
-/
import Squallz.Api.Names
import Squallz.System.Program
import Mathlib.Data.String.Basic
import Mathlib.Data.UInt

namespace Squallz.Extract

open Squallz.Api Squallz.System

/-! ## Options -/

inductive OverwritePolicy
  | overwrite | skip | renameBoth | ask
deriving DecidableEq

inductive SymlinkPolicy
  | preserve | follow | skip
deriving DecidableEq

inductive ConflictDecision
  | overwrite | skip
  | rename (name : String)
  | abort

structure SafetyLimits where
  maxOutputBytes : UInt64
  maxEntries : UInt64
  maxCompressionRatio : UInt32

structure ExtractOptions where
  overwrite : OverwritePolicy
  /-- Whether there is somebody to ask. -/
  resolver : Bool
  symlinks : SymlinkPolicy
  restorePermissions : Bool
  limits : SafetyLimits
  memoryLimit : Option UInt64
  bestEffort : Bool

def minStreamBufferBytes : UInt64 := 8192

def copyChunk : Nat := 65536

/-- `stream_buffer_size`. -/
def streamBufferSize (opts : ExtractOptions) (default : Nat) : Res Nat :=
  match opts.memoryLimit with
  | none => pure default
  | some limit =>
    if limit < minStreamBufferBytes then
      raise (.resourceLimitExceeded
        s!"memory limit {limit} bytes is below the {minStreamBufferBytes} byte streaming buffer minimum")
    else pure (max (min default limit.toNat) 1)

/-! ## The destination and the archive -/

/-- The components of an absolute path. -/
abbrev DestPath := List String

inductive FileKind
  | file | dir | symlink | other
deriving DecidableEq

/-- What one read brings: no more than the buffer holds, and nothing at the end. -/
structure Chunk where
  bytes : List UInt8
  length_le : bytes.length ≤ copyChunk

def Chunk.size (chunk : Chunk) : UInt64 := .ofNat chunk.bytes.length

/-- The reads of a stream, up to its end or to the first that fails. -/
abbrev Stream := List (Except FormatError Chunk)

/-- A call that may fail, and that may change the world in either case. -/
abbrev Call (W ε α : Type) := W → Except ε α × W

/-- The calls that extraction makes: to the control token, to the destination, to the resolver of conflicts and to the
archive. -/
structure Environment (W H I : Type) where
  processId : Nat
  checkpoint : Call W Fault Unit
  resolve : DestPath → EntryMeta → W → ConflictDecision × W
  /-- The archive finds an entry and lends its data. -/
  openEntry : EntryPath → Call W FormatError Stream
  /-- What the archive adds when the data have been consumed. -/
  closeEntry : Call W FormatError Unit
  createDirAll : DestPath → Call W IoError Unit
  canonicalize : DestPath → Call W IoError DestPath
  symlinkMetadata : DestPath → Call W IoError FileKind
  /-- The length and the modification time of what a path leads to. -/
  metadata : DestPath → Call W IoError (UInt64 × Option SystemTime)
  createDir : DestPath → Call W IoError Unit
  createNew : DestPath → Call W IoError H
  openFile : DestPath → Call W IoError Stream
  writeAll : H → List UInt8 → Call W IoError Unit
  setModified : H → SystemTime → Call W IoError Unit
  setPermissions : H → UInt32 → Call W IoError Unit
  hardLink : DestPath → DestPath → Call W IoError Unit
  rename : DestPath → DestPath → Call W IoError Unit
  movePathNoReplace : DestPath → DestPath → Call W IoError Unit
  removeFile : DestPath → Call W IoError Unit
  symlink : String → DestPath → Call W IoError Unit
  openSymlink : DestPath → Call W IoError H
  isSymlink : H → Call W IoError Bool
  setSymlinkModified : H → SystemTime → Call W IoError Unit
  openRoot : DestPath → Call W IoError H
  openRelative : H → DestPath → Call W IoError H
  identity : H → Call W IoError I

/-! ## An environment that puts up no resistance -/

/-- Every call succeeds, every path but the root is a file, and every entry and every file hold the same data. -/
def willing {W H I : Type} [Inhabited H] [Inhabited I] (data : Stream) : Environment W H I where
  processId := 1
  checkpoint := fun w => (.ok (), w)
  resolve := fun _ _ w => (.skip, w)
  openEntry := fun _ w => (.ok data, w)
  closeEntry := fun w => (.ok (), w)
  createDirAll := fun _ w => (.ok (), w)
  canonicalize := fun path w => (.ok path, w)
  symlinkMetadata := fun path w => (.ok (if path = [] then .dir else .file), w)
  metadata := fun _ w => (.ok (0, none), w)
  createDir := fun _ w => (.ok (), w)
  createNew := fun _ w => (.ok default, w)
  openFile := fun _ w => (.ok data, w)
  writeAll := fun _ _ w => (.ok (), w)
  setModified := fun _ _ w => (.ok (), w)
  setPermissions := fun _ _ w => (.ok (), w)
  hardLink := fun _ _ w => (.ok (), w)
  rename := fun _ _ w => (.ok (), w)
  movePathNoReplace := fun _ _ w => (.ok (), w)
  removeFile := fun _ w => (.ok (), w)
  symlink := fun _ _ w => (.ok (), w)
  openSymlink := fun _ w => (.ok default, w)
  isSymlink := fun _ w => (.ok true, w)
  setSymlinkModified := fun _ _ w => (.ok (), w)
  openRoot := fun _ w => (.ok default, w)
  openRelative := fun _ _ w => (.ok default, w)
  identity := fun _ w => (.ok default, w)

/-- A file named a with a declared size. -/
def plainFile (size : UInt64) : EntryMeta := ⟨.fromUtf8 "a", .file, size, none, none, none, none, false⟩

/-- The largest limits. -/
def unlimited : ExtractOptions where
  overwrite := .overwrite
  resolver := false
  symlinks := .preserve
  restorePermissions := false
  limits := ⟨.ofNat (2 ^ 64 - 1), .ofNat (2 ^ 64 - 1), 1⟩
  memoryLimit := none
  bestEffort := false

/-! ## The state of a run -/

inductive Materialization
  | created | replaced | renamed
deriving DecidableEq

structure ResolvedOutput where
  path : DestPath
  replaceExisting : Bool
  materialization : Materialization

structure ExtractReport where
  destination : DestPath
  selectedEntries : UInt64
  created : UInt64
  directories : UInt64
  skipped : UInt64
  replaced : UInt64
  renamed : UInt64
  failed : UInt64
  outputBytes : UInt64

def ExtractReport.empty (dest : DestPath) : ExtractReport := ⟨dest, 0, 0, 0, 0, 0, 0, 0, 0⟩

structure LimitsAccountant where
  limits : SafetyLimits
  entries : UInt64
  outputBytes : UInt64

structure DirectoryMetadata where
  relative : DestPath
  entry : EntryPath
  modified : Option SystemTime
  mode : Option UInt32

structure DeferredDirectories (H I : Type) where
  root : H
  rootPath : DestPath
  pending : List (I × DirectoryMetadata)

structure ExtractSink (H I : Type) where
  dest : DestPath
  canonicalDest : DestPath
  accountant : LimitsAccountant
  createdSymlinks : List DestPath
  materializedFiles : List (List UInt8 × DestPath)
  pendingOutputs : List (DestPath × ResolvedOutput)
  directories : Option (DeferredDirectories H I)
  done : UInt64
  total : UInt64
  report : ExtractReport

/-- `on_progress` and `on_entry_progress`. -/
structure Progress where
  done : UInt64
  total : UInt64
  path : EntryPath
  entry : Option (UInt64 × UInt64)

/-- What a run has done to files: their staging files, which hold decoded data of an entry or not, what is written to them,
the names they get, and the sizes of files that are left as they are. -/
inductive Event
  | staged (path : DestPath) (decoded : Option EntryMeta)
  | wrote (path : DestPath) (bytes : List UInt8)
  | published (source target : DestPath)
  | discarded (path : DestPath)
  | passedOver (size : UInt64)

structure State (W H I : Type) where
  world : W
  sink : ExtractSink H I
  /-- `TEMP_PATH_SEQUENCE`. -/
  sequence : Nat
  reports : List Progress
  events : List Event

/-! ## Programs -/

section Programs

variable {W H I α : Type}

abbrev Run (W H I α : Type) := Prog (State W H I) Fault α

/-- A call and its result. -/
def tryCall {ε : Type} (f : Call W ε α) : Run W H I (Except ε α) :=
  .step (fun s => { s with world := (f s.world).2 }) fun s => .ret (f s.world).1

/-- A call with `?`. -/
def call (f : Call W IoError α) : Run W H I α := do .ofExcept (ofIo (← tryCall f))

/-- A call of the archive, or of the control token, with `?`. -/
def callRes {ε : Type} (wrap : ε → Fault) (f : Call W ε α) : Run W H I α := do
  match ← tryCall f with
  | .ok a => pure a
  | .error e => .fail (wrap e)

def getSink : Run W H I (ExtractSink H I) := .step id fun s => .ret s.sink

def modifySink (f : ExtractSink H I → ExtractSink H I) : Run W H I Unit := .update fun s => { s with sink := f s.sink }

/-- `TEMP_PATH_SEQUENCE.fetch_add(1)`. -/
def nextSequence : Run W H I Nat := .step (fun s => { s with sequence := s.sequence + 1 }) fun s => .ret s.sequence

def log (event : Event) : Run W H I Unit := .update fun s => { s with events := s.events ++ [event] }

def report (progress : Progress) : Run W H I Unit := .update fun s => { s with reports := s.reports ++ [progress] }

/-- What a destructor does when a program fails: its own failure is ignored. -/
def onFailure (cleanup : Run W H I Unit) (body : Run W H I α) : Run W H I α := do
  match ← body.attempt with
  | .ok a => pure a
  | .error fault => do
    let _ ← cleanup.attempt
    .fail fault

end Programs

end Squallz.Extract
