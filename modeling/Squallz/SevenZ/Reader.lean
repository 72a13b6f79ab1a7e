/-
The read side of 7z: metadata of the entries, plans that say which data of a block are read, the listing with the targets
of links, and the total of an extraction.
-/
import Squallz.Api.Checked
import Squallz.Extract.Environment
import Squallz.SevenZ.Streams
import Squallz.System.Safe

namespace Squallz.SevenZ

open Squallz.Api Squallz.Bytes Squallz.System

/-- `READ_CHUNK`. -/
def readChunk : Nat := 64 * 1024

def maxSymlinkTargetBytes : Nat := 65535

def fileAttributeUnixExtension : UInt32 := 0x8000

/-! ## Metadata -/

def unixAttributes (entry : ArchiveEntry) : Option UInt32 :=
  (entry.windowsAttributes.filter fun attributes => attributes &&& fileAttributeUnixExtension ≠ 0).map fun attributes => attributes >>> (16 : UInt32)

def isSymlink (entry : ArchiveEntry) : Bool := (unixAttributes entry).any fun mode => mode &&& 0o170000 = 0o120000

/-- `meta_of`, with the conversion of times, which is not part of the code. -/
def metaOf (fromNtTime : UInt64 → SystemTime) (entry : ArchiveEntry) (encrypted : Bool) : EntryMeta where
  path := .fromUtf8 entry.name
  entryType := if isSymlink entry then .symlink [] else if entry.isDirectory then .dir else .file
  size := entry.size
  compressedSize := some entry.compressedSize
  modified := entry.lastModifiedDate.map fromNtTime
  unixMode := (unixAttributes entry).map fun mode => mode &&& 0o7777
  crc32 := entry.crc.map (·.toUInt32)
  encrypted := encrypted && entry.hasStream

/-- A selection by names asks for an entry. -/
def isWanted (wanted : Option (List (List UInt8))) (entry : ArchiveEntry) : Bool :=
  wanted.all fun paths => paths.contains (utf8Bytes entry.name)

/-! ## Plans -/

structure EntryReadPlan where
  fileIndex : Nat
  blockIndex : Option Nat
  selectedLaterInBlock : Bool
  encrypted : Bool
deriving DecidableEq

def blockIsEncrypted (archive : Archive) (block : Nat) : Res Bool :=
  match archive.blocks[block]? with
  | none => corrupt "7z stream map references a missing block"
  | some block => .ok (block.coders.any fun coder => coder = .aes256Sha256)

def entryIsEncrypted (archive : Archive) (i : Nat) : Res Bool :=
  match archive.fileBlockIndex[i]? with
  | none => corrupt "7z stream map is shorter than its file list"
  | some (some block) => blockIsEncrypted archive block
  | some none => .ok false

/-- The loop of `build_entry_read_plans` from the last file to the first, with the blocks in which a selected file was seen
and the plans so far. -/
def entryReadPlansFrom (archive : Archive) (wanted : Option (List (List UInt8))) :
    List (ArchiveEntry × Nat) → List Bool → List EntryReadPlan → Res (List EntryReadPlan)
  | [], _, plans => .ok plans
  | (entry, i) :: rest, seen, plans =>
    match archive.fileBlockIndex[i]? with
    | none => corrupt "7z stream map is shorter than its file list"
    | some none => entryReadPlansFrom archive wanted rest seen (⟨i, none, false, false⟩ :: plans)
    | some (some block) => do
      let encrypted ← blockIsEncrypted archive block
      match seen[block]? with
      | none => corrupt "7z stream map references a missing block"
      | some later =>
        let seen := if isWanted wanted entry then seen.set block true else seen
        entryReadPlansFrom archive wanted rest seen (⟨i, some block, later, encrypted⟩ :: plans)

/-- `build_entry_read_plans`: the plan of each file. -/
def buildEntryReadPlans (archive : Archive) (wanted : Option (List (List UInt8))) : Res (List EntryReadPlan) :=
  entryReadPlansFrom archive wanted archive.files.zipIdx.reverse (List.replicate archive.blocks.length false) []

def missingPlan : FormatError := .corruptArchive "7z entry is missing from its stream map"

/-! ## Reading an entry -/

def classifyEntryReadError (error : FormatError) (encrypted passwordSupplied : Bool) : FormatError :=
  match error with
  | .io _ => if encrypted then (if passwordSupplied then .wrongPassword else .passwordRequired) else error
  | _ => error

section Reading

variable {D S : Type} (dec : Decoder D) (checkpoint : Prog S Fault Unit)

/-- As many reads as can yield a byte of the data, and one. -/
def Source.reads : Source D → Nat
  | .empty => 1
  | .entry _ remaining => remaining + 1

def unfinished : Fault := .panicked "a read yields bytes without end"

def drainFrom : Nat → Reading S D Unit
  | 0 => .fail unfinished
  | left + 1 => do
    onState checkpoint
    match ← readSource dec readChunk with
    | .error error => .fail (.raised (.ofIo error))
    | .ok bytes => if bytes = [] then pure () else drainFrom left

def drainEntry : Reading S D Unit := do
  let source ← getSource
  drainFrom dec checkpoint source.reads

/-- The loop of `read_symlink_target`. -/
def readTargetFrom : Nat → List UInt8 → Reading S D (List UInt8)
  | 0, _ => .fail unfinished
  | left + 1, target => do
    onState checkpoint
    let remaining ← .ofExcept (subU64 (maxSymlinkTargetBytes + 1) target.length)
    match ← readSource dec (min remaining 4096) with
    | .error error => .fail (.raised (.ofIo error))
    | .ok bytes =>
      if bytes = [] then pure target
      else if maxSymlinkTargetBytes < (target ++ bytes).length then
        .fail (.raised (.resourceLimitExceeded
          s!"7z symlink target exceeds the {maxSymlinkTargetBytes}-byte limit"))
      else readTargetFrom left (target ++ bytes)

def readSymlinkTarget : Reading S D (List UInt8) := do
  onState checkpoint
  let target ← readTargetFrom dec checkpoint (maxSymlinkTargetBytes + 2) []
  if target = [] ∨ target.contains 0 ∨ fromUtf8 target = none then
    .fail (.raised (.corruptArchive "7z symlink target is not a nonempty UTF-8 path"))
  else pure target

/-- `map_err`. -/
def mapError {α : Type} (f : FormatError → FormatError) (p : Reading S D α) : Reading S D α := do
  match ← caught p with
  | .ok a => pure a
  | .error error => .fail (.raised (f error))

/-- The end of a callback: an error is kept for later, and the callback is not to be called again. -/
def keepFailure (keep : FormatError → S → S) (p : Reading S D Bool) : Reading S D Bool := do
  match ← caught p with
  | .ok goesOn => pure goesOn
  | .error error => do
    .update fun t => (keep error t.1, t.2)
    pure false

end Reading

/-! ## Listing -/

/-- What is written down while the targets of links are read. -/
structure Listing (W : Type) where
  world : W
  metas : List EntryMeta
  failure : Option FormatError

section Listing

variable {D W : Type} (dec : Decoder D) (fromNtTime : UInt64 → SystemTime) (archive : Archive)
  (control : W → Except FormatError Unit × W) (passwordSupplied : Bool)

def controlCheckpoint : Prog (Listing W) Fault Unit :=
  .step (fun s => { s with world := (control s.world).2 }) fun s =>
    match (control s.world).1 with
    | .ok () => .ret ()
    | .error error => .fail (.raised error)

/-- The metadata of an entry of the listing. -/
def listedMeta (i : Nat) (entry : ArchiveEntry) : Prog (Listing W) Fault EntryMeta := do
  controlCheckpoint control
  if isSymlink entry ∧ entry.size = 0 then .fail (.raised (.corruptArchive "7z symlink target is empty"))
  else do
    let encrypted ← (.ofExcept (entryIsEncrypted archive i) : Prog (Listing W) Fault Bool)
    pure (metaOf fromNtTime entry encrypted)

def listedMetas : List (ArchiveEntry × Nat) → Prog (Listing W) Fault (List EntryMeta)
  | [] => pure []
  | (entry, i) :: rest => do
    let listed ← listedMeta fromNtTime archive control i entry
    let later ← listedMetas rest
    pure (listed :: later)

/-- The links whose targets are read: those that need no password, or all where one was given. -/
def readableLinks (metas : List EntryMeta) : List (List UInt8) :=
  (metas.filter fun listed => (match listed.entryType with | .symlink _ => true | _ => false) &&
    (!listed.encrypted || passwordSupplied)).map (·.path.raw)

def isReadableLink (wanted : List (List UInt8)) (entry : ArchiveEntry) : Bool :=
  isSymlink entry && wanted.contains (utf8Bytes entry.name)

/-- The blocks of the links. -/
def blocksOf (plans : List EntryReadPlan) (asks : ArchiveEntry → Bool) : List Nat :=
  archive.files.zipIdx.filterMap fun (entry, i) => if asks entry then plans[i]?.bind (·.blockIndex) else none

def setTarget (i : Nat) (target : List UInt8) (metas : List EntryMeta) : List EntryMeta :=
  metas.modify i fun listed => { listed with entryType := .symlink target }

def getListing : Reading (Listing W) D (Listing W) := .step id fun t => .ret t.1

def keepMetas (metas : List EntryMeta) : Reading (Listing W) D Unit := .update fun t => ({ t.1 with metas }, t.2)

/-- The target of a link that is asked for, or the data of an entry before one. -/
def readTarget (wanted : List (List UInt8)) (entry : ArchiveEntry) (plan : EntryReadPlan) : Reading (Listing W) D Unit :=
  if isReadableLink wanted entry then do
    let target ← readSymlinkTarget dec (controlCheckpoint control)
    let listing ← getListing
    if listing.metas.length ≤ plan.fileIndex then
      .fail (.raised (.corruptArchive "7z entry is missing from its file list"))
    else keepMetas (setTarget plan.fileIndex target listing.metas)
  else if plan.selectedLaterInBlock then drainEntry dec (controlCheckpoint control)
  else pure ()

/-- The part of the callback that may fail. -/
def listTarget (wanted : List (List UInt8)) (entry : ArchiveEntry) (plan : EntryReadPlan) :
    Reading (Listing W) D Bool := do
  onState (controlCheckpoint control)
  readTarget dec control wanted entry plan
  pure plan.selectedLaterInBlock

def listCallback (wanted : List (List UInt8)) (plans : List EntryReadPlan) (i : Nat) : Reading (Listing W) D Bool := do
  let listing ← getListing
  if listing.failure.isSome then pure false
  else
    match archive.files[i]?, plans[i]? with
    | some entry, some plan =>
      keepFailure (fun error s =>
        { s with failure := some (classifyEntryReadError error plan.encrypted passwordSupplied) })
        (listTarget dec control wanted entry plan)
    | _, _ => do
      .update fun t => ({ t.1 with failure := some missingPlan }, t.2)
      pure false

/-- `listed_entries`. -/
def listedEntries : Reading (Listing W) D (List EntryMeta) := do
  onState (controlCheckpoint control)
  let metas ← onState (listedMetas fromNtTime archive control archive.files.zipIdx)
  keepMetas metas
  let wanted := readableLinks passwordSupplied metas
  if wanted = [] then pure metas
  else do
    let plans ← .ofExcept (buildEntryReadPlans archive (some wanted))
    let blocks := blocksOf archive plans (isReadableLink wanted)
    let result ← caught
      (visit dec archive (listCallback dec archive control passwordSupplied wanted plans) (some blocks) false)
    let listing ← getListing
    match listing.failure with
    | some error => .fail (.raised error)
    | none =>
      match result with
      | .ok () => pure listing.metas
      | .error error => .fail (.raised error)

/-- `entries` of an archive without links: the listing goes from item to item. -/
def plainItem (i : Nat) (entry : ArchiveEntry) : Prog (Listing W) Fault EntryMeta := do
  controlCheckpoint control
  let encrypted ← (.ofExcept (entryIsEncrypted archive i) : Prog (Listing W) Fault Bool)
  pure (metaOf fromNtTime entry encrypted)

def plainItems : List (ArchiveEntry × Nat) → Prog (Listing W) Fault (List (Except FormatError EntryMeta))
  | [] => pure []
  | (entry, i) :: rest => do
    let item ← caught (plainItem fromNtTime archive control i entry)
    let later ← plainItems rest
    pure (item :: later)

/-- `entries`: the items that the listing yields. -/
def entries : Reading (Listing W) D (List (Except FormatError EntryMeta)) := do
  if !archive.files.any isSymlink then onState (plainItems fromNtTime archive control archive.files.zipIdx)
  else do
    match ← caught (listedEntries dec fromNtTime archive control passwordSupplied) with
    | .ok metas => pure (metas.map .ok)
    | .error error => pure [.error error]

end Listing

/-! ## Totals -/

/-- The files whose sizes `extract` adds up. -/
def totalledSizes (archive : Archive) (wanted : Option (List (List UInt8))) : List Nat :=
  (archive.files.filter fun entry => !entry.isDirectory && !isSymlink entry && isWanted wanted entry).map (·.size.toNat)

/-- The total that `extract` reports its progress against: none where nothing is selected. -/
def extractTotal (archive : Archive) (selection : Option (List EntryPath)) : Res (Option Nat) :=
  if selection = some [] then .ok none
  else some <$> (totalledSizes archive (selection.map fun paths => paths.map (·.raw))).foldlM addU64 0

end Squallz.SevenZ
