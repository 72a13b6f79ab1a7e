/-
The journal of a source cleanup: the record of where a source is moved to, its checks, and the file that holds it.
-/
import Squallz.Recovery.Workspace
import Squallz.Text.Numbering

namespace Squallz.SourceCleanup

open Squallz.Api Squallz.Core Squallz.Recovery Squallz.System

def journalVersion : Nat := 1
def journalMaxBytes : Nat := 2 * 1024 * 1024
def holderPrefix : Name := utf8Bytes ".squallz-trash-hold-"

/-! ## Records -/

structure SourceCleanupRecord where
  original : Path
  staged : Path
  holder : Path
  preserved : Path
  identity : Identity
deriving DecidableEq

inductive SourceCleanupRecovery
  | none
  | restored (path : Path)
  | preserved (path : Path)
  | changed (path : Path)
  | cleared
  | completedUnknown (path : Path)
deriving DecidableEq

structure JournalDocument where
  version : Nat
  original : Path
  staged : Path
  holder : Path
  preserved : Path
  identity : Identity
deriving DecidableEq

/-- What is used of `serde_json`. -/
structure Formats where
  toVec : JournalDocument → List UInt8
  fromSlice : List UInt8 → Except String JournalDocument

def parent (path : Path) : Option Path := if path.names = [] then none else some ⟨path.base, path.names.dropLast⟩

def fileName (path : Path) : Option Name := path.names.getLast?

/-- `with_file_name`. -/
def withFileName (path : Path) (name : Name) : Path := ⟨path.base, path.names.dropLast ++ [name]⟩

def storedPath (path : Path) : Except IoError Path :=
  if path.names.any (·.contains 0) then .error ⟨.invalidInput, "stored path contains a null byte"⟩ else .ok path

def restoredPath (path : Path) : Except IoError Path :=
  if path.names.any (·.contains 0) then .error ⟨.invalidData, "stored path contains a null byte"⟩ else .ok path

def JournalDocument.fromRecord (record : SourceCleanupRecord) : Except IoError JournalDocument := do
  let original ← storedPath record.original
  let staged ← storedPath record.staged
  let holder ← storedPath record.holder
  let preserved ← storedPath record.preserved
  .ok ⟨journalVersion, original, staged, holder, preserved, record.identity⟩

def JournalDocument.intoRecord (document : JournalDocument) : Except IoError SourceCleanupRecord := do
  ensure (document.version == journalVersion) ⟨.invalidData, "unsupported source cleanup journal version"⟩
  let original ← restoredPath document.original
  let staged ← restoredPath document.staged
  let holder ← restoredPath document.holder
  let preserved ← restoredPath document.preserved
  .ok ⟨original, staged, holder, preserved, document.identity⟩

def serializeJournal (formats : Formats) (document : JournalDocument) : Except IoError (List UInt8) := do
  let bytes := formats.toVec document
  ensure (bytes.length ≤ journalMaxBytes) ⟨.invalidInput, "source cleanup journal exceeds the recovery size limit"⟩
  .ok bytes

def preservedPath (original : Path) (attempt : Nat) : Option Path :=
  match parent original, fileName original with
  | some directory, some name =>
    some (directory.join (name ++ utf8Bytes ".squallz-preserved" ++
      if 1 < attempt then utf8Bytes (.ofList ('-' :: Text.decimal attempt)) else []))
  | _, _ => none

/-! ## Looking at paths -/

def pathExists (path : Path) : Io Bool := .observe fun s =>
  match s.identity path with
  | .ok _ => .ok true
  | .error .notFound => .ok false
  | .error e => .error (errnoError e)

def sourcePathIdentity (path : Path) : Io Identity := .observe fun s => ioResult (s.identity path)

def sourcePathIdentityIfExists (path : Path) : Io (Option Identity) := .observe fun s =>
  match s.identity path with
  | .ok i => .ok (some i)
  | .error .notFound => .ok none
  | .error e => .error (errnoError e)

def ensureSourceIdentity (path : Path) (expected : Identity) : Io Unit := do
  let identity ← sourcePathIdentity path
  .ofExcept (ensure (identity == expected) ⟨.invalidData, "source cleanup path identity changed"⟩)

/-- The metadata of an entry, absent where there is none. -/
def symlinkMetadata (path : Path) : Io (Option Inode) := .observe fun s =>
  match s.metadata path with
  | .ok metadata => .ok (some metadata)
  | .error .notFound => .ok none
  | .error e => .error (errnoError e)

/-! ## Checking records -/

def validateRecordLayout (record : SourceCleanupRecord) (requireHolder : Bool) : Io Unit := do
  let originalParent ← .ofExcept (match parent record.original with
    | some directory => .ok directory
    | none => .error ⟨.invalidData, "source cleanup original has no parent directory"⟩)
  let originalName ← .ofExcept (match fileName record.original with
    | some name => .ok name
    | none => .error ⟨.invalidData, "source cleanup original has no file name"⟩)
  let validPreserved := (List.range 1000).any fun attempt =>
    preservedPath record.original (attempt + 1) == some record.preserved
  .ofExcept (ensure (parent record.holder == some originalParent && parent record.staged == some record.holder &&
      fileName record.staged == some originalName && parent record.preserved == some originalParent &&
      validPreserved && (fileName record.holder).any (holderPrefix.isPrefixOf ·))
    ⟨.invalidData, "source cleanup journal layout is invalid"⟩)
  -- the base of a path is the directory that its parent canonicalizes to
  .ofExcept (ensure (originalParent.names == [])
    ⟨.invalidData, "source cleanup parent must not traverse symbolic links"⟩)
  let metadata ← symlinkMetadata record.holder
  .ofExcept (match metadata with
    | some metadata => ensure metadata.isDir ⟨.invalidData, "source cleanup holder is not a real directory"⟩
    | none => ensure (!requireHolder) (errnoError .notFound))

def validateHolderInventory (record : SourceCleanupRecord) : Io Unit := do
  let metadata ← symlinkMetadata record.holder
  match metadata with
  | none =>
    let staged ← pathExists record.staged
    .ofExcept (ensure (!staged) ⟨.invalidData, "source cleanup staged path exists without its holder"⟩)
  | some metadata =>
    .ofExcept (ensure metadata.isDir ⟨.invalidData, "source cleanup holder is not a real directory"⟩)
    let names ← .observe fun s => ioResult (s.readDir record.holder)
    .ofExcept (ensure (names.length ≤ 1 && names.all fun name => record.holder.join name == record.staged)
      ⟨.invalidData, "source cleanup holder contains unexpected entries"⟩)
    let staged ← pathExists record.staged
    .ofExcept (ensure (staged == !names.isEmpty)
      ⟨.invalidData, "source cleanup holder inventory changed during recovery"⟩)

def validateBeforeMove (record : SourceCleanupRecord) : Io Unit := do
  validateHolderInventory record
  let original ← pathExists record.original
  .ofExcept (ensure original ⟨.notFound, "source cleanup original no longer exists"⟩)
  ensureSourceIdentity record.original record.identity
  let staged ← pathExists record.staged
  let preserved ← if staged then .ret true else pathExists record.preserved
  .ofExcept (ensure (!preserved) ⟨.alreadyExists, "source cleanup staging or preservation path is already occupied"⟩)

/-! ## The journal file -/

def lockPath (journal : Path) : Path := withFileName journal (utf8Bytes "source-cleanup.lock")

/-- `try_lock` on the open lock file, and its checks; `locked` says whether another process holds it. -/
def lockFile (journal : Path) (locked : Bool) (file : Identity) : Io Unit := do
  .ofExcept (ensure (!locked) ⟨.other, "lock acquisition failed because the operation would block"⟩)
  .observe fun s => do
    let identity ← ioResult (s.identity (lockPath journal))
    ensure ((s.inodes file).isFile && identity == file)
      ⟨.invalidData, "source cleanup lock is not a stable regular file"⟩
    ensure ((s.inodes file).mode &&& 0o077 == 0)
      ⟨.permissionDenied, "source cleanup lock permissions are too broad"⟩

/-- The lock beside the journal. -/
def acquireLock (journal : Path) (locked : Bool) : Io Unit := do
  let created ← .act (·.create (lockPath journal) ⟨.regular [], 0o600, none, (0, 0)⟩)
  let file ← match created with
    | .ok file => pure file
    | .error .alreadyExists => .observe fun s => ioResult (s.identity (lockPath journal))
    | .error e => .fail (errnoError e)
  lockFile journal locked file

def readJournal (formats : Formats) (path : Path) : Io (Option JournalDocument) := do
  let metadata ← symlinkMetadata path
  match metadata with
  | none => .ret none
  | some metadata =>
    .ofExcept (ensure metadata.isFile ⟨.invalidData, "source cleanup journal is not a regular file"⟩)
    let file ← .observe fun s => ioResult (s.identity path)
    .observe fun s => do
      let identity ← ioResult (s.identity path)
      ensure ((s.inodes file).isFile && identity == file)
        ⟨.invalidData, "source cleanup journal identity changed while opening it"⟩
      ensure ((s.inodes file).len ≤ journalMaxBytes) ⟨.invalidData, "source cleanup journal is too large"⟩
    let bytes ← .observe fun s => .ok (s.inodes file).bytes
    .ofExcept (ensure (bytes.length ≤ journalMaxBytes) ⟨.invalidData, "source cleanup journal is too large"⟩)
    .ofExcept (((formats.fromSlice bytes).mapError fun message => ⟨.invalidData, message⟩).map some)

/-- The name of the journal's next temporary file. -/
def journalTempName (name : Name) (process sequence : Nat) : Name :=
  utf8Bytes "." ++ name ++ utf8Bytes (.ofList (".tmp-".toList ++ Text.decimal process ++ '-' :: Text.decimal sequence))

def writeNewJournal (path : Path) (contents : List UInt8) (process sequence : Nat) : Io Unit := do
  let temp := withFileName path (journalTempName ((fileName path).getD []) process sequence)
  let file ← createPrivateFile temp
  .update (·.write file contents)
  let moved ← .act (·.renameNoReplace temp path)
  match moved with
  | .ok () => .ret ()
  | .error e =>
    let _ ← .act (·.removeFile temp)
    .fail (errnoError e)

def clearJournal (path : Path) : Io Unit := do
  let metadata ← symlinkMetadata path
  match metadata with
  | none => .ret ()
  | some metadata =>
    .ofExcept (ensure metadata.isFile ⟨.invalidData, "source cleanup journal is not a regular file"⟩)
    change (·.removeFile path)

def journalPathExists (path : Path) : Io Bool := pathExists path

def removeEmptyHolder (holder : Path) : Io Unit := do
  let metadata ← symlinkMetadata holder
  match metadata with
  | none => .ret ()
  | some metadata =>
    .ofExcept (ensure metadata.isDir ⟨.invalidData, "source cleanup holder is not a real directory"⟩)
    let names ← .observe fun s => ioResult (s.readDir holder)
    .ofExcept (ensure names.isEmpty ⟨.other, "source cleanup holder contains unexpected entries"⟩)
    change (·.removeDir holder)

/-- `sync_recovery_directories`: the holder is a real directory, or gone. -/
def syncRecoveryDirectories (record : SourceCleanupRecord) : Io Unit := do
  let metadata ← symlinkMetadata record.holder
  .ofExcept (match metadata with
    | some metadata => ensure metadata.isDir ⟨.invalidData, "source cleanup holder is not a real directory"⟩
    | none => .ok ())

def clearThenRemoveHolder (path : Path) (record : SourceCleanupRecord) : Io Unit := do
  validateHolderInventory record
  syncRecoveryDirectories record
  clearJournal path
  let _ ← (removeEmptyHolder record.holder).attempt
  .ret ()

/-! ## Recovery -/

def moveStagedSource (record : SourceCleanupRecord) (destination : Path) (stagedIdentity : Identity) : Io Unit := do
  change (·.renameNoReplace record.staged destination)
  ensureSourceIdentity destination stagedIdentity

/-- What becomes of the source: what stands at the staged path is moved back, or out of the holder. -/
def recoverSource (record : SourceCleanupRecord) (originalIdentity stagedIdentity preservedIdentity : Option Identity) :
    Io SourceCleanupRecovery :=
  match preservedIdentity with
  | some preservedIdentity =>
    .ret (if preservedIdentity = record.identity then .preserved record.preserved else .changed record.preserved)
  | none =>
    match stagedIdentity with
    | some stagedIdentity => do
      let destination := if originalIdentity.isSome then record.preserved else record.original
      moveStagedSource record destination stagedIdentity
      .ret (if stagedIdentity ≠ record.identity then .changed destination
        else if destination = record.original then .restored record.original
        else .preserved record.preserved)
    | none =>
      .ret (if originalIdentity = some record.identity then .cleared
        else if originalIdentity.isSome then .changed record.original
        else .completedUnknown record.original)

def recoverRecord (path : Path) (record : SourceCleanupRecord) : Io SourceCleanupRecovery := do
  validateRecordLayout record false
  validateHolderInventory record
  let originalIdentity ← sourcePathIdentityIfExists record.original
  let stagedIdentity ← sourcePathIdentityIfExists record.staged
  let preservedIdentity ← sourcePathIdentityIfExists record.preserved
  .ofExcept (ensure (!(stagedIdentity.isSome && preservedIdentity.isSome))
    ⟨.invalidData, "source cleanup staged and preservation paths are both occupied"⟩)
  let outcome ← recoverSource record originalIdentity stagedIdentity preservedIdentity
  validateHolderInventory record
  clearThenRemoveHolder path record
  .ret outcome

def recoverPending (formats : Formats) (path : Path) (locked : Bool) : Io SourceCleanupRecovery := do
  acquireLock path locked
  let document ← readJournal formats path
  match document with
  | none => .ret .none
  | some document =>
    let record ← .ofExcept document.intoRecord
    recoverRecord path record

/-! ## A cleanup -/

def begin (formats : Formats) (path : Path) (locked : Bool) (process sequence : Nat) (record : SourceCleanupRecord) :
    Io Unit := do
  acquireLock path locked
  let pending ← journalPathExists path
  .ofExcept (ensure (!pending) ⟨.alreadyExists, "an interrupted source cleanup still needs recovery"⟩)
  validateRecordLayout record true
  validateBeforeMove record
  let document ← .ofExcept (JournalDocument.fromRecord record)
  let bytes ← .ofExcept (serializeJournal formats document)
  writeNewJournal path bytes process sequence

def confirmStagedSource (record : SourceCleanupRecord) : Io Unit := ensureSourceIdentity record.staged record.identity

def completeTrash (path : Path) (record : SourceCleanupRecord) : Io Unit := do
  validateRecordLayout record true
  validateHolderInventory record
  let staged ← pathExists record.staged
  .ofExcept (ensure (!staged)
    ⟨.invalidData, "the source cleanup adapter reported success but the staged source remains"⟩)
  let preserved ← pathExists record.preserved
  .ofExcept (ensure (!preserved)
    ⟨.invalidData, "the source cleanup preservation path is unexpectedly occupied"⟩)
  clearThenRemoveHolder path record

/-- `sync_after_stage`: the holder has to be a real directory. -/
def syncAfterStage (record : SourceCleanupRecord) : Io Unit := do
  let metadata ← symlinkMetadata record.holder
  .ofExcept (match metadata with
    | some metadata => ensure metadata.isDir ⟨.invalidData, "source cleanup holder is not a real directory"⟩
    | none => .error (errnoError .notFound))

/-- Recovery in place of the rest of a cleanup. -/
def restoreStagedCleanup (path : Path) (record : SourceCleanupRecord) : Io Bool := do
  let _ ← (recoverRecord path record).attempt
  .ret false

/-- The staged source is handed over to the trash adapter. -/
def trashStagedSource (path : Path) (moveToTrash : Path → Io Unit) (record : SourceCleanupRecord) : Io Bool := do
  let trashed ← (moveToTrash record.staged).attempt
  if trashed.isOk then
    let completed ← (completeTrash path record).attempt
    if completed.isOk then .ret true else restoreStagedCleanup path record
  else restoreStagedCleanup path record

/-- The staging of one source, with its journal begun. `unchanged` says whether the staged source is still the archived
one and nobody has cancelled. -/
def stageSource (path : Path) (unchanged : FileSystem → Bool) (moveToTrash : Path → Io Unit)
    (record : SourceCleanupRecord) : Io Bool := do
  let moved ← .act (·.renameNoReplace record.original record.staged)
  if moved.isOk then
    let synced ← (syncAfterStage record).attempt
    if synced.isOk then
      let same ← .observe fun s => .ok (unchanged s)
      if same then
        let confirmed ← (confirmStagedSource record).attempt
        if confirmed.isOk then trashStagedSource path moveToTrash record else restoreStagedCleanup path record
      else restoreStagedCleanup path record
    else restoreStagedCleanup path record
  else restoreStagedCleanup path record

/-- The cleanup of one source whose holder has been created. -/
def cleanUp (formats : Formats) (path : Path) (locked relocked : Bool) (process sequence : Nat)
    (unchanged : FileSystem → Bool) (moveToTrash : Path → Io Unit) (record : SourceCleanupRecord) : Io Bool := do
  let begun ← (begin formats path locked process sequence record).attempt
  if begun.isOk then stageSource path unchanged moveToTrash record
  else
    let _ ← .act (·.removeDir record.holder)
    let _ ← (recoverPending formats path relocked).attempt
    .ret false

end Squallz.SourceCleanup
