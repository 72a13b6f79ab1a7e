/-
The publication of a split output set over an older one: the members of the family, the journal, the moves that it plans, and
their recovery. All paths are those of entries of one directory and are given by their names.
-/
import Squallz.Api.Times
import Squallz.Core.Files
import Squallz.Destination.Snapshot
import Squallz.System.Guarantee
import Squallz.Volumes.WorkingNames
import Mathlib.Data.List.Destutter
import Mathlib.Data.List.Sort
import Mathlib.Data.UInt

namespace Squallz.Publication

open Squallz.Api Squallz.Bytes Squallz.Core Squallz.System
open Squallz.Destination (toStr osStr toStringLossy fileName eqIgnoreAsciiCase splitVolumeName sqzRecoverySuffix isSqzBase
  nativeZipVolumeName nativeWimVolumeNumber stripFront expectedManagedSplitOutputPath entryNamesMayAlias)
open Squallz.Text (rsplitOncePattern splitOncePattern)
open Squallz.Volumes (splitStagingOutputName splitTransactionOutputName siblingTempName)

def splitTransactionVersion : Nat := 1
def splitTransactionMaxBytes : Nat := 16 * 1024 * 1024

/-! ## Data -/

structure SplitJournalBackup where
  original : StoredOsString
  backup : StoredOsString
  identity : Identity
  stateDigest : List UInt8
deriving DecidableEq

structure SplitJournalOutput where
  staged : StoredOsString
  finalPath : StoredOsString
  identity : Identity
  stateDigest : List UInt8
deriving DecidableEq

structure SplitTransactionRecord where
  version : Nat
  baseName : StoredOsString
  backups : List SplitJournalBackup
  outputs : List SplitJournalOutput
deriving DecidableEq

structure OpenSplitTransaction where
  path : Name
  file : Identity
  identity : Identity
  contentDigest : List UInt8
  record : SplitTransactionRecord
deriving DecidableEq

structure ResolvedSplitBackup where
  original : Name
  backup : Name
  identity : Identity
  stateDigest : List UInt8
deriving DecidableEq

structure ResolvedSplitOutput where
  staged : Name
  finalPath : Name
  identity : Identity
  stateDigest : List UInt8
deriving DecidableEq

structure ResolvedSplitTransaction where
  base : Name
  includeRecovery : Bool
  backups : List ResolvedSplitBackup
  outputs : List ResolvedSplitOutput
deriving DecidableEq

structure StagedSplitOutput where
  part : Name
  finalPath : Name
  identity : Identity
  file : Identity
deriving DecidableEq

structure ManagedSplitOutputSnapshot where
  path : Name
  identity : Identity
  state : RegularFileState
  stateDigest : List UInt8
deriving DecidableEq

structure PreservedSplitOutput where
  path : Name
  identity : Identity
  stateDigest : List UInt8
deriving DecidableEq

inductive CompletionOrigin
  | recovery | newPublication
deriving DecidableEq

structure SplitTransactionWriteFailure where
  error : FormatError
  journalPublished : Bool

/-- What is used of `serde_json` and of `blake3`, the state digests of entries that are no regular files, and how paths are
shown. -/
structure Formats where
  toVec : SplitTransactionRecord → List UInt8
  fromSlice : List UInt8 → Except String SplitTransactionRecord
  hash : List UInt8 → List UInt8
  otherState : FileSystem → Identity → Except FormatError (List UInt8)
  display : Name → String

/-! ## Errors -/

/-- The `Display` text of an error. -/
def errorText : FormatError → String
  | .io error => "I/O error: " ++ error.message
  | .unsupported message => "unsupported operation: " ++ message
  | .corruptArchive message => "corrupt archive: " ++ message
  | .passwordRequired => "password required"
  | .wrongPassword => "wrong password"
  | .cancelled => "operation cancelled"
  | .pathTraversal message => "path traversal entry detected (zip slip): " ++ message
  | .symlinkBreakout message => "symlink breakout write detected: " ++ message
  | .resourceLimitExceeded message => "resource limit exceeded: " ++ message
  | .unsafeFileName message => "unsafe file name: " ++ message
  | .diskFull => "disk full"
  | .dependencyMissing message => "missing external dependency: " ++ message
  | .other message => message

/-- The `Debug` text of an identity. -/
def identityText (identity : Identity) : String :=
  "PathIdentity \x7b filesystem: " ++ toString identity.filesystem ++ ", entry: " ++ toString identity.entry ++ " \x7d"

section

variable (formats : Formats)

def splitTransactionConflict (reason : String) (paths : List Name) : FormatError :=
  let shown := ((paths.map formats.display).insertionSort fun left right => left ≤ right).destutter (· ≠ ·)
  ioOther ("split output transaction requires manual recovery: " ++ reason ++
    "; no competing path was removed or overwritten: " ++ ", ".intercalate shown)

def withSplitCleanupErrors (error : FormatError) (cleanupErrors : List String) : FormatError :=
  if cleanupErrors = [] then error
  else .other (errorText error ++ "; split staging cleanup was incomplete or not durable: " ++ "; ".intercalate cleanupErrors)

def withPreservedSplitDebt (error : FormatError) (preserved : List PreservedSplitOutput) (context : String) : FormatError :=
  if preserved = [] then error
  else .other (errorText error ++ "; " ++ context ++ ": " ++
    ", ".intercalate (preserved.map fun entry => formats.display entry.path))

/-! ## Families -/

/-- `strip_suffix`. -/
def stripBack (back text : List Char) : Option (List Char) :=
  if back <:+ text then some (text.take (text.length - back.length)) else none

def managedSplitOutputName (baseName name : List Char) (includeRecovery : Bool) : Bool :=
  decide (name = baseName) || (splitVolumeName name).any (fun volume => decide (volume.1 = baseName)) ||
    nativeZipVolumeName baseName name || (nativeWimVolumeNumber baseName name).isSome ||
    includeRecovery && (sqzRecoverySuffix name).any fun suffix => decide (stripBack suffix.1 name = some baseName)

def splitStagingMatchesFinal (baseName stagedName finalName : List Char) : Bool :=
  (splitStagingOutputName stagedName).any fun stagedOutput =>
    decide (stagedOutput = finalName) || decide (finalName = baseName) && nativeZipVolumeName baseName stagedOutput

/-- An entry of the directory. -/
def entryAt (d : Identity) (name : Name) : Path := ⟨d, [name]⟩

/-- `same_path_entry`, for two names of the directory. -/
def samePathEntry (s : FileSystem) (d : Identity) (a b : Name) : Bool :=
  if a = b then true
  else if !entryNamesMayAlias a b then false
  else
    match s.find d a, s.find d b with
    | some i, some j => decide (i = j) && !((s.children d).contains a && (s.children d).contains b)
    | _, _ => false

/-- Whether a working name of the expected output stands for an entry. -/
def backupStands (s : FileSystem) (d : Identity) (expectedName : List Char) (backupName : List Char) (identity : Identity) :
    Bool :=
  match (stripFront ['.'] backupName).bind (rsplitOncePattern ".split-backup-".toList) with
  | none => false
  | some (_, suffix) =>
    match splitOncePattern ".tmp.".toList suffix with
    | none => false
    | some (transactionIdentity, _) =>
      let expectedBackup := osStr ('.' :: (expectedName ++ (".split-backup-".toList ++ (transactionIdentity ++
        (".tmp.".toList ++ expectedName)))))
      decide (s.identity (entryAt d (osStr backupName)) = .ok identity) && samePathEntry s d expectedBackup (osStr backupName)

def transactionBackupMatchesOutputFamily (s : FileSystem) (d : Identity) (base : Name) (originalName backupName : List Char)
    (identity : Identity) (includeRecovery : Bool) : Bool :=
  match toStr base with
  | none => false
  | some baseName =>
    if managedSplitOutputName baseName originalName includeRecovery then true
    else
      match (expectedManagedSplitOutputPath [base] originalName includeRecovery).bind fileName with
      | none => false
      | some expected =>
        if decide (s.identity (entryAt d (osStr originalName)) = .ok identity) && samePathEntry s d expected (osStr originalName) then
          true
        else (toStr expected).any fun expectedName => backupStands s d expectedName backupName identity

def validateManagedSplitOutput (path : Name) (metadata : Inode) : Except FormatError Unit :=
  match metadata.content with
  | .regular _ | .symlink _ => .ok ()
  | _ => .error (.unsupported ("managed split output must be a regular file or symlink: " ++ formats.display path))

/-- An entry of the directory, if it is a member of the family. -/
def managedEntry (s : FileSystem) (d : Identity) (base : Name) (includeRecovery : Bool) (name : Name) :
    Except FormatError (Option Name) :=
  match (toStr name).bind fun text => (expectedManagedSplitOutputPath [base] text includeRecovery).bind fileName with
  | none => .ok none
  | some expected =>
    if samePathEntry s d expected name then do
      let metadata ← ofErrno (s.metadata (entryAt d name))
      validateManagedSplitOutput formats name metadata
      .ok (some name)
    else .ok none

/-- The entry under the base name itself. -/
def managedBase (s : FileSystem) (d : Identity) (base : Name) : Except FormatError (List Name) :=
  match s.metadata (entryAt d base) with
  | .ok metadata => (validateManagedSplitOutput formats base metadata).map fun _ => [base]
  | .error .notFound => .ok []
  | .error e => .error (.ofIo (errnoError e))

def collectManagedSplitOutputs (s : FileSystem) (d : Identity) (base : Name) (includeRecovery : Bool) :
    Except FormatError (List Name) := do
  let first ← managedBase formats s d base
  let entries ← ofErrno (s.readDir ⟨d, []⟩)
  let members ← entries.mapM (managedEntry formats s d base includeRecovery)
  .ok (((first ++ members.filterMap id).insertionSort fun left right => left ≤ right).destutter (· ≠ ·))

/-! ## Bindings -/

/-- The time of the last modification, counted in nanoseconds from the epoch. -/
def modifiedField : Option Int → List UInt8
  | none => [0]
  | some time => sidedField (if 0 ≤ time then .ok ⟨time.toNat / 1000000000, time.toNat % 1000000000⟩
      else .error ⟨(-time).toNat / 1000000000, (-time).toNat % 1000000000⟩)

/-- What `path_state_digest` hashes of a regular file. -/
def fileState (identity : Identity) (node : Inode) : List UInt8 :=
  utf8Bytes "squallz-destination-entry-v1" ++ (0 :: (bytesField [] ++ (1 :: (leBytes 8 identity.filesystem ++
    (leBytes 8 identity.entry ++ (leBytes 8 node.len ++ ((if node.mode &&& 0o222 = 0 then 1 else 0) ::
    (modifiedField node.modified ++ (leBytes 4 node.mode ++ node.bytes)))))))))

def pathStateDigest (s : FileSystem) (d : Identity) (name : Name) : Except FormatError (Option (List UInt8)) :=
  match s.identity (entryAt d name) with
  | .error .notFound => .ok none
  | .error e => .error (.ofIo (errnoError e))
  | .ok identity =>
    if (s.inodes identity).isFile then .ok (some (formats.hash (fileState identity (s.inodes identity))))
    else (formats.otherState s identity).map some

def observedSplitIdentity (s : FileSystem) (d : Identity) (path : Name) : Except FormatError (Option Identity) :=
  match s.identity (entryAt d path) with
  | .ok identity => .ok (some identity)
  | .error .notFound => .ok none
  | .error e =>
    .error (splitTransactionConflict formats ("the path identity could not be inspected: " ++ (errnoError e).message) [path])

def ensureSplitIdentity (s : FileSystem) (d : Identity) (path : Name) (expected : Identity) (role : String) :
    Except FormatError Unit := do
  match ← observedSplitIdentity formats s d path with
  | some identity =>
    refuseIf (identity != expected)
      (splitTransactionConflict formats (role ++ " identity changed (" ++ identityText identity ++ ")") [path, path])
  | none => .error (splitTransactionConflict formats (role ++ " is missing") [path, path])

def ensureSplitStateBinding (s : FileSystem) (d : Identity) (path : Name) (expected : List UInt8) (role : String) :
    Except FormatError Unit :=
  match pathStateDigest formats s d path with
  | .ok (some actual) =>
    refuseIf (actual != expected) (splitTransactionConflict formats (role ++ " contents changed") [path])
  | .ok none => .error (splitTransactionConflict formats (role ++ " is missing") [path])
  | .error error =>
    .error (splitTransactionConflict formats (role ++ " contents could not be verified: " ++ errorText error) [path])

def ensureSplitMissing (s : FileSystem) (d : Identity) (path : Name) (role : String) : Except FormatError Unit := do
  match ← observedSplitIdentity formats s d path with
  | none => .ok ()
  | some identity =>
    .error (splitTransactionConflict formats (role ++ " is occupied (" ++ identityText identity ++ ")") [path, path])

/-! ## Working files -/

/-- `sibling_temp_path`: the first of its candidates that is vacant. -/
def siblingTempPath (s : FileSystem) (d : Identity) (process : Nat) (dest : Name) (purpose : String) :
    Except FormatError Name :=
  let candidate := fun attempt => osStr (siblingTempName (toStringLossy dest) purpose process attempt)
  match (List.range 1000).find? fun attempt => (s.find d (candidate attempt)).isNone with
  | some attempt => .ok (candidate attempt)
  | none => .error (.unsupported ("could not allocate a temporary path next to " ++ formats.display dest))

def removeBoundSplitStaging (process : Nat) (d : Identity) (path : Name) (file expected : Identity) : Files Unit := do
  .ofExcept (refuseIf (file != expected)
    (ioOther ("split staging handle identity changed and the path was left untouched: " ++ formats.display path)))
  let found ← .observe fun s => .ok (s.identity (entryAt d path))
  match found with
  | .ok identity =>
    if identity = expected then do
      let quarantine ← .observe fun s => siblingTempPath formats s d process path "split-cleanup"
      let moved ← .act (·.renameNoReplace (entryAt d path) (entryAt d quarantine))
      orFail moved
      .observe fun s => refuseIf (file != expected || s.identity (entryAt d quarantine) != .ok expected)
        (ioOther ("a competing split staging entry was isolated and left untouched for recovery: " ++
          formats.display quarantine))
      let removed ← .act (·.removeFile (entryAt d quarantine))
      orFailWith (fun e => .ofIo ⟨(errnoError e).kind, "could not remove isolated split staging " ++
        formats.display quarantine ++ ": " ++ (errnoError e).message⟩) removed
    else .fail (ioOther ("split staging identity changed and the competing path was left untouched: " ++ formats.display path))
  | .error .notFound => .ret ()
  | .error e => .fail (.ofIo ⟨(errnoError e).kind,
      "split staging ownership could not be verified and the path was left untouched: " ++ formats.display path ++ ": " ++
        (errnoError e).message⟩)

def removeStagedSplitOutputs (process : Nat) (d : Identity) : List StagedSplitOutput → Files (List String)
  | [] => .ret []
  | output :: rest => do
    let removed ← (removeBoundSplitStaging formats process d output.part output.file output.identity).attempt
    let errors ← removeStagedSplitOutputs process d rest
    match removed with
    | .ok _ => .ret errors
    | .error error => .ret (errorText error :: errors)

/-! ## The journal -/

def splitTransactionJournalPath (base : Name) : Name := utf8Bytes "." ++ base ++ utf8Bytes ".split-transaction.json"

/-- `ensure_journal_binding`. -/
def ensureJournalBinding (s : FileSystem) (d : Identity) (journal : OpenSplitTransaction) : Except FormatError Unit := do
  refuseIf (journal.file != journal.identity || s.identity (entryAt d journal.path) != .ok journal.identity)
    (splitTransactionConflict formats "the retained transaction journal no longer owns its published path" [journal.path])
  let bytes := (s.inodes journal.file).bytes
  refuseIf (decide (splitTransactionMaxBytes < bytes.length) || formats.hash bytes != journal.contentDigest)
    (splitTransactionConflict formats "the retained transaction journal changed after it was opened" [journal.path])

def splitTransactionRecord (transaction : ResolvedSplitTransaction) : Except FormatError SplitTransactionRecord := do
  let baseName ← StoredOsString.fromOsString transaction.base
  let backups ← transaction.backups.mapM fun entry => do
    let original ← StoredOsString.fromOsString entry.original
    let backup ← StoredOsString.fromOsString entry.backup
    .ok (⟨original, backup, entry.identity, entry.stateDigest⟩ : SplitJournalBackup)
  let outputs ← transaction.outputs.mapM fun entry => do
    let staged ← StoredOsString.fromOsString entry.staged
    let finalPath ← StoredOsString.fromOsString entry.finalPath
    .ok (⟨staged, finalPath, entry.identity, entry.stateDigest⟩ : SplitJournalOutput)
  .ok ⟨splitTransactionVersion, baseName, backups, outputs⟩

def journalTempName (path : Name) (process sequence : Nat) : Name :=
  utf8Bytes "." ++ path ++ utf8Bytes (".tmp-" ++ toString process ++ "-" ++ toString sequence)

/-- The new journal under its temporary name. -/
def stageSplitTransaction (d : Identity) (tempName : Name) (bytes : List UInt8) : Files Identity := do
  let created ← .act (·.create (entryAt d tempName) ⟨.regular [], 0o600, none, (0, 0)⟩)
  let file ← orFail created
  .observe fun s => refuseIf (s.identity (entryAt d tempName) != .ok file)
    (ioOther ("split transaction staging changed while it was reserved and was left untouched: " ++ formats.display tempName))
  .update (·.write file bytes)
  .observe fun s => refuseIf (s.identity (entryAt d tempName) != .ok file)
    (ioOther ("split transaction staging changed after writing and was left untouched: " ++ formats.display tempName))
  .ret file

def writeSplitTransactionWithState (process sequence : Nat) (d : Identity) (base : Name) (record : SplitTransactionRecord) :
    Files (Except SplitTransactionWriteFailure OpenSplitTransaction) := do
  let path := splitTransactionJournalPath base
  let bytes := formats.toVec record
  let tempName := journalTempName path process sequence
  let staged ← Prog.attempt do
    .observe fun s => match s.metadata (entryAt d path) with
      | .ok _ => .error (.io ⟨.alreadyExists, "split transaction journal already exists: " ++ formats.display path⟩)
      | .error .notFound => .ok ()
      | .error e => .error (.ofIo (errnoError e))
    .ofExcept (refuseIf (decide (splitTransactionMaxBytes < bytes.length))
      (.resourceLimitExceeded ("split transaction journal exceeds " ++ toString splitTransactionMaxBytes ++ " bytes")))
    stageSplitTransaction formats d tempName bytes
  match staged with
  | .error error => .ret (.error ⟨error, false⟩)
  | .ok file => do
    let moved ← .act (·.renameNoReplace (entryAt d tempName) (entryAt d path))
    match moved with
    | .error e => do
      let removed ← (removeBoundSplitStaging formats process d tempName file file).attempt
      match removed with
      | .ok _ => .ret (.error ⟨.ofIo (errnoError e), false⟩)
      | .error cleanup => .ret (.error ⟨withSplitCleanupErrors (.ofIo (errnoError e)) [errorText cleanup], false⟩)
    | .ok _ => do
      let published ← .observe fun s => .ok (s.identity (entryAt d path) == .ok file)
      if published then .ret (.ok ⟨path, file, file, formats.hash bytes, record⟩)
      else .ret (.error ⟨ioOther ("published split transaction journal no longer matches its writer-owned staging file " ++
        "and was left for recovery: " ++ formats.display path), true⟩)

def openSplitTransaction (s : FileSystem) (d : Identity) (base : Name) : Except FormatError (Option OpenSplitTransaction) :=
  let path := splitTransactionJournalPath base
  match s.identity (entryAt d path) with
  | .error .notFound => .ok none
  | .error e => .error (.ofIo (errnoError e))
  | .ok file => do
    refuseIf (!(s.inodes file).isFile)
      (.unsupported ("split transaction journal must be a regular file: " ++ formats.display path))
    let bytes := (s.inodes file).bytes
    refuseIf (decide (splitTransactionMaxBytes < bytes.length))
      (.resourceLimitExceeded ("split transaction journal exceeds " ++ toString splitTransactionMaxBytes ++ " bytes"))
    match formats.fromSlice bytes with
    | .error message => .error (.io ⟨.invalidData, message⟩)
    | .ok record => .ok (some ⟨path, file, file, formats.hash bytes, record⟩)

/-! ## Resolving the journal -/

def checkedSplitJournalComponent (name : StoredOsString) : Except FormatError Name := do
  let name ← name.toOsString
  refuseIf (!isSingleComponent name) (.unsupported "split transaction journal path is not a single file name")
  .ok name

/-- `to_str`, with the error for a name that is not UTF-8. -/
def utf8Name (name : Name) (role : String) : Except FormatError (List Char) :=
  match toStr name with
  | some text => .ok text
  | none => .error (.unsupported ("split transaction " ++ role ++ " name must be UTF-8"))

/-- One turn of the loop over the backups, with those resolved before. -/
def resolveBackup (s : FileSystem) (d : Identity) (base : Name) (includeRecovery : Bool) (done : List ResolvedSplitBackup)
    (entry : SplitJournalBackup) : Except FormatError ResolvedSplitBackup := do
  let original ← checkedSplitJournalComponent entry.original
  let backup ← checkedSplitJournalComponent entry.backup
  let originalText ← utf8Name original "output"
  let backupText ← utf8Name backup "backup"
  refuseIf (!transactionBackupMatchesOutputFamily s d base originalText backupText entry.identity includeRecovery ||
      splitTransactionOutputName backupText "split-backup" != some originalText ||
      (done.map (·.original)).contains original || (done.map (·.backup)).contains backup ||
      (done.map (·.identity)).contains entry.identity)
    (.unsupported "split transaction journal contains an invalid or duplicate backup")
  .ok ⟨original, backup, entry.identity, entry.stateDigest⟩

def resolveBackups (s : FileSystem) (d : Identity) (base : Name) (includeRecovery : Bool) :
    List ResolvedSplitBackup → List SplitJournalBackup → Except FormatError (List ResolvedSplitBackup)
  | done, [] => .ok done
  | done, entry :: rest => do
    let backup ← resolveBackup s d base includeRecovery done entry
    resolveBackups s d base includeRecovery (done ++ [backup]) rest

/-- One turn of the loop over the outputs, with those resolved before. -/
def resolveOutput (baseText : List Char) (includeRecovery : Bool) (done : List ResolvedSplitOutput)
    (entry : SplitJournalOutput) : Except FormatError ResolvedSplitOutput := do
  let staged ← checkedSplitJournalComponent entry.staged
  let finalPath ← checkedSplitJournalComponent entry.finalPath
  let stagedText ← utf8Name staged "staging"
  let finalText ← utf8Name finalPath "output"
  refuseIf (!managedSplitOutputName baseText finalText includeRecovery ||
      !splitStagingMatchesFinal baseText stagedText finalText ||
      (done.map (·.staged)).contains staged || (done.map (·.finalPath)).contains finalPath ||
      (done.map (·.identity)).contains entry.identity)
    (.unsupported "split transaction journal contains an invalid or duplicate staged output")
  .ok ⟨staged, finalPath, entry.identity, entry.stateDigest⟩

def resolveOutputs (baseText : List Char) (includeRecovery : Bool) :
    List ResolvedSplitOutput → List SplitJournalOutput → Except FormatError (List ResolvedSplitOutput)
  | done, [] => .ok done
  | done, entry :: rest => do
    let output ← resolveOutput baseText includeRecovery done entry
    resolveOutputs baseText includeRecovery (done ++ [output]) rest

/-- `resolve_split_transaction`, for a recorded base name that is a single component. -/
def resolveSplitTransaction (s : FileSystem) (d : Identity) (base : Name) (record : SplitTransactionRecord) :
    Except FormatError ResolvedSplitTransaction := do
  refuseIf (record.version != splitTransactionVersion)
    (.unsupported ("unsupported split transaction journal version: " ++ toString record.version))
  let baseName ← record.baseName.toOsString
  refuseIf (!samePathEntry s d (splitTransactionJournalPath base) (splitTransactionJournalPath baseName))
    (.unsupported "split transaction journal belongs to another output family")
  let baseText ← utf8Name baseName "base"
  let includeRecovery := isSqzBase [baseName]
  let backups ← resolveBackups s d baseName includeRecovery [] record.backups
  let outputs ← resolveOutputs baseText includeRecovery [] record.outputs
  refuseIf (outputs.isEmpty || (backups.map (·.identity)).any (outputs.map (·.identity)).contains)
    (.unsupported "split transaction journal contains ambiguous output identities")
  .ok ⟨baseName, includeRecovery, backups, outputs⟩

/-! ## The moves -/

/-- The identity of the output that is installed at a path. -/
def installedIdentity (transaction : ResolvedSplitTransaction) (path : Name) : Option Identity :=
  (transaction.outputs.reverse.find? fun entry => decide (entry.finalPath = path)).map (·.identity)

/-- One turn of the loop that moves the previous outputs to their backups. -/
def resumeBackup (d : Identity) (transaction : ResolvedSplitTransaction) (journal : OpenSplitTransaction)
    (entry : ResolvedSplitBackup) : Files Unit := do
  let original ← .observe fun s => observedSplitIdentity formats s d entry.original
  let backup ← .observe fun s => observedSplitIdentity formats s d entry.backup
  let conflict := fun reason => splitTransactionConflict formats reason [entry.original, entry.backup]
  match original, backup with
  | some original, none =>
    if original = entry.identity then do
      .observe fun s => ensureSplitStateBinding formats s d entry.original entry.stateDigest "previous output"
      .observe fun s => ensureJournalBinding formats s d journal
      let moved ← .act (·.renameNoReplace (entryAt d entry.original) (entryAt d entry.backup))
      orFailWith (fun e => conflict ("the previous output could not be backed up: " ++ (errnoError e).message)) moved
      .observe fun s => ensureSplitIdentity formats s d entry.backup entry.identity "previous output backup"
      .observe fun s => ensureSplitStateBinding formats s d entry.backup entry.stateDigest "previous output backup"
      .observe fun s => ensureSplitMissing formats s d entry.original "previous output path"
    else .fail (conflict ("the output path is occupied by another identity (" ++ identityText original ++ ")"))
  | none, some backup =>
    if backup = entry.identity then
      .observe fun s => ensureSplitStateBinding formats s d entry.backup entry.stateDigest "previous output backup"
    else .fail (conflict ("the backup path is occupied by another identity (" ++ identityText backup ++ ")"))
  | some original, some backup =>
    if original = entry.identity ∧ backup = entry.identity then
      .fail (conflict "the previous output exists at both its original and backup paths")
    else if some original = installedIdentity transaction entry.original ∧ backup = entry.identity then
      .observe fun s => ensureSplitStateBinding formats s d entry.backup entry.stateDigest "previous output backup"
    else .fail (conflict ("an output or backup identity changed (" ++ identityText original ++ ", " ++ identityText backup ++ ")"))
  | none, none => .fail (conflict "the previous output and its transaction backup are both missing")

/-- A backup is bound again. -/
def rebindBackup (d : Identity) (entry : ResolvedSplitBackup) : Files Unit := do
  .observe fun s => ensureSplitIdentity formats s d entry.backup entry.identity "previous output backup"
  .observe fun s => ensureSplitStateBinding formats s d entry.backup entry.stateDigest "previous output backup"

/-- One turn of the loop that installs the staged outputs. -/
def resumeOutput (d : Identity) (journal : OpenSplitTransaction) (entry : ResolvedSplitOutput) : Files Unit := do
  let staged ← .observe fun s => observedSplitIdentity formats s d entry.staged
  let final ← .observe fun s => observedSplitIdentity formats s d entry.finalPath
  let conflict := fun reason => splitTransactionConflict formats reason [entry.staged, entry.finalPath]
  match staged, final with
  | some staged, none =>
    if staged = entry.identity then do
      .observe fun s => ensureSplitStateBinding formats s d entry.staged entry.stateDigest "staged split output"
      .observe fun s => ensureJournalBinding formats s d journal
      let moved ← .act (·.renameNoReplace (entryAt d entry.staged) (entryAt d entry.finalPath))
      orFailWith (fun e => conflict ("the staged output could not be installed: " ++ (errnoError e).message)) moved
      .observe fun s => ensureSplitIdentity formats s d entry.finalPath entry.identity "installed split output"
      .observe fun s => ensureSplitStateBinding formats s d entry.finalPath entry.stateDigest "installed split output"
      .observe fun s => ensureSplitMissing formats s d entry.staged "split staging path"
    else .fail (conflict ("the staging path is occupied by another identity (" ++ identityText staged ++ ")"))
  | none, some final =>
    if final = entry.identity then
      .observe fun s => ensureSplitStateBinding formats s d entry.finalPath entry.stateDigest "installed split output"
    else .fail (conflict ("the final path is occupied by another identity (" ++ identityText final ++ ")"))
  | some staged, some final =>
    if staged = entry.identity ∧ final = entry.identity then
      .fail (conflict "the new output exists at both its staging and final paths")
    else .fail (conflict ("a staged or final output identity changed (" ++ identityText staged ++ ", " ++ identityText final ++ ")"))
  | none, none => .fail (conflict "the staged and final output are both missing")

/-- The last look at a backup. -/
def verifyBackup (d : Identity) (transaction : ResolvedSplitTransaction) (entry : ResolvedSplitBackup) : Files Unit := do
  rebindBackup formats d entry
  if (installedIdentity transaction entry.original).isSome then .ret ()
  else .observe fun s => ensureSplitMissing formats s d entry.original "retired previous output path"

/-- The last look at an output. -/
def verifyOutput (d : Identity) (entry : ResolvedSplitOutput) : Files Unit := do
  .observe fun s => ensureSplitIdentity formats s d entry.finalPath entry.identity "installed split output"
  .observe fun s => ensureSplitStateBinding formats s d entry.finalPath entry.stateDigest "installed split output"
  .observe fun s => ensureSplitMissing formats s d entry.staged "split staging path"

/-- A member of the completed family is one of the outputs. -/
def ensureCompletedMember (s : FileSystem) (d : Identity) (transaction : ResolvedSplitTransaction) (path : Name) :
    Except FormatError Unit :=
  match transaction.outputs.find? fun output => samePathEntry s d output.finalPath path with
  | none =>
    .error (splitTransactionConflict formats "the completed output family contains an unexpected managed member"
      [transaction.base, path])
  | some output => do
    ensureSplitIdentity formats s d path output.identity "installed split output"
    ensureSplitStateBinding formats s d path output.stateDigest "installed split output"

def ensureCompletedFamily (s : FileSystem) (d : Identity) (transaction : ResolvedSplitTransaction) :
    Except FormatError Unit :=
  match collectManagedSplitOutputs formats s d transaction.base transaction.includeRecovery with
  | .error error =>
    .error (splitTransactionConflict formats ("the completed output family could not be enumerated: " ++ errorText error)
      [transaction.base])
  | .ok managed => do
    refuseIf (managed.length != transaction.outputs.length)
      (splitTransactionConflict formats "the completed output family contains a missing or unexpected managed member"
        [transaction.base])
    managed.forM (ensureCompletedMember formats s d transaction)

def preservedOutput (entry : ResolvedSplitBackup) : PreservedSplitOutput := ⟨entry.backup, entry.identity, entry.stateDigest⟩

/-- `resume_with`, for the move of the file system. -/
def resume (d : Identity) (transaction : ResolvedSplitTransaction) (journal : OpenSplitTransaction) :
    Files (List PreservedSplitOutput) := do
  .observe fun s => ensureJournalBinding formats s d journal
  transaction.backups.forM (resumeBackup formats d transaction journal)
  transaction.backups.forM (rebindBackup formats d)
  transaction.outputs.forM (resumeOutput formats d journal)
  .observe fun s => ensureJournalBinding formats s d journal
  .ofExcept (refuseIf transaction.outputs.isEmpty (.other "split transaction has no outputs"))
  transaction.backups.forM (verifyBackup formats d transaction)
  transaction.outputs.forM (verifyOutput formats d)
  .observe fun s => ensureJournalBinding formats s d journal
  .observe fun s => ensureCompletedFamily formats s d transaction
  .ret (transaction.backups.map preservedOutput)

/-! ## Completion -/

def isVerifiedBackup (s : FileSystem) (d : Identity) (entry : ResolvedSplitBackup) : Bool :=
  decide (s.identity (entryAt d entry.backup) = .ok entry.identity) &&
    match pathStateDigest formats s d entry.backup with
    | .ok (some actual) => decide (actual = entry.stateDigest)
    | _ => false

def verifiedBackups (s : FileSystem) (d : Identity) (transaction : ResolvedSplitTransaction) : List PreservedSplitOutput :=
  (transaction.backups.filter (isVerifiedBackup formats s d)).map preservedOutput

/-- `OpenSplitTransaction::clear`. -/
def clear (process : Nat) (d : Identity) (journal : OpenSplitTransaction) : Files Unit :=
  Prog.mapError (fun error => .other ("could not securely clear split transaction journal " ++ formats.display journal.path ++
    ": " ++ errorText error)) (removeBoundSplitStaging formats process d journal.path journal.file journal.identity)

def CompletionOrigin.context : CompletionOrigin → String
  | .recovery => "the interrupted split transaction was recovered and its previous outputs remain at"
  | .newPublication => "the new split output set was installed and its previous outputs remain at"

def finish (process : Nat) (d : Identity) (transaction : ResolvedSplitTransaction) (journal : OpenSplitTransaction)
    (origin : CompletionOrigin) : Files (List PreservedSplitOutput) := do
  let resumed ← (resume formats d transaction journal).attempt
  match resumed with
  | .error error =>
    .observe fun s => .error (withPreservedSplitDebt formats error (verifiedBackups formats s d transaction)
      "verified previous outputs currently remain at")
  | .ok preserved => do
    let cleared ← (clear formats process d journal).attempt
    match cleared with
    | .error error => .fail (withPreservedSplitDebt formats error preserved origin.context)
    | .ok _ => .ret preserved

def recover (process : Nat) (d : Identity) (base : Name) : Files (List PreservedSplitOutput) := do
  let opened ← .observe fun s => openSplitTransaction formats s d base
  match opened with
  | none => .ret []
  | some journal => do
    let transaction ← .observe fun s => resolveSplitTransaction s d base journal.record
    finish formats process d transaction journal .recovery

/-! ## A new publication -/

/-- One entry of `snapshot_managed_split_outputs`. -/
def snapshotManagedSplitOutput (s : FileSystem) (d : Identity) (base path : Name) :
    Except FormatError ManagedSplitOutputSnapshot := do
  let changed := ioOther ("destination changed after overwrite confirmation: " ++ formats.display base)
  match s.identity (entryAt d path) with
  | .error .notFound => .error changed
  | .error e => .error (.ofIo (errnoError e))
  | .ok identity =>
    match ← pathStateDigest formats s d path with
    | none => .error changed
    | some stateDigest => do
      refuseIf (!(s.inodes identity).isFile) changed
      .ok ⟨path, identity, .fromMetadata (s.inodes identity), stateDigest⟩

def snapshotManagedSplitOutputs (s : FileSystem) (d : Identity) (base : Name) (includeRecovery : Bool) :
    Except FormatError (List ManagedSplitOutputSnapshot) := do
  let managed ← collectManagedSplitOutputs formats s d base includeRecovery
  managed.mapM (snapshotManagedSplitOutput formats s d base)

def validateStagedSplitOutput (s : FileSystem) (d : Identity) (output : StagedSplitOutput) : Except FormatError Unit := do
  let metadata ← ofErrno (s.metadata (entryAt d output.part))
  refuseIf (!metadata.isFile || output.file != output.identity || s.identity (entryAt d output.part) != .ok output.identity)
    (.unsupported ("split staging output changed after writing or is not a regular file: " ++ formats.display output.part))

def bindBackup (s : FileSystem) (d : Identity) (process : Nat) (entry : ManagedSplitOutputSnapshot) :
    Except FormatError ResolvedSplitBackup := do
  let backup ← siblingTempPath formats s d process entry.path "split-backup"
  .ok ⟨entry.path, backup, entry.identity, entry.stateDigest⟩

def bindOutput (s : FileSystem) (d : Identity) (output : StagedSplitOutput) : Except FormatError ResolvedSplitOutput := do
  refuseIf (output.file != output.identity || s.identity (entryAt d output.part) != .ok output.identity)
    (splitTransactionConflict formats "the staged split output was replaced after writing" [output.part])
  match ← pathStateDigest formats s d output.part with
  | none =>
    .error (splitTransactionConflict formats "the staged split output disappeared while it was bound" [output.part])
  | some stateDigest => .ok ⟨output.part, output.finalPath, output.identity, stateDigest⟩

/-- What `prepare_new` reads before it writes the journal. -/
def prepared (s : FileSystem) (d : Identity) (process : Nat) (base : Name) (staged : List StagedSplitOutput)
    (managed : List ManagedSplitOutputSnapshot) : Except FormatError (ResolvedSplitTransaction × SplitTransactionRecord) := do
  staged.forM (validateStagedSplitOutput formats s d)
  let backups ← managed.mapM (bindBackup formats s d process)
  let outputs ← staged.mapM (bindOutput formats s d)
  let record ← splitTransactionRecord ⟨base, isSqzBase [base], backups, outputs⟩
  let transaction ← resolveSplitTransaction s d base record
  .ok (transaction, record)

def prepareNew (process sequence : Nat) (d : Identity) (base : Name) (staged : List StagedSplitOutput)
    (managed : List ManagedSplitOutputSnapshot) : Files (ResolvedSplitTransaction × OpenSplitTransaction) := do
  let preparation ← .observe fun s => .ok (prepared formats s d process base staged managed)
  match preparation with
  | .error error => do
    let errors ← removeStagedSplitOutputs formats process d staged
    .fail (withSplitCleanupErrors error errors)
  | .ok (transaction, record) => do
    let written ← writeSplitTransactionWithState formats process sequence d base record
    match written with
    | .ok journal => .ret (transaction, journal)
    | .error failure =>
      if failure.journalPublished then
        .fail (.other (errorText failure.error ++ "; writer-owned split staging was retained because the transaction journal " ++
          "may already be durable"))
      else do
        let errors ← removeStagedSplitOutputs formats process d staged
        .fail (withSplitCleanupErrors failure.error errors)

def publish (process sequence : Nat) (d : Identity) (base : Name) (staged : List StagedSplitOutput)
    (managed : List ManagedSplitOutputSnapshot) : Files (List PreservedSplitOutput) := do
  let opened ← prepareNew formats process sequence d base staged managed
  finish formats process d opened.1 opened.2 .newPublication

end

end Squallz.Publication
