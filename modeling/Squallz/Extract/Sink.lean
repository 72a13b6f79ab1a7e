/-
The extraction sink: admission and limits, conflicts at the destination, files that are staged and published, and links and
directories.
-/
import Squallz.Extract.Environment
import Squallz.Extract.Links
import Squallz.Destination.Names

namespace Squallz.Extract

open Squallz.Api Squallz.System Squallz.Destination

/-! ## Limits -/

/-- Entries smaller than this never trigger the check of the compression ratio. -/
def ratioCheckMinSize : UInt64 := 1048576

def saturatingAdd (a b : UInt64) : UInt64 := .ofNat (min (a.toNat + b.toNat) (2 ^ 64 - 1))

def saturatingSub (a b : UInt64) : UInt64 := .ofNat (a.toNat - b.toNat)

namespace LimitsAccountant

def new (limits : SafetyLimits) : LimitsAccountant := ⟨limits, 0, 0⟩

/-- The ratio of some bytes to the compressed size of an entry, where that is known and the bytes are many. -/
def ratioOf (entry : EntryMeta) (bytes : UInt64) : Option UInt64 :=
  if ratioCheckMinSize < bytes then entry.compressedSize.map fun compressed => bytes / max compressed 1 else none

def exceeds (accountant : LimitsAccountant) (ratio : UInt64) : Bool :=
  accountant.limits.maxCompressionRatio.toUInt64 < ratio

/-- `check_entry`. -/
def checkEntry (accountant : LimitsAccountant) (entry : EntryMeta) : Except FormatError Unit × LimitsAccountant :=
  let accountant := { accountant with entries := accountant.entries + 1 }
  if accountant.limits.maxEntries < accountant.entries then
    (.error (.resourceLimitExceeded s!"entry count exceeds limit of {accountant.limits.maxEntries}"), accountant)
  else
    match (ratioOf entry entry.size).filter accountant.exceeds with
    | some ratio =>
      (.error (.resourceLimitExceeded <| s!"entry '{entry.path.display}' compression ratio {ratio} exceeds limit of " ++
        s!"{accountant.limits.maxCompressionRatio}"), accountant)
    | none => (.ok (), accountant)

/-- `add_output_bytes`. -/
def addOutputBytes (accountant : LimitsAccountant) (n : UInt64) : Except FormatError Unit × LimitsAccountant :=
  let accountant := { accountant with outputBytes := saturatingAdd accountant.outputBytes n }
  if accountant.limits.maxOutputBytes < accountant.outputBytes then
    (.error (.resourceLimitExceeded s!"output bytes exceed limit of {accountant.limits.maxOutputBytes}"), accountant)
  else (.ok (), accountant)

/-- `add_entry_output_bytes`, with the bytes of the entry so far. -/
def addEntryOutputBytes (accountant : LimitsAccountant) (entry : EntryMeta) (entryOutputBytes n : UInt64) :
    Except FormatError UInt64 × LimitsAccountant :=
  let entryOutputBytes := saturatingAdd entryOutputBytes n
  match accountant.addOutputBytes n with
  | (.error e, accountant) => (.error e, accountant)
  | (.ok (), accountant) =>
    match (ratioOf entry entryOutputBytes).filter accountant.exceeds with
    | some ratio =>
      (.error (.resourceLimitExceeded <| s!"entry '{entry.path.display}' observed compression ratio {ratio} exceeds " ++
        s!"limit of {accountant.limits.maxCompressionRatio}"), accountant)
    | none => (.ok entryOutputBytes, accountant)

end LimitsAccountant

/-- `crosses_created_symlink`: a created link stands properly above a path. -/
def crossesCreatedSymlink (path : DestPath) (symlinks : List DestPath) : Bool :=
  (List.range path.length).any fun n => symlinks.contains (path.take n)

/-! ## Paths -/

/-- `join` of a name that may be any path. -/
def joinText (path : DestPath) (name : String) : DestPath :=
  let parts := ((name.toList.splitOn '/').filter fun part => part ≠ [] ∧ part ≠ ['.']).map String.ofList
  if name.toList.head? = some '/' then parts else path ++ parts

def baseName (path : DestPath) : List Char := (path.getLast?.getD "").toList

/-- A name with a number before its extension. -/
def numberedName (path : DestPath) (n : Nat) : String :=
  let stem := String.ofList (stemOf '.' (baseName path))
  match extensionOf '.' (baseName path) with
  | some extension => s!"{stem} ({n}).{String.ofList extension}"
  | none => s!"{stem} ({n})"

def startsWith (path start : DestPath) : Bool := start.isPrefixOf path

/-- The path in an error. -/
def displayPath (path : DestPath) : String := "/" ++ joinPath path

def bestEffortRecoverable : FormatError → Bool
  | .io _ | .corruptArchive _ | .other _ => true
  | _ => false

section

variable {W H I : Type} (env : Environment W H I) (opts : ExtractOptions)

def checkpoint : Run W H I Unit := callRes id env.checkpoint

/-! ## Conflicts -/

/-- The loop of `renamed_sibling`, for as many numbers as there are. -/
def renamedSiblingFrom (target : DestPath) : Nat → Nat → Run W H I DestPath
  | 0, _ => .fail (.panicked "attempt to add with overflow")
  | left + 1, n => do
    let candidate := target.dropLast ++ [numberedName target n]
    match ← tryCall (env.symlinkMetadata candidate) with
    | .error _ => pure candidate
    | .ok _ => renamedSiblingFrom target left (n + 1)

def renamedSibling (target : DestPath) : Run W H I DestPath := renamedSiblingFrom env target (2 ^ 64 - 1) 1

def resolveConflictPath (target : DestPath) (entry : EntryMeta) : Run W H I (Option ResolvedOutput) := do
  match ← tryCall (env.symlinkMetadata target) with
  | .error error =>
    if error.kind = .notFound then pure (some ⟨target, opts.overwrite = .overwrite, .created⟩)
    else .fail (.raised (.ofIo error))
  | .ok _ =>
    match opts.overwrite with
    | .overwrite => pure (some ⟨target, true, .replaced⟩)
    | .skip => pure none
    | .renameBoth => do
      let path ← renamedSibling env target
      pure (some ⟨path, false, .renamed⟩)
    | .ask =>
      if opts.resolver then do
        let decision ← (.step (fun s => { s with world := (env.resolve target entry s.world).2 }) fun s =>
          .ret (env.resolve target entry s.world).1 : Run W H I ConflictDecision)
        match decision with
        | .overwrite => pure (some ⟨target, true, .replaced⟩)
        | .skip => pure none
        | .rename name => pure (some ⟨joinText target.dropLast name, false, .renamed⟩)
        | .abort => .fail (.raised .cancelled)
      else pure none

/-! ## Staying inside the destination -/

def ensureExistingPathInside (canonicalDest path reportedPath : DestPath) : Run W H I Unit := do
  let canonical ← call (env.canonicalize path)
  if startsWith canonical canonicalDest then pure ()
  else .fail (.raised (.symlinkBreakout (displayPath reportedPath)))

def noExistingAncestor : Fault := .raised (.other "extraction target has no existing ancestor")

/-- The loop of `ensure_parent_inside` up to an ancestor that exists: that ancestor, and the missing names below it. -/
def existingAncestor : Nat → DestPath → List String → Run W H I (DestPath × List String)
  | 0, _, _ => .fail noExistingAncestor
  | left + 1, path, missing => do
    match ← tryCall (env.symlinkMetadata path) with
    | .ok _ => pure (path, missing)
    | .error error =>
      if error.kind = .notFound then
        match path.getLast? with
        | some name => if name = ".." then .fail noExistingAncestor else existingAncestor left path.dropLast (name :: missing)
        | none => .fail noExistingAncestor
      else .fail (.raised (.ofIo error))

/-- The loop that creates the missing directories. -/
def createMissing (canonicalDest path : DestPath) : DestPath → List String → Run W H I Unit
  | _, [] => pure ()
  | parent, name :: missing => do
    let parent := parent ++ [name]
    match ← tryCall (env.createDir parent) with
    | .ok () => pure ()
    | .error error => if error.kind = .alreadyExists then pure () else .fail (.raised (.ofIo error))
    ensureExistingPathInside env canonicalDest parent path
    createMissing canonicalDest path parent missing

def ensureParentInside (canonicalDest path : DestPath) : Run W H I Unit := do
  let (ancestor, missing) ← existingAncestor env path.length path.dropLast []
  ensureExistingPathInside env canonicalDest ancestor path
  createMissing env canonicalDest path ancestor missing

def validateExistingDirectory (canonicalDest path : DestPath) (kind : FileKind) : Run W H I Unit :=
  match kind with
  | .symlink => .fail (.raised (.symlinkBreakout (displayPath path)))
  | .dir => ensureExistingPathInside env canonicalDest path path
  | _ => call (env.createDir path)

def ensureDirectoryInside (canonicalDest path : DestPath) : Run W H I Unit := do
  ensureParentInside env canonicalDest path
  match ← tryCall (env.symlinkMetadata path) with
  | .ok kind => validateExistingDirectory env canonicalDest path kind
  | .error error =>
    if error.kind = .notFound then
      match ← tryCall (env.createDir path) with
      | .ok () => ensureExistingPathInside env canonicalDest path path
      | .error error =>
        if error.kind = .alreadyExists then do
          let kind ← call (env.symlinkMetadata path)
          validateExistingDirectory env canonicalDest path kind
        else .fail (.raised (.ofIo error))
    else .fail (.raised (.ofIo error))

/-! ## Staged outputs -/

def tempPathAttempts : Nat := 1024

inductive PendingOutputKind
  | file | symbolicLink
deriving DecidableEq

/-- The loop of `create_pending_value`. -/
def createPendingValue {α : Type} (target : DestPath) (create : DestPath → Call W IoError α) :
    Nat → Run W H I (DestPath × α)
  | 0 => .fail (.raised (.other "could not allocate an extraction staging file"))
  | left + 1 => do
    let sequence ← nextSequence
    let path := target.dropLast ++ [s!".squallz-extract-{env.processId}-{sequence}.tmp"]
    match ← tryCall (create path) with
    | .ok value => pure (path, value)
    | .error error =>
      if error.kind = .alreadyExists then createPendingValue target create left else .fail (.raised (.ofIo error))

/-- `PendingOutput::create`, for decoded data of an entry or for a copy. -/
def createPending (target : DestPath) (decoded : Option EntryMeta) : Run W H I (DestPath × H) := do
  let (path, handle) ← createPendingValue env target env.createNew tempPathAttempts
  log (.staged path decoded)
  pure (path, handle)

def hardLinkPending (source target : DestPath) : Run W H I DestPath := do
  let (path, ()) ← createPendingValue env target (env.hardLink source) tempPathAttempts
  pure path

/-- `drop` of an unfinished output. -/
def discard (path : DestPath) : Run W H I Unit := do
  log (.discarded path)
  let _ ← tryCall (env.removeFile path)
  pure ()

/-- `commit_using`, without its destructor. -/
def commit (staged target : DestPath) (replaceExisting : Bool) (kind : PendingOutputKind) : Run W H I Unit := do
  if replaceExisting then do
    call (env.rename staged target)
    log (.published staged target)
  else if kind ≠ .file then do
    call (env.movePathNoReplace staged target)
    log (.published staged target)
  else
    match ← tryCall (env.hardLink staged target) with
    | .ok () => do
      log (.published staged target)
      call (env.removeFile staged)
    | .error error =>
      if error.kind = .alreadyExists then .fail (.raised (.ofIo error))
      else do
        -- the empty file reserves the name until the rename
        let _ ← call (env.createNew target)
        onFailure (do
          let _ ← tryCall (env.removeFile target)
          pure ()) (call (env.rename staged target))
        log (.published staged target)

/-! ## Metadata -/

def restoreModified (handle : H) (modified : Option SystemTime) : Run W H I Unit :=
  match modified with
  | some modified => call (env.setModified handle modified)
  | none => pure ()

/-- `restore_permissions`: a refusal is ignored. -/
def restorePermissions (handle : H) (mode : Option UInt32) : Run W H I Unit := do
  match mode.filter fun _ => opts.restorePermissions with
  | some mode => do
    let _ ← tryCall (env.setPermissions handle (mode &&& 0o7777))
    pure ()
  | none => pure ()

def restoreFile (handle : H) (entry : EntryMeta) : Run W H I Unit := do
  restoreModified env handle entry.modified
  restorePermissions env opts handle entry.unixMode

def destinationChanged (path : DestPath) : Fault :=
  .raised (.io ⟨.other, s!"destination changed after overwrite confirmation: {displayPath path}"⟩)

def restoreSymlink (staged destination : DestPath) (modified : Option SystemTime) : Run W H I Unit :=
  match modified with
  | none => pure ()
  | some modified => do
    let handle ← call (env.openSymlink staged)
    if ← call (env.isSymlink handle) then call (env.setSymlinkModified handle modified)
    else .fail (destinationChanged destination)

namespace DeferredDirectories

def new (root : DestPath) : Run W H I (DeferredDirectories H I) := do
  let handle ← call (env.openRoot root)
  pure ⟨handle, root, []⟩

variable [DecidableEq I]

def record (directories : DeferredDirectories H I) (relative : DestPath) (entry : EntryMeta) :
    Run W H I (DeferredDirectories H I) := do
  let handle ← call (env.openRelative directories.root relative)
  let identity ← call (env.identity handle)
  let others := directories.pending.filter (·.1 ≠ identity)
  pure { directories with pending := (identity, ⟨relative, entry.path, entry.modified, entry.unixMode⟩) :: others }

/-- Children come first, and paths of one depth in their order. -/
def before (a b : I × DirectoryMetadata) : Bool :=
  if a.2.relative.length = b.2.relative.length then a.2.relative ≤ b.2.relative
  else b.2.relative.length ≤ a.2.relative.length

def restore (directories : DeferredDirectories H I) : List (I × DirectoryMetadata) → Run W H I Unit
  | [] => pure ()
  | (expected, metadata) :: pending => do
    checkpoint env
    report ⟨0, 0, metadata.entry, none⟩
    checkpoint env
    let handle ← call (env.openRelative directories.root metadata.relative)
    let identity ← call (env.identity handle)
    if identity ≠ expected then .fail (destinationChanged (directories.rootPath ++ metadata.relative))
    else do
      restoreModified env handle metadata.modified
      restorePermissions env opts handle metadata.mode
      restore directories pending

def finish (directories : DeferredDirectories H I) : Run W H I Unit :=
  restore env opts directories (directories.pending.mergeSort before)

end DeferredDirectories

end

end Squallz.Extract
