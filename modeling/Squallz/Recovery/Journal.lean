/-
The journal of a private PAR2 repair workspace: its records, their validation, and the checks that read
the file system.
-/
import Squallz.Api.Entry
import Squallz.Core.Files

namespace Squallz.Recovery

open Squallz.Api Squallz.Core Squallz.System

def journalVersion : Nat := 1
def journalMaxBytes : Nat := 16 * 1024
def journalPrefix : String := ".squallz-par2-repair-"
def journalSuffix : String := ".json"
def workspaceSuffix : String := ".work"
def ownerSuffix : String := ".owner"
def digestDomain : List UInt8 := utf8Bytes "squallz-par2-repair-workspace-journal-v1" ++ [0]

/-! ## Data -/

inductive WorkspaceState
  | reserved (ownerToken : String)
  | active (workspaceIdentity ownerIdentity : Identity) (ownerToken : String)
deriving DecidableEq

structure JournalRecord where
  version : Nat
  targetKey : String
  parentIdentity : Identity
  workspace : String
  owner : String
  workspaceState : WorkspaceState
deriving DecidableEq

structure JournalDocument where
  record : JournalRecord
  digest : String
deriving DecidableEq

/-- What is used of `serde_json` and of `blake3`. -/
structure Formats where
  recordToVec : JournalRecord → List UInt8
  documentToVec : JournalDocument → List UInt8
  fromSlice : List UInt8 → Except String JournalDocument
  toHex : List UInt8 → String

structure OpenJournal where
  path : Path
  file : Identity
  identity : Identity
  record : JournalRecord
deriving DecidableEq

structure WorkspaceDebt where
  journal : Path
  workspace : Option Path
  reason : String
deriving DecidableEq

/-- The directory that the output's parent canonicalizes to, with the handle on it and the identity that was
read from the handle, and the key of the output. -/
structure RepairWorkspaceTarget where
  parent : Identity
  parentFile : Identity
  parentIdentity : Identity
  key : String
deriving DecidableEq

structure RepairWorkspace where
  target : RepairWorkspaceTarget
  journal : OpenJournal
  path : Path
  directory : Identity
  ownerPath : Path
  owner : Identity
  workspaceIdentity : Identity
  ownerIdentity : Identity
  ownerToken : String

/-! ## Validation -/

def isHexDigest (value : String) : Bool :=
  value.toList.length == 64 && value.toList.all fun c => c.isDigit || ('a' ≤ c && c ≤ 'f') || ('A' ≤ c && c ≤ 'F')

def invalidIdentity (identity : Identity) : Bool := identity.filesystem == 0 && identity.entry == 0

def isNumber (text : List Char) : Bool := !text.isEmpty && text.all Char.isDigit

/-- The characters of `key[..16]`. -/
def keyStart (key : String) : List Char := key.toList.take 16

def isReservedWorkspaceName (name key : String) : Bool :=
  let front := journalPrefix.toList ++ keyStart key ++ ['-']
  let rest := name.toList.drop front.length
  front.isPrefixOf name.toList && workspaceSuffix.toList.isSuffixOf rest &&
    match (rest.take (rest.length - workspaceSuffix.toList.length)).splitOn '-' with
    | [pid, nonce] => isNumber pid && isNumber nonce
    | _ => false

def ensurePrivatePermissions (mode : Nat) (directory : Bool) : Except IoError Unit :=
  let required := if directory then 0o700 else 0o600
  ensure (mode &&& 0o077 == 0 && mode &&& required == required)
    ⟨.permissionDenied, "PAR2 repair private state permissions are unsafe"⟩

/-- Whether `next` carries on the workspace that `current` reserves. -/
def journalCanAdvanceFromReserved (current next : JournalRecord) : Bool :=
  current.version == next.version && current.targetKey == next.targetKey &&
    current.parentIdentity == next.parentIdentity && current.workspace == next.workspace &&
    current.owner == next.owner && match current.workspaceState, next.workspaceState with
    | .reserved currentToken, .active _ _ nextToken => currentToken == nextToken
    | _, _ => false

namespace RepairWorkspaceTarget

variable (formats : Formats) (target : RepairWorkspaceTarget)

def parentPath : Path := ⟨target.parent, []⟩

def workspacePath (name : String) : Path := ⟨target.parent, [utf8Bytes name]⟩

def journalName : Name := utf8Bytes (journalPrefix ++ target.key ++ journalSuffix)

def journalTempName : Name := utf8Bytes (journalPrefix ++ target.key ++ ".tmp")

def journal : Path := ⟨target.parent, [target.journalName]⟩

def journalTemp : Path := ⟨target.parent, [target.journalTempName]⟩

def debtFor (journal : Path) (workspace : Option Path) (reason : String) : WorkspaceDebt := ⟨journal, workspace, reason⟩

def debt (workspace : Option Path) (reason : String) : WorkspaceDebt := debtFor target.journal workspace reason

def ensureParentBinding (s : FileSystem) : Except IoError Unit := do
  let identity ← ioResult (s.identity target.parentPath)
  ensure (target.parentFile == target.parentIdentity && identity == target.parentIdentity)
    ⟨.other, "PAR2 repair output directory changed and its recovery record was left untouched"⟩

def journalDigest (record : JournalRecord) : String := formats.toHex (digestDomain ++ formats.recordToVec record)

def journalBytes (record : JournalRecord) : Except IoError (List UInt8) := do
  let bytes := formats.documentToVec ⟨record, journalDigest formats record⟩
  ensure (bytes.length ≤ journalMaxBytes) ⟨.invalidData, "PAR2 repair recovery record is too large"⟩
  .ok bytes

def isValidState : WorkspaceState → Bool
  | .reserved ownerToken => isHexDigest ownerToken
  | .active workspaceIdentity ownerIdentity ownerToken =>
    isHexDigest ownerToken && !invalidIdentity workspaceIdentity && !invalidIdentity ownerIdentity

def validateDocument (document : JournalDocument) : Except IoError Unit := do
  ensure (document.record.version == journalVersion && document.record.targetKey == target.key &&
      document.record.parentIdentity == target.parentIdentity &&
      isReservedWorkspaceName document.record.workspace target.key &&
      document.record.owner == document.record.workspace ++ ownerSuffix &&
      document.digest == journalDigest formats document.record)
    ⟨.invalidData, "PAR2 repair recovery record is damaged, belongs to another target, or was moved"⟩
  ensure (isValidState document.record.workspaceState) ⟨.invalidData, match document.record.workspaceState with
    | .reserved _ => "PAR2 repair recovery record contains an invalid workspace owner"
    | .active .. => "PAR2 repair recovery record contains an invalid workspace binding"⟩

/-! ## Reading the journal -/

def readJournalAt (s : FileSystem) (path : Path) : Except IoError (Option OpenJournal) :=
  match s.metadata path with
  | .error .notFound => .ok none
  | .error e => .error (errnoError e)
  | .ok metadata => do
    ensure metadata.isFile ⟨.invalidData, "PAR2 repair recovery record is not a regular file"⟩
    let file ← openRegularFileNoFollow s path
    ensurePrivatePermissions (s.inodes file).mode false
    ensure ((s.inodes file).isFile && (s.inodes file).len ≤ journalMaxBytes)
      ⟨.invalidData, "PAR2 repair recovery record is invalid or too large"⟩
    ensure (s.identity path == .ok file)
      ⟨.invalidData, "PAR2 repair recovery record identity changed while opening it"⟩
    let document ← (formats.fromSlice (s.inodes file).bytes).mapError fun message => ⟨.invalidData, message⟩
    validateDocument formats target document
    .ok (some ⟨path, file, file, document.record⟩)

def readJournal (s : FileSystem) : Except IoError (Option OpenJournal) := readJournalAt formats target s target.journal

/-- A journal that has to be there. -/
def present (message : String) : Option OpenJournal → Except IoError OpenJournal
  | some journal => .ok journal
  | none => .error ⟨.notFound, message⟩

def ensureOpenJournalBinding (s : FileSystem) (journal : OpenJournal) : Except IoError Unit := do
  let read ← readJournalAt formats target s journal.path
  let reopened ← present "PAR2 repair recovery record disappeared" read
  ensure (journal.file == journal.identity && reopened.identity == journal.identity &&
      reopened.record == journal.record)
    ⟨.invalidData, "PAR2 repair recovery record identity or content changed and was left untouched"⟩

/-! ## The owner and the workspace -/

/-- `try_lock` on a file that others may hold a lock on. -/
def tryLock (locked : Identity → Bool) (file : Identity) : Except IoError Unit :=
  ensure (!locked file) ⟨.other, "lock acquisition failed because the operation would block"⟩

def readToken (s : FileSystem) (owner : Identity) : Except IoError String :=
  match fromUtf8 (s.inodes owner).bytes with
  | some token => .ok token
  | none => .error ⟨.invalidData, "stream did not contain valid UTF-8"⟩

def openBoundOwner (locked : Identity → Bool) (s : FileSystem) (ownerPath : Path) (ownerIdentity : Identity)
    (ownerToken : String) : Except IoError Identity := do
  let owner ← openRegularFileNoFollow s ownerPath
  ensurePrivatePermissions (s.inodes owner).mode false
  let identity ← ioResult (s.identity ownerPath)
  ensure ((s.inodes owner).isFile && (s.inodes owner).len ≤ 128 && owner == ownerIdentity &&
      identity == ownerIdentity)
    ⟨.other, "private PAR2 repair workspace owner changed; it was left untouched"⟩
  let token ← (readToken s owner).mapError fun error =>
    ⟨error.kind, s!"could not verify the private workspace owner: {error.message}"⟩
  ensure (token == ownerToken)
    ⟨.other, "private PAR2 repair workspace owner token changed; it was left untouched"⟩
  (tryLock locked owner).mapError fun error =>
    ⟨error.kind, s!"private PAR2 repair workspace is still in use: {error.message}"⟩
  ensure (identity == ownerIdentity)
    ⟨.other, "private PAR2 repair workspace owner changed during verification"⟩
  .ok owner

def openBoundWorkspace (locked : Identity → Bool) (s : FileSystem) (workspace ownerPath : Path)
    (workspaceIdentity ownerIdentity : Identity) (ownerToken : String) : Except IoError (Identity × Identity) := do
  ensureParentBinding target s
  let directory ← openDirectoryNoFollow s workspace
  ensurePrivatePermissions (s.inodes directory).mode true
  ensure (directory == workspaceIdentity)
    ⟨.other, "private PAR2 repair workspace identity changed; it was left untouched"⟩
  let owner ← openBoundOwner locked s ownerPath ownerIdentity ownerToken
  let identity ← ioResult (s.identity workspace)
  ensure (identity == workspaceIdentity)
    ⟨.other, "private PAR2 repair workspace changed during verification; it was left untouched"⟩
  let identity ← ioResult (s.identity ownerPath)
  ensure (identity == ownerIdentity)
    ⟨.other, "private PAR2 repair workspace owner changed during verification"⟩
  .ok (directory, owner)

/-- The owner file of a workspace that is only reserved: the record knows its token, not its identity. -/
def openReservedOwner (locked : Identity → Bool) (s : FileSystem) (ownerPath : Path) (ownerToken : String) :
    Except IoError Identity := do
  let owner ← openRegularFileNoFollow s ownerPath
  ensurePrivatePermissions (s.inodes owner).mode false
  ensure ((s.inodes owner).isFile && (s.inodes owner).len ≤ 128)
    ⟨.other, "reserved PAR2 repair workspace owner is invalid"⟩
  let token ← readToken s owner
  let identity ← ioResult (s.identity ownerPath)
  ensure (token == ownerToken && identity == owner)
    ⟨.other, "reserved PAR2 repair workspace owner changed and was left untouched"⟩
  tryLock locked owner
  .ok owner

end RepairWorkspaceTarget

end Squallz.Recovery
