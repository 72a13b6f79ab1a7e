/-
The life of a private PAR2 repair workspace: its start under a journal, its cleanup, and the recovery of one
that was interrupted.
-/
import Squallz.Bytes.LittleEndian
import Squallz.Recovery.Journal
import Squallz.System.Tree

namespace Squallz.Recovery

open Squallz.Api Squallz.Bytes Squallz.Core Squallz.System

/-- Programs that fail with an I/O error. -/
abbrev Io := Prog FileSystem IoError

/-- Programs that leave a debt where they fail. -/
abbrev Repair := Prog FileSystem WorkspaceDebt

/-- One change of the file system, with its error. -/
def change {α : Type} (f : FileSystem → Except Errno (α × FileSystem)) : Io α := (call f).mapError errnoError

/-- A removal of what may be gone already. -/
def removal (p : Prog FileSystem Errno Unit) : Io Unit := (ignoreNotFound p).mapError errnoError

def createPrivateFile (path : Path) : Io Identity := change (·.create path ⟨.regular [], 0o600, none, (0, 0)⟩)

def createPrivateDirectory (path : Path) : Io Identity := change (·.create path ⟨.directory, 0o700, none, (0, 0)⟩)

namespace RepairWorkspaceTarget

section

variable (formats : Formats) (target : RepairWorkspaceTarget)

/-! ## Writing the journal -/

/-- A step whose error is reported with the journal and, if it is known, the workspace. -/
def orDebt {α : Type} (workspace : Option Path) (p : Io α) : Repair α :=
  p.mapError fun error => target.debt workspace error.message

/-- A step whose error is reported with the temporary journal. -/
def orTempDebt {α : Type} (p : Io α) : Repair α :=
  p.mapError fun error => debtFor target.journalTemp none error.message

/-- Writes a record under the journal's temporary name. -/
def writeTemp (bytes : List UInt8) : Io Unit := do
  let file ← createPrivateFile target.journalTemp
  .update (·.write file bytes)

def reread (message : String) : Io OpenJournal := do
  let journal ← .observe (readJournal formats target)
  .ofExcept (present message journal)

def writeNewJournal (record : JournalRecord) : Io OpenJournal := do
  let bytes ← .ofExcept (journalBytes formats record)
  target.writeTemp bytes
  let moved ← .act (·.renameNoReplace target.journalTemp target.journal)
  match moved with
  | .ok () => target.reread formats "PAR2 repair recovery record disappeared after it was created"
  | .error e =>
    let _ ← .act (·.removeFile target.journalTemp)
    .fail (errnoError e)

def replaceJournal (current : OpenJournal) (record : JournalRecord) : Io OpenJournal := do
  .observe (ensureOpenJournalBinding formats target · current)
  let bytes ← .ofExcept (journalBytes formats record)
  target.writeTemp bytes
  change (·.renameReplace target.journalTemp target.journal)
  target.reread formats "PAR2 repair recovery record disappeared after it was updated"

def clearJournal (journal : OpenJournal) : Io Unit := do
  .observe target.ensureParentBinding
  let bound ← .observe fun s => .ok (ensureOpenJournalBinding formats target s journal)
  match bound with
  | .ok () => removal (call (·.removeFile journal.path))
  | .error e => if e.kind = .notFound then .ret () else .fail e

/-! ## Cleaning up -/

def removeBoundOwner (ownerPath : Path) (owner : Identity) (expected : Option Identity) : Io Unit := do
  .observe fun s => do
    let identity ← ioResult (s.identity ownerPath)
    ensure (expected.all (· == owner) && identity == owner)
      ⟨.other, "private PAR2 repair workspace owner changed and was left untouched"⟩
  removal (call (·.removeFile ownerPath))

/-- Whether there is an entry at a path. -/
def isPresent (s : FileSystem) (path : Path) : Except IoError Bool :=
  match s.metadata path with
  | .ok _ => .ok true
  | .error .notFound => .ok false
  | .error e => .error (errnoError e)

variable (locked : Identity → Bool)

def cleanupOwnerAndJournal (journal : OpenJournal) (workspace : Option Path) (ownerPath : Path)
    (ownerIdentity : Identity) (ownerToken : String) : Repair Unit := do
  let found ← target.orDebt workspace (.observe (isPresent · ownerPath))
  if found then
    let owner ← target.orDebt workspace (.observe (openBoundOwner locked · ownerPath ownerIdentity ownerToken))
    target.orDebt workspace (removeBoundOwner ownerPath owner (some ownerIdentity))
    target.orDebt workspace (target.clearJournal formats journal)
  else target.orDebt workspace (target.clearJournal formats journal)

def cleanupActiveWorkspace (journal : OpenJournal) (workspace ownerPath : Path)
    (workspaceIdentity ownerIdentity : Identity) (ownerToken : String) : Repair Unit := do
  target.orDebt (some workspace) (.observe (ensureOpenJournalBinding formats target · journal))
  let found ← target.orDebt (some workspace) (.observe (isPresent · workspace))
  if found then
    let bound ← target.orDebt (some workspace) (.observe
      (openBoundWorkspace target locked · workspace ownerPath workspaceIdentity ownerIdentity ownerToken))
    target.orDebt (some workspace) (removal (removeDirAll workspace))
    target.orDebt (some workspace) (removeBoundOwner ownerPath bound.2 (some ownerIdentity))
    target.orDebt (some workspace) (target.clearJournal formats journal)
  else target.cleanupOwnerAndJournal formats locked journal none ownerPath ownerIdentity ownerToken

/-! ## Recovery -/

def recoverReservedWorkspace (journal : OpenJournal) (workspace ownerPath : Path) (ownerToken : String) :
    Repair Unit := do
  target.orDebt none (.observe (ensureOpenJournalBinding formats target · journal))
  let found ← target.orDebt (some workspace) (.observe (isPresent · workspace))
  if found then
    .fail (target.debt (some workspace)
      ("PAR2 repair stopped before the private workspace identity was committed; the exact path was left " ++
        "untouched"))
  else
    let found ← target.orDebt none (.observe (isPresent · ownerPath))
    if found then
      let owner ← target.orDebt none (.observe fun s => do
        let metadata ← ioResult (s.metadata ownerPath)
        ensure metadata.isFile ⟨.other, "reserved PAR2 repair workspace owner is not a regular file"⟩
        openReservedOwner locked s ownerPath ownerToken)
      target.orDebt none (removeBoundOwner ownerPath owner none)
      target.orDebt none (target.clearJournal formats journal)
    else target.orDebt none (target.clearJournal formats journal)

/-- What became of a write of the journal that was interrupted. -/
inductive TempFate
  | publish | discard | advance (primary : OpenJournal) | conflict

/-- How a temporary record stands to the journal. -/
def tempFate (temp : OpenJournal) : Option OpenJournal → TempFate
  | none => .publish
  | some primary =>
    if primary.record = temp.record then .discard
    else if journalCanAdvanceFromReserved primary.record temp.record then .advance primary
    else .conflict

def recoverInterruptedJournalWrite : Repair Unit := do
  let temp ← target.orTempDebt (.observe fun s => (readJournalAt formats target s target.journalTemp).mapError
    fun error => ⟨error.kind, s!"temporary PAR2 repair recovery record needs attention: {error.message}"⟩)
  match temp with
  | none => .ret ()
  | some temp =>
    let primary ← target.orDebt none (.observe (readJournal formats target))
    match tempFate temp primary with
    | .publish =>
      target.orTempDebt (.observe (ensureOpenJournalBinding formats target · temp))
      target.orTempDebt (change (·.renameNoReplace temp.path target.journal))
    | .discard =>
      target.orTempDebt (.observe (ensureOpenJournalBinding formats target · temp))
      target.orTempDebt (change (·.removeFile temp.path))
    | .advance primary =>
      target.orDebt none (.observe (ensureOpenJournalBinding formats target · primary))
      target.orTempDebt (.observe (ensureOpenJournalBinding formats target · temp))
      target.orTempDebt (change (·.renameReplace temp.path target.journal))
    | .conflict =>
      .fail (debtFor target.journalTemp none
        ("temporary PAR2 repair recovery record conflicts with the active record and both were left " ++
          "untouched"))

def recoverPending : Repair Unit := do
  target.orDebt none (.observe target.ensureParentBinding)
  target.recoverInterruptedJournalWrite formats
  let journal ← target.orDebt none (.observe (readJournal formats target))
  match journal with
  | none => .ret ()
  | some journal =>
    let workspace := target.workspacePath journal.record.workspace
    let owner := target.workspacePath journal.record.owner
    match journal.record.workspaceState with
    | .reserved ownerToken => target.recoverReservedWorkspace formats locked journal workspace owner ownerToken
    | .active workspaceIdentity ownerIdentity ownerToken =>
      target.cleanupActiveWorkspace formats locked journal workspace owner workspaceIdentity ownerIdentity ownerToken

/-! ## The start -/

/-- `unique_workspace_name`, of the process and a nonce. -/
def uniqueWorkspaceName (process nonce : Nat) : String :=
  journalPrefix ++ String.ofList (keyStart target.key) ++ "-" ++ toString process ++ "-" ++ toString nonce ++ workspaceSuffix

def ownerToken (process nonce : Nat) : String :=
  formats.toHex (digestDomain ++ utf8Bytes target.key ++ leBytes 4 process ++ leBytes 8 nonce)

/-- The record that reserves the names, and the one that binds what was created under them. -/
def record (workspace owner : String) (state : WorkspaceState) : JournalRecord :=
  ⟨journalVersion, target.key, target.parentIdentity, workspace, owner, state⟩

def «begin» (process nonce tokenNonce : Nat) : Repair RepairWorkspace := do
  target.orDebt none (.observe target.ensureParentBinding)
  let pending ← target.orDebt none (.observe (readJournal formats target))
  match pending with
  | some _ => .fail (target.debt none "an interrupted PAR2 repair record still needs recovery")
  | none =>
    let workspaceName := target.uniqueWorkspaceName process nonce
    let ownerName := workspaceName ++ ownerSuffix
    let workspace := target.workspacePath workspaceName
    let ownerPath := target.workspacePath ownerName
    let ownerToken := target.ownerToken formats process tokenNonce
    let reserved := target.record workspaceName ownerName (.reserved ownerToken)
    let reservedJournal ← target.orDebt none (target.writeNewJournal formats reserved)
    let owner ← target.orDebt none (createPrivateFile ownerPath)
    .update (·.write owner (utf8Bytes ownerToken))
    target.orDebt none (.ofExcept (tryLock locked owner))
    let created ← (target.orDebt none (createPrivateDirectory workspace)).attempt
    match created with
    | .error debt =>
      let found ← .observe fun s => .ok (s.metadata workspace).toBool
      .fail { debt with workspace := if found then some workspace else none }
    | .ok _ =>
      let directory ← target.orDebt (some workspace) (.observe (openDirectoryNoFollow · workspace))
      let active := target.record reservedJournal.record.workspace reservedJournal.record.owner
        (.active directory owner ownerToken)
      let journal ← target.orDebt (some workspace) (target.replaceJournal formats reservedJournal active)
      .ret ⟨target, journal, workspace, directory, ownerPath, owner, directory, owner, ownerToken⟩

end

end RepairWorkspaceTarget

namespace RepairWorkspace

variable (formats : Formats) (workspace : RepairWorkspace) (locked : Identity → Bool)

def cleanup : Repair Unit := do
  let target := workspace.target
  target.orDebt (some workspace.path)
    (.observe (RepairWorkspaceTarget.ensureOpenJournalBinding formats target · workspace.journal))
  if workspace.directory ≠ workspace.workspaceIdentity ∨ workspace.owner ≠ workspace.ownerIdentity then
    .fail (target.debt (some workspace.path)
      "private PAR2 repair workspace handles changed; the paths were left untouched")
  else
    target.cleanupActiveWorkspace formats locked workspace.journal workspace.path workspace.ownerPath
      workspace.workspaceIdentity workspace.ownerIdentity workspace.ownerToken

end RepairWorkspace

end Squallz.Recovery
