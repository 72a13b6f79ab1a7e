/-
The registry of private staging: the machine that its processes share, the checks of private files, the cleanup of a
workspace, the sweep, and the life of a workspace.
-/
import Squallz.Staging.Names
import Squallz.Core.Files
import Squallz.System.Guarantee

namespace Squallz.Staging

open Squallz.Api Squallz.Core Squallz.System

/-! ## The machine -/

/-- One caller of a process that wants a workspace. -/
structure Session where
  process : Nat
  number : Nat
deriving DecidableEq

/-- An open file that a lock can be held through: who has opened it, under which name, and whether it was new. -/
structure Handle where
  owner : Session
  name : Name
  created : Bool
deriving DecidableEq

/-- The files, the numbers still free, the advisory locks, the sessions that the numbers of each process's `NEXT_ID`
went to, and the readings of the clock to come. -/
structure Machine where
  files : FileSystem
  next : Nat
  locks : Identity → Option Handle
  issued : Nat → List Session
  time : Nat → Nat

namespace Machine

/-- A new entry with an inode whose number has not been used yet. -/
def create (m : Machine) (path : Path) (node : Inode) : Except Errno (Identity × Machine) := do
  let (d, name) ← m.files.locate path.base path.names
  match m.files.find d name with
  | some _ => .error .alreadyExists
  | none =>
    let i : Identity := ⟨d.filesystem, m.next⟩
    .ok (i, { m with files := ((m.files.setInode i node).link d name i).touch i, next := m.next + 1 })

/-- `open` with `O_CREAT`. -/
def openOrCreate (m : Machine) (path : Path) (node : Inode) : Except Errno (Identity × Machine) :=
  match m.files.identity path with
  | .ok i => .ok (i, m)
  | .error _ => m.create path node

def onFiles (f : FileSystem → Except Errno (Unit × FileSystem)) (m : Machine) : Except Errno (Unit × Machine) :=
  (f m.files).map fun r => ((), { m with files := r.2 })

def lock (m : Machine) (file : Identity) (handle : Handle) : Machine :=
  { m with locks := Function.update m.locks file (some handle) }

/-- The lock is released where it is held through the handle. -/
def unlock (m : Machine) (file : Identity) (handle : Handle) : Machine :=
  if m.locks file = some handle then { m with locks := Function.update m.locks file none } else m

/-- Overwrites an open regular file. -/
def write (m : Machine) (file : Identity) (bytes : List UInt8) : Machine :=
  if (m.files.inodes file).isFile then { m with files := m.files.write file bytes } else m

/-- `set_permissions` of an open regular file. -/
def setMode (m : Machine) (file : Identity) (mode : Nat) : Machine :=
  if (m.files.inodes file).isFile then
    { m with files := (m.files.setInode file { m.files.inodes file with mode }).touch file }
  else m

/-- A process dies: its locks are released, and the next process of its number counts anew. -/
def crash (m : Machine) (process : Nat) : Machine :=
  { m with
    locks := fun file => (m.locks file).filter (·.owner.process ≠ process)
    issued := Function.update m.issued process [] }

end Machine

abbrev Io := Prog Machine FormatError

def ioError (e : Errno) : FormatError := .ofIo (errnoError e)

def look {α : Type} (f : FileSystem → Except Errno α) : Io α := .observe fun m => (f m.files).mapError ioError

/-- What is not there is no error. -/
def orNone {α : Type} : Except Errno α → Except FormatError (Option α)
  | .ok a => .ok (some a)
  | .error .notFound => .ok none
  | .error e => .error (ioError e)

def lookUp {α : Type} (f : FileSystem → Except Errno α) : Io (Option α) := .observe fun m => orNone (f m.files)

def demand (c : Bool) (error : FormatError) : Io Unit := if c then .ret () else .fail error

def change {α : Type} (f : Machine → Except Errno (α × Machine)) : Io α := do
  let result ← .act f
  .ofExcept (result.mapError ioError)

/-- A removal that succeeds also where there is nothing. -/
def removal (f : Machine → Except Errno (Unit × Machine)) : Io Bool := do
  let result ← .act f
  match result with
  | .ok () | .error .notFound => .ret true
  | .error e => .fail (ioError e)

/-- `try_lock`. -/
def tryLock (file : Identity) (handle : Handle) : Io Bool :=
  .step (fun m => if m.locks file = none then m.lock file handle else m) fun m => .ret (m.locks file = none)

/-- `lock`: the wait for a lock that is held is a schedule in which the call comes later, so a call that still finds it
held goes no further. -/
def lockFile (file : Identity) (handle : Handle) : Io Unit := do
  let taken ← tryLock file handle
  demand taken (.io ⟨.interrupted, "still waiting for a file lock"⟩)

def closeFile (file : Identity) (handle : Handle) : Io Unit := .update (·.unlock file handle)

/-! ## Private files -/

structure SourceIdentity where
  len : Nat
  modified : Option Int
  file : Identity
  changed : Int × Int
deriving DecidableEq

def SourceIdentity.fromFile (s : FileSystem) (file : Identity) : SourceIdentity :=
  ⟨(s.inodes file).len, (s.inodes file).modified, file, (s.inodes file).changed⟩

def isPrivateRegularMetadata (metadata : Inode) : Bool := metadata.isFile && metadata.mode &&& 0o777 == 0o600
def isPrivateDirectoryMetadata (metadata : Inode) : Bool := metadata.isDir && metadata.mode &&& 0o777 == 0o700

def privateFile : Inode := ⟨.regular [], 0o600, none, (0, 0)⟩
def privateDirectory : Inode := ⟨.directory, 0o700, none, (0, 0)⟩

def openRegularFileNoFollow (path : Path) (kind : String) : Io Identity := do
  let metadata ← look (·.metadata path)
  demand metadata.isFile (.corruptArchive (kind ++ " is not a regular file"))
  let file ← look (·.identity path)
  let metadata ← look fun s => .ok (s.inodes file)
  demand metadata.isFile (.corruptArchive (kind ++ " is not a regular file"))
  .ret file

def verifySourceBinding (path : Path) (expected : SourceIdentity) (kind : String) : Io Unit := do
  let metadata ← look (·.metadata path)
  demand metadata.isFile (.corruptArchive (kind ++ " path changed while it was being read"))
  let current ← openRegularFileNoFollow path kind
  let identity ← look fun s => .ok (.fromFile s current)
  demand (identity = expected) (.corruptArchive (kind ++ " path changed while it was being read"))

def verifyPrivateFileBinding (path : Path) (file : Identity) : Io Unit := do
  let metadata ← look fun s => .ok (s.inodes file)
  demand (isPrivateRegularMetadata metadata)
    (.io ⟨.permissionDenied, "private archive staging lock has unsafe ownership or permissions"⟩)
  let identity ← look fun s => .ok (.fromFile s file)
  verifySourceBinding path identity "private archive staging lock"

def verifyPrivateDirectory (path : Path) : Io Unit := do
  let metadata ← look (·.metadata path)
  demand (isPrivateDirectoryMetadata metadata)
    (.io ⟨.permissionDenied, "private archive staging directory has unsafe ownership or permissions"⟩)

def privateFileIdentity (path : Path) : Io (Option SourceIdentity) := do
  let metadata ← lookUp (·.metadata path)
  if !metadata.any isPrivateRegularMetadata then .ret none
  else
    let file ← (openRegularFileNoFollow path "private archive staging file").attempt
    match file with
    | .error _ => .ret none
    | .ok file =>
      let identity ← look fun s => .ok (.fromFile s file)
      let bound ← (verifySourceBinding path identity "private archive staging file").attempt
      .ret (if bound.isOk then some identity else none)

def removePrivateFileIfBound (path : Path) (expected : SourceIdentity) : Io Bool := do
  let current ← privateFileIdentity path
  match current with
  | none =>
    let gone ← (look (·.metadata path)).attempt
    .ret (gone = .error (ioError .notFound))
  | some current =>
    if current ≠ expected then .ret false else removal (Machine.onFiles (·.removeFile path))

def removePrivateRegularFile (path : Path) : Io Bool := do
  let metadata ← lookUp (·.metadata path)
  match metadata with
  | none => .ret true
  | some metadata =>
    if !isPrivateRegularMetadata metadata then .ret false else removal (Machine.onFiles (·.removeFile path))

def readPrivateFile (path : Path) : Io (Option (List UInt8 × SourceIdentity)) := do
  let identity ← privateFileIdentity path
  match identity with
  | none => .ret none
  | some identity =>
    let file ← openRegularFileNoFollow path "private archive staging marker"
    let found ← look fun s => .ok (.fromFile s file)
    if found ≠ identity then .ret none
    else
      let bytes ← look fun s => .ok (s.inodes file).bytes
      .ret (if maxOwnerRecordLen < bytes.length then none else some (bytes, identity))

/-- A lock file that is there, and still at its path once it has been opened. -/
def openPrivateLockFile (path : Path) : Io (Option Identity) := do
  let file ← lookUp (·.identity path)
  match file with
  | none => .ret none
  | some file =>
    let bound ← (verifyPrivateFileBinding path file).attempt
    match bound with
    | .ok () => .ret (some file)
    | .error (.io ⟨.notFound, _⟩) | .error (.corruptArchive _) => .ret none
    | .error e => .fail e

def readOwnerRecord (owner : Identity) (expectedWorkspace : List Char) : Io (Option StagingOwnerRecord) := do
  let bytes ← look fun s => .ok (s.inodes owner).bytes
  .ret (if maxOwnerRecordLen < bytes.length then none else StagingOwnerRecord.parse bytes expectedWorkspace)

/-! ## The cleanup of a workspace -/

/-- What has been seen of a workspace. -/
structure Inspection where
  markerIdentity : Option SourceIdentity
  markerMatches : Bool
  archiveCount : Nat
  entriesSeen : Nat
deriving DecidableEq

/-- The first loop of `cleanup_owned_workspace`, which ends where an entry makes the workspace ineligible. -/
def inspectEntries (workspace : Path) (kind : StagingKind) (expectedMarker : List UInt8) :
    List Name → Inspection → Io (Option Inspection)
  | [], seen => .ret (some seen)
  | name :: names, seen =>
    if maxStagingWorkspaceEntries < seen.entriesSeen + 1 then .ret none
    else if name = workspaceMarkerName then
      if seen.markerIdentity.isSome then .ret none
      else do
        let read ← readPrivateFile (workspace.join name)
        match read with
        | none => .ret none
        | some (bytes, identity) =>
          inspectEntries workspace kind expectedMarker names
            ⟨some identity, bytes = expectedMarker, seen.archiveCount, seen.entriesSeen + 1⟩
    else if archiveFileNameAllowed kind name then do
      let metadata ← look (·.metadata (workspace.join name))
      if !isPrivateRegularMetadata metadata then .ret none
      else
        inspectEntries workspace kind expectedMarker names
          { seen with archiveCount := seen.archiveCount + 1, entriesSeen := seen.entriesSeen + 1 }
    else .ret none

/-- The second loop. -/
def removeMembers (workspace : Path) (kind : StagingKind) : List Name → Io Bool
  | [] => .ret true
  | name :: names =>
    if name = workspaceMarkerName then removeMembers workspace kind names
    else if !archiveFileNameAllowed kind name then .ret false
    else do
      let removed ← removePrivateRegularFile (workspace.join name)
      if removed then removeMembers workspace kind names else .ret false

def removeMarker (workspace : Path) : Option SourceIdentity → Io Bool
  | none => .ret true
  | some identity => removePrivateFileIfBound (workspace.join workspaceMarkerName) identity

/-- The marker and the directory itself. -/
def removeEmptied (workspace : Path) (markerIdentity : Option SourceIdentity) : Io Bool := do
  let unmarked ← removeMarker workspace markerIdentity
  if unmarked then
    let result ← .act (Machine.onFiles (·.removeDir workspace))
    match result with
    | .ok () | .error .notFound => .ret true
    | .error .directoryNotEmpty => .ret false
    | .error e => .fail (ioError e)
  else .ret false

def cleanupOwnedWorkspace (workspace : Path) (record : StagingOwnerRecord) : Io Bool := do
  let metadata ← lookUp (·.metadata workspace)
  match metadata with
  | none => .ret true
  | some metadata =>
    if !isPrivateDirectoryMetadata metadata then .ret false
    else
      match parseWorkspaceKind record.workspace with
      | none => .ret false
      | some kind =>
        let names ← look (·.readDir workspace)
        let inspection ← inspectEntries workspace kind record.bytes names ⟨none, false, 0, 0⟩
        match inspection with
        | none => .ret false
        | some seen =>
          if 0 < seen.archiveCount ∧ !seen.markerMatches then .ret false
          else
            let names ← look (·.readDir workspace)
            let removed ← removeMembers workspace kind names
            if removed then removeEmptied workspace seen.markerIdentity else .ret false

/-! ## The use of a workspace -/

/-- What a reader or a writer of an archive does to the members of its workspace. -/
inductive Use
  | create (name : Name) (node : Inode)
  | write (name : Name) (bytes : List UInt8)
  | setMode (name : Name) (mode : Nat)
  | remove (name : Name)

def Use.act (workspace : Path) : Use → Machine → Except Errno (Unit × Machine)
  | create name node, m => (m.create (workspace.join name) node).map fun r => ((), r.2)
  | write name bytes, m => (m.files.identity (workspace.join name)).map fun file => ((), m.write file bytes)
  | setMode name mode, m => (m.files.identity (workspace.join name)).map fun file => ((), m.setMode file mode)
  | remove name, m => m.onFiles (·.removeFile (workspace.join name))

def useStaging (workspace : Path) : List Use → Io Unit
  | [] => .ret ()
  | use :: uses => do
    let _ ← .act (use.act workspace)
    useStaging workspace uses

/-! ## The sweep -/

section

variable (registry : Identity) (me : Session)

def workspacePath (workspace : List Char) : Path := ⟨registry, [Destination.osStr workspace]⟩
def ownerPath (workspace : List Char) : Path := ⟨registry, [ownerName workspace]⟩

/-- What is done with an open owner record: the identity of one that is to be removed. -/
def reclaimOwned (workspace : List Char) (owner : Identity) : Io (Option SourceIdentity) := do
  let free ← tryLock owner ⟨me, ownerName workspace, false⟩
  if !free then .ret none
  else
    let record ← readOwnerRecord owner workspace
    match record with
    | none => .ret none
    | some record =>
      let cleaned ← cleanupOwnedWorkspace (workspacePath registry record.workspace) record
      if !cleaned then .ret none
      else
        let identity ← look fun s => .ok (.fromFile s owner)
        .ret (some identity)

/-- One entry of the registry. The open owner record is closed on every way out. -/
def reclaimEntry (name : Name) : Io Unit :=
  match parseOwnerName name with
  | none => .ret ()
  | some (workspace, _) => do
    let metadata ← lookUp (·.metadata ⟨registry, [name]⟩)
    if !metadata.any isPrivateRegularMetadata then .ret ()
    else
      let owner ← openPrivateLockFile ⟨registry, [name]⟩
      match owner with
      | none => .ret ()
      | some owner =>
        let outcome ← (reclaimOwned registry me workspace owner).attempt
        closeFile owner ⟨me, ownerName workspace, false⟩
        match outcome with
        | .error e => .fail e
        | .ok none => .ret ()
        | .ok (some identity) =>
          let _ ← removePrivateFileIfBound ⟨registry, [name]⟩ identity
          .ret ()

def reclaimEntries : Nat → List Name → Io Unit
  | _, [] => .ret ()
  | entriesSeen, name :: names =>
    if maxStagingRootEntries < entriesSeen + 1 then
      .fail (.resourceLimitExceeded "private archive staging registry has too many entries")
    else do
      reclaimEntry registry me name
      reclaimEntries (entriesSeen + 1) names

def reclaimStaleWorkspaces : Io Unit := do
  let names ← look (·.readDir ⟨registry, []⟩)
  reclaimEntries registry me 0 names

/-! ## A workspace -/

structure PrivateStagingDir where
  owner : Identity
  record : StagingOwnerRecord
deriving DecidableEq

/-- `drop` of a workspace. -/
def dropStaging (staging : PrivateStagingDir) : Io Unit := do
  let identity ← look fun s => .ok (.fromFile s staging.owner)
  let cleaned ← (cleanupOwnedWorkspace (workspacePath registry staging.record.workspace) staging.record).attempt
  closeFile staging.owner ⟨me, ownerName staging.record.workspace, true⟩
  if cleaned matches .ok true then
    let _ ← (removePrivateFileIfBound (ownerPath registry staging.record.workspace) identity).attempt
    .ret ()
  else .ret ()

def writeOwnerRecord (owner : Identity) (record : StagingOwnerRecord) : Io Unit := do
  .update (·.write owner [])
  .update (·.write owner record.bytes)

def writeWorkspaceMarker (workspace : Path) (record : StagingOwnerRecord) : Io Unit := do
  let marker ← change (·.create (workspace.join workspaceMarkerName) privateFile)
  .update (·.write marker record.bytes)

/-- What is left to do once the owner record has been created. -/
def fillStaging (staging : PrivateStagingDir) : Io Unit := do
  lockFile staging.owner ⟨me, ownerName staging.record.workspace, true⟩
  writeOwnerRecord staging.owner staging.record
  verifyPrivateFileBinding (ownerPath registry staging.record.workspace) staging.owner
  let _ ← change (·.create (workspacePath registry staging.record.workspace) privateDirectory)
  writeWorkspaceMarker (workspacePath registry staging.record.workspace) staging.record
  verifyPrivateDirectory (workspacePath registry staging.record.workspace)

/-- `NEXT_ID.fetch_add`. -/
def nextId : Io Nat :=
  .step (fun m => { m with issued := Function.update m.issued me.process (m.issued me.process ++ [me]) })
    fun m => .ret (m.issued me.process).length

def now : Io Nat := .step (fun m => { m with time := fun n => m.time (n + 1) }) fun m => .ret (m.time 0)

/-- The attempts to reserve a workspace; one that fails half way drops it. -/
def reserve (kind : StagingKind) : Nat → Io PrivateStagingDir
  | 0 => .fail (.other "could not reserve private archive staging directory")
  | attempts + 1 => do
    let sequence ← nextId me
    let nanos ← now
    let workspace := workspaceName kind me.process sequence nanos
    let created ← .act (·.create (ownerPath registry workspace) privateFile)
    match created with
    | .error .alreadyExists => reserve kind attempts
    | .error e => .fail (ioError e)
    | .ok owner =>
      let staging : PrivateStagingDir := ⟨owner, .new workspace sequence nanos⟩
      let filled ← (fillStaging registry me staging).attempt
      match filled with
      | .ok () => .ret staging
      | .error e => do
        dropStaging registry me staging
        .fail e

/-- `create_private_staging_dir_in`, in a registry that is there. -/
def createPrivateStagingDirIn (front : List Char) : Io PrivateStagingDir := do
  let kind ← .ofExcept (match StagingKind.ofFront front with
    | some kind => .ok kind
    | none => .error (.other "unsupported private archive staging kind"))
  verifyPrivateDirectory ⟨registry, []⟩
  let sweepLock ← change (·.openOrCreate ⟨registry, [sweepLockName]⟩ privateFile)
  verifyPrivateFileBinding ⟨registry, [sweepLockName]⟩ sweepLock
  lockFile sweepLock ⟨me, sweepLockName, false⟩
  let result ← (do
    reclaimStaleWorkspaces registry me
    reserve registry me kind 128 : Io PrivateStagingDir).attempt
  closeFile sweepLock ⟨me, sweepLockName, false⟩
  .ofExcept result

/-- The life of a workspace: it is created, used and dropped. -/
def session (front : List Char) (uses : List Use) : Io Unit := do
  let staging ← createPrivateStagingDirIn registry me front
  useStaging (workspacePath registry staging.record.workspace) uses
  dropStaging registry me staging

end

end Squallz.Staging
