/-
Publishing a set of files beside each other without replacing any entry: preparation, the journal, the
commit and its recovery.
-/
import Squallz.Api.Entry
import Squallz.Core.Files
import Mathlib.Data.List.Sort
import Mathlib.Data.UInt

namespace Squallz.OutputSet

open Squallz.Api Squallz.Core Squallz.System

def journalMaxBytes : Nat := 256 * 1024
def maxOutputSetMembers : Nat := 64
def journalVersion : Nat := 1

/-! ## Data -/

structure JournalMember where
  name : StoredOsString
  identity : Identity
  state : RegularFileState
  digest : List UInt8
deriving DecidableEq

structure JournalRecord where
  version : Nat
  primary : StoredOsString
  holder : StoredOsString
  holderIdentity : Identity
  members : List JournalMember
deriving DecidableEq

/-- What is used of `serde_json` and of `blake3`. -/
structure Formats where
  toVec : JournalRecord → List UInt8
  fromSlice : List UInt8 → Option JournalRecord
  hash : List UInt8 → List UInt8

/-- A requested path: the directory its parent canonicalizes to, and its file name if it has one. -/
structure Request where
  parent : Identity
  fileName : Option Name

structure PreparedMember where
  name : Name
  staged : Path
  finalPath : Path
  file : Identity
  identity : Identity
  state : RegularFileState
  digest : List UInt8
deriving DecidableEq

structure PreparedFileSetPublication where
  primary : Path
  primaryName : Name
  parent : Path
  parentFile : Identity
  parentIdentity : Identity
  holder : Path
  holderName : Name
  holderFile : Identity
  holderIdentity : Identity
  members : List PreparedMember
deriving DecidableEq

structure OpenJournal where
  path : Path
  file : Identity
  identity : Identity
  state : RegularFileState
  contentDigest : List UInt8
  record : JournalRecord
deriving DecidableEq

structure JournalWriteFailure where
  error : FormatError
  published : Bool

structure ResolvedMember where
  staged : Path
  finalPath : Path
  identity : Identity
  state : RegularFileState
  digest : List UInt8

structure ResolvedTransaction where
  parent : Path
  parentFile : Identity
  parentIdentity : Identity
  holder : Path
  holderIdentity : Identity
  members : List ResolvedMember

/-! ## Checks -/

def bindingError (reason : String) : FormatError := ioOther reason

def publicationRecoveryError (reason : String) : FormatError :=
  ioOther s!"file-set publication requires recovery: {reason}; no competing path was removed or overwritten"

def outputExists : FormatError := .io ⟨.alreadyExists, "output already exists"⟩

/-- `open_regular_file_no_follow_read_write`. -/
def openRegularFile (s : FileSystem) (path : Path) : Except FormatError Identity := do
  let i ← ofErrno (s.identity path)
  match (s.inodes i).content with
  | .symlink _ => .error (ioOther "Too many levels of symbolic links (os error 40)")
  | .directory => .error (.ofIo (errnoError .isADirectory))
  | _ => .ok i

/-- Whether an open file and the entry at a path have an identity and are in a recorded state. -/
def isBound (s : FileSystem) (path : Path) (file identity : Identity) (state : RegularFileState) : Bool :=
  file == identity && s.identity path == .ok identity && state.matches (s.inodes file) &&
    match s.metadata path with
    | .ok metadata => state.matches metadata
    | .error _ => false

/-- `open_directory`. -/
def openDirectory (s : FileSystem) (path : Path) : Except FormatError Identity := ofErrno (s.identity path)

def ensureDirectoryBinding (s : FileSystem) (path : Path) (file expected : Identity) (role : String) :
    Except FormatError Unit := do
  let metadata ← ofErrno (s.metadata path)
  refuseIf (!metadata.isDir || file != expected || s.identity path != .ok expected)
    (bindingError s!"{role} identity changed")

def ensureOutputMissing (s : FileSystem) (path : Path) : Except FormatError Unit :=
  match s.metadata path with
  | .error .notFound => .ok ()
  | .error e => .error (.ofIo (errnoError e))
  | .ok _ => .error outputExists

def ensureMissing (s : FileSystem) (path : Path) (role : String) : Except FormatError Unit :=
  match s.metadata path with
  | .error .notFound => .ok ()
  | .error e => .error (.ofIo (errnoError e))
  | .ok _ => .error (publicationRecoveryError s!"{role} is still occupied")

def ensureEmptyDirectory (s : FileSystem) (path : Path) : Except FormatError Unit := do
  let names ← ofErrno (s.readDir path)
  refuseIf (!names.isEmpty)
    (publicationRecoveryError "the transaction staging directory contains an unexpected member")

def validateHolderInventory (s : FileSystem) (holder : Path) (expected : List Name) : Except FormatError Unit := do
  let observed ← ofErrno (s.readDir holder)
  refuseIf (!observed.all expected.contains) (.unsupported "file-set staging contains an unexpected member")
  refuseIf (!expected.all observed.contains) (.unsupported "file-set staging is missing an expected member")

def journalPath (primary : Path) (primaryName : Name) : Path :=
  ⟨primary.base, [utf8Bytes "." ++ primaryName ++ utf8Bytes ".squallz-output-set.json"]⟩

section

variable (formats : Formats)

/-! ## Preparation -/

/-- One turn of the loop over the staged files. -/
def bindMember (s : FileSystem) (parent holder : Path) (holderIdentity : Identity) (names : List Name)
    (staged : Request) : Except FormatError PreparedMember := do
  let name ← checkedPathComponent staged.fileName "staged output"
  refuseIf (staged.parent != holderIdentity || names.contains name)
    (.unsupported "file-set staging contains an outside or duplicate member")
  let staged := holder.join name
  let finalPath := parent.join name
  ensureOutputMissing s finalPath
  let file ← openRegularFile s staged
  refuseIf (!(s.inodes file).isFile) (.unsupported "file-set staging members must be regular files")
  refuseIf (s.identity staged != .ok file) (bindingError "staged output changed while it was opened")
  .ok ⟨name, staged, finalPath, file, file, .fromMetadata (s.inodes file), []⟩

def bindMembers (s : FileSystem) (parent holder : Path) (holderIdentity : Identity) :
    List Name → List Request → Except FormatError (List PreparedMember)
  | _, [] => .ok []
  | names, staged :: rest => do
    let member ← bindMember s parent holder holderIdentity names staged
    let members ← bindMembers s parent holder holderIdentity (member.name :: names) rest
    .ok (member :: members)

def hashPreparedMember (s : FileSystem) (member : PreparedMember) : Except FormatError PreparedMember := do
  refuseIf (!isBound s member.staged member.file member.identity member.state)
    (bindingError "staged output changed while it was hashed")
  .ok { member with digest := formats.hash (s.inodes member.file).bytes }

/-- The members by name, the primary one last. -/
def publicationOrder (members : List PreparedMember) (primaryName : Name) : List PreparedMember :=
  let sorted := members.insertionSort fun left right => left.name ≤ right.name
  sorted.filter (·.name ≠ primaryName) ++ sorted.filter (·.name = primaryName)

def prepareFileSetPublication (s : FileSystem) (primary stagingDirectory : Request) (stagedFiles : List Request) :
    Except FormatError PreparedFileSetPublication := do
  refuseIf stagedFiles.isEmpty (.unsupported "file-set publication requires at least one staged file")
  refuseIf (maxOutputSetMembers < stagedFiles.length)
    (.resourceLimitExceeded s!"file-set publication exceeds {maxOutputSetMembers} members")
  let primaryName ← checkedPathComponent primary.fileName "primary output"
  let parent : Path := ⟨primary.parent, []⟩
  let parentFile ← openDirectory s parent
  ensureDirectoryBinding s parent parentFile parentFile "destination parent"
  refuseIf (stagingDirectory.parent ≠ primary.parent)
    (.unsupported "file-set staging directory must be beside the destination")
  match stagingDirectory.fileName with
  | none => .error (.unsupported "file-set staging directory must be a direct destination sibling")
  | some holderName =>
    let holder := parent.join holderName
    let metadata ← ofErrno (s.metadata holder)
    refuseIf (!metadata.isDir)
      (.unsupported "file-set staging path must be a real directory")
    let holderName ← checkedPathComponent holderName "staging directory"
    let holderFile ← openDirectory s holder
    ensureDirectoryBinding s holder holderFile holderFile "staging directory"
    let members ← bindMembers s parent holder holderFile [] stagedFiles
    let names := members.map (·.name)
    refuseIf (!names.contains primaryName)
      (.unsupported "file-set staging does not contain the primary output")
    validateHolderInventory s holder names
    let members ← members.mapM (hashPreparedMember formats s)
    ensureDirectoryBinding s parent parentFile parentFile "destination parent"
    ensureDirectoryBinding s holder holderFile holderFile "staging directory"
    validateHolderInventory s holder names
    .ok { primary := parent.join primaryName, primaryName, parent, parentFile, parentIdentity := parentFile,
          holder, holderName, holderFile, holderIdentity := holderFile,
          members := publicationOrder members primaryName }

/-! ## The journal -/

def ensureJournalBinding (s : FileSystem) (journal : OpenJournal) : Except FormatError Unit := do
  refuseIf (!isBound s journal.path journal.file journal.identity journal.state)
    (publicationRecoveryError "the retained publication journal identity changed")
  let bytes := (s.inodes journal.file).bytes
  refuseIf (journalMaxBytes < bytes.length || formats.hash bytes != journal.contentDigest)
    (publicationRecoveryError "the retained publication journal contents changed")

/-- `remove_bound_file`. -/
def removeBoundFile (path : Path) (file identity : Identity) : Files Unit := do
  .observe fun s => refuseIf (file != identity || s.identity path != .ok identity)
    (ioOther "writer-owned file identity changed before cleanup")
  let removed ← .act (·.removeFile path)
  orFail removed

def clearJournal (journal : OpenJournal) : Files Unit := do
  .observe (ensureJournalBinding formats · journal)
  removeBoundFile journal.path journal.file journal.identity

/-- `publish_bound_file_no_replace`. -/
def publishBoundFileNoReplace (tmp : Path) (file expected : Identity) (dest : Path) : Files Unit := do
  .observe fun s => refuseIf (file != expected || s.identity tmp != .ok expected || !(s.inodes file).isFile)
    (ioOther "writer-owned staging changed before publication")
  let moved ← .act (·.renameNoReplace tmp dest)
  orFailWith (fun e => if e = .alreadyExists then outputExists else .ofIo (errnoError e)) moved
  .observe fun s => refuseIf (file != expected || s.identity dest != .ok expected)
    (ioOther "published output no longer matches the writer-owned staging file")

def journalTempPath (path : Path) (process sequence : Nat) : Path :=
  ⟨path.base, [utf8Bytes "." ++ path.names.getLastD [] ++ utf8Bytes s!".tmp-{process}-{sequence}"]⟩

/-- The new journal under its temporary name. -/
def stageJournal (tempPath : Path) (bytes : List UInt8) : Files Identity := do
  let created ← .act (·.create tempPath ⟨.regular [], 0o600, none, (0, 0)⟩)
  let file ← orFail created
  .update (·.write file bytes)
  .ret file

def writeJournal (process sequence : Nat) (primary : Path) (primaryName : Name) (record : JournalRecord) :
    Files (Except JournalWriteFailure OpenJournal) := do
  let path := journalPath primary primaryName
  let bytes := formats.toVec record
  let tempPath := journalTempPath path process sequence
  let staged ← Prog.attempt do
    .observe (ensureOutputMissing · path)
    .ofExcept (refuseIf (journalMaxBytes < bytes.length)
      (.resourceLimitExceeded s!"file-set publication journal exceeds {journalMaxBytes} bytes"))
    stageJournal tempPath bytes
  match staged with
  | .error error => .ret (.error ⟨error, false⟩)
  | .ok file =>
    let published ← (publishBoundFileNoReplace tempPath file file path).attempt
    match published with
    | .ok () =>
      .observe fun s => .ok (.ok ⟨path, file, file, .fromMetadata (s.inodes file), formats.hash bytes, record⟩)
    | .error error =>
      let visible ← .observe fun s => .ok (s.identity path == .ok file)
      if visible then .ret (.error ⟨error, true⟩)
      else
        let _ ← (removeBoundFile tempPath file file).attempt
        .ret (.error ⟨error, false⟩)

def openJournal (s : FileSystem) (primary : Path) (primaryName : Name) :
    Except FormatError (Option OpenJournal) :=
  let path := journalPath primary primaryName
  match s.metadata path with
  | .error .notFound => .ok none
  | .error e => .error (.ofIo (errnoError e))
  | .ok metadata => do
    refuseIf (!metadata.isFile)
      (.unsupported "file-set publication journal must be a regular file")
    let file ← openRegularFile s path
    refuseIf (s.identity path != .ok file)
      (bindingError "file-set journal changed while it was opened")
    let bytes := (s.inodes file).bytes
    refuseIf (journalMaxBytes < bytes.length)
      (.resourceLimitExceeded s!"file-set publication journal exceeds {journalMaxBytes} bytes")
    match formats.fromSlice bytes with
    | none => .error (.io ⟨.invalidData, "file-set publication journal is damaged"⟩)
    | some record =>
      .ok (some ⟨path, file, file, .fromMetadata (s.inodes file), formats.hash bytes, record⟩)

/-! ## Recovery -/

def checkedStoredComponent (name : StoredOsString) (role : String) : Except FormatError Name := do
  let name ← name.toOsString
  checkedPathComponent (some name) role

def resolveMembers (parent holder : Path) :
    List Name → List Identity → List JournalMember → Except FormatError (List (Name × ResolvedMember))
  | _, _, [] => .ok []
  | names, identities, member :: rest => do
    let name ← checkedStoredComponent member.name "output member"
    refuseIf (names.contains name || identities.contains member.identity)
      (.unsupported "file-set publication journal contains duplicate members")
    let members ← resolveMembers parent holder (name :: names) (member.identity :: identities) rest
    .ok ((name, ⟨holder.join name, parent.join name, member.identity, member.state, member.digest⟩) :: members)

def resolveTransaction (s : FileSystem) (primary : Path) (primaryName : Name) (record : JournalRecord) :
    Except FormatError ResolvedTransaction := do
  refuseIf (record.version ≠ journalVersion)
    (.unsupported s!"unsupported file-set publication journal version: {record.version}")
  refuseIf (record.members.isEmpty ∨ maxOutputSetMembers < record.members.length)
    (.unsupported "file-set publication journal has an invalid member count")
  let recordedName ← checkedStoredComponent record.primary "primary output"
  let requestedName ← checkedPathComponent (some primaryName) "primary output"
  refuseIf (recordedName ≠ requestedName)
    (.unsupported "file-set publication journal belongs to another output")
  let parent : Path := ⟨primary.base, []⟩
  let parentFile ← openDirectory s parent
  ensureDirectoryBinding s parent parentFile parentFile "destination parent"
  let holderName ← checkedStoredComponent record.holder "staging directory"
  let holder := parent.join holderName
  let members ← resolveMembers parent holder [] [] record.members
  refuseIf ((members.map (·.1)).getLast? ≠ some recordedName)
    (.unsupported "file-set publication journal does not publish its primary output last")
  .ok { parent, parentFile, parentIdentity := parentFile, holder, holderIdentity := record.holderIdentity,
        members := members.map (·.2) }

def verifyResolvedMember (s : FileSystem) (path : Path) (member : ResolvedMember) (moved : Bool) :
    Except FormatError Unit :=
  match openRegularFile s path with
  | .error _ => .error (publicationRecoveryError "a transaction output could not be opened")
  | .ok file =>
    let handleState := RegularFileState.fromMetadata (s.inodes file)
    let stateMatches := if moved then member.state.equivalentAfterRename handleState else member.state == handleState
    refuseIf (file != member.identity || s.identity path != .ok member.identity || !stateMatches ||
        formats.hash (s.inodes file).bytes != member.digest)
      (publicationRecoveryError "a transaction output identity or content changed")

/-- One turn of the loop that resumes the moves. -/
def resumeMember (journal : OpenJournal) (member : ResolvedMember) : Files Unit := do
  let stagedIdentity ← .observe (observedIdentity · member.staged)
  let finalIdentity ← .observe (observedIdentity · member.finalPath)
  match stagedIdentity, finalIdentity with
  | some staged, none =>
    if staged = member.identity then
      .observe (verifyResolvedMember formats · member.staged member false)
      .observe (ensureJournalBinding formats · journal)
      let moved ← .act (·.renameNoReplace member.staged member.finalPath)
      orFailWith (fun _ => publicationRecoveryError "a staged output could not be installed") moved
      .observe (verifyResolvedMember formats · member.finalPath member true)
    else .fail (publicationRecoveryError "an output path is occupied by another file identity")
  | none, some final =>
    if final = member.identity then .observe (verifyResolvedMember formats · member.finalPath member true)
    else .fail (publicationRecoveryError "an output path is occupied by another file identity")
  | some _, some _ => .fail (publicationRecoveryError "an output exists at both its staged and final paths")
  | none, none => .fail (publicationRecoveryError "an output is missing from both its staged and final paths")

/-- The check of the whole set before the staging directory goes. -/
def verifyInstalled (member : ResolvedMember) : Files Unit := do
  .observe (verifyResolvedMember formats · member.finalPath member true)
  .observe (ensureMissing · member.staged "staged output")

def removeHolder (transaction : ResolvedTransaction) : Files Unit := do
  let metadata ← .observe fun s => .ok (s.metadata transaction.holder)
  match metadata with
  | .ok metadata =>
    .observe fun s => refuseIf (!metadata.isDir || s.identity transaction.holder != .ok transaction.holderIdentity)
      (publicationRecoveryError "the retained staging directory identity changed")
    .observe (ensureEmptyDirectory · transaction.holder)
    let removed ← .act (·.removeDir transaction.holder)
    orFailWith (fun _ => publicationRecoveryError "the empty staging directory could not be removed") removed
  | .error .notFound => .ret ()
  | .error e => .fail (.ofIo (errnoError e))

def resumeTransaction (transaction : ResolvedTransaction) (journal : OpenJournal) : Files Unit := do
  .observe (ensureJournalBinding formats · journal)
  .observe (ensureDirectoryBinding · transaction.parent transaction.parentFile transaction.parentIdentity
    "destination parent")
  transaction.members.forM (resumeMember formats journal)
  transaction.members.forM (verifyInstalled formats)
  removeHolder transaction
  .observe (ensureJournalBinding formats · journal)

/-- `recover_file_set_publication`. -/
def recoverFileSetPublication (primary : Path) (primaryName : Name) : Files Bool := do
  let journal ← .observe (openJournal formats · primary primaryName)
  match journal with
  | none => .ret false
  | some journal =>
    let transaction ← .observe (resolveTransaction · primary primaryName journal.record)
    resumeTransaction formats transaction journal
    clearJournal formats journal
    .ret true

/-! ## The commit -/

def verifyPreparedMember (s : FileSystem) (member : PreparedMember) : Except FormatError Unit :=
  refuseIf (!isBound s member.staged member.file member.identity member.state)
    (bindingError "staged output changed after preparation")

def verifyInstalledMember (s : FileSystem) (member : PreparedMember) : Except FormatError Unit := do
  let handleState := RegularFileState.fromMetadata (s.inodes member.file)
  let pathState ← (ofErrno (s.metadata member.finalPath)).map RegularFileState.fromMetadata
  refuseIf (member.file != member.identity || s.identity member.finalPath != .ok member.identity ||
      !member.state.equivalentAfterRename handleState || !member.state.equivalentAfterRename pathState)
    (publicationRecoveryError "an installed output no longer matches its prepared file")

namespace PreparedFileSetPublication

variable (publication : PreparedFileSetPublication)

def verifyBindings (s : FileSystem) : Except FormatError Unit := do
  ensureDirectoryBinding s publication.parent publication.parentFile publication.parentIdentity "destination parent"
  ensureDirectoryBinding s publication.holder publication.holderFile publication.holderIdentity "staging directory"
  validateHolderInventory s publication.holder (publication.members.map (·.name))
  publication.members.forM (verifyPreparedMember s)

def journalRecord : Except FormatError JournalRecord := do
  let primary ← StoredOsString.fromOsString publication.primaryName
  let holder ← StoredOsString.fromOsString publication.holderName
  let members ← publication.members.mapM fun member => do
    let name ← StoredOsString.fromOsString member.name
    .ok ⟨name, member.identity, member.state, member.digest⟩
  .ok ⟨journalVersion, primary, holder, publication.holderIdentity, members⟩

/-- One turn of the loop that installs the members. -/
def installMember (journal : OpenJournal) (member : PreparedMember) : Files Unit := do
  .observe (ensureJournalBinding formats · journal)
  .observe (verifyPreparedMember · member)
  .observe (ensureDirectoryBinding · publication.parent publication.parentFile publication.parentIdentity
    "destination parent")
  let moved ← .act (·.renameNoReplace member.staged member.finalPath)
  orFailWith (fun _ => publicationRecoveryError "a staged output could not be installed") moved
  .observe (verifyInstalledMember · member)

/-- The commit up to the durable journal. -/
def issueJournal (process sequence : Nat) : Files OpenJournal := do
  let _ ← recoverFileSetPublication formats publication.primary publication.primaryName
  .observe publication.verifyBindings
  .observe fun s => publication.members.forM fun member => ensureOutputMissing s member.finalPath
  let record ← .ofExcept publication.journalRecord
  let written ← writeJournal formats process sequence publication.primary publication.primaryName record
  match written with
  | .ok journal => .ret journal
  | .error failure =>
    if failure.published then
      .fail (.other ("staged outputs were retained because the file-set publication journal may already be " ++
        "durable"))
    else .fail failure.error

/-- The outputs by path, the primary one first. -/
def outputs : List Path :=
  let sorted := (publication.members.map (·.finalPath)).insertionSort fun left right => left.names ≤ right.names
  sorted.filter (· = publication.primary) ++ sorted.filter (· ≠ publication.primary)

/-- The commit from the durable journal on. -/
def install (journal : OpenJournal) : Files (List Path) := do
  publication.members.forM (publication.installMember formats journal)
  .observe (ensureJournalBinding formats · journal)
  .observe fun s => publication.members.forM (verifyInstalledMember s)
  .observe (ensureDirectoryBinding · publication.holder publication.holderFile publication.holderIdentity
    "staging directory")
  .observe (ensureEmptyDirectory · publication.holder)
  let removed ← .act (·.removeDir publication.holder)
  orFailWith (fun _ => publicationRecoveryError "the empty staging directory could not be removed") removed
  clearJournal formats journal
  .ret publication.outputs

def commitNoReplace (process sequence : Nat) : Files (List Path) := do
  let journal ← publication.issueJournal formats process sequence
  publication.install formats journal

end PreparedFileSetPublication

end

end Squallz.OutputSet
