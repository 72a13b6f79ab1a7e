/-
What the checks of a repair workspace have found where they succeed, and on what a record depends.
-/
import Squallz.Recovery.Workspace
import Squallz.System.Frame

namespace Squallz.Recovery

open Squallz.Api Squallz.Core Squallz.System Squallz.System.FileSystem

/-! ## Names -/

theorem utf8Bytes_injective : Function.Injective utf8Bytes := by
  intro a b h
  have hb := fromUtf8_utf8Bytes a
  rw [h, fromUtf8_utf8Bytes] at hb
  exact (Option.some.inj hb).symm

private theorem ne_of_getLast {a b : String} {c d : Char} (ha : a.toList.getLast? = some c)
    (hb : b.toList.getLast? = some d) (hne : c ≠ d) : utf8Bytes a ≠ utf8Bytes b := by
  intro h
  rw [utf8Bytes_injective h, hb] at ha
  exact hne (Option.some.inj ha).symm

theorem getLast_workspace {name key : String} (h : isReservedWorkspaceName name key = true) :
    name.toList.getLast? = some 'k' := by
  unfold isReservedWorkspaceName at h
  simp only [Bool.and_eq_true] at h
  obtain ⟨suffix, hsuffix⟩ := List.isSuffixOf_iff_suffix.1 h.1.2
  rw [← List.take_append_drop (journalPrefix.toList ++ keyStart key ++ ['-']).length name.toList, ← hsuffix]
  simp [workspaceSuffix, List.getLast?_append]

theorem getLast_owner (workspace : String) : (workspace ++ ownerSuffix).toList.getLast? = some 'r' := by
  simp [ownerSuffix, List.getLast?_append]

namespace RepairWorkspaceTarget

variable {formats : Formats} {target : RepairWorkspaceTarget} {s t : FileSystem} {name : Name}

theorem getLast_journal : (journalPrefix ++ target.key ++ journalSuffix).toList.getLast? = some 'n' := by
  simp [journalSuffix, List.getLast?_append]

theorem journalTempName_ne : target.journalTempName ≠ target.journalName := by
  refine ne_of_getLast (c := 'p') (d := 'n') ?_ getLast_journal (by decide)
  simp [List.getLast?_append]

/-! ## Records -/

/-- Whether a journal's inode holds a record of the target. -/
structure Holds (formats : Formats) (target : RepairWorkspaceTarget) (node : Inode) (record : JournalRecord) : Prop where
  file : node.isFile = true
  mode : ensurePrivatePermissions node.mode false = .ok ()
  len : node.len ≤ journalMaxBytes
  document : ∃ digest, formats.fromSlice node.bytes = .ok ⟨record, digest⟩ ∧
    validateDocument formats target ⟨record, digest⟩ = .ok ()

theorem Holds.congr {node node' : Inode} {record : JournalRecord} (h : Holds formats target node record)
    (hsame : node'.SameFile node) : Holds formats target node' record := by
  obtain ⟨hcontent, hmode, -⟩ := hsame
  obtain ⟨file, mode, len, document⟩ := h
  refine ⟨?_, by rwa [hmode], ?_, ?_⟩
  · rwa [Inode.isFile, hcontent]
  · rwa [Inode.len, Inode.bytes, hcontent]
  · rwa [Inode.bytes, hcontent]

theorem Holds.unique {node : Inode} {record record' : JournalRecord} (h : Holds formats target node record)
    (h' : Holds formats target node record') : record = record' := by
  obtain ⟨digest, hread, -⟩ := h.document
  obtain ⟨digest', hread', -⟩ := h'.document
  rw [hread] at hread'
  cases hread'
  rfl

theorem validateDocument_eq_ok {document : JournalDocument} (h : validateDocument formats target document = .ok ()) :
    document.record.version = journalVersion ∧ document.record.targetKey = target.key ∧
      document.record.parentIdentity = target.parentIdentity ∧
      isReservedWorkspaceName document.record.workspace target.key = true ∧
      document.record.owner = document.record.workspace ++ ownerSuffix ∧
      document.digest = journalDigest formats document.record ∧
      isValidState document.record.workspaceState = true := by
  obtain ⟨_, hfields, hstate⟩ := bind_eq_ok.1 h
  have hfields := ensure_eq_ok.1 hfields
  simp only [Bool.and_eq_true, beq_iff_eq] at hfields
  obtain ⟨⟨⟨⟨⟨hversion, hkey⟩, hparent⟩, hname⟩, howner⟩, hdigest⟩ := hfields
  exact ⟨hversion, hkey, hparent, hname, howner, hdigest, ensure_eq_ok.1 hstate⟩

theorem validateDocument_of {document : JournalDocument} (hversion : document.record.version = journalVersion)
    (hkey : document.record.targetKey = target.key) (hparent : document.record.parentIdentity = target.parentIdentity)
    (hname : isReservedWorkspaceName document.record.workspace target.key = true)
    (howner : document.record.owner = document.record.workspace ++ ownerSuffix)
    (hdigest : document.digest = journalDigest formats document.record)
    (hstate : isValidState document.record.workspaceState = true) :
    validateDocument formats target document = .ok () := by
  unfold validateDocument
  rw [hversion, hkey, hparent, hname, howner, hdigest, hstate]
  simp [ensure]

theorem Holds.workspace_ne {node : Inode} {record : JournalRecord} (h : Holds formats target node record) :
    utf8Bytes record.workspace ≠ target.journalName := by
  obtain ⟨digest, -, hvalid⟩ := h.document
  exact ne_of_getLast (getLast_workspace (validateDocument_eq_ok hvalid).2.2.2.1) getLast_journal (by decide)

theorem Holds.owner_ne {node : Inode} {record : JournalRecord} (h : Holds formats target node record) :
    utf8Bytes record.owner ≠ target.journalName ∧ utf8Bytes record.owner ≠ utf8Bytes record.workspace := by
  obtain ⟨digest, -, hvalid⟩ := h.document
  obtain ⟨-, -, -, hname, howner, -, -⟩ := validateDocument_eq_ok hvalid
  have hlast : record.owner.toList.getLast? = some 'r' := by
    rw [howner]
    exact getLast_owner _
  exact ⟨ne_of_getLast hlast getLast_journal (by decide), ne_of_getLast hlast (getLast_workspace hname) (by decide)⟩

/-- The record that can be read under a name in the output's directory. -/
def recordAt (formats : Formats) (target : RepairWorkspaceTarget) (s : FileSystem) (name : Name) :
    Option JournalRecord :=
  match readJournalAt formats target s ⟨target.parent, [name]⟩ with
  | .ok (some journal) => some journal.record
  | _ => none

/-- The record in the journal. -/
def recorded (formats : Formats) (target : RepairWorkspaceTarget) (s : FileSystem) : Option JournalRecord :=
  recordAt formats target s target.journalName

theorem metadata_one (s : FileSystem) (d : Identity) (name : Name) :
    s.metadata ⟨d, [name]⟩ = (found (s.find d name)).map s.inodes := by
  rw [metadata, identity_one]

theorem readJournalAt_eq_some {journal : OpenJournal} :
    readJournalAt formats target s ⟨target.parent, [name]⟩ = .ok (some journal) ↔
      ∃ i, s.find target.parent name = some i ∧ Holds formats target (s.inodes i) journal.record ∧
        journal = ⟨⟨target.parent, [name]⟩, i, i, journal.record⟩ := by
  unfold readJournalAt
  rw [metadata_one]
  cases hfind : s.find target.parent name with
  | none => simp [Except.map]
  | some i =>
    have hidentity := identity_one_of_find hfind
    simp only [found_some, Except.map, Option.some.injEq, exists_eq_left']
    constructor
    · intro h
      obtain ⟨_, hfile, h⟩ := bind_eq_ok.1 h
      obtain ⟨file, hopen, h⟩ := bind_eq_ok.1 h
      obtain ⟨hfile', -⟩ := openRegularFileNoFollow_eq_ok.1 hopen
      rw [hidentity] at hfile'
      cases hfile'
      obtain ⟨_, hmode, h⟩ := bind_eq_ok.1 h
      obtain ⟨_, hlen, h⟩ := bind_eq_ok.1 h
      obtain ⟨_, -, h⟩ := bind_eq_ok.1 h
      obtain ⟨document, hdocument, h⟩ := bind_eq_ok.1 h
      obtain ⟨_, hvalid, h⟩ := bind_eq_ok.1 h
      cases h
      have hlen := ensure_eq_ok.1 hlen
      simp only [Bool.and_eq_true, decide_eq_true_eq] at hlen
      refine ⟨⟨ensure_eq_ok.1 hfile, hmode, hlen.2, document.digest, ?_, hvalid⟩, rfl⟩
      cases hread : formats.fromSlice (s.inodes i).bytes with
      | error message =>
        rw [hread] at hdocument
        cases hdocument
      | ok read =>
        rw [hread] at hdocument
        cases hdocument
        rfl
    · rintro ⟨⟨hfile, hmode, hlen, digest, hread, hvalid⟩, hjournal⟩
      rw [openRegularFileNoFollow_eq_ok.2 ⟨hidentity, hfile⟩, ok_bind, hmode, ok_bind, hread, hidentity]
      rw [hjournal]
      simp [ensure, hfile, hlen, Except.mapError, hvalid]

theorem recordAt_eq_some {record : JournalRecord} : recordAt formats target s name = some record ↔
    ∃ i, s.find target.parent name = some i ∧ Holds formats target (s.inodes i) record := by
  unfold recordAt
  constructor
  · intro h
    split at h
    · rename_i journal hread
      cases h
      obtain ⟨i, hfind, hholds, -⟩ := readJournalAt_eq_some.1 hread
      exact ⟨i, hfind, hholds⟩
    · cases h
  · rintro ⟨i, hfind, hholds⟩
    have hread : readJournalAt formats target s ⟨target.parent, [name]⟩ =
        .ok (some ⟨⟨target.parent, [name]⟩, i, i, record⟩) := readJournalAt_eq_some.2 ⟨i, hfind, hholds, rfl⟩
    rw [hread]

/-- A record stays as long as its entry and its file do. -/
theorem recordAt_keeps (h : s.Keeps t target.parent name) : recordAt formats target t name = recordAt formats target s name := by
  refine Option.ext fun record => ?_
  rw [recordAt_eq_some, recordAt_eq_some, h.find]
  constructor
  · rintro ⟨i, hfind, hholds⟩
    exact ⟨i, hfind, hholds.congr (h.sameFile i hfind).symm⟩
  · rintro ⟨i, hfind, hholds⟩
    exact ⟨i, hfind, hholds.congr (h.sameFile i hfind)⟩

theorem recordAt_of_none (h : s.find target.parent name = none) : recordAt formats target s name = none := by
  cases hr : recordAt formats target s name with
  | none => rfl
  | some record =>
    obtain ⟨i, hfind, -⟩ := recordAt_eq_some.1 hr
    rw [h] at hfind
    cases hfind

theorem recordAt_of_read {journal : OpenJournal} {path : Path} (hpath : path = ⟨target.parent, [name]⟩)
    (h : readJournalAt formats target s path = .ok (some journal)) :
    recordAt formats target s name = some journal.record ∧ journal.path = path := by
  subst hpath
  obtain ⟨i, hfind, hholds, hjournal⟩ := readJournalAt_eq_some.1 h
  refine ⟨recordAt_eq_some.2 ⟨i, hfind, hholds⟩, ?_⟩
  rw [hjournal]

theorem find_of_read_none {path : Path} (hpath : path = ⟨target.parent, [name]⟩)
    (h : readJournalAt formats target s path = .ok none) : s.find target.parent name = none := by
  subst hpath
  unfold readJournalAt at h
  rw [metadata_one] at h
  cases hfind : s.find target.parent name with
  | none => rfl
  | some i =>
    rw [hfind] at h
    simp only [found_some, Except.map] at h
    obtain ⟨_, -, h⟩ := bind_eq_ok.1 h
    obtain ⟨_, -, h⟩ := bind_eq_ok.1 h
    obtain ⟨_, -, h⟩ := bind_eq_ok.1 h
    obtain ⟨_, -, h⟩ := bind_eq_ok.1 h
    obtain ⟨_, -, h⟩ := bind_eq_ok.1 h
    obtain ⟨_, -, h⟩ := bind_eq_ok.1 h
    obtain ⟨_, -, h⟩ := bind_eq_ok.1 h
    cases h

/-- The binding of an open journal: its record is the one that can be read now. -/
theorem recordAt_of_binding {journal : OpenJournal} (hpath : journal.path = ⟨target.parent, [name]⟩)
    (h : ensureOpenJournalBinding formats target s journal = .ok ()) :
    recordAt formats target s name = some journal.record := by
  obtain ⟨read, hread, h⟩ := bind_eq_ok.1 h
  obtain ⟨reopened, hpresent, hbound⟩ := bind_eq_ok.1 h
  have hbound := ensure_eq_ok.1 hbound
  simp only [Bool.and_eq_true, beq_iff_eq] at hbound
  cases read with
  | none => cases hpresent
  | some journal' =>
    cases hpresent
    rw [(recordAt_of_read hpath hread).1, hbound.2]

/-! ## The owner and the workspace -/

def token : WorkspaceState → String
  | .reserved ownerToken => ownerToken
  | .active _ _ ownerToken => ownerToken

/-- The owner file of a record: it holds the record's token, and has the identity in the record if there is
one. -/
structure OwnerMatches (target : RepairWorkspaceTarget) (s : FileSystem) (record : JournalRecord) (i : Identity) : Prop where
  find : s.find target.parent (utf8Bytes record.owner) = some i
  token : fromUtf8 (s.inodes i).bytes = some (token record.workspaceState)
  identity : ∀ workspaceIdentity ownerIdentity ownerToken,
    record.workspaceState = .active workspaceIdentity ownerIdentity ownerToken → i = ownerIdentity

/-- The directory of a record's workspace and its owner file are the recorded ones. -/
def WorkspaceMatches (target : RepairWorkspaceTarget) (s : FileSystem) (record : JournalRecord) : Prop :=
  ∃ workspaceIdentity ownerIdentity ownerToken,
    record.workspaceState = .active workspaceIdentity ownerIdentity ownerToken ∧
      s.find target.parent (utf8Bytes record.workspace) = some workspaceIdentity ∧
      (s.inodes workspaceIdentity).isDir = true ∧ OwnerMatches target s record ownerIdentity

/-- No entry under the workspace's name. -/
def WorkspaceGone (target : RepairWorkspaceTarget) (s : FileSystem) (record : JournalRecord) : Prop :=
  s.find target.parent (utf8Bytes record.workspace) = none

theorem OwnerMatches.keeps {record : JournalRecord} {i : Identity} (h : OwnerMatches target s record i)
    (hkeeps : s.Keeps t target.parent (utf8Bytes record.owner)) : OwnerMatches target t record i := by
  refine ⟨by rw [hkeeps.find, h.find], ?_, h.identity⟩
  rw [Inode.bytes, (hkeeps.sameFile i h.find).1]
  exact h.token

theorem isPresent_eq {path : String} {b : Bool} (h : isPresent s (target.workspacePath path) = .ok b) :
    b = (s.find target.parent (utf8Bytes path)).isSome := by
  unfold isPresent workspacePath at h
  rw [metadata_one] at h
  cases hfind : s.find target.parent (utf8Bytes path) with
  | none =>
    rw [hfind] at h
    cases h
    rfl
  | some i =>
    rw [hfind] at h
    cases h
    rfl

theorem openBoundOwner_eq_ok {locked : Identity → Bool} {owner ownerIdentity : Identity} {path ownerToken : String}
    (h : openBoundOwner locked s (target.workspacePath path) ownerIdentity ownerToken = .ok owner) :
    owner = ownerIdentity ∧ s.find target.parent (utf8Bytes path) = some ownerIdentity ∧
      fromUtf8 (s.inodes ownerIdentity).bytes = some ownerToken := by
  obtain ⟨file, hopen, h⟩ := bind_eq_ok.1 h
  obtain ⟨hidentity, -⟩ := openRegularFileNoFollow_eq_ok.1 hopen
  obtain ⟨_, -, h⟩ := bind_eq_ok.1 h
  obtain ⟨_, -, h⟩ := bind_eq_ok.1 h
  obtain ⟨_, hbound, h⟩ := bind_eq_ok.1 h
  obtain ⟨read, hread, h⟩ := bind_eq_ok.1 h
  obtain ⟨_, htoken, h⟩ := bind_eq_ok.1 h
  obtain ⟨_, -, h⟩ := bind_eq_ok.1 h
  obtain ⟨_, -, h⟩ := bind_eq_ok.1 h
  cases h
  have hbound := ensure_eq_ok.1 hbound
  simp only [Bool.and_eq_true, beq_iff_eq] at hbound
  have howner : owner = ownerIdentity := hbound.1.2
  have htoken := ensure_eq_ok.1 htoken
  rw [beq_iff_eq] at htoken
  subst howner htoken
  refine ⟨rfl, ?_, ?_⟩
  · unfold workspacePath at hidentity
    rw [identity_one] at hidentity
    exact found_eq_ok.1 hidentity
  · unfold readToken at hread
    split at hread
    · rename_i text htext
      cases hread
      exact htext
    · cases hread

theorem openReservedOwner_eq_ok {locked : Identity → Bool} {owner : Identity} {path ownerToken : String}
    (h : openReservedOwner locked s (target.workspacePath path) ownerToken = .ok owner) :
    s.find target.parent (utf8Bytes path) = some owner ∧ fromUtf8 (s.inodes owner).bytes = some ownerToken := by
  obtain ⟨file, hopen, h⟩ := bind_eq_ok.1 h
  obtain ⟨hidentity, -⟩ := openRegularFileNoFollow_eq_ok.1 hopen
  obtain ⟨_, -, h⟩ := bind_eq_ok.1 h
  obtain ⟨_, -, h⟩ := bind_eq_ok.1 h
  obtain ⟨read, hread, h⟩ := bind_eq_ok.1 h
  obtain ⟨_, -, h⟩ := bind_eq_ok.1 h
  obtain ⟨_, htoken, h⟩ := bind_eq_ok.1 h
  obtain ⟨_, -, h⟩ := bind_eq_ok.1 h
  cases h
  have htoken := ensure_eq_ok.1 htoken
  simp only [Bool.and_eq_true, beq_iff_eq] at htoken
  rw [← htoken.1]
  refine ⟨?_, ?_⟩
  · unfold workspacePath at hidentity
    rw [identity_one] at hidentity
    exact found_eq_ok.1 hidentity
  · unfold readToken at hread
    split at hread
    · rename_i text htext
      cases hread
      exact htext
    · cases hread

theorem openBoundWorkspace_eq_ok {locked : Identity → Bool} {workspaceIdentity ownerIdentity : Identity}
    {workspace owner ownerToken : String} {bound : Identity × Identity}
    (h : openBoundWorkspace target locked s (target.workspacePath workspace) (target.workspacePath owner)
      workspaceIdentity ownerIdentity ownerToken = .ok bound) :
    bound.2 = ownerIdentity ∧ s.find target.parent (utf8Bytes workspace) = some workspaceIdentity ∧
      (s.inodes workspaceIdentity).isDir = true ∧ s.find target.parent (utf8Bytes owner) = some ownerIdentity ∧
      fromUtf8 (s.inodes ownerIdentity).bytes = some ownerToken := by
  obtain ⟨_, -, h⟩ := bind_eq_ok.1 h
  obtain ⟨directory, hopen, h⟩ := bind_eq_ok.1 h
  obtain ⟨hidentity, hdir⟩ := openDirectoryNoFollow_eq_ok.1 hopen
  obtain ⟨_, -, h⟩ := bind_eq_ok.1 h
  obtain ⟨_, hdirectory, h⟩ := bind_eq_ok.1 h
  obtain ⟨file, howner, h⟩ := bind_eq_ok.1 h
  obtain ⟨_, -, h⟩ := bind_eq_ok.1 h
  obtain ⟨_, -, h⟩ := bind_eq_ok.1 h
  obtain ⟨_, -, h⟩ := bind_eq_ok.1 h
  obtain ⟨_, -, h⟩ := bind_eq_ok.1 h
  cases h
  have hdirectory := ensure_eq_ok.1 hdirectory
  rw [beq_iff_eq] at hdirectory
  subst hdirectory
  obtain ⟨hfile, hfind, htoken⟩ := openBoundOwner_eq_ok howner
  refine ⟨hfile, ?_, hdir, hfind, htoken⟩
  unfold workspacePath at hidentity
  rw [identity_one] at hidentity
  exact found_eq_ok.1 hidentity

end RepairWorkspaceTarget

end Squallz.Recovery
