/-
Who may touch what in the registry: the holder of the sweep lock and the holders of owner records, what an action of a
session does to the machine, and what a session is in charge of, which nobody else touches.
-/
import Squallz.Staging.Registry
import Squallz.System.Frame

namespace Squallz.Staging

open Squallz.Api Squallz.Core Squallz.System Squallz.System.FileSystem
open Squallz.Destination (osStr)

/-- Two inodes of one kind with the same permissions. -/
structure SameKind (i j : Inode) : Prop where
  isFile : i.isFile = j.isFile
  isDir : i.isDir = j.isDir
  mode : i.mode = j.mode

variable (registry : Identity)

/-! ## Holders -/

/-- The holder of the sweep lock. -/
def SweepHolder (m : Machine) (me : Session) : Prop :=
  ∃ i, m.files.find registry sweepLockName = some i ∧ m.locks i = some ⟨me, sweepLockName, false⟩

/-- The creator of a workspace holds its owner record. -/
def Live (m : Machine) (me : Session) (workspace : List Char) : Prop :=
  ∃ i, m.files.find registry (ownerName workspace) = some i ∧ m.locks i = some ⟨me, ownerName workspace, true⟩

/-- Nobody else holds the owner record of a workspace. -/
def Free (m : Machine) (me : Session) (workspace : List Char) : Prop :=
  ∀ i h, m.files.find registry (ownerName workspace) = some i → m.locks i = some h → h.owner = me

def Unlocked (m : Machine) (workspace : List Char) : Prop :=
  ∀ i, m.files.find registry (ownerName workspace) = some i → m.locks i = none

def Cleared (m : Machine) (workspace : List Char) : Prop :=
  m.files.find registry (osStr workspace) = none

/-- A name made with a number that the session has drawn. -/
def Own (m : Machine) (me : Session) (workspace : List Char) : Prop :=
  ∃ kind sequence nanos, workspace = workspaceName kind me.process sequence nanos ∧
    (m.issued me.process)[sequence]? = some me

/-- The session may change what is in a workspace. -/
structure Charge (m : Machine) (me : Session) (workspace : List Char) : Prop where
  holds : SweepHolder registry m me ∨ Live registry m me workspace
  free : Free registry m me workspace

/-- What every machine in a run keeps. -/
structure Sound (m : Machine) : Prop where
  named : ∀ i h, m.locks i = some h →
    i.entry < m.next ∧ (h.name = sweepLockName ∨ ∃ workspace, h.name = ownerName workspace ∧ EndsInDigit workspace)
  live : ∀ i h, m.locks i = some h → h.created = true →
    ∃ workspace, h.name = ownerName workspace ∧ Own m h.owner workspace ∧ m.files.find registry h.name = some i
  root : registry.entry < m.next
  below : ∀ d name i, m.files.find d name = some i → d.entry < m.next ∧ i.entry < m.next
  single : ∀ i d name d' name', (m.files.inodes i).isDir = true → m.files.find d name = some i →
    m.files.find d' name' = some i → d = d' ∧ name = name'
  outer : ∀ d name, m.files.find d name ≠ some registry

/-! ## Actions -/

/-- The places where a session may create entries. -/
inductive Place (m : Machine) (me : Session) : Identity → Name → Prop
  | sweepLock : Place m me registry sweepLockName
  | owner {workspace : List Char} : SweepHolder registry m me → Own m me workspace →
      Place m me registry (ownerName workspace)
  | directory {workspace : List Char} : SweepHolder registry m me → Own m me workspace →
      Place m me registry (osStr workspace)
  | member {workspace : List Char} {d : Identity} (name : Name) : Live registry m me workspace →
      m.files.find registry (osStr workspace) = some d → (m.files.inodes d).isDir = true → Place m me d name

/-- The locks that a session may take. -/
inductive Lockable (m : Machine) (me : Session) : Identity → Handle → Prop
  | sweepLock {i : Identity} : m.files.find registry sweepLockName = some i → Lockable m me i ⟨me, sweepLockName, false⟩
  | stale {i : Identity} {workspace : List Char} : SweepHolder registry m me → EndsInDigit workspace →
      i.entry < m.next → Lockable m me i ⟨me, ownerName workspace, false⟩
  | own {i : Identity} {workspace : List Char} : SweepHolder registry m me → Own m me workspace →
      m.files.find registry (ownerName workspace) = some i → Lockable m me i ⟨me, ownerName workspace, true⟩

/-- A marker or an allowed private file of a workspace, its empty directory, or its own owner record; the workspace has
a record that nobody else holds. -/
inductive Reclaimed (m : Machine) (me : Session) : Identity → Name → Identity → Prop
  | member {workspace : List Char} {kind : StagingKind} {d i owner : Identity} {name : Name} :
      parseWorkspaceKind workspace = some kind → Charge registry m me workspace →
      m.files.find registry (ownerName workspace) = some owner → m.files.find registry (osStr workspace) = some d →
      isPrivateDirectoryMetadata (m.files.inodes d) = true →
      (name = workspaceMarkerName ∨ archiveFileNameAllowed kind name = true) → m.files.find d name = some i →
      isPrivateRegularMetadata (m.files.inodes i) = true → Reclaimed m me d name i
  | directory {workspace : List Char} {kind : StagingKind} {d owner : Identity} :
      parseWorkspaceKind workspace = some kind → Charge registry m me workspace →
      m.files.find registry (ownerName workspace) = some owner → m.files.find registry (osStr workspace) = some d →
      isPrivateDirectoryMetadata (m.files.inodes d) = true → m.files.children d = [] →
      Reclaimed m me registry (osStr workspace) d
  | record {workspace : List Char} {kind : StagingKind} {owner : Identity} :
      parseWorkspaceKind workspace = some kind → SweepHolder registry m me → Unlocked registry m workspace →
      Cleared registry m workspace → m.files.find registry (ownerName workspace) = some owner →
      isPrivateRegularMetadata (m.files.inodes owner) = true → Reclaimed m me registry (ownerName workspace) owner

/-- The entries that a session may remove: what it reclaims, the record of its own workspace, and what it has put into
this workspace. -/
inductive Removal (m : Machine) (me : Session) : Identity → Name → Identity → Prop
  | reclaimed {d i : Identity} {name : Name} : Reclaimed registry m me d name i → Removal m me d name i
  | record {workspace : List Char} {owner : Identity} : Own m me workspace → Cleared registry m workspace →
      m.locks owner ≠ some ⟨me, ownerName workspace, true⟩ → Removal m me registry (ownerName workspace) owner
  | used {workspace : List Char} {d i : Identity} (name : Name) : Live registry m me workspace →
      m.files.find registry (osStr workspace) = some d → (m.files.inodes d).isDir = true → Removal m me d name i

/-- A member of the session's own workspace, which is not linked outside of it. -/
def Used (m : Machine) (me : Session) (d i : Identity) : Prop :=
  ∃ workspace, Live registry m me workspace ∧ m.files.find registry (osStr workspace) = some d ∧
    (m.files.inodes d).isDir = true ∧ ∀ d' name, m.files.find d' name = some i → d' = d

/-- What an action of a session does. -/
inductive Step (me : Session) (m : Machine) : Machine → Prop
  | idle {m' : Machine} : m'.files = m.files → m'.next = m.next → m'.locks = m.locks → m'.issued = m.issued → Step me m m'
  | drawn : Step me m
      { m with issued := Function.update m.issued me.process (m.issued me.process ++ [me]) }
  | created {path : Path} {node : Inode} {d i : Identity} {name : Name} {m' : Machine} :
      m.files.locate path.base path.names = .ok (d, name) → Place registry m me d name →
      m.create path node = .ok (i, m') → Step me m m'
  | locked {i : Identity} {h : Handle} : m.locks i = none → Lockable registry m me i h → Step me m (m.lock i h)
  | unlocked {i : Identity} {h : Handle} : h.owner = me → Step me m (m.unlock i h)
  | written (i : Identity) (bytes : List UInt8) : Step me m (m.write i bytes)
  | moded {d i : Identity} {name : Name} (mode : Nat) : Used registry m me d i → m.files.find d name = some i →
      Step me m (m.setMode i mode)
  | removed {d i : Identity} {name : Name} {files : FileSystem} : m.files.find d name = some i →
      m.files.Removed d name files → Removal registry m me d name i → Step me m { m with files }

/-- What the others do: an action of another session, or the death of another process. -/
inductive Others (me : Session) (m : Machine) : Machine → Prop
  | step {other : Session} {m' : Machine} : other ≠ me → Step registry other m m' → Others me m m'
  | crash {process : Nat} : process ≠ me.process → Others me m (m.crash process)

variable {registry} {m m' : Machine} {me other : Session} {workspace : List Char} {d i : Identity} {name : Name}

theorem removed_unlink (hfound : m.files.find d name = some i) :
    m.files.Removed d name ((m.files.unlink d name).touch i) := by
  refine ⟨⟨i, hfound⟩, ?_, fun d' name' hne => ?_, fun j => sameFile_touch _ _ _⟩
  · rw [find_touch, find_unlink, if_pos ⟨rfl, rfl⟩]
  · rw [find_touch, find_unlink, if_neg fun heq => hne (by rw [heq.1, heq.2])]

/-! ## Kinds -/

theorem SameKind.refl (i : Inode) : SameKind i i := ⟨rfl, rfl, rfl⟩

theorem SameKind.symm {i j : Inode} (h : SameKind i j) : SameKind j i := ⟨h.isFile.symm, h.isDir.symm, h.mode.symm⟩

theorem SameKind.of_sameFile {i j : Inode} (h : i.SameFile j) : SameKind i j := by
  refine ⟨?_, Inode.isDir_of_sameFile h, h.2.1⟩
  unfold Inode.isFile
  rw [h.1]

theorem SameKind.isPrivateRegular {i j : Inode} (h : SameKind i j) :
    isPrivateRegularMetadata i = isPrivateRegularMetadata j := by
  unfold isPrivateRegularMetadata
  rw [h.isFile, h.mode]

theorem SameKind.isPrivateDirectory {i j : Inode} (h : SameKind i j) :
    isPrivateDirectoryMetadata i = isPrivateDirectoryMetadata j := by
  unfold isPrivateDirectoryMetadata
  rw [h.isDir, h.mode]

theorem isDir_of_isPrivateDirectory {i : Inode} (h : isPrivateDirectoryMetadata i = true) : i.isDir = true := by
  unfold isPrivateDirectoryMetadata at h
  rw [Bool.and_eq_true] at h
  exact h.1

theorem isFile_of_isPrivateRegular {i : Inode} (h : isPrivateRegularMetadata i = true) : i.isFile = true := by
  unfold isPrivateRegularMetadata at h
  rw [Bool.and_eq_true] at h
  exact h.1

theorem isDir_eq_false_of_isFile {i : Inode} (h : i.isFile = true) : i.isDir = false := by
  unfold Inode.isFile at h
  unfold Inode.isDir
  cases hc : i.content with
  | regular bytes => rfl
  | _ =>
    rw [hc] at h
    cases h

theorem content_of_isDir {i : Inode} (h : i.isDir = true) : i.content = .directory := by
  unfold Inode.isDir at h
  exact eq_of_beq h

/-! ## One holder -/

theorem SweepHolder.unique (h : SweepHolder registry m me) (h' : SweepHolder registry m other) : me = other := by
  obtain ⟨i, hi, hlock⟩ := h
  obtain ⟨j, hj, hlock'⟩ := h'
  rw [hi] at hj
  cases hj
  rw [hlock] at hlock'
  cases hlock'
  rfl

theorem Own.unique (h : Own m me workspace) (h' : Own m other workspace) : me = other := by
  obtain ⟨kind, sequence, nanos, rfl, hissued⟩ := h
  obtain ⟨kind', sequence', nanos', heq, hissued'⟩ := h'
  obtain ⟨hprocess, hsequence⟩ := workspaceName_inj heq
  rw [hprocess, hsequence, hissued'] at hissued
  cases hissued
  rfl

theorem Own.ends (h : Own m me workspace) : EndsInDigit workspace := by
  obtain ⟨kind, sequence, nanos, rfl, -⟩ := h
  exact endsInDigit_workspaceName kind _ _ _

theorem Own.mem_issued (h : Own m me workspace) : me ∈ m.issued me.process := by
  obtain ⟨kind, sequence, nanos, -, hissued⟩ := h
  exact List.mem_of_getElem? hissued

theorem Live.free (h : Live registry m me workspace) : Free registry m me workspace := by
  obtain ⟨i, hi, hlock⟩ := h
  intro j handle hj hhandle
  rw [hi] at hj
  cases hj
  rw [hlock] at hhandle
  cases hhandle
  rfl

theorem Live.charge (h : Live registry m me workspace) : Charge registry m me workspace := ⟨.inr h, h.free⟩

theorem Charge.unique (h : Charge registry m me workspace) (h' : Charge registry m other workspace) : me = other := by
  rcases h.holds with hsweep | ⟨i, hi, hlock⟩
  · rcases h'.holds with hsweep' | ⟨i, hi, hlock⟩
    · exact hsweep.unique hsweep'
    · exact (h.free i _ hi hlock).symm
  · exact h'.free i _ hi hlock

theorem Unlocked.free (h : Unlocked registry m workspace) (me : Session) : Free registry m me workspace := by
  intro i handle hi hlock
  rw [h i hi] at hlock
  cases hlock

theorem Live.own (hs : Sound registry m) (h : Live registry m me workspace) : Own m me workspace := by
  obtain ⟨i, -, hlock⟩ := h
  obtain ⟨workspace', hname, hown, -⟩ := hs.live i _ hlock rfl
  rwa [ownerName_injective hname]

/-- The directories of two workspaces are two. -/
theorem Sound.directory_inj (hs : Sound registry m) {workspace' : List Char}
    (h : m.files.find registry (osStr workspace) = some d) (h' : m.files.find registry (osStr workspace') = some d)
    (hdir : (m.files.inodes d).isDir = true) : workspace = workspace' :=
  Squallz.Destination.osStr_injective (hs.single d _ _ _ _ hdir h h').2

/-! ## Places -/

theorem Removal.at_registry (hs : Sound registry m) (h : Removal registry m me registry name i) :
    (∃ workspace, name = ownerName workspace ∧ Cleared registry m workspace ∧
      (SweepHolder registry m me ∧ Unlocked registry m workspace ∨
        Own m me workspace ∧ m.locks i ≠ some ⟨me, ownerName workspace, true⟩)) ∨
    ∃ workspace, name = osStr workspace ∧ EndsInDigit workspace ∧ Charge registry m me workspace := by
  generalize hd : registry = d at h
  cases h with
  | reclaimed h =>
    cases h with
    | member hkind hcharge _ hfound => exact absurd (hd ▸ hfound) (hs.outer _ _)
    | directory hkind hcharge => exact .inr ⟨_, rfl, endsInDigit_of_parseKind hkind, hcharge⟩
    | record _ hsweep hunlocked hcleared => exact .inl ⟨_, rfl, hcleared, .inl ⟨hsweep, hunlocked⟩⟩
  | record hown hcleared hlock => exact .inl ⟨_, rfl, hcleared, .inr ⟨hown, hlock⟩⟩
  | used name hlive hfound => exact absurd (hd ▸ hfound) (hs.outer _ _)

theorem Removal.at_directory (hs : Sound registry m) (h : Removal registry m me d name i)
    (hd : m.files.find registry (osStr workspace) = some d) (hdir : (m.files.inodes d).isDir = true) :
    Charge registry m me workspace := by
  cases h with
  | reclaimed h =>
    cases h with
    | member _ hcharge _ hfound => rwa [hs.directory_inj hd hfound hdir]
    | directory => exact absurd hd (hs.outer _ _)
    | record => exact absurd hd (hs.outer _ _)
  | record => exact absurd hd (hs.outer _ _)
  | used name hlive hfound =>
    rw [hs.directory_inj hd hfound hdir]
    exact hlive.charge

theorem Place.at_registry (hs : Sound registry m) (h : Place registry m me registry name) :
    name = sweepLockName ∨ ∃ workspace, SweepHolder registry m me ∧ Own m me workspace ∧
      (name = ownerName workspace ∨ name = osStr workspace) := by
  generalize hd : registry = d at h
  cases h with
  | sweepLock => exact .inl rfl
  | owner hsweep hown => exact .inr ⟨_, hsweep, hown, .inl rfl⟩
  | directory hsweep hown => exact .inr ⟨_, hsweep, hown, .inr rfl⟩
  | member name hlive hfound => exact absurd (hd ▸ hfound) (hs.outer _ _)

theorem Place.at_directory (hs : Sound registry m) (h : Place registry m me d name)
    (hd : m.files.find registry (osStr workspace) = some d) (hdir : (m.files.inodes d).isDir = true) :
    Live registry m me workspace := by
  cases h with
  | member name hlive hfound => rwa [hs.directory_inj hd hfound hdir]
  | _ => exact absurd hd (hs.outer _ _)

theorem Place.entry_lt (hs : Sound registry m) (h : Place registry m me d name) : d.entry < m.next := by
  cases h with
  | member name hlive hfound => exact (hs.below _ _ _ hfound).2
  | _ => exact hs.root

theorem Used.not_registry (hs : Sound registry m) (h : Used registry m me registry i) : False := by
  obtain ⟨workspace, -, hfound, -⟩ := h
  exact hs.outer _ _ hfound

theorem Used.live (hs : Sound registry m) (h : Used registry m me d i)
    (hd : m.files.find registry (osStr workspace) = some d) : Live registry m me workspace := by
  obtain ⟨workspace', hlive, hfound, hdir, -⟩ := h
  rwa [hs.directory_inj hd hfound hdir]

/-! ## What an action changes -/

/-- What an action of a session does to the entries, the inodes and the locks. -/
structure Effect (registry : Identity) (me : Session) (m m' : Machine) : Prop where
  issued : ∀ process, m'.issued process = m.issued process ∨
    process = me.process ∧ m'.issued process = m.issued process ++ [me]
  next : m.next ≤ m'.next
  kept : ∀ i h, h.owner ≠ me → m.locks i = some h → m'.locks i = some h
  held : ∀ i h, m'.locks i = some h →
    m.locks i = some h ∨ m.locks i = none ∧ Lockable registry m me i h ∧ m'.files = m.files
  found : (∀ d name i, m'.files.find d name = some i → m.files.find d name = some i) ∨
    ∃ d name, Place registry m me d name ∧ m.files.find d name = none ∧ m.next < m'.next ∧
      ∀ d' name' i, m'.files.find d' name' = some i →
        m.files.find d' name' = some i ∨ d' = d ∧ name' = name ∧ i = ⟨d.filesystem, m.next⟩
  lost : ∀ d name i, m.files.find d name = some i → m'.files.find d name = some i ∨ Removal registry m me d name i
  isDir : ∀ d name i, m.files.find d name = some i → (m'.files.inodes i).isDir = (m.files.inodes i).isDir
  kind : ∀ d name i, m.files.find d name = some i →
    SameKind (m.files.inodes i) (m'.files.inodes i) ∨ Used registry m me d i

theorem create_eq_ok {path : Path} {node : Inode} : m.create path node = .ok (i, m') ↔
    ∃ d name, m.files.locate path.base path.names = .ok (d, name) ∧ m.files.find d name = none ∧
      i = ⟨d.filesystem, m.next⟩ ∧
      m' = { m with files := ((m.files.setInode i node).link d name i).touch i, next := m.next + 1 } := by
  unfold Machine.create
  constructor
  · intro h
    cases hloc : m.files.locate path.base path.names with
    | error e =>
      rw [hloc] at h
      cases h
    | ok k =>
      obtain ⟨d, name⟩ := k
      rw [hloc] at h
      cases hi : m.files.find d name with
      | some j => simp [bind, Except.bind, hi] at h
      | none =>
        simp only [bind, Except.bind, hi, Except.ok.injEq, Prod.mk.injEq] at h
        obtain ⟨rfl, rfl⟩ := h
        exact ⟨d, name, rfl, hi, rfl, rfl⟩
  · rintro ⟨d, name, hloc, hi, rfl, rfl⟩
    simp only [hloc, bind, Except.bind, hi]

/-- The new entry is the only one that leads to its inode. -/
theorem create_created {path : Path} {node : Inode} (hs : Sound registry m)
    (hloc : m.files.locate path.base path.names = .ok (d, name)) (h : m.create path node = .ok (i, m')) :
    i = ⟨d.filesystem, m.next⟩ ∧ m'.next = m.next + 1 ∧ m'.locks = m.locks ∧ m'.issued = m.issued ∧
      m.files.find d name = none ∧ m'.files.find d name = some i ∧ (m'.files.inodes i).SameFile node ∧
      (∀ d' name', (d', name') ≠ (d, name) → m'.files.find d' name' = m.files.find d' name') ∧
      ∀ d' name' j, m.files.find d' name' = some j → m'.files.inodes j = m.files.inodes j := by
  obtain ⟨d', name', hloc', hvacant, rfl, rfl⟩ := create_eq_ok.1 h
  rw [hloc] at hloc'
  cases hloc'
  refine ⟨rfl, rfl, rfl, rfl, hvacant, ?_, ?_, fun d' name' hne => ?_, fun d' name' j hj => ?_⟩
  · dsimp only
    rw [find_touch, find_link, if_pos ⟨rfl, rfl⟩]
  · have h := sameFile_touch ((m.files.setInode ⟨d.filesystem, m.next⟩ node).link d name ⟨d.filesystem, m.next⟩)
      ⟨d.filesystem, m.next⟩ ⟨d.filesystem, m.next⟩
    rw [inodes_link, inodes_setInode_self] at h
    exact h
  · dsimp only
    rw [find_touch, find_link, if_neg fun heq => hne (by rw [heq.1, heq.2]), find_setInode]
  · have hne : j ≠ ⟨d.filesystem, m.next⟩ := by
      rintro rfl
      exact absurd (hs.below _ _ _ hj).2 (lt_irrefl _)
    dsimp only
    rw [inodes_touch_ne _ _ _ hne, inodes_link, inodes_setInode_ne _ _ _ _ hne]

theorem sameKind_write (m : Machine) (i j : Identity) (bytes : List UInt8) :
    SameKind (m.files.inodes j) ((m.write i bytes).files.inodes j) := by
  unfold Machine.write
  split
  · rename_i hfile
    by_cases hj : j = i
    · subst hj
      have hcontent := content_write m.files j bytes
      refine ⟨?_, ?_, ?_⟩
      · rw [hfile]
        unfold Inode.isFile
        rw [hcontent]
      · rw [isDir_eq_false_of_isFile hfile]
        unfold Inode.isDir
        rw [hcontent]
        rfl
      · show _ = ((((m.files.setInode j _).touch j).inodes j).mode)
        rw [(sameFile_touch _ _ _).2.1, inodes_setInode_self]
    · rw [inodes_write_ne _ _ _ _ hj]
      exact .refl _
  · exact .refl _

theorem find_write (m : Machine) (i : Identity) (bytes : List UInt8) :
    (m.write i bytes).files.find d name = m.files.find d name := by
  unfold Machine.write
  split <;> rfl

theorem find_setMode (m : Machine) (i : Identity) (mode : Nat) :
    (m.setMode i mode).files.find d name = m.files.find d name := by
  unfold Machine.setMode
  split <;> rfl

theorem inodes_setMode_ne (m : Machine) {i j : Identity} (mode : Nat) (h : j ≠ i) :
    (m.setMode i mode).files.inodes j = m.files.inodes j := by
  unfold Machine.setMode
  split
  · dsimp only
    rw [inodes_touch_ne _ _ _ h, inodes_setInode_ne _ _ _ _ h]
  · rfl

theorem isDir_setMode (m : Machine) (i j : Identity) (mode : Nat) :
    ((m.setMode i mode).files.inodes j).isDir = (m.files.inodes j).isDir := by
  by_cases h : j = i
  · subst h
    unfold Machine.setMode
    split
    · unfold Inode.isDir
      dsimp only
      rw [(sameFile_touch _ _ _).1, inodes_setInode_self]
    · rfl
  · rw [inodes_setMode_ne m mode h]

theorem locks_unlock_ne {h : Handle} {j : Identity} (hne : m.locks j ≠ some h) : (m.unlock i h).locks j = m.locks j := by
  unfold Machine.unlock
  split
  · rename_i hlock
    dsimp only
    rw [Function.update_of_ne]
    rintro rfl
    exact hne hlock
  · rfl

theorem locks_unlock_cases (m : Machine) (i j : Identity) (h : Handle) :
    (m.unlock i h).locks j = m.locks j ∨ (m.unlock i h).locks j = none := by
  unfold Machine.unlock
  split
  · by_cases hj : j = i
    · subst hj
      exact .inr (Function.update_self _ _ _)
    · exact .inl (Function.update_of_ne hj _ _)
  · exact .inl rfl

@[simp] theorem files_unlock (m : Machine) (i : Identity) (h : Handle) : (m.unlock i h).files = m.files := by
  unfold Machine.unlock
  split <;> rfl

@[simp] theorem issued_unlock (m : Machine) (i : Identity) (h : Handle) : (m.unlock i h).issued = m.issued := by
  unfold Machine.unlock
  split <;> rfl

@[simp] theorem next_unlock (m : Machine) (i : Identity) (h : Handle) : (m.unlock i h).next = m.next := by
  unfold Machine.unlock
  split <;> rfl

/-- Only the files differ. -/
theorem write_rest (m : Machine) (i : Identity) (bytes : List UInt8) :
    (m.write i bytes).locks = m.locks ∧ (m.write i bytes).issued = m.issued ∧ (m.write i bytes).next = m.next := by
  unfold Machine.write
  split <;> exact ⟨rfl, rfl, rfl⟩

theorem setMode_rest (m : Machine) (i : Identity) (mode : Nat) :
    (m.setMode i mode).locks = m.locks ∧ (m.setMode i mode).issued = m.issued ∧ (m.setMode i mode).next = m.next := by
  unfold Machine.setMode
  split <;> exact ⟨rfl, rfl, rfl⟩

theorem Step.effect (hs : Sound registry m) (h : Step registry me m m') : Effect registry me m m' := by
  cases h with
  | idle hfiles hnext hlocks hissued =>
    constructor
    · intro process
      exact .inl (by rw [hissued])
    · rw [hnext]
    · intro i h _ hlock
      rwa [hlocks]
    · intro i h hlock
      rw [hlocks] at hlock
      exact .inl hlock
    · rw [hfiles]
      exact .inl fun _ _ _ h => h
    · intro d name i h
      rw [hfiles]
      exact .inl h
    · intro d name i _
      rw [hfiles]
    · intro d name i _
      rw [hfiles]
      exact .inl (.refl _)
  | drawn =>
    refine ⟨fun process => ?_, le_rfl, fun _ _ _ h => h, fun _ _ h => .inl h, .inl fun _ _ _ h => h,
      fun _ _ _ h => .inl h, fun _ _ _ _ => rfl, fun _ _ _ _ => .inl (.refl _)⟩
    by_cases hp : process = me.process
    · subst hp
      exact .inr ⟨rfl, Function.update_self _ _ _⟩
    · exact .inl (Function.update_of_ne hp _ _)
  | created hloc hplace hcreate =>
    rename_i path node d i name
    obtain ⟨rfl, hnext, hlocks, hissued, hvacant, hfound, -, hothers, hinodes⟩ := create_created hs hloc hcreate
    constructor
    · intro process
      exact .inl (by rw [hissued])
    · omega
    · intro j h _ hlock
      rwa [hlocks]
    · intro j h hlock
      rw [hlocks] at hlock
      exact .inl hlock
    · refine .inr ⟨d, name, hplace, hvacant, by omega, fun d' name' j hj => ?_⟩
      by_cases hk : (d', name') = (d, name)
      · cases hk
        rw [hfound] at hj
        cases hj
        exact .inr ⟨rfl, rfl, rfl⟩
      · rw [hothers d' name' hk] at hj
        exact .inl hj
    · intro d' name' j hj
      refine .inl ?_
      rw [hothers d' name', hj]
      rintro ⟨⟩
      rw [hvacant] at hj
      cases hj
    · intro d' name' j hj
      rw [hinodes _ _ _ hj]
    · intro d' name' j hj
      rw [hinodes _ _ _ hj]
      exact .inl (.refl _)
  | locked hfree hlockable =>
    rename_i i handle
    refine ⟨fun _ => .inl rfl, le_rfl, fun j h _ hlock => ?_, fun j h hlock => ?_, .inl fun _ _ _ h => h,
      fun _ _ _ h => .inl h, fun _ _ _ _ => rfl, fun _ _ _ _ => .inl (.refl _)⟩
    · show Function.update m.locks i (some handle) j = some h
      rw [Function.update_of_ne, hlock]
      rintro rfl
      rw [hfree] at hlock
      cases hlock
    · have hlock : Function.update m.locks i (some handle) j = some h := hlock
      by_cases hj : j = i
      · subst hj
        rw [Function.update_self] at hlock
        cases hlock
        exact .inr ⟨hfree, hlockable, rfl⟩
      · rw [Function.update_of_ne hj] at hlock
        exact .inl hlock
  | unlocked howner =>
    rename_i i handle
    refine ⟨fun _ => .inl (by rw [issued_unlock]), le_of_eq (next_unlock m i handle).symm, fun j h hne hlock => ?_,
      fun j h hlock => ?_, ?_, ?_, ?_, ?_⟩
    · rw [locks_unlock_ne, hlock]
      rw [hlock]
      rintro ⟨⟩
      exact hne howner
    · rcases locks_unlock_cases m i j handle with heq | heq
      · exact .inl (heq ▸ hlock)
      · rw [heq] at hlock
        cases hlock
    · rw [files_unlock]
      exact .inl fun _ _ _ h => h
    · rw [files_unlock]
      exact fun _ _ _ h => .inl h
    · rw [files_unlock]
      exact fun _ _ _ _ => rfl
    · rw [files_unlock]
      exact fun _ _ _ _ => .inl (.refl _)
  | written i bytes =>
    obtain ⟨hlocks, hissued, hnext⟩ := write_rest m i bytes
    refine ⟨fun _ => .inl (by rw [hissued]), by rw [hnext], fun _ _ _ h => by rwa [hlocks], fun _ _ h => ?_,
      .inl fun d name j hj => ?_, fun d name j hj => .inl ?_, fun _ _ j _ => ?_, fun _ _ j _ => .inl ?_⟩
    · rw [hlocks] at h
      exact .inl h
    · rwa [find_write] at hj
    · rwa [find_write]
    · exact (sameKind_write m i j bytes).isDir.symm
    · exact sameKind_write m i j bytes
  | moded mode hused hfound =>
    rename_i d i name
    obtain ⟨hlocks, hissued, hnext⟩ := setMode_rest m i mode
    refine ⟨fun _ => .inl (by rw [hissued]), by rw [hnext], fun _ _ _ h => by rwa [hlocks], fun _ _ h => ?_,
      .inl fun d name j hj => ?_, fun d name j hj => .inl ?_, fun _ _ j _ => isDir_setMode m i j mode,
      fun d' name' j hj => ?_⟩
    · rw [hlocks] at h
      exact .inl h
    · rwa [find_setMode] at hj
    · rwa [find_setMode]
    · by_cases hji : j = i
      · subst hji
        have hd : d' = d := by
          obtain ⟨_, _, _, _, halone⟩ := hused
          exact halone _ _ hj
        exact .inr (hd ▸ hused)
      · rw [inodes_setMode_ne m mode hji]
        exact .inl (.refl _)
  | removed hfound hremoved hremoval =>
    rename_i d i name files
    refine ⟨fun _ => .inl rfl, le_rfl, fun _ _ _ h => h, fun _ _ h => .inl h, .inl fun d' name' j hj => ?_,
      fun d' name' j hj => ?_, fun _ _ j _ => ?_, fun _ _ j _ => .inl ?_⟩
    · rcases hremoved.pruned.find d' name' with heq | heq
      · rwa [← heq]
      · dsimp only at hj
        rw [heq] at hj
        cases hj
    · by_cases hk : (d', name') = (d, name)
      · cases hk
        rw [hfound] at hj
        cases hj
        exact .inr hremoval
      · exact .inl ((hremoved.others d' name' hk).trans hj)
    · exact Inode.isDir_of_sameFile (hremoved.sameFile j)
    · exact (SameKind.of_sameFile (hremoved.sameFile j)).symm

/-! ## What every machine keeps -/

theorem Own.step (h : Own m other workspace) (heffect : Effect registry me m m') : Own m' other workspace := by
  obtain ⟨kind, sequence, nanos, rfl, hissued⟩ := h
  refine ⟨kind, sequence, nanos, rfl, ?_⟩
  rcases heffect.issued other.process with heq | ⟨-, heq⟩
  · rwa [heq]
  · rw [heq]
    rwa [List.getElem?_append_left (List.getElem?_eq_some_iff.1 hissued).1]

theorem Effect.live (hs : Sound registry m) (h : Effect registry me m m') {handle : Handle}
    (hlock : m'.locks i = some handle) (hcreated : handle.created = true) :
    ∃ workspace, handle.name = ownerName workspace ∧ Own m' handle.owner workspace ∧
      m'.files.find registry handle.name = some i := by
  rcases h.held i handle hlock with hold | ⟨-, hnew, hfiles⟩
  · obtain ⟨workspace, hname, hown, hfound⟩ := hs.live i handle hold hcreated
    refine ⟨workspace, hname, hown.step h, ?_⟩
    rcases h.lost _ _ _ hfound with hkept | hremoval
    · exact hkept
    · exfalso
      rcases hremoval.at_registry hs with ⟨workspace', hname', -, hrecord⟩ | ⟨workspace', hname', hends, -⟩
      · have hworkspace := ownerName_injective (hname.symm.trans hname')
        subst hworkspace
        rcases hrecord with ⟨-, hunlocked⟩ | ⟨hme, hreleased⟩
        · rw [hunlocked i (hname ▸ hfound)] at hold
          cases hold
        · refine hreleased ?_
          rw [hold, hme.unique hown, ← hname, ← hcreated]
      · exact hends.ne_ownerName workspace (hname'.symm.trans hname)
  · cases hnew with
    | own _ hown hfound => exact ⟨_, rfl, hown.step h, hfiles ▸ hfound⟩
    | _ => cases hcreated

theorem Effect.sound (hs : Sound registry m) (h : Effect registry me m m') : Sound registry m' := by
  constructor
  · intro i handle hlock
    rcases h.held i handle hlock with hold | ⟨-, hnew, -⟩
    · obtain ⟨hlt, hname⟩ := hs.named i handle hold
      exact ⟨lt_of_lt_of_le hlt h.next, hname⟩
    · cases hnew with
      | sweepLock hfound => exact ⟨lt_of_lt_of_le (hs.below _ _ _ hfound).2 h.next, .inl rfl⟩
      | stale _ hends hlt => exact ⟨lt_of_lt_of_le hlt h.next, .inr ⟨_, rfl, hends⟩⟩
      | own _ hown hfound => exact ⟨lt_of_lt_of_le (hs.below _ _ _ hfound).2 h.next, .inr ⟨_, rfl, hown.ends⟩⟩
  · exact fun i handle hlock hcreated => h.live hs hlock hcreated
  · exact lt_of_lt_of_le hs.root h.next
  · intro d name i hfound
    have hnext := h.next
    rcases h.found with hold | ⟨d', name', hplace, -, hlt, hold⟩
    · obtain ⟨hd, hi⟩ := hs.below _ _ _ (hold _ _ _ hfound)
      omega
    · rcases hold _ _ _ hfound with hold | ⟨rfl, rfl, rfl⟩
      · obtain ⟨hd, hi⟩ := hs.below _ _ _ hold
        omega
      · have hd := hplace.entry_lt hs
        exact ⟨by omega, hlt⟩
  · intro i d name d' name' hdir hfound hfound'
    have hold : ∀ {d name d' name'}, m.files.find d name = some i → m.files.find d' name' = some i →
        d = d' ∧ name = name' := by
      intro d name d' name' hfound hfound'
      exact hs.single i d name d' name' ((h.isDir _ _ _ hfound).symm.trans hdir) hfound hfound'
    rcases h.found with hsub | ⟨d₀, name₀, -, -, -, hnew⟩
    · exact hold (hsub _ _ _ hfound) (hsub _ _ _ hfound')
    · rcases hnew _ _ _ hfound with hfound | ⟨rfl, rfl, rfl⟩
      · rcases hnew _ _ _ hfound' with hfound' | ⟨rfl, rfl, rfl⟩
        · exact hold hfound hfound'
        · exact absurd (hs.below _ _ _ hfound).2 (lt_irrefl _)
      · rcases hnew _ _ _ hfound' with hfound' | ⟨rfl, rfl, -⟩
        · exact absurd (hs.below _ _ _ hfound').2 (lt_irrefl _)
        · exact ⟨rfl, rfl⟩
  · intro d name hfound
    rcases h.found with hsub | ⟨d', name', -, -, -, hnew⟩
    · exact hs.outer _ _ (hsub _ _ _ hfound)
    · rcases hnew _ _ _ hfound with hfound | ⟨-, -, heq⟩
      · exact hs.outer _ _ hfound
      · have hroot := hs.root
        rw [heq] at hroot
        exact lt_irrefl _ hroot

theorem Step.sound (hs : Sound registry m) (h : Step registry me m m') : Sound registry m' := (h.effect hs).sound hs

theorem Sound.crash (hs : Sound registry m) (process : Nat) : Sound registry (m.crash process) := by
  have hlocks : ∀ i h, (m.crash process).locks i = some h → m.locks i = some h ∧ h.owner.process ≠ process := by
    intro i h hlock
    rw [show (m.crash process).locks i = (m.locks i).filter (·.owner.process ≠ process) from rfl,
      Option.filter_eq_some_iff] at hlock
    exact ⟨hlock.1, of_decide_eq_true hlock.2⟩
  refine ⟨fun i h hlock => hs.named i h (hlocks i h hlock).1, fun i h hlock hcreated => ?_, hs.root, hs.below, hs.single,
    hs.outer⟩
  obtain ⟨hold, hprocess⟩ := hlocks i h hlock
  obtain ⟨workspace, hname, ⟨kind, sequence, nanos, heq, hissued⟩, hfound⟩ := hs.live i h hold hcreated
  refine ⟨workspace, hname, ⟨kind, sequence, nanos, heq, ?_⟩, hfound⟩
  show (Function.update m.issued process [] h.owner.process)[sequence]? = _
  rwa [Function.update_of_ne hprocess]

theorem Others.sound (hs : Sound registry m) (h : Others registry me m m') : Sound registry m' := by
  cases h with
  | step _ h => exact h.sound hs
  | crash => exact hs.crash _

end Squallz.Staging
