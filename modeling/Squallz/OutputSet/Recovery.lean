/-
The programs of a publication between its stages: what each check answers there, that a commit and a
recovery pass through stages only, and that a recovery that is not stopped ends with the journal gone.
-/
import Squallz.OutputSet.Progress

namespace Squallz.OutputSet

open Squallz.Api Squallz.Core Squallz.System

variable {formats : Formats} {origin : FileSystem}

/-! ## The record -/

/-- The record of one member. -/
def PreparedMember.recorded (m : PreparedMember) : JournalMember := ⟨.unix m.name, m.identity, m.state, m.digest⟩

/-- A member as it is resolved from the journal. -/
def PreparedMember.resolved (m : PreparedMember) : ResolvedMember :=
  ⟨m.staged, m.finalPath, m.identity, m.state, m.digest⟩

theorem forM_resolved (members : List PreparedMember) (f : ResolvedMember → Files Unit) :
    (members.map PreparedMember.resolved).forM f = members.forM fun m => f m.resolved := List.forM_map

theorem mapM_recorded : ∀ {members : List PreparedMember} {l : List JournalMember},
    (members.mapM fun m => do
      let name ← StoredOsString.fromOsString m.name
      .ok (⟨name, m.identity, m.state, m.digest⟩ : JournalMember)) = .ok l →
    l = members.map PreparedMember.recorded ∧ ∀ m ∈ members, (StoredOsString.unix m.name).toOsString = .ok m.name := by
  intro members
  induction members with
  | nil =>
    intro l h
    cases h
    exact ⟨rfl, fun m hm => by cases hm⟩
  | cons m members ih =>
    intro l h
    rw [List.mapM_cons, bind_eq_ok] at h
    obtain ⟨a, ha, h⟩ := h
    rw [bind_eq_ok] at h
    obtain ⟨l', hl', h⟩ := h
    obtain ⟨name, hname, ha⟩ := bind_eq_ok.1 ha
    cases ha
    cases h
    obtain ⟨rfl, hall⟩ := ih hl'
    obtain ⟨rfl, hback⟩ := StoredOsString.toOsString_of_fromOsString hname
    refine ⟨rfl, ?_⟩
    rintro m' (_ | ⟨_, hm'⟩)
    · exact hback
    · exact hall m' hm'

/-- The record of a publication, and that its names can be read back. -/
theorem journalRecord_eq {p : PreparedFileSetPublication} {record : JournalRecord} (h : p.journalRecord = .ok record) :
    record = ⟨journalVersion, .unix p.primaryName, .unix p.holderName, p.holderIdentity,
      p.members.map PreparedMember.recorded⟩ ∧
    (StoredOsString.unix p.primaryName).toOsString = .ok p.primaryName ∧
    (StoredOsString.unix p.holderName).toOsString = .ok p.holderName ∧
    ∀ m ∈ p.members, (StoredOsString.unix m.name).toOsString = .ok m.name := by
  unfold PreparedFileSetPublication.journalRecord at h
  obtain ⟨primary, hprimary, h⟩ := bind_eq_ok.1 h
  obtain ⟨holder, hholder, h⟩ := bind_eq_ok.1 h
  obtain ⟨members, hmembers, h⟩ := bind_eq_ok.1 h
  cases h
  obtain ⟨rfl, hback⟩ := StoredOsString.toOsString_of_fromOsString hprimary
  obtain ⟨rfl, hback'⟩ := StoredOsString.toOsString_of_fromOsString hholder
  obtain ⟨rfl, hall⟩ := mapM_recorded hmembers
  exact ⟨rfl, hback, hback', hall⟩

theorem checkedStoredComponent_unix {name : Name} {role : String}
    (hread : (StoredOsString.unix name).toOsString = .ok name) (hsingle : isSingleComponent name = true) :
    checkedStoredComponent (.unix name) role = .ok name := by
  unfold checkedStoredComponent
  rw [hread, ok_bind]
  exact checkedPathComponent_eq_ok.2 ⟨rfl, hsingle⟩

/-- The members of a journal are resolved to those it was written for if their names and identities
differ. -/
theorem resolveMembers_recorded {parent holder : Path} : ∀ {members : List PreparedMember} {names : List Name}
    {identities : List Identity},
    (∀ m ∈ members, (StoredOsString.unix m.name).toOsString = .ok m.name ∧ isSingleComponent m.name = true ∧
      m.staged = holder.join m.name ∧ m.finalPath = parent.join m.name ∧ m.name ∉ names ∧ m.identity ∉ identities) →
    (members.map (·.name)).Nodup → (members.map (·.identity)).Nodup →
    resolveMembers parent holder names identities (members.map PreparedMember.recorded) =
      .ok (members.map fun m => (m.name, m.resolved)) := by
  intro members
  induction members with
  | nil => intros; rfl
  | cons m members ih =>
    intro names identities hm hnames hids
    rw [List.map_cons, List.nodup_cons] at hnames hids
    obtain ⟨hread, hsingle, hstaged, hfinal, hname, hid⟩ := hm m List.mem_cons_self
    have hrest : resolveMembers parent holder (m.name :: names) (m.identity :: identities)
        (members.map PreparedMember.recorded) = .ok (members.map fun m => (m.name, m.resolved)) := by
      refine ih (fun m' hm' => ?_) hnames.2 hids.2
      obtain ⟨hread', hsingle', hstaged', hfinal', hname', hid'⟩ := hm m' (List.mem_cons_of_mem _ hm')
      refine ⟨hread', hsingle', hstaged', hfinal', ?_, ?_⟩
      · intro h
        rcases List.mem_cons.1 h with heq | h
        · exact hnames.1 (List.mem_map.2 ⟨m', hm', heq⟩)
        · exact hname' h
      · intro h
        rcases List.mem_cons.1 h with heq | h
        · exact hids.1 (List.mem_map.2 ⟨m', hm', heq⟩)
        · exact hid' h
    rw [List.map_cons, resolveMembers]
    have hnew : (names.contains m.name || identities.contains m.recorded.identity) = false := by
      rw [Bool.or_eq_false_iff, ← Bool.not_eq_true, ← Bool.not_eq_true, List.contains_iff_mem, List.contains_iff_mem]
      exact ⟨hname, hid⟩
    have hchecked : checkedStoredComponent m.recorded.name "output member" = .ok m.name :=
      checkedStoredComponent_unix hread hsingle
    have hrest' : resolveMembers parent holder (m.name :: names) (m.recorded.identity :: identities)
        (members.map PreparedMember.recorded) = .ok (members.map fun m => (m.name, m.resolved)) := hrest
    rw [hchecked, ok_bind, hnew, refuseIf_false, ok_bind, hrest', ok_bind, List.map_cons, PreparedMember.resolved,
      hstaged, hfinal]
    rfl

namespace Issued

variable {tx : Issued formats origin} {s : FileSystem}

/-! ## The checks -/

theorem isBound_of {path : Path} {i : Identity} {state : RegularFileState} (hpath : s.identity path = .ok i)
    (hfile : (s.inodes i).isFile = true) (hstate : state = .fromMetadata (s.inodes i)) :
    isBound s path i i state = true := by
  have hmatches : state.matches (s.inodes i) = true := RegularFileState.matches_iff.2 ⟨hfile, hstate⟩
  simp [isBound, hpath, FileSystem.metadata, Except.map, hmatches]

theorem node_isFile (tx : Issued formats origin) : tx.node.isFile = true := by
  rw [Inode.isFile, tx.stored]

theorem node_bytes (tx : Issued formats origin) : tx.node.bytes = formats.toVec tx.record := by
  rw [Inode.bytes, tx.stored]

theorem Journaled.identity_journal (h : tx.Journaled s) : s.identity tx.openJournal.path = .ok tx.journal := by
  rw [tx.openJournal_path]
  exact FileSystem.identity_one_of_find h.journalAt

theorem Journaled.ensureBinding (h : tx.Journaled s) : ensureJournalBinding formats s tx.openJournal = .ok () := by
  have hfile : (s.inodes tx.journal).isFile = true := by rw [h.journalNode, tx.node_isFile]
  have hstate : tx.openJournal.state = .fromMetadata (s.inodes tx.journal) := by
    rw [h.journalNode]
    rfl
  have hbound : isBound s tx.openJournal.path tx.openJournal.file tx.openJournal.identity tx.openJournal.state = true :=
    isBound_of h.identity_journal hfile hstate
  have hbytes : (s.inodes tx.openJournal.file).bytes = formats.toVec tx.record := by
    show (s.inodes tx.journal).bytes = _
    rw [h.journalNode, tx.node_bytes]
  have hsmall : ¬ journalMaxBytes < (formats.toVec tx.record).length := Nat.not_lt.2 tx.small
  unfold ensureJournalBinding
  rw [hbound, hbytes]
  simp [refuseIf, openJournal, hsmall]

theorem openRegularFile_of {path : Path} {i : Identity} (hpath : s.identity path = .ok i)
    (hfile : (s.inodes i).isFile = true) : openRegularFile s path = .ok i := by
  unfold openRegularFile
  rw [hpath, ofErrno_ok, ok_bind]
  unfold Inode.isFile at hfile
  split <;> simp_all

/-- A journal with a record that can be read back is opened with it. -/
theorem openJournal_of_stored {primary : Path} {primaryName : Name} {i : Identity} {record : JournalRecord}
    (hid : s.identity (journalPath primary primaryName) = .ok i)
    (hstored : (s.inodes i).content = .regular (formats.toVec record))
    (hread : formats.fromSlice (formats.toVec record) = some record)
    (hsmall : (formats.toVec record).length ≤ journalMaxBytes) :
    OutputSet.openJournal formats s primary primaryName = .ok (some ⟨journalPath primary primaryName, i, i,
      .fromMetadata (s.inodes i), formats.hash (formats.toVec record), record⟩) := by
  have hfile : (s.inodes i).isFile = true := by rw [Inode.isFile, hstored]
  have hbytes : (s.inodes i).bytes = formats.toVec record := by rw [Inode.bytes, hstored]
  have hsmall' : ¬ journalMaxBytes < (formats.toVec record).length := Nat.not_lt.2 hsmall
  unfold OutputSet.openJournal
  simp only [FileSystem.metadata, hid, Except.map, hfile, openRegularFile_of hid hfile, hbytes, hread, refuseIf,
    ok_bind, bne_self_eq_false, Bool.not_true, Bool.false_eq_true, if_false, hsmall', decide_false]

theorem Journaled.open_eq (h : tx.Journaled s) :
    OutputSet.openJournal formats s tx.primary tx.primaryName = .ok (some tx.openJournal) := by
  have hstored : (s.inodes tx.journal).content = .regular (formats.toVec tx.record) := by
    rw [h.journalNode, tx.stored]
  rw [openJournal_of_stored h.identity_journal hstored tx.readable tx.small, h.journalNode]
  rfl

theorem Cleared.open_eq (h : tx.Cleared s) :
    OutputSet.openJournal formats s tx.primary tx.primaryName = .ok none := by
  have hid : s.identity (journalPath tx.primary tx.primaryName) = .error .notFound := by
    show s.identity tx.openJournal.path = _
    rw [tx.openJournal_path]
    exact FileSystem.identity_one_of_none h.journalGone
  unfold OutputSet.openJournal
  simp only [FileSystem.metadata, hid, Except.map]

theorem ensureDirectoryBinding_of {path : Path} {i : Identity} {role : String} (hpath : s.identity path = .ok i)
    (hdir : (s.inodes i).content = .directory) : ensureDirectoryBinding s path i i role = .ok () := by
  unfold ensureDirectoryBinding
  simp [FileSystem.metadata, hpath, Except.map, Inode.isDir, hdir, refuseIf]

theorem Kept.identity_parent (tx : Issued formats origin) (s : FileSystem) :
    s.identity tx.parent = .ok tx.parentIdentity := by
  rw [tx.wellFormed.parent]
  rfl

theorem Kept.ensureParent (h : tx.Kept s) (role : String) :
    ensureDirectoryBinding s tx.parent tx.parentFile tx.parentIdentity role = .ok () := by
  rw [tx.wellFormed.parentFile]
  exact ensureDirectoryBinding_of (identity_parent tx s) h.directory

/-- The transaction that the journal is resolved to. -/
def resolved (tx : Issued formats origin) : ResolvedTransaction :=
  ⟨tx.parent, tx.parentFile, tx.parentIdentity, tx.holder, tx.holderIdentity, tx.members.map PreparedMember.resolved⟩

theorem Kept.resolve_eq (h : tx.Kept s) :
    resolveTransaction s tx.primary tx.primaryName tx.record = .ok tx.resolved := by
  obtain ⟨hrecord, hprimary, hholder, hmembers⟩ := journalRecord_eq tx.issued
  have wf := tx.wellFormed
  have hbase : tx.primary.base = tx.parentIdentity := by rw [wf.primary]
  have hne : tx.members ≠ [] := by
    intro heq
    have hlast := wf.last
    rw [heq] at hlast
    cases hlast
  have hjoin : ∀ m ∈ tx.members, (StoredOsString.unix m.name).toOsString = .ok m.name ∧
      isSingleComponent m.name = true ∧
      m.staged = ((⟨tx.parentIdentity, []⟩ : Path).join tx.holderName).join m.name ∧
      m.finalPath = (⟨tx.parentIdentity, []⟩ : Path).join m.name ∧ m.name ∉ ([] : List Name) ∧
      m.identity ∉ ([] : List Identity) := fun m hm =>
    ⟨hmembers m hm, wf.components m hm, wf.staged m hm, wf.finalPath m hm, List.not_mem_nil, List.not_mem_nil⟩
  have hcount : ¬ (tx.members.isEmpty ∨ maxOutputSetMembers < tx.members.length) := by
    rintro (hnil | hlt)
    · exact hne (List.isEmpty_iff.1 hnil)
    · exact absurd wf.count (Nat.not_le.2 hlt)
  have hlast : (tx.members.map fun m => m.name).getLast? = some tx.primaryName := wf.last
  unfold resolveTransaction
  rw [hrecord, hbase]
  simp only [refuseIf, ok_bind, List.isEmpty_map, List.length_map, checkedStoredComponent_unix hprimary
    wf.primaryComponent, checkedPathComponent_eq_ok.2 ⟨rfl, wf.primaryComponent⟩, openDirectory,
    FileSystem.identity, checkedStoredComponent_unix hholder wf.holderComponent,
    resolveMembers_recorded hjoin wf.nodup tx.distinct, ne_eq, not_true_eq_false, decide_false,
    Bool.false_eq_true, if_false, hcount, if_true, ofErrno_ok]
  have hparent : ensureDirectoryBinding s ⟨tx.parentIdentity, []⟩ tx.parentIdentity tx.parentIdentity
      "destination parent" = .ok () := ensureDirectoryBinding_of rfl h.directory
  rw [hparent, ok_bind, List.map_map, List.map_map]
  have hfst : ((fun x : Name × ResolvedMember => x.1) ∘ fun m : PreparedMember => (m.name, m.resolved)) =
      fun m => m.name := rfl
  have hsnd : ((fun x : Name × ResolvedMember => x.2) ∘ fun m : PreparedMember => (m.name, m.resolved)) =
      PreparedMember.resolved := rfl
  rw [hfst, hsnd, hlast]
  simp only [not_true_eq_false, decide_false, Bool.false_eq_true, if_false, ok_bind]
  rw [resolved, wf.parent, wf.parentFile, wf.holder]
  rfl

/-- What is verified of a member where it is found: the recorded file. -/
theorem verifyResolved_of {m : PreparedMember} {path : Path} {moved : Bool} (hm : m ∈ tx.members)
    (hpath : s.identity path = .ok m.identity) (hsame : (s.inodes m.identity).SameFile (origin.inodes m.identity))
    (hmoved : moved = true ∨ s.inodes m.identity = origin.inodes m.identity) :
    verifyResolvedMember formats s path m.resolved moved = .ok () := by
  obtain ⟨hfile, hstate, hdigest⟩ := tx.recorded m hm
  have hfile' : (s.inodes m.identity).isFile = true := by
    rw [Inode.isFile, hsame.1]
    exact hfile
  have hbytes : (s.inodes m.identity).bytes = (origin.inodes m.identity).bytes := by
    rw [Inode.bytes, Inode.bytes, hsame.1]
  have hmatch : (if moved = true then m.state.equivalentAfterRename (.fromMetadata (s.inodes m.identity))
      else m.state == .fromMetadata (s.inodes m.identity)) = true := by
    rw [hstate]
    split
    · exact RegularFileState.equivalentAfterRename_of_sameFile hsame.symm
    · rename_i hfalse
      rw [hmoved.resolve_left hfalse]
      exact beq_self_eq_true _
  unfold verifyResolvedMember
  simp only [openRegularFile_of hpath hfile', PreparedMember.resolved, hmatch, hpath, hbytes, hdigest, refuseIf,
    bne_self_eq_false, Bool.not_true, Bool.or_self, Bool.false_eq_true, if_false]

theorem verifyFinal {m : PreparedMember} (hm : m ∈ tx.members) (hk : tx.Kept s)
    (h : s.find tx.parentIdentity m.name = some m.identity) :
    verifyResolvedMember formats s m.resolved.finalPath m.resolved true = .ok () :=
  verifyResolved_of hm (identity_final_of_find hm h) (hk.files m hm) (.inl rfl)

theorem ensureMissing_of {path : Path} {role : String} (h : s.identity path = .error .notFound) :
    ensureMissing s path role = .ok () := by
  unfold ensureMissing
  simp only [FileSystem.metadata, h, Except.map]

/-! ## The programs -/

section Programs

variable {done rest : List PreparedMember} {m : PreparedMember}

theorem verifyInstalled_ensures (hr : tx.Reached s) (hm : m ∈ tx.members)
    (hfinal : s.find tx.parentIdentity m.name = some m.identity) (hstaged : s.identity m.staged = .error .notFound) :
    (verifyInstalled formats m.resolved).Ensures tx.Reached (fun r t => ∃ u, r = .ok u ∧ t = s) s := by
  refine Prog.ensures_observe_then (verifyFinal hm hr.kept hfinal) ?_
  rw [Prog.ensures_observe]
  exact ⟨hr, (), ensureMissing_of hstaged, rfl⟩

/-- A member that is installed stays as it is. -/
theorem resumeMember_installed (hr : tx.Reached s) (hm : m ∈ tx.members)
    (hfinal : s.find tx.parentIdentity m.name = some m.identity) (hstaged : s.identity m.staged = .error .notFound) :
    (resumeMember formats tx.openJournal m.resolved).Ensures tx.Reached (fun r t => ∃ u, r = .ok u ∧ t = s) s := by
  refine Prog.ensures_observe_then (observedIdentity_of_notFound hstaged) ?_
  refine Prog.ensures_observe_then (observedIdentity_of_ok (identity_final_of_find hm hfinal)) ?_
  dsimp only
  rw [if_pos (show m.identity = m.resolved.identity from rfl), Prog.ensures_observe]
  exact ⟨hr, (), verifyFinal hm hr.kept hfinal, rfl⟩

/-- A member that is staged is installed. -/
theorem resumeMember_staged (h : tx.Progress done (m :: rest) s) (split : tx.members = done ++ m :: rest) :
    (resumeMember formats tx.openJournal m.resolved).Ensures tx.Reached
      (fun r t => ∃ u, r = .ok u ∧ tx.Progress (done ++ [m]) rest t) s := by
  have hm : m ∈ tx.members := by
    rw [split]
    exact List.mem_append_right _ List.mem_cons_self
  obtain ⟨-, hvacant, hsame⟩ := h.staged m List.mem_cons_self
  have hstaged := h.staged_at split List.mem_cons_self
  obtain ⟨t, hmove, ht⟩ := h.install split
  have split' : tx.members = (done ++ [m]) ++ rest := by rw [split, List.append_assoc]; rfl
  refine Prog.ensures_observe_then (observedIdentity_of_ok hstaged) ?_
  refine Prog.ensures_observe_then (observedIdentity_of_notFound (identity_final_of_none hm hvacant)) ?_
  dsimp only
  rw [if_pos (show m.identity = m.resolved.identity from rfl)]
  refine Prog.ensures_observe_then (verifyResolved_of hm hstaged (h.files m hm) (.inr hsame)) ?_
  refine Prog.ensures_observe_then h.ensureBinding ?_
  refine Prog.ensures_act_then (.progress done (m :: rest) split h) hmove ?_
  rw [orFailWith_ok, Prog.ret_bind, Prog.ensures_observe]
  exact ⟨.progress _ rest split' ht, (),
    verifyFinal hm ht.toKept (ht.installed m (List.mem_append_right _ List.mem_cons_self)), ht⟩

/-- A prefix of the members that has been gone through, against the members installed. -/
theorem prefix_cases {l done rest done' rest' : List PreparedMember} {a : PreparedMember} (hl : l = done ++ rest)
    (hl' : l = done' ++ a :: rest') (hp : done' <+: done) :
    (done = done' ∧ rest = a :: rest') ∨ (a ∈ done ∧ done' ++ [a] <+: done) := by
  obtain ⟨tail, rfl⟩ := hp
  rw [hl', List.append_assoc, List.append_cancel_left_eq] at hl
  cases tail with
  | nil => exact .inl ⟨List.append_nil _, hl.symm⟩
  | cons b tail =>
    cases hl
    exact .inr ⟨List.mem_append_right _ List.mem_cons_self, tail, by rw [List.append_assoc]; rfl⟩

/-- The loop of a recovery goes on where the publication stopped. -/
theorem resumeMembers_progress (h : tx.Progress done rest s) (split : tx.members = done ++ rest) :
    (tx.members.forM fun m => resumeMember formats tx.openJournal m.resolved).Ensures tx.Reached
      (fun r t => ∃ u, r = .ok u ∧ tx.Progress tx.members [] t) s := by
  refine (Prog.ensures_forM_ok (fun seen _ t => ∃ done rest, tx.members = done ++ rest ∧ tx.Progress done rest t ∧
    seen <+: done) ?_ (.progress done rest split h) ⟨done, rest, split, h, List.nil_prefix⟩).post ?_
  · rintro seen m rest' t hl ⟨done, rest, hsplit, hp, hpre⟩
    have hm : m ∈ tx.members := by
      rw [hl]
      exact List.mem_append_right _ List.mem_cons_self
    rcases prefix_cases hsplit hl hpre with ⟨rfl, rfl⟩ | ⟨hdone, hpre'⟩
    · refine (resumeMember_staged hp hsplit).post ?_
      rintro r t' - ⟨u, rfl, hp'⟩
      exact ⟨u, rfl, done ++ [m], rest', by rw [hsplit, List.append_assoc]; rfl, hp', List.prefix_refl _⟩
    · refine (resumeMember_installed (.progress done rest hsplit hp) hm (hp.installed m hdone)
        (hp.staged_gone hsplit hdone)).post ?_
      rintro r t' - ⟨u, rfl, rfl⟩
      exact ⟨u, rfl, done, rest, hsplit, hp, hpre'⟩
  · rintro r t - ⟨u, rfl, done', rest', hsplit, hp, tail, htail⟩
    -- all members have been gone through, so all are installed
    have hnil : tail = [] ∧ rest' = [] := by
      rw [← htail, List.append_assoc] at hsplit
      exact List.append_eq_nil_iff.1 (List.self_eq_append_right.1 hsplit)
    rw [hnil.1, List.append_nil] at htail
    rw [← htail, hnil.2] at hp
    exact ⟨u, rfl, hp⟩

theorem resumeMembers_emptied (h : tx.Emptied s) :
    (tx.members.forM fun m => resumeMember formats tx.openJournal m.resolved).Ensures tx.Reached
      (fun r t => ∃ u, r = .ok u ∧ tx.Emptied t) s := by
  refine Prog.ensures_forM_ok (fun _ _ t => tx.Emptied t) ?_ (.emptied h) h
  rintro done m rest t hl he
  have hm : m ∈ tx.members := by
    rw [hl]
    exact List.mem_append_right _ List.mem_cons_self
  refine (resumeMember_installed (.emptied he) hm (he.installed m hm)
    (identity_staged_of_gone hm he.holderGone)).post ?_
  rintro r t' - ⟨u, rfl, rfl⟩
  exact ⟨u, rfl, he⟩

/-- The check of the whole set leaves a state as it is in which all members are installed. -/
theorem verifyAll (hr : tx.Reached s)
    (h : ∀ m ∈ tx.members, s.find tx.parentIdentity m.name = some m.identity ∧
      s.identity m.staged = .error .notFound) :
    (tx.members.forM fun m => verifyInstalled formats m.resolved).Ensures tx.Reached
      (fun r t => ∃ u, r = .ok u ∧ t = s) s := by
  refine Prog.ensures_forM_ok (fun _ _ t => t = s) ?_ hr rfl
  rintro done m rest t hl rfl
  have hm : m ∈ tx.members := by
    rw [hl]
    exact List.mem_append_right _ List.mem_cons_self
  exact verifyInstalled_ensures hr hm (h m hm).1 (h m hm).2

theorem Progress.ensureEmpty (h : tx.Progress tx.members [] s) : ensureEmptyDirectory s tx.holder = .ok () := by
  have hempty : s.children tx.holderIdentity = [] := by
    rw [FileSystem.children_eq_nil]
    intro name
    cases hf : s.find tx.holderIdentity name with
    | none => rfl
    | some i => cases h.inventory name i hf
  unfold ensureEmptyDirectory FileSystem.readDir
  rw [tx.wellFormed.holder, FileSystem.identity_one_of_find h.holderAt]
  simp only [FileSystem.enter_of_directory h.holderDirectory, hempty, ofErrno_ok, ok_bind, List.isEmpty_nil,
    Bool.not_true, refuseIf_false]

theorem removeHolder_progress (h : tx.Progress tx.members [] s) :
    (removeHolder tx.resolved).Ensures tx.Reached (fun r t => ∃ u, r = .ok u ∧ tx.Emptied t) s := by
  have hid : s.identity tx.holder = .ok tx.holderIdentity := by
    rw [tx.wellFormed.holder]
    exact FileSystem.identity_one_of_find h.holderAt
  have hdir : (s.inodes tx.holderIdentity).isDir = true := by
    rw [Inode.isDir, h.holderDirectory]
    rfl
  have hmeta : s.metadata tx.resolved.holder = .ok (s.inodes tx.holderIdentity) := by
    show (s.identity tx.holder).map s.inodes = _
    rw [hid]
    rfl
  obtain ⟨t, hremove, ht⟩ := h.removeHolder
  have hreached : tx.Reached s := .progress tx.members [] (List.append_nil _).symm h
  refine Prog.ensures_observe_then (a := .ok (s.inodes tx.holderIdentity)) (by rw [hmeta]) ?_
  refine Prog.ensures_observe_then (a := ()) ?_ ?_
  · show refuseIf (!(s.inodes tx.holderIdentity).isDir || s.identity tx.holder != .ok tx.holderIdentity) _ = _
    rw [hid, hdir, bne_self_eq_false]
    rfl
  refine Prog.ensures_observe_then h.ensureEmpty ?_
  refine Prog.ensures_act_then hreached hremove ?_
  exact ⟨.emptied ht, (), rfl, ht⟩

theorem removeHolder_emptied (h : tx.Emptied s) :
    (removeHolder tx.resolved).Ensures tx.Reached (fun r t => ∃ u, r = .ok u ∧ tx.Emptied t) s := by
  have hmeta : s.metadata tx.resolved.holder = .error .notFound := by
    show (s.identity tx.holder).map s.inodes = _
    rw [tx.wellFormed.holder, FileSystem.identity_one_of_none h.holderGone]
    rfl
  refine Prog.ensures_observe_then (a := .error .notFound) (by rw [hmeta]) ?_
  exact ⟨.emptied h, (), rfl, h⟩

theorem clearJournal_emptied (h : tx.Emptied s) :
    (clearJournal formats tx.openJournal).Ensures tx.Reached (fun r t => ∃ u, r = .ok u ∧ tx.Cleared t) s := by
  obtain ⟨t, hremove, ht⟩ := h.clear
  refine Prog.ensures_observe_then h.ensureBinding ?_
  refine Prog.ensures_observe_then (a := ()) ?_ ?_
  · rw [h.identity_journal]
    simp [openJournal]
  refine Prog.ensures_act_then (.emptied h) hremove ?_
  exact ⟨.cleared ht, (), rfl, ht⟩

/-- The resumption of a publication from a stage that still has its journal. -/
theorem resumeTransaction_ensures
    (h : (∃ done rest, tx.members = done ++ rest ∧ tx.Progress done rest s) ∨ tx.Emptied s) :
    (resumeTransaction formats tx.resolved tx.openJournal).Ensures tx.Reached
      (fun r t => ∃ u, r = .ok u ∧ tx.Emptied t) s := by
  have hj : tx.Journaled s := by
    rcases h with ⟨done, rest, -, hp⟩ | he
    · exact hp.toJournaled
    · exact he.toJournaled
  refine Prog.ensures_observe_then hj.ensureBinding ?_
  refine Prog.ensures_observe_then (hj.ensureParent _) ?_
  rw [show tx.resolved.members = tx.members.map PreparedMember.resolved from rfl, forM_resolved, forM_resolved]
  rcases h with ⟨done, rest, split, hp⟩ | he
  · refine Prog.ensures_then (resumeMembers_progress hp split) fun _ t ht => ?_
    have hreached : tx.Reached t := .progress tx.members [] (List.append_nil _).symm ht
    refine Prog.ensures_then (verifyAll hreached fun m hm => ⟨ht.installed m hm,
      ht.staged_gone (List.append_nil _).symm hm⟩) ?_
    rintro - t rfl
    refine Prog.ensures_then (removeHolder_progress ht) fun _ v hv => ?_
    rw [Prog.ensures_observe]
    exact ⟨.emptied hv, (), hv.ensureBinding, hv⟩
  · refine Prog.ensures_then (resumeMembers_emptied he) fun _ t ht => ?_
    refine Prog.ensures_then (verifyAll (.emptied ht) fun m hm => ⟨ht.installed m hm,
      identity_staged_of_gone hm ht.holderGone⟩) ?_
    rintro - t rfl
    refine Prog.ensures_then (removeHolder_emptied ht) fun _ v hv => ?_
    rw [Prog.ensures_observe]
    exact ⟨.emptied hv, (), hv.ensureBinding, hv⟩

/-- A recovery from any stage passes through stages only, and ends with the journal cleared. -/
theorem recover_ensures (hr : tx.Reached s) :
    (recoverFileSetPublication formats tx.primary tx.primaryName).Ensures tx.Reached
      (fun r t => (∃ found, r = .ok found) ∧ tx.Cleared t) s := by
  by_cases hc : tx.Cleared s
  · refine Prog.ensures_observe_then hc.open_eq ?_
    exact ⟨hr, ⟨false, rfl⟩, hc⟩
  have h : (∃ done rest, tx.members = done ++ rest ∧ tx.Progress done rest s) ∨ tx.Emptied s := by
    cases hr with
    | progress done rest split hp => exact .inl ⟨done, rest, split, hp⟩
    | emptied he => exact .inr he
    | cleared hc' => exact absurd hc' hc
  have hj : tx.Journaled s := by
    rcases h with ⟨done, rest, -, hp⟩ | he
    · exact hp.toJournaled
    · exact he.toJournaled
  refine Prog.ensures_observe_then hj.open_eq ?_
  refine Prog.ensures_observe_then hj.resolve_eq ?_
  refine Prog.ensures_then (resumeTransaction_ensures h) fun _ t ht => ?_
  refine Prog.ensures_then (clearJournal_emptied ht) fun _ v hv => ?_
  exact ⟨.cleared hv, ⟨true, rfl⟩, hv⟩

end Programs

end Issued

end Squallz.OutputSet
