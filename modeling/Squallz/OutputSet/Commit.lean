/-
The commit up to the durable journal: an earlier publication that is found at the journal's path ends the
commit, and so a commit that issues its journal finds the prepared set as it was prepared.
-/
import Squallz.OutputSet.Preparation

namespace Squallz.OutputSet

open Squallz.Api Squallz.Core Squallz.System

variable {formats : Formats} {s t : FileSystem} {p : PreparedFileSetPublication}

theorem journalName_length (p : PreparedFileSetPublication) : p.primaryName.length < p.journalName.length := by
  have hdot : (utf8Bytes ".").length = 1 := by decide +kernel
  simp only [PreparedFileSetPublication.journalName, List.length_append, hdot]
  omega

/-! ## What a recovery of another publication leaves behind -/

/-- Removing an empty directory keeps every entry that is no directory. -/
theorem removeDir_keeps {path : Path} {d i : Identity} {name : Name} (h : s.removeDir path = .ok ((), t))
    (hi : s.find d name = some i) (hfile : (s.inodes i).isDir = false) : t.find d name = some i := by
  obtain ⟨d', name', j, -, hj, hdir, -, rfl⟩ := FileSystem.removeDir_eq_ok.1 h
  rw [FileSystem.find_unlink, if_neg, hi]
  rintro ⟨rfl, rfl⟩
  rw [hi] at hj
  cases hj
  rw [hfile] at hdir
  cases hdir

theorem removeFile_keeps {d d' i : Identity} {name name' : Name} (h : s.removeFile ⟨d', [name']⟩ = .ok ((), t))
    (hi : s.find d name = some i) (hne : name ≠ name') : t.find d name = some i := by
  obtain ⟨d'', name'', j, hloc, -, -, rfl⟩ := FileSystem.removeFile_eq_ok.1 h
  cases hloc
  rw [FileSystem.find_touch, FileSystem.find_unlink, if_neg fun heq => hne heq.2, hi]

theorem orFailWith_run {α : Type} {error : Errno → FormatError} {r : Except Errno α} {a : α}
    (h : (orFailWith error r).run s = (.ok a, t)) : r = .ok a ∧ t = s := by
  cases r with
  | error e => cases h
  | ok b =>
    cases h
    exact ⟨rfl, rfl⟩

/-- A change that has to be made, and what follows it. -/
theorem act_then_run {α β : Type} {f : FileSystem → Except Errno (α × FileSystem)} {error : Errno → FormatError}
    {k : α → Files β} {b : β}
    (h : ((Prog.act f : Files _) >>= fun r => orFailWith error r >>= k).run s = (.ok b, t)) :
    ∃ a u, f s = .ok (a, u) ∧ (k a).run u = (.ok b, t) := by
  rw [Prog.run_bind, Prog.run_act] at h
  cases hf : f s with
  | error e =>
    rw [hf] at h
    cases h
  | ok r =>
    rw [hf] at h
    exact ⟨r.1, r.2, rfl, h⟩

theorem act_run {α : Type} {f : FileSystem → Except Errno (α × FileSystem)} {error : Errno → FormatError} {a : α}
    (h : ((Prog.act f : Files _) >>= orFailWith error).run s = (.ok a, t)) : f s = .ok (a, t) := by
  rw [Prog.run_bind_eq_ok] at h
  obtain ⟨r, u, hact, hfail⟩ := h
  obtain ⟨rfl, rfl⟩ := orFailWith_run hfail
  rw [Prog.run_act] at hact
  cases hf : f s with
  | error e =>
    rw [hf] at hact
    cases hact
  | ok b =>
    rw [hf] at hact
    cases hact
    rfl

theorem verifyInstalled_run {m : ResolvedMember} {u : Unit} (h : (verifyInstalled formats m).run s = (.ok u, t)) :
    t = s ∧ ∃ i, s.identity m.finalPath = .ok i ∧ (s.inodes i).isDir = false := by
  unfold verifyInstalled at h
  obtain ⟨_, hfinal, h⟩ := Prog.run_observe_then.1 h
  obtain ⟨-, rfl⟩ := Prog.run_observe_eq_ok.1 h
  refine ⟨rfl, ?_⟩
  unfold verifyResolvedMember at hfinal
  split at hfinal
  · cases hfinal
  rename_i i hi
  refine ⟨i, openRegularFile_eq_ok hi, ?_⟩
  unfold openRegularFile at hi
  obtain ⟨j, -, hi⟩ := bind_eq_ok.1 hi
  split at hi
  · cases hi
  · cases hi
  · rename_i hdir
    cases hi
    rw [Inode.isDir]
    exact beq_eq_false_iff_ne.2 hdir

theorem verifyAll_run : ∀ {members : List ResolvedMember} {m : ResolvedMember} {u : PUnit},
    (members.forM (verifyInstalled formats)).run s = (.ok u, t) → members.getLast? = some m →
    t = s ∧ ∃ i, s.identity m.finalPath = .ok i ∧ (s.inodes i).isDir = false := by
  intro members
  induction members with
  | nil =>
    intro m u _ hlast
    cases hlast
  | cons a members ih =>
    intro m u h hlast
    obtain ⟨v, w, ha, hrest⟩ := Prog.run_bind_eq_ok.1 (show ((verifyInstalled formats a) >>= fun _ =>
      members.forM (verifyInstalled formats)).run s = _ from h)
    obtain ⟨hw, hfinal⟩ := verifyInstalled_run ha
    rw [hw] at hrest
    cases members with
    | nil =>
      cases hlast
      obtain rfl : s = t := congrArg Prod.snd hrest
      exact ⟨rfl, hfinal⟩
    | cons b members =>
      rw [List.getLast?_cons_cons] at hlast
      exact ih hrest hlast

theorem removeHolder_run {transaction : ResolvedTransaction} {d i : Identity} {name : Name} {u : Unit}
    (h : (removeHolder transaction).run s = (.ok u, t)) (hi : s.find d name = some i)
    (hfile : (s.inodes i).isDir = false) : t.find d name = some i := by
  unfold removeHolder at h
  obtain ⟨metadata, -, h⟩ := Prog.run_observe_then.1 h
  split at h
  · obtain ⟨_, -, h⟩ := Prog.run_observe_then.1 h
    obtain ⟨_, -, h⟩ := Prog.run_observe_then.1 h
    exact removeDir_keeps (act_run h) hi hfile
  · cases h
    exact hi
  · cases h

theorem resolveMembers_final {parent holder : Path} : ∀ {members : List JournalMember} {names : List Name}
    {identities : List Identity} {l : List (Name × ResolvedMember)},
    resolveMembers parent holder names identities members = .ok l → ∀ r ∈ l, r.2.finalPath = parent.join r.1 := by
  intro members
  induction members with
  | nil =>
    intro names identities l h r hr
    cases h
    cases hr
  | cons m members ih =>
    intro names identities l h r hr
    rw [resolveMembers] at h
    obtain ⟨name, -, h⟩ := bind_eq_ok.1 h
    obtain ⟨_, -, h⟩ := bind_eq_ok.1 h
    obtain ⟨l', hl', h⟩ := bind_eq_ok.1 h
    cases h
    rcases List.mem_cons.1 hr with rfl | hr
    · rfl
    · exact ih hl' r hr

/-- The last member of a resolved transaction is its primary output. -/
theorem resolveTransaction_last {primary : Path} {primaryName : Name} {record : JournalRecord}
    {transaction : ResolvedTransaction}
    (h : resolveTransaction s primary primaryName record = .ok transaction) :
    ∃ m, transaction.members.getLast? = some m ∧ m.finalPath = ⟨primary.base, [primaryName]⟩ := by
  unfold resolveTransaction at h
  obtain ⟨_, -, h⟩ := bind_eq_ok.1 h
  obtain ⟨_, -, h⟩ := bind_eq_ok.1 h
  obtain ⟨recorded, -, h⟩ := bind_eq_ok.1 h
  obtain ⟨requested, hrequested, h⟩ := bind_eq_ok.1 h
  obtain ⟨_, hsame, h⟩ := bind_eq_ok.1 h
  obtain ⟨parentFile, -, h⟩ := bind_eq_ok.1 h
  obtain ⟨_, -, h⟩ := bind_eq_ok.1 h
  obtain ⟨holderName, -, h⟩ := bind_eq_ok.1 h
  obtain ⟨members, hmembers, h⟩ := bind_eq_ok.1 h
  obtain ⟨_, hlast, h⟩ := bind_eq_ok.1 h
  cases h
  have hlast' : (members.map (·.1)).getLast? = some recorded := by
    have := of_decide_eq_false (refuseIf_eq_ok.1 hlast)
    exact not_not.1 this
  obtain ⟨hreq, -⟩ := checkedPathComponent_eq_ok.1 hrequested
  have heq : recorded = requested := not_not.1 (of_decide_eq_false (refuseIf_eq_ok.1 hsame))
  cases hreq
  rw [List.getLast?_map] at hlast'
  obtain ⟨r, hr, hname⟩ := Option.map_eq_some_iff.1 hlast'
  refine ⟨r.2, ?_, ?_⟩
  · show (members.map (·.2)).getLast? = _
    rw [List.getLast?_map, hr]
    rfl
  · rw [resolveMembers_final hmembers r (List.mem_of_getLast? hr), hname, heq]
    rfl

/-- A recovery that completes a publication leaves the primary output where it belongs. -/
theorem recover_true (hp : p.WellFormed) (h : (recoverFileSetPublication formats p.primary p.primaryName).run s = (.ok true, t)) :
    ∃ i, t.find p.parentIdentity p.primaryName = some i := by
  unfold recoverFileSetPublication at h
  obtain ⟨journal, hopen, h⟩ := Prog.run_observe_then.1 h
  cases journal with
  | none => cases h
  | some journal =>
    dsimp only at h
    obtain ⟨transaction, hresolve, h⟩ := Prog.run_observe_then.1 h
    obtain ⟨m, hlast, hfinal⟩ := resolveTransaction_last hresolve
    obtain ⟨_, v, hresume, h⟩ := Prog.run_bind_eq_ok.1 h
    obtain ⟨_, w, hclear, h⟩ := Prog.run_bind_eq_ok.1 h
    obtain rfl : w = t := congrArg Prod.snd h
    unfold resumeTransaction at hresume
    obtain ⟨_, -, hresume⟩ := Prog.run_observe_then.1 hresume
    obtain ⟨_, -, hresume⟩ := Prog.run_observe_then.1 hresume
    obtain ⟨_, v3, -, hresume⟩ := Prog.run_bind_eq_ok.1 hresume
    obtain ⟨_, v4, hverify, hresume⟩ := Prog.run_bind_eq_ok.1 hresume
    obtain ⟨hsame, i, hi, hfile⟩ := verifyAll_run hverify hlast
    rw [hsame] at hresume
    obtain ⟨_, v5, hremove, hresume⟩ := Prog.run_bind_eq_ok.1 hresume
    obtain ⟨-, rfl⟩ := Prog.run_observe_eq_ok.1 hresume
    have hbase : p.primary.base = p.parentIdentity := by rw [hp.primary]
    rw [hfinal, hbase, FileSystem.identity_one] at hi
    have hfind : v3.find p.parentIdentity p.primaryName = some i := by
      cases hf : v3.find p.parentIdentity p.primaryName with
      | none =>
        rw [hf] at hi
        cases hi
      | some j =>
        rw [hf] at hi
        cases hi
        rfl
    have hkept := removeHolder_run hremove hfind hfile
    unfold clearJournal at hclear
    obtain ⟨_, -, hclear⟩ := Prog.run_observe_then.1 hclear
    unfold removeBoundFile at hclear
    obtain ⟨_, -, hclear⟩ := Prog.run_observe_then.1 hclear
    have hpath : journal.path = ⟨p.parentIdentity, [p.journalName]⟩ := by
      unfold openJournal at hopen
      dsimp only at hopen
      split at hopen
      · cases hopen
      · cases hopen
      · obtain ⟨_, -, hopen⟩ := bind_eq_ok.1 hopen
        obtain ⟨_, -, hopen⟩ := bind_eq_ok.1 hopen
        obtain ⟨_, -, hopen⟩ := bind_eq_ok.1 hopen
        obtain ⟨_, -, hopen⟩ := bind_eq_ok.1 hopen
        split at hopen
        · cases hopen
        · cases hopen
          rw [journalPath, hbase]
          rfl
    have hremoved := act_run hclear
    rw [hpath] at hremoved
    refine ⟨i, removeFile_keeps hremoved hkept fun heq => ?_⟩
    have hlen := journalName_length p
    rw [← heq] at hlen
    exact absurd hlen (lt_irrefl _)

/-- A recovery that finds no journal changes nothing. -/
theorem recover_false {primary : Path} {primaryName : Name}
    (h : (recoverFileSetPublication formats primary primaryName).run s = (.ok false, t)) : t = s := by
  unfold recoverFileSetPublication at h
  obtain ⟨journal, -, h⟩ := Prog.run_observe_then.1 h
  cases journal with
  | none =>
    cases h
    rfl
  | some journal =>
    obtain ⟨_, -, h⟩ := Prog.run_observe_then.1 h
    obtain ⟨_, v, -, h⟩ := Prog.run_bind_eq_ok.1 h
    obtain ⟨_, w, -, h⟩ := Prog.run_bind_eq_ok.1 h
    cases h

/-! ## The checks before the journal is written -/

theorem found_eq_ok {o : Option Identity} {i : Identity} (h : FileSystem.found o = .ok i) : o = some i := by
  cases o with
  | none => cases h
  | some j =>
    cases h
    rfl

theorem ensureDirectoryBinding_eq_ok {path : Path} {file expected : Identity} {role : String}
    (h : ensureDirectoryBinding s path file expected role = .ok ()) :
    s.identity path = .ok expected ∧ (s.inodes expected).content = .directory := by
  unfold ensureDirectoryBinding at h
  obtain ⟨metadata, hmeta, h⟩ := bind_eq_ok.1 h
  have hcond := refuseIf_eq_ok.1 h
  rw [Bool.or_eq_false_iff, Bool.or_eq_false_iff] at hcond
  have hid : s.identity path = .ok expected := by simpa using hcond.2
  have hmeta' := ofErrno_eq_ok hmeta
  rw [FileSystem.metadata, hid] at hmeta'
  cases hmeta'
  refine ⟨hid, ?_⟩
  have hdir : (s.inodes expected).isDir = true := by simpa using hcond.1.1
  exact eq_of_beq hdir

theorem ensureOutputMissing_eq_ok {path : Path} (h : ensureOutputMissing s path = .ok ()) :
    s.identity path = .error .notFound := by
  unfold ensureOutputMissing FileSystem.metadata at h
  cases hid : s.identity path with
  | ok i =>
    rw [hid] at h
    cases h
  | error e =>
    rw [hid] at h
    cases e <;> first | rfl | cases h

theorem isBound_eq_true {path : Path} {file i : Identity} {state : RegularFileState}
    (h : isBound s path file i state = true) : s.identity path = .ok i ∧ state = .fromMetadata (s.inodes file) := by
  unfold isBound at h
  rw [Bool.and_eq_true, Bool.and_eq_true, Bool.and_eq_true] at h
  obtain ⟨⟨⟨-, hid⟩, hstate⟩, -⟩ := h
  exact ⟨by simpa using hid, (RegularFileState.matches_iff.1 hstate).2⟩

/-- What a commit finds before it writes its journal. -/
structure Staged (p : PreparedFileSetPublication) (s : FileSystem) : Prop where
  directory : (s.inodes p.parentIdentity).content = .directory
  holderAt : s.find p.parentIdentity p.holderName = some p.holderIdentity
  holderDirectory : (s.inodes p.holderIdentity).content = .directory
  staged : ∀ m ∈ p.members, s.find p.holderIdentity m.name = some m.identity
  vacant : ∀ m ∈ p.members, s.find p.parentIdentity m.name = none
  inventory : ∀ name i, s.find p.holderIdentity name = some i → name ∈ p.members.map (·.name)

theorem staged_of_checks (hp : p.WellFormed) (hbind : p.verifyBindings s = .ok ())
    (hmissing : (p.members.forM fun m => ensureOutputMissing s m.finalPath) = .ok ()) : Staged p s := by
  unfold PreparedFileSetPublication.verifyBindings at hbind
  obtain ⟨_, hparent, hbind⟩ := bind_eq_ok.1 hbind
  obtain ⟨_, hholder, hbind⟩ := bind_eq_ok.1 hbind
  obtain ⟨_, hinventory, hmembers⟩ := bind_eq_ok.1 hbind
  obtain ⟨-, hdir⟩ := ensureDirectoryBinding_eq_ok hparent
  obtain ⟨hid, hholderDir⟩ := ensureDirectoryBinding_eq_ok hholder
  rw [hp.holder, FileSystem.identity_one] at hid
  have hat := found_eq_ok hid
  refine ⟨hdir, hat, hholderDir, ?_, ?_, ?_⟩
  · intro m hm
    have hbound := refuseIf_eq_ok.1 (of_forM_eq_ok hmembers m hm)
    obtain ⟨hstaged, -⟩ := isBound_eq_true (Bool.not_eq_false' .. ▸ hbound)
    rw [hp.staged m hm, FileSystem.identity_two_of_directory hat hholderDir] at hstaged
    exact found_eq_ok hstaged
  · intro m hm
    have hnone := ensureOutputMissing_eq_ok (of_forM_eq_ok hmissing m hm)
    rw [hp.finalPath m hm, FileSystem.identity_one] at hnone
    cases hf : s.find p.parentIdentity m.name with
    | none => rfl
    | some i =>
      rw [hf] at hnone
      cases hnone
  · intro name i hi
    unfold validateHolderInventory at hinventory
    obtain ⟨observed, hread, hinventory⟩ := bind_eq_ok.1 hinventory
    obtain ⟨_, hall, -⟩ := bind_eq_ok.1 hinventory
    have hread' := ofErrno_eq_ok hread
    unfold FileSystem.readDir at hread'
    rw [hp.holder, FileSystem.identity_one_of_find hat] at hread'
    simp only [FileSystem.enter_of_directory hholderDir] at hread'
    cases hread'
    have hall' := refuseIf_eq_ok.1 hall
    rw [Bool.not_eq_false', List.all_eq_true] at hall'
    exact List.contains_iff_mem.1 (hall' name ((FileSystem.mem_children s _ _).2 ⟨i, hi⟩))

/-! ## The journal -/

/-- The state in which the journal has become durable: besides the journal's entry and inode, nothing has
changed. -/
structure Durable (formats : Formats) (p : PreparedFileSetPublication) (record : JournalRecord) (journal : OpenJournal)
    (s t : FileSystem) : Prop where
  eq : journal = ⟨journalPath p.primary p.primaryName, journal.file, journal.file,
    .fromMetadata (t.inodes journal.file), formats.hash (formats.toVec record), record⟩
  stored : (t.inodes journal.file).content = .regular (formats.toVec record)
  small : (formats.toVec record).length ≤ journalMaxBytes
  absent : s.find p.parentIdentity p.journalName = none
  journalAt : t.find p.parentIdentity p.journalName = some journal.file
  others : ∀ d name, ¬ (d = p.parentIdentity ∧ name = p.journalName) → t.find d name = s.find d name
  inodes : ∀ i, i ≠ journal.file → t.inodes i = s.inodes i
  fresh : ∀ d name i, s.find d name = some i → i ≠ journal.file ∧ d ≠ journal.file

/-- A staged journal is a new file with the journal's bytes. -/
theorem stageJournal_run {d file : Identity} {tempName : Name} {bytes : List UInt8}
    (h : (stageJournal ⟨d, [tempName]⟩ bytes).run s = (.ok file, t)) :
    file = s.fresh d ∧ s.find d tempName = none ∧ (t.inodes file).content = .regular bytes ∧
      (∀ d' name, t.find d' name = if d' = d ∧ name = tempName then some file else s.find d' name) ∧
      ∀ j, j ≠ file → t.inodes j = s.inodes j := by
  unfold stageJournal orFail at h
  obtain ⟨i, w, hcreate, h⟩ := act_then_run h
  obtain ⟨d', tempName', hloc, hnone, hi, hw⟩ := FileSystem.create_eq_ok.1 hcreate
  cases hloc
  rw [Prog.run_bind, Prog.run_update] at h
  obtain ⟨hfile, hv⟩ := Prod.mk.inj h
  cases hfile
  rw [← hv, hw]
  refine ⟨hi, hnone, FileSystem.content_write _ _ _, fun d' name => ?_, fun j hj => ?_⟩
  · rw [FileSystem.find_write, FileSystem.find_touch, FileSystem.find_link, FileSystem.find_setInode]
  · rw [FileSystem.inodes_write_ne _ _ _ _ hj, FileSystem.inodes_touch_ne _ _ _ hj, FileSystem.inodes_link,
      FileSystem.inodes_setInode_ne _ _ _ _ hj]

/-- A published journal has left its temporary name for the vacant one. -/
theorem publishBoundFile_run {d file i : Identity} {tempName name : Name} {u : Unit}
    (h : (publishBoundFileNoReplace ⟨d, [tempName]⟩ file file ⟨d, [name]⟩).run s = (.ok u, t))
    (hi : s.find d tempName = some i) :
    (∀ j, (t.inodes j).SameFile (s.inodes j)) ∧ (∀ j, j ≠ i → t.inodes j = s.inodes j) ∧
      ∀ d' name', t.find d' name' = if d' = d ∧ name' = name then some i
        else if d' = d ∧ name' = tempName then none else s.find d' name' := by
  unfold publishBoundFileNoReplace at h
  obtain ⟨_, -, h⟩ := Prog.run_observe_then.1 h
  obtain ⟨_, y, hmove, h⟩ := act_then_run h
  obtain ⟨-, hy⟩ := Prog.run_observe_eq_ok.1 h
  obtain ⟨d', name', i', d'', name'', hsrc, hi', hdest, -, ht⟩ := FileSystem.renameNoReplace_eq_ok.1 hmove
  cases hsrc
  cases hdest
  rw [hi] at hi'
  cases hi'
  rw [hy, ht]
  refine ⟨fun j => FileSystem.sameFile_touch _ _ _, fun j hj => FileSystem.inodes_touch_ne _ _ _ hj,
    fun d' name' => ?_⟩
  rw [FileSystem.find_touch, FileSystem.find_link, FileSystem.find_unlink]

theorem writeJournal_run (hp : p.WellFormed) {process sequence : Nat} {record : JournalRecord} {journal : OpenJournal}
    (h : (writeJournal formats process sequence p.primary p.primaryName record).run s = (.ok (.ok journal), t)) :
    Durable formats p record journal s t := by
  have hpath : journalPath p.primary p.primaryName = ⟨p.parentIdentity, [p.journalName]⟩ := by
    rw [journalPath, hp.primary]
    rfl
  unfold writeJournal at h
  dsimp only at h
  rw [hpath] at h
  obtain ⟨tempName, htemp⟩ : ∃ tempName, journalTempPath ⟨p.parentIdentity, [p.journalName]⟩ process sequence =
      ⟨p.parentIdentity, [tempName]⟩ := ⟨_, rfl⟩
  rw [htemp] at h
  obtain ⟨staged, v, hstage, h⟩ := Prog.run_bind_eq_ok.1 h
  rw [Prog.run_attempt_eq] at hstage
  cases staged with
  | error e => cases h
  | ok file =>
    obtain ⟨_, hmissing, hstage⟩ := Prog.run_observe_then.1 hstage
    obtain ⟨_, hsmall, hstage⟩ := Prog.run_ofExcept_then.1 hstage
    obtain ⟨hfresh, hnone, hstored, hfindv, hnodev⟩ := stageJournal_run hstage
    obtain ⟨published, x, hpublish, h⟩ := Prog.run_bind_eq_ok.1 h
    rw [Prog.run_attempt_eq] at hpublish
    cases published with
    | error e =>
      obtain ⟨visible, -, h⟩ := Prog.run_observe_then.1 h
      split at h
      · cases h
      · obtain ⟨_, y, -, h⟩ := Prog.run_bind_eq_ok.1 h
        cases h
    | ok u =>
      obtain ⟨hjournal, rfl⟩ := Prog.run_observe_eq_ok.1 h
      obtain ⟨hsame, hnode, hfind⟩ := publishBoundFile_run hpublish (by rw [hfindv, if_pos ⟨rfl, rfl⟩])
      rw [Except.ok.injEq, Except.ok.injEq] at hjournal
      rw [← hjournal]
      refine ⟨by rw [hpath], ?_, Nat.not_lt.1 (of_decide_eq_false (refuseIf_eq_ok.1 hsmall)), ?_, ?_, ?_, ?_, ?_⟩
      · rw [(hsame file).1, hstored]
      · have hid := ensureOutputMissing_eq_ok hmissing
        rw [FileSystem.identity_one] at hid
        cases hf : s.find p.parentIdentity p.journalName with
        | none => rfl
        | some j =>
          rw [hf] at hid
          cases hid
      · rw [hfind, if_pos ⟨rfl, rfl⟩]
      · intro d name hne
        rw [hfind, if_neg hne, hfindv]
        split
        · rename_i heq
          rw [heq.1, heq.2, hnone]
        · rfl
      · intro j hj
        rw [hnode j hj, hnodev j hj]
      · intro d name j hj
        show j ≠ file ∧ d ≠ file
        rw [hfresh]
        exact FileSystem.fresh_not_linked hj _

/-- A commit that issues its journal has found the set as it was prepared, and its journal's path vacant. -/
theorem issueJournal_run (hp : p.WellFormed) {process sequence : Nat} {journal : OpenJournal}
    (h : (p.issueJournal formats process sequence).run s = (.ok journal, t)) :
    Staged p s ∧ ∃ record, p.journalRecord = .ok record ∧ Durable formats p record journal s t := by
  unfold PreparedFileSetPublication.issueJournal at h
  obtain ⟨found, v, hrecover, h⟩ := Prog.run_bind_eq_ok.1 h
  obtain ⟨_, hbind, h⟩ := Prog.run_observe_then.1 h
  obtain ⟨_, hmissing, h⟩ := Prog.run_observe_then.1 h
  obtain ⟨record, hrecord, h⟩ := Prog.run_ofExcept_then.1 h
  obtain ⟨written, w, hwrite, h⟩ := Prog.run_bind_eq_ok.1 h
  have hstaged := staged_of_checks hp hbind hmissing
  cases found with
  | true =>
    -- the completed publication occupies the primary output
    obtain ⟨i, hi⟩ := recover_true hp hrecover
    obtain ⟨m, hm, hname⟩ := List.mem_map.1 (List.mem_of_getLast? hp.last)
    have hvacant := hstaged.vacant m hm
    rw [hname, hi] at hvacant
    cases hvacant
  | false =>
    have hv : v = s := recover_false hrecover
    rw [hv] at hstaged hwrite
    cases written with
    | error failure =>
      dsimp only at h
      split at h <;> cases h
    | ok j =>
      cases h
      exact ⟨hstaged, record, hrecord, writeJournal_run hp hwrite⟩

end Squallz.OutputSet
