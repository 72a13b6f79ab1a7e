/-
Every action on a repair workspace, in a start, a cleanup or a recovery that may be stopped anywhere: what it
takes away is the journal's own, the journal goes last, and its phase only advances.
-/
import Squallz.Recovery.Records

namespace Squallz.Recovery.RepairWorkspaceTarget

open Squallz.Api Squallz.Core Squallz.System Squallz.System.Prog Squallz.System.FileSystem

/-! ## What an action may do -/

/-- The entries that an action from `s` to `t` may take away. -/
inductive Released (formats : Formats) (target : RepairWorkspaceTarget) (s t : FileSystem) :
    Identity → Name → Identity → Prop
  /-- The temporary record gets the journal's name. -/
  | published (i : Identity) (hjournal : t.find target.parent target.journalName = some i) :
      Released formats target s t target.parent target.journalTempName i
  /-- The journal's record gives way to the one that it advances to. -/
  | superseded (i : Identity) (record record' : JournalRecord) (hrecorded : recorded formats target s = some record)
      (hrecorded' : recorded formats target t = some record')
      (hadvance : journalCanAdvanceFromReserved record record' = true) :
      Released formats target s t target.parent target.journalName i
  /-- The temporary record is the journal's. -/
  | discarded (i : Identity) (record : JournalRecord) (hrecorded : recorded formats target s = some record)
      (htemp : recordAt formats target s target.journalTempName = some record) :
      Released formats target s t target.parent target.journalTempName i
  /-- The recorded workspace, with the recorded owner beside it. -/
  | workspace (d : Identity) (name : Name) (i : Identity) (record : JournalRecord)
      (hrecorded : recorded formats target s = some record) (hmatches : WorkspaceMatches target s record)
      (hunder : Under s target.parent (utf8Bytes record.workspace) d name) : Released formats target s t d name i
  /-- The recorded owner of a workspace that is gone. -/
  | owner (i : Identity) (record : JournalRecord) (hrecorded : recorded formats target s = some record)
      (hgone : WorkspaceGone target s record) (hmatches : OwnerMatches target s record i) :
      Released formats target s t target.parent (utf8Bytes record.owner) i
  /-- The journal of a workspace that is gone. -/
  | journal (i : Identity) (record : JournalRecord) (hrecorded : recorded formats target s = some record)
      (hgone : WorkspaceGone target s record) : Released formats target s t target.parent target.journalName i

/-- What an action from `s` to `t` keeps to. -/
structure Safe (formats : Formats) (target : RepairWorkspaceTarget) (s t : FileSystem) : Prop where
  deletes : ∀ d name i, s.find d name = some i → t.find d name ≠ some i → Released formats target s t d name i
  clears : ∀ record, recorded formats target s = some record → recorded formats target t = none →
    WorkspaceGone target s record
  phase : ∀ record record', recorded formats target s = some record → recorded formats target t = some record' →
    record' = record ∨ journalCanAdvanceFromReserved record record' = true
  forest : s.Forest → t.Forest

variable {formats : Formats} {target : RepairWorkspaceTarget} {locked : Identity → Bool} {s t : FileSystem}

theorem Safe.refl (s : FileSystem) : Safe formats target s s := by
  refine ⟨fun d name i hi hne => absurd hi hne, fun record hr hn => ?_, fun record record' hr hr' => ?_, fun h => h⟩
  · rw [hr] at hn
    cases hn
  · rw [hr] at hr'
    exact .inl (Option.some.inj hr').symm

/-- An action that leaves the journal alone. -/
theorem Safe.of_keeps (hjournal : s.Keeps t target.parent target.journalName) (hforest : s.Forest → t.Forest)
    (hdeletes : ∀ d name i, s.find d name = some i → t.find d name ≠ some i → Released formats target s t d name i) :
    Safe formats target s t := by
  have hrecorded : recorded formats target t = recorded formats target s := recordAt_keeps hjournal
  refine ⟨hdeletes, fun record hr hn => ?_, fun record record' hr hr' => ?_, hforest⟩
  · rw [hrecorded, hr] at hn
    cases hn
  · rw [hrecorded, hr] at hr'
    exact .inl (Option.some.inj hr').symm

/-- An action that takes no entry away. -/
theorem Safe.of_adding (hjournal : s.Keeps t target.parent target.journalName) (hforest : s.Forest → t.Forest)
    (hadds : ∀ d name i, s.find d name = some i → t.find d name = some i) : Safe formats target s t :=
  .of_keeps hjournal hforest fun d name i hi hne => absurd (hadds d name i hi) hne

theorem Safe.created {d i : Identity} {name : Name} {node : Inode} (h : s.Created d name node i t)
    (hjournal : (target.parent, target.journalName) ≠ (d, name)) : Safe formats target s t := by
  refine .of_adding (h.keeps hjournal) (fun hs => hs.created h) fun d' name' j hj => ?_
  rw [h.others d' name' fun heq => ?_, hj]
  cases heq
  rw [h.vacant] at hj
  cases hj

theorem Safe.write {i : Identity} {bytes : List UInt8} (h : s.find target.parent target.journalName ≠ some i) :
    Safe formats target s (s.write i bytes) := .of_adding (keeps_write h) Forest.write fun _ _ _ hj => hj

/-- The removal of one entry other than the journal. -/
theorem Safe.removed {d : Identity} {name : Name} (h : s.Removed d name t)
    (hjournal : (target.parent, target.journalName) ≠ (d, name))
    (hreleased : ∀ i, s.find d name = some i → Released formats target s t d name i) : Safe formats target s t := by
  refine .of_keeps (h.keeps hjournal) (fun hs => hs.pruned h.pruned) fun d' name' i hi hne => ?_
  by_cases hk : (d', name') = (d, name)
  · cases hk
    exact hreleased i hi
  · exact absurd (by rw [h.others d' name' hk, hi]) hne

/-! ## The journal is cleared -/

theorem clearJournal_guarantees {journal : OpenJournal} (hpath : journal.path = target.journal)
    (hgone : ∀ record, recorded formats target s = some record → WorkspaceGone target s record) :
    (target.clearJournal formats journal).Guarantees Eq (Safe formats target) (fun _ _ => True) s := by
  unfold clearJournal
  refine guarantees_observe_then (.refl s) (fun _ _ => ?_) (fun _ _ => trivial)
  refine guarantees_observe_then (.refl s) (fun bound hbound => ?_) (fun _ _ => trivial)
  cases hbound
  cases hb : ensureOpenJournalBinding formats target s journal with
  | error e =>
    dsimp only
    split <;> trivial
  | ok u =>
    have hrecord : recorded formats target s = some journal.record := recordAt_of_binding hpath hb
    refine guarantees_mapError.2 (guarantees_ignoreNotFound (R := fun _ _ => True) ?_ ?_ ?_)
    · refine guarantees_call (.refl s) (fun _ t ht => ⟨?_, trivial⟩) (fun _ _ => trivial)
      rw [hpath] at ht
      have hremoved := removeFile_removed ht
      have hgoneT : recorded formats target t = none := recordAt_of_none hremoved.gone
      refine ⟨fun d name i hi hne => ?_, fun record hr _ => hgone record hr, fun record record' _ hr' => ?_,
        fun hs => hs.pruned hremoved.pruned⟩
      · by_cases hk : (d, name) = (target.parent, target.journalName)
        · cases hk
          exact .journal i journal.record hrecord (hgone _ hrecord)
        · exact absurd (by rw [hremoved.others d name hk, hi]) hne
      · rw [hgoneT] at hr'
        cases hr'
    · exact fun _ _ _ _ => trivial
    · exact fun _ _ _ _ => trivial

/-! ## The owner and the workspace are removed -/

theorem removeBoundOwner_guarantees {record : JournalRecord} {owner : Identity} {expected : Option Identity}
    (hrecorded : recorded formats target s = some record) (hgone : WorkspaceGone target s record)
    (hmatches : OwnerMatches target s record owner) :
    (removeBoundOwner (target.workspacePath record.owner) owner expected).Guarantees Eq (Safe formats target)
      (fun _ t => recorded formats target t = some record ∧ WorkspaceGone target t record) s := by
  obtain ⟨i, hfind, hholds⟩ := recordAt_eq_some.1 hrecorded
  obtain ⟨hjournal, hworkspace⟩ := hholds.owner_ne
  unfold removeBoundOwner
  refine guarantees_observe_then (.refl s) (fun _ _ => ?_) (fun _ _ => ⟨hrecorded, hgone⟩)
  refine guarantees_mapError.2 (guarantees_ignoreNotFound
    (R := fun _ t => recorded formats target t = some record ∧ WorkspaceGone target t record) ?_ ?_ ?_)
  · refine guarantees_call (.refl s) (fun _ t ht => ?_) (fun _ _ => ⟨hrecorded, hgone⟩)
    have hremoved := removeFile_removed ht
    have hne : (target.parent, target.journalName) ≠ (target.parent, utf8Bytes record.owner) := fun heq =>
      hjournal (Prod.mk.inj heq).2.symm
    refine ⟨.removed hremoved hne fun j hj => ?_, ?_, ?_⟩
    · rw [hmatches.find] at hj
      cases hj
      exact .owner owner record hrecorded hgone hmatches
    · rw [← hrecorded]
      exact recordAt_keeps (hremoved.keeps hne)
    · rw [WorkspaceGone, hremoved.others _ _ fun heq => hworkspace (Prod.mk.inj heq).2.symm]
      exact hgone
  · exact fun _ _ h _ => h
  · exact fun _ _ h _ => h

/-- What the removal of the recorded workspace takes away lies in it, and where it ends well the workspace is
gone and the record and its owner are still there. -/
theorem removeWorkspace_guarantees {record : JournalRecord} {workspaceIdentity ownerIdentity : Identity}
    {ownerToken : String} (hforest : s.Forest) (hrecorded : recorded formats target s = some record)
    (hstate : record.workspaceState = .active workspaceIdentity ownerIdentity ownerToken)
    (hfind : s.find target.parent (utf8Bytes record.workspace) = some workspaceIdentity)
    (hdir : (s.inodes workspaceIdentity).isDir = true) (howner : OwnerMatches target s record ownerIdentity) :
    (removal (removeDirAll (target.workspacePath record.workspace))).Guarantees Eq (Safe formats target)
      (fun r t => r = .ok () → recorded formats target t = some record ∧ WorkspaceGone target t record ∧
        OwnerMatches target t record ownerIdentity) s := by
  obtain ⟨rank, hranked⟩ := hforest
  obtain ⟨_, -, hholds⟩ := recordAt_eq_some.1 hrecorded
  have hjournal : (target.parent, target.journalName) ≠ (target.parent, utf8Bytes record.workspace) := fun heq =>
    hholds.workspace_ne (Prod.mk.inj heq).2.symm
  have hownerName : (target.parent, utf8Bytes record.owner) ≠ (target.parent, utf8Bytes record.workspace) := fun heq =>
    hholds.owner_ne.2 (Prod.mk.inj heq).2
  -- until the workspace is gone, the record, its owner and the workspace's own entry stay
  have hstays : ∀ t, Cleared rank s target.parent (utf8Bytes record.workspace) t →
      recorded formats target t = some record ∧ OwnerMatches target t record ownerIdentity := by
    intro t ht
    refine ⟨?_, ?_⟩
    · rw [← hrecorded]
      exact recordAt_keeps (ht.pruned.keeps (ht.above _ _ le_rfl hjournal))
    · exact howner.keeps (ht.pruned.keeps (ht.above _ _ le_rfl hownerName))
  have htree : ∀ depth, (removeTree depth target.parent (utf8Bytes record.workspace)).Guarantees Eq (Safe formats target)
      (fun r t => Cleared rank s target.parent (utf8Bytes record.workspace) t ∧
        (r = .ok () ∨ r = .error .notFound → t.find target.parent (utf8Bytes record.workspace) = none)) s := by
    intro depth
    refine removeTree_guarantees hranked (fun t _ => .refl t) (fun t d name t' ht hunder hremoved => ?_) depth _ _ s
      (.refl rank s _ _) (.inl rfl)
    obtain ⟨hrecorded', howner'⟩ := hstays t ht
    have hentry : t.find target.parent (utf8Bytes record.workspace) = some workspaceIdentity := by
      have hlinked : ∃ i, t.find target.parent (utf8Bytes record.workspace) = some i := by
        rcases hunder with heq | ⟨root, hroot, -, -⟩
        · cases heq
          exact hremoved.linked
        · exact ⟨root, hroot⟩
      obtain ⟨i, hi⟩ := hlinked
      rcases ht.pruned.find target.parent (utf8Bytes record.workspace) with heq | heq
      · rw [heq, hfind]
      · rw [heq] at hi
        cases hi
    have hmatches : WorkspaceMatches target t record := by
      refine ⟨workspaceIdentity, ownerIdentity, ownerToken, hstate, hentry, ?_, howner'⟩
      rwa [Inode.isDir_of_sameFile (ht.pruned.sameFile workspaceIdentity)]
    refine .removed hremoved (fun heq => ?_) fun i _ => .workspace d name i record hrecorded' hmatches hunder
    rcases hunder.rank_le (ht.pruned.ranked hranked) with hk | hlt
    · exact hjournal (heq.trans hk)
    · rw [← (Prod.mk.inj heq).1] at hlt
      exact lt_irrefl _ hlt
  have hpost : ∀ t, Cleared rank s target.parent (utf8Bytes record.workspace) t →
      t.find target.parent (utf8Bytes record.workspace) = none → recorded formats target t = some record ∧
        WorkspaceGone target t record ∧ OwnerMatches target t record ownerIdentity := fun t ht hnone =>
    ⟨(hstays t ht).1, hnone, (hstays t ht).2⟩
  have hmetadata : s.metadata (target.workspacePath record.workspace) = .ok (s.inodes workspaceIdentity) := by
    rw [workspacePath, metadata_one, hfind]
    rfl
  have hcontent : (s.inodes workspaceIdentity).content = .directory := by
    rw [Inode.isDir, beq_iff_eq] at hdir
    exact hdir
  unfold removal removeDirAll
  refine guarantees_mapError.2 (guarantees_ignoreNotFound
    (R := fun r t => Cleared rank s target.parent (utf8Bytes record.workspace) t ∧
      (r = .ok () ∨ r = .error .notFound → t.find target.parent (utf8Bytes record.workspace) = none)) ?_ ?_ ?_)
  · refine guarantees_observe_then (.refl s) (fun metadata hm => ?_) (fun e he => ?_)
    · rw [hmetadata] at hm
      cases hm
      rw [hcontent]
      refine guarantees_observe_then (.refl s) (fun place hplace => ?_) (fun e he => by cases he)
      cases hplace
      refine guarantees_observe_then (.refl s) (fun depth _ => htree depth) (fun e he => by cases he)
    · rw [hmetadata] at he
      cases he
  · rintro r t ⟨ht, hgone⟩ hr -
    exact hpost t ht (hgone hr)
  · rintro e t - - heq
    cases heq

/-! ## Cleanup -/

theorem cleanupOwnerAndJournal_guarantees {journal : OpenJournal} {workspace : Option Path}
    {workspaceIdentity ownerIdentity : Identity} {ownerToken : String} (hpath : journal.path = target.journal)
    (hrecorded : recorded formats target s = some journal.record)
    (hstate : journal.record.workspaceState = .active workspaceIdentity ownerIdentity ownerToken)
    (hgone : WorkspaceGone target s journal.record) :
    (target.cleanupOwnerAndJournal formats locked journal workspace (target.workspacePath journal.record.owner)
      ownerIdentity ownerToken).Guarantees Eq (Safe formats target) (fun _ _ => True) s := by
  have hclear : ∀ t, recorded formats target t = some journal.record → WorkspaceGone target t journal.record →
      (target.orDebt workspace (target.clearJournal formats journal)).Guarantees Eq (Safe formats target)
        (fun _ _ => True) t := by
    intro t ht hgone
    refine guarantees_mapError.2 (clearJournal_guarantees hpath fun record hr => ?_)
    rw [ht] at hr
    cases hr
    exact hgone
  unfold cleanupOwnerAndJournal
  refine guarantees_mapError_observe_then (.refl s) (fun found _ => ?_) (fun _ _ => trivial)
  split
  · refine guarantees_mapError_observe_then (.refl s) (fun owner howner => ?_) (fun _ _ => trivial)
    obtain ⟨rfl, hfind, htoken⟩ := openBoundOwner_eq_ok howner
    have hmatches : OwnerMatches target s journal.record owner := by
      refine ⟨hfind, by rw [hstate, htoken, token], fun _ _ _ h => ?_⟩
      rw [hstate] at h
      cases h
      rfl
    refine guarantees_mapError_then _ (removeBoundOwner_guarantees hrecorded hgone hmatches) ?_ (fun _ _ _ => trivial)
    rintro _ t ⟨ht, hgone'⟩
    exact hclear t ht hgone'
  · exact hclear s hrecorded hgone

/-- The cleanup of an active workspace, called with what its journal records. -/
theorem cleanupActiveWorkspace_guarantees {journal : OpenJournal} {workspaceIdentity ownerIdentity : Identity}
    {ownerToken : String} (hforest : s.Forest) (hpath : journal.path = target.journal)
    (hstate : journal.record.workspaceState = .active workspaceIdentity ownerIdentity ownerToken) :
    (target.cleanupActiveWorkspace formats locked journal (target.workspacePath journal.record.workspace)
      (target.workspacePath journal.record.owner) workspaceIdentity ownerIdentity ownerToken).Guarantees Eq
      (Safe formats target) (fun _ _ => True) s := by
  unfold cleanupActiveWorkspace
  refine guarantees_mapError_observe_then (.refl s) (fun _ hbinding => ?_) (fun _ _ => trivial)
  have hrecorded : recorded formats target s = some journal.record := recordAt_of_binding hpath hbinding
  refine guarantees_mapError_observe_then (.refl s) (fun found hfound => ?_) (fun _ _ => trivial)
  have hfound := isPresent_eq hfound
  split
  · refine guarantees_mapError_observe_then (.refl s) (fun bound hbound => ?_) (fun _ _ => trivial)
    obtain ⟨howner, hfind, hdir, hownerFind, htoken⟩ := openBoundWorkspace_eq_ok hbound
    have hmatches : OwnerMatches target s journal.record ownerIdentity := by
      refine ⟨hownerFind, by rw [hstate, htoken, token], fun _ _ _ h => ?_⟩
      rw [hstate] at h
      cases h
      rfl
    refine guarantees_mapError_then _ (removeWorkspace_guarantees hforest hrecorded hstate hfind hdir hmatches) ?_
      (fun _ _ _ => trivial)
    intro _ t ht
    obtain ⟨hrecorded', hgone, hmatches'⟩ := ht rfl
    rw [howner]
    refine guarantees_mapError_then _ (removeBoundOwner_guarantees hrecorded' hgone hmatches') ?_ (fun _ _ _ => trivial)
    rintro _ u ⟨hu, hgone'⟩
    refine guarantees_mapError.2 (clearJournal_guarantees hpath fun record hr => ?_)
    rw [hu] at hr
    cases hr
    exact hgone'
  · rename_i hmissing
    refine cleanupOwnerAndJournal_guarantees hpath hrecorded hstate ?_
    rw [Bool.not_eq_true] at hmissing
    rw [hmissing, eq_comm, Option.isSome_eq_false_iff, Option.isNone_iff_eq_none] at hfound
    exact hfound

/-! ## Recovery -/

theorem recoverReservedWorkspace_guarantees {journal : OpenJournal} {ownerToken : String}
    (hpath : journal.path = target.journal) (hstate : journal.record.workspaceState = .reserved ownerToken) :
    (target.recoverReservedWorkspace formats locked journal (target.workspacePath journal.record.workspace)
      (target.workspacePath journal.record.owner) ownerToken).Guarantees Eq (Safe formats target) (fun _ _ => True) s := by
  have hclear : ∀ t, recorded formats target t = some journal.record → WorkspaceGone target t journal.record →
      (target.orDebt none (target.clearJournal formats journal)).Guarantees Eq (Safe formats target)
        (fun _ _ => True) t := by
    intro t ht hgone
    refine guarantees_mapError.2 (clearJournal_guarantees hpath fun record hr => ?_)
    rw [ht] at hr
    cases hr
    exact hgone
  unfold recoverReservedWorkspace
  refine guarantees_mapError_observe_then (.refl s) (fun _ hbinding => ?_) (fun _ _ => trivial)
  have hrecorded : recorded formats target s = some journal.record := recordAt_of_binding hpath hbinding
  refine guarantees_mapError_observe_then (.refl s) (fun found hfound => ?_) (fun _ _ => trivial)
  have hfound := isPresent_eq hfound
  split
  · trivial
  · rename_i hmissing
    have hgone : WorkspaceGone target s journal.record := by
      rw [Bool.not_eq_true] at hmissing
      rw [hmissing, eq_comm, Option.isSome_eq_false_iff, Option.isNone_iff_eq_none] at hfound
      exact hfound
    refine guarantees_mapError_observe_then (.refl s) (fun owned _ => ?_) (fun _ _ => trivial)
    split
    · refine guarantees_mapError_observe_then (.refl s) (fun owner howner => ?_) (fun _ _ => trivial)
      obtain ⟨_, -, howner⟩ := bind_eq_ok.1 howner
      obtain ⟨_, -, howner⟩ := bind_eq_ok.1 howner
      obtain ⟨hfind, htoken⟩ := openReservedOwner_eq_ok howner
      have hmatches : OwnerMatches target s journal.record owner := by
        refine ⟨hfind, by rw [hstate, htoken, token], fun _ _ _ h => ?_⟩
        rw [hstate] at h
        cases h
      refine guarantees_mapError_then _ (removeBoundOwner_guarantees hrecorded hgone hmatches) ?_ (fun _ _ _ => trivial)
      rintro _ t ⟨ht, hgone'⟩
      exact hclear t ht hgone'
    · exact hclear s hrecorded hgone

/-- The journal's entry under the temporary name, published where there was no journal. -/
theorem Safe.published {i : Identity} (hvacant : s.find target.parent target.journalName = none)
    (hmoved : s.Moved target.parent target.journalTempName target.journalName i t) : Safe formats target s t := by
  have hnone : recorded formats target s = none := recordAt_of_none hvacant
  refine ⟨fun d name j hj hne => ?_, fun record hr _ => ?_, fun record record' hr _ => ?_, fun hs => hs.moved hmoved⟩
  · by_cases htemp : (d, name) = (target.parent, target.journalTempName)
    · cases htemp
      rw [hmoved.source] at hj
      cases hj
      exact .published i hmoved.target
    · by_cases hjournal : (d, name) = (target.parent, target.journalName)
      · cases hjournal
        rw [hvacant] at hj
        cases hj
      · exact absurd (by rw [hmoved.others d name htemp hjournal, hj]) hne
  · rw [hnone] at hr
    cases hr
  · rw [hnone] at hr
    cases hr

/-- The journal's record replaced by the temporary one, to which it advances. -/
theorem Safe.advanced {i : Identity} {record record' : JournalRecord}
    (hrecorded : recorded formats target s = some record)
    (htemp : recordAt formats target s target.journalTempName = some record')
    (hadvance : journalCanAdvanceFromReserved record record' = true)
    (hmoved : s.Moved target.parent target.journalTempName target.journalName i t) :
    recorded formats target t = some record' ∧ Safe formats target s t := by
  have hrecorded' : recorded formats target t = some record' := by
    obtain ⟨j, hj, hholds⟩ := recordAt_eq_some.1 htemp
    rw [hmoved.source] at hj
    cases hj
    exact recordAt_eq_some.2 ⟨i, hmoved.target, hholds.congr (hmoved.sameFile i)⟩
  refine ⟨hrecorded', fun d name j hj hne => ?_, fun r _ hn => ?_, fun r r' hr hr' => ?_, fun hs => hs.moved hmoved⟩
  · by_cases htemp : (d, name) = (target.parent, target.journalTempName)
    · cases htemp
      rw [hmoved.source] at hj
      cases hj
      exact .published i hmoved.target
    · by_cases hjournal : (d, name) = (target.parent, target.journalName)
      · cases hjournal
        exact .superseded j record record' hrecorded hrecorded' hadvance
      · exact absurd (by rw [hmoved.others d name htemp hjournal, hj]) hne
  · rw [hrecorded'] at hn
    cases hn
  · rw [hrecorded] at hr
    rw [hrecorded'] at hr'
    cases hr
    cases hr'
    exact .inr hadvance

theorem recoverInterruptedJournalWrite_guarantees :
    (target.recoverInterruptedJournalWrite formats).Guarantees Eq (Safe formats target)
      (fun _ t => s.Forest → t.Forest) s := by
  unfold recoverInterruptedJournalWrite
  refine guarantees_mapError_observe_then (.refl s) (fun temp htemp => ?_) (fun _ _ => id)
  have htemp : readJournalAt formats target s target.journalTemp = .ok temp := by
    cases hr : readJournalAt formats target s target.journalTemp with
    | error e =>
      rw [hr] at htemp
      cases htemp
    | ok read =>
      rw [hr] at htemp
      cases htemp
      rfl
  cases temp with
  | none => exact id
  | some temp =>
    obtain ⟨hrecordTemp, hpathTemp⟩ := recordAt_of_read rfl htemp
    refine guarantees_mapError_observe_then (.refl s) (fun primary hprimary => ?_) (fun _ _ => id)
    cases hfate : tempFate temp primary with
    | publish =>
      have hvacant : s.find target.parent target.journalName = none := by
        cases primary with
        | none => exact find_of_read_none rfl hprimary
        | some primary =>
          unfold tempFate at hfate
          dsimp only at hfate
          split at hfate
          · cases hfate
          · split at hfate <;> cases hfate
      refine guarantees_mapError_observe_then (.refl s) (fun _ _ => ?_) (fun _ _ => id)
      refine guarantees_mapError.2 (guarantees_mapError.2 (guarantees_call (.refl s) (fun _ t ht => ?_) fun _ _ => id))
      rw [hpathTemp] at ht
      obtain ⟨-, i, hmoved⟩ := renameNoReplace_moved ht
      exact ⟨.published hvacant hmoved, fun hs => hs.moved hmoved⟩
    | discard =>
      refine guarantees_mapError_observe_then (.refl s) (fun _ _ => ?_) (fun _ _ => id)
      refine guarantees_mapError.2 (guarantees_mapError.2 (guarantees_call (.refl s) (fun _ t ht => ?_) fun _ _ => id))
      rw [hpathTemp] at ht
      have hremoved := removeFile_removed ht
      refine ⟨.removed hremoved (fun heq => journalTempName_ne (Prod.mk.inj heq).2.symm) fun i _ => ?_,
        fun hs => hs.pruned hremoved.pruned⟩
      cases primary with
      | none => cases hfate
      | some primary =>
        unfold tempFate at hfate
        dsimp only at hfate
        split at hfate
        · rename_i hsame
          exact .discarded i temp.record (hsame ▸ (recordAt_of_read rfl hprimary).1) hrecordTemp
        · split at hfate <;> cases hfate
    | advance current =>
      refine guarantees_mapError_observe_then (.refl s) (fun _ _ => ?_) (fun _ _ => id)
      refine guarantees_mapError_observe_then (.refl s) (fun _ _ => ?_) (fun _ _ => id)
      refine guarantees_mapError.2 (guarantees_mapError.2 (guarantees_call (.refl s) (fun _ t ht => ?_) fun _ _ => id))
      rw [hpathTemp] at ht
      cases primary with
      | none => cases hfate
      | some primary =>
        unfold tempFate at hfate
        dsimp only at hfate
        split at hfate
        · cases hfate
        · split at hfate
          · rename_i hadvance
            rcases renameReplace_moved journalTempName_ne.symm ht with ⟨i, -, -, rfl⟩ | ⟨i, hmoved⟩
            · exact ⟨.refl t, id⟩
            · exact ⟨(Safe.advanced (recordAt_of_read rfl hprimary).1 hrecordTemp hadvance hmoved).2,
                fun hs => hs.moved hmoved⟩
          · cases hfate
    | conflict => exact id

theorem recoverPending_guarantees (hforest : s.Forest) :
    (target.recoverPending formats locked).Guarantees Eq (Safe formats target) (fun _ _ => True) s := by
  unfold recoverPending
  refine guarantees_mapError_observe_then (.refl s) (fun _ _ => ?_) (fun _ _ => trivial)
  refine guarantees_then _ recoverInterruptedJournalWrite_guarantees ?_ (fun _ _ _ => trivial)
  intro _ t ht
  have hforest := ht hforest
  refine guarantees_mapError_observe_then (.refl t) (fun journal hjournal => ?_) (fun _ _ => trivial)
  cases journal with
  | none => trivial
  | some journal =>
    obtain ⟨-, hpath⟩ := recordAt_of_read rfl hjournal
    dsimp only
    cases hstate : journal.record.workspaceState with
    | reserved ownerToken => exact recoverReservedWorkspace_guarantees hpath hstate
    | active workspaceIdentity ownerIdentity ownerToken => exact cleanupActiveWorkspace_guarantees hforest hpath hstate

/-! ## Writing the journal -/

/-- A new file, written. -/
structure Written (s : FileSystem) (d : Identity) (name : Name) (bytes : List UInt8) (i : Identity) (t : FileSystem) :
    Prop where
  target : t.find d name = some i
  content : (t.inodes i).content = .regular bytes
  mode : (t.inodes i).mode = 0o600
  keeps : ∀ d' name', (d', name') ≠ (d, name) → s.Keeps t d' name'
  forest : s.Forest → t.Forest

theorem written_of_created {u : FileSystem} {d i : Identity} {name : Name} {bytes : List UInt8}
    (h : s.Created d name ⟨.regular [], 0o600, none, (0, 0)⟩ i u) : Written s d name bytes i (u.write i bytes) := by
  refine ⟨h.target, content_write _ _ _, ?_, fun d' name' hne => (h.keeps hne).trans (keeps_write fun heq => ?_),
    fun hs => (hs.created h).write⟩
  · rw [FileSystem.write, (sameFile_touch _ _ _).2.1, inodes_setInode_self]
    exact h.node.2.1
  · rw [h.others d' name' hne] at heq
    exact h.fresh d' name' heq

theorem writeTemp_guarantees {bytes : List UInt8} :
    (target.writeTemp bytes).Guarantees Eq (Safe formats target)
      (fun r t => r = .ok () → ∃ i, Written s target.parent target.journalTempName bytes i t) s := by
  have hne : (target.parent, target.journalName) ≠ (target.parent, target.journalTempName) := fun heq =>
    journalTempName_ne (Prod.mk.inj heq).2.symm
  unfold writeTemp
  refine guarantees_mapError_then (fun r t => ∀ i, r = .ok i →
    s.Created target.parent target.journalTempName ⟨.regular [], 0o600, none, (0, 0)⟩ i t) ?_ ?_ ?_
  · refine guarantees_call (.refl s) (fun i t ht => ?_) (fun e _ i heq => by cases heq)
    have hcreated := create_created ht
    refine ⟨.created hcreated hne, fun j heq => ?_⟩
    cases heq
    exact hcreated
  · intro i t ht
    have hcreated := ht i rfl
    refine guarantees_update.2 ?_
    rintro v rfl
    refine ⟨.write fun heq => ?_, fun _ => ⟨i, written_of_created hcreated⟩⟩
    rw [hcreated.others _ _ hne] at heq
    exact hcreated.fresh _ _ heq
  · intro e t _ heq
    cases heq

theorem journalBytes_eq_ok {record : JournalRecord} {bytes : List UInt8} (h : journalBytes formats record = .ok bytes) :
    bytes = formats.documentToVec ⟨record, journalDigest formats record⟩ ∧ bytes.length ≤ journalMaxBytes := by
  obtain ⟨_, hlen, h⟩ := bind_eq_ok.1 h
  cases h
  exact ⟨rfl, by simpa using ensure_eq_ok.1 hlen⟩

/-- A journal that is read back holds the record that was written. -/
theorem Written.read {i : Identity} {name : Name} {record : JournalRecord} {bytes : List UInt8} {journal : OpenJournal}
    (hread : ∀ document, formats.fromSlice (formats.documentToVec document) = .ok document)
    (hbytes : journalBytes formats record = .ok bytes) (hfind : t.find target.parent name = some i)
    (hcontent : (t.inodes i).content = .regular bytes)
    (h : readJournalAt formats target t ⟨target.parent, [name]⟩ = .ok (some journal)) : journal.record = record := by
  obtain ⟨j, hj, hholds, -⟩ := readJournalAt_eq_some.1 h
  rw [hfind] at hj
  cases hj
  obtain ⟨digest, hdocument, -⟩ := hholds.document
  rw [Inode.bytes, hcontent, (journalBytes_eq_ok hbytes).1, hread] at hdocument
  cases hdocument
  rfl

theorem reread_guarantees {message : String} (record : JournalRecord)
    (h : ∀ journal, readJournalAt formats target s target.journal = .ok (some journal) → journal.record = record) :
    (target.reread formats message).Guarantees Eq (Safe formats target) (fun r t => ∀ journal, r = .ok journal →
      t = s ∧ journal.path = target.journal ∧ journal.record = record ∧
        recorded formats target s = some record) s := by
  unfold reread
  refine guarantees_observe_then (.refl s) (fun journal hjournal => ?_) (fun _ _ _ heq => by cases heq)
  rw [guarantees_ofExcept]
  intro journal' heq
  cases journal with
  | none => cases heq
  | some opened =>
    cases heq
    obtain ⟨hrecorded, hpath⟩ := recordAt_of_read rfl hjournal
    have hrecord := h _ hjournal
    exact ⟨rfl, hpath, hrecord, hrecord ▸ hrecorded⟩

theorem renameNoReplace_isOk {d i : Identity} {a b : Name} (ha : s.find d a = some i) (hb : s.find d b = none) :
    ∃ t, s.renameNoReplace ⟨d, [a]⟩ ⟨d, [b]⟩ = .ok ((), t) :=
  ⟨_, renameNoReplace_eq_ok.2 ⟨d, a, i, d, b, rfl, ha, rfl, hb, rfl⟩⟩

theorem writeNewJournal_guarantees {record : JournalRecord}
    (hread : ∀ document, formats.fromSlice (formats.documentToVec document) = .ok document)
    (hvacant : s.find target.parent target.journalName = none) :
    (target.writeNewJournal formats record).Guarantees Eq (Safe formats target) (fun r t => ∀ journal, r = .ok journal →
      journal.path = target.journal ∧ journal.record = record ∧ recorded formats target t = some record) s := by
  have hne : (target.parent, target.journalName) ≠ (target.parent, target.journalTempName) := fun heq =>
    journalTempName_ne (Prod.mk.inj heq).2.symm
  unfold writeNewJournal
  cases hbytes : journalBytes formats record with
  | error e => exact fun _ heq => by cases heq
  | ok bytes =>
    rw [ofExcept_ok_bind]
    refine guarantees_then _ writeTemp_guarantees ?_ (fun _ _ _ _ heq => by cases heq)
    intro _ t ht
    obtain ⟨i, hwritten⟩ := ht rfl
    have hvacant' : t.find target.parent target.journalName = none := by
      rw [(hwritten.keeps _ _ hne).find, hvacant]
    obtain ⟨u, hu⟩ := renameNoReplace_isOk hwritten.target hvacant'
    refine guarantees_act_then (.refl t) (fun _ v hv => ?_) (fun e he => ?_)
    · obtain ⟨-, j, hmoved⟩ := renameNoReplace_moved hv
      refine ⟨.published hvacant' hmoved, ?_⟩
      have hj : j = i := Option.some.inj (hmoved.source.symm.trans hwritten.target)
      subst hj
      refine (reread_guarantees record fun journal hjournal => ?_).post ?_
      · refine Written.read hread hbytes hmoved.target ?_ hjournal
        rw [(hmoved.sameFile j).1, hwritten.content]
      · rintro r w hr journal rfl
        obtain ⟨rfl, hpath, hrecord, hrecorded⟩ := hr journal rfl
        exact ⟨hpath, hrecord, hrecorded⟩
    · rw [journalTemp, journal, hu] at he
      cases he

/-- The journal's record gives way to one that it advances to. -/
theorem replaceJournal_guarantees {current : OpenJournal} {record : JournalRecord}
    (hread : ∀ document, formats.fromSlice (formats.documentToVec document) = .ok document)
    (hpath : current.path = target.journal) (hadvance : journalCanAdvanceFromReserved current.record record = true)
    (hvalid : validateDocument formats target ⟨record, journalDigest formats record⟩ = .ok ()) :
    (target.replaceJournal formats current record).Guarantees Eq (Safe formats target) (fun r _ => ∀ journal,
      r = .ok journal → journal.path = target.journal ∧ journal.record = record) s := by
  have hne : (target.parent, target.journalName) ≠ (target.parent, target.journalTempName) := fun heq =>
    journalTempName_ne (Prod.mk.inj heq).2.symm
  unfold replaceJournal
  refine guarantees_observe_then (.refl s) (fun _ hbinding => ?_) (fun _ _ _ heq => by cases heq)
  have hrecorded : recorded formats target s = some current.record := recordAt_of_binding hpath hbinding
  cases hbytes : journalBytes formats record with
  | error e => exact fun _ heq => by cases heq
  | ok bytes =>
    obtain ⟨hdocument, hlen⟩ := journalBytes_eq_ok hbytes
    rw [ofExcept_ok_bind]
    refine guarantees_then _ writeTemp_guarantees ?_ (fun _ _ _ _ heq => by cases heq)
    intro _ t ht
    obtain ⟨i, hwritten⟩ := ht rfl
    have hrecorded' : recorded formats target t = some current.record := by
      rw [← hrecorded]
      exact recordAt_keeps (hwritten.keeps _ _ hne)
    have htemp : recordAt formats target t target.journalTempName = some record := by
      refine recordAt_eq_some.2 ⟨i, hwritten.target, ⟨?_, ?_, ?_, journalDigest formats record, ?_, hvalid⟩⟩
      · rw [Inode.isFile, hwritten.content]
      · rw [hwritten.mode]
        rfl
      · rw [Inode.len, Inode.bytes, hwritten.content]
        exact hlen
      · rw [Inode.bytes, hwritten.content, hdocument]
        exact hread _
    refine guarantees_then (fun r u => r = .ok () → u.find target.parent target.journalName = some i ∧
      (u.inodes i).content = .regular bytes) ?_ ?_ (fun _ _ _ _ heq => by cases heq)
    · refine guarantees_mapError.2 (guarantees_call (.refl t) (fun _ u hu => ?_) (fun _ _ heq => by cases heq))
      rcases renameReplace_moved journalTempName_ne.symm hu with ⟨j, hj, hj', rfl⟩ | ⟨j, hmoved⟩
      · have hji : j = i := Option.some.inj (hj.symm.trans hwritten.target)
        subst hji
        exact ⟨.refl u, fun _ => ⟨hj', hwritten.content⟩⟩
      · have hji : j = i := Option.some.inj (hmoved.source.symm.trans hwritten.target)
        subst hji
        refine ⟨(Safe.advanced hrecorded' htemp hadvance hmoved).2, fun _ => ⟨hmoved.target, ?_⟩⟩
        rw [(hmoved.sameFile j).1, hwritten.content]
    · intro _ u hu
      obtain ⟨hfind, hcontent⟩ := hu rfl
      refine (reread_guarantees record fun journal hjournal => ?_).post ?_
      · exact Written.read hread hbytes hfind hcontent hjournal
      · rintro r w hr journal rfl
        obtain ⟨-, hpath, hrecord, -⟩ := hr journal rfl
        exact ⟨hpath, hrecord⟩

/-! ## The start and the cleanup of what it started -/

/-- A started workspace is the one that its journal records. -/
structure Bound (target : RepairWorkspaceTarget) (workspace : RepairWorkspace) : Prop where
  sameTarget : workspace.target = target
  journal : workspace.journal.path = target.journal
  state : workspace.journal.record.workspaceState =
    .active workspace.workspaceIdentity workspace.ownerIdentity workspace.ownerToken
  path : workspace.path = target.workspacePath workspace.journal.record.workspace
  ownerPath : workspace.ownerPath = target.workspacePath workspace.journal.record.owner

theorem cleanup_guarantees {workspace : RepairWorkspace} (hbound : Bound target workspace) (hforest : s.Forest) :
    (workspace.cleanup formats locked).Guarantees Eq (Safe formats target) (fun _ _ => True) s := by
  obtain ⟨htarget, hjournal, hstate, hpath, howner⟩ := hbound
  unfold RepairWorkspace.cleanup
  rw [htarget, hpath, howner]
  refine guarantees_mapError_observe_then (.refl s) (fun _ _ => ?_) (fun _ _ => trivial)
  split
  · trivial
  · exact cleanupActiveWorkspace_guarantees hforest hjournal hstate

theorem invalidIdentity_of_entry {i : Identity} (h : i.entry ≠ 0) : invalidIdentity i = false := by
  simp [invalidIdentity, h]

/-- The record of a reserved workspace advances to the record that binds what was created under its names. -/
theorem active_advances {record : JournalRecord} {node : Inode} {ownerToken : String} {directory owner : Identity}
    (hholds : Holds formats target node record) (hstate : record.workspaceState = .reserved ownerToken)
    (hdirectory : directory.entry ≠ 0) (howner : owner.entry ≠ 0) :
    journalCanAdvanceFromReserved record
        (target.record record.workspace record.owner (.active directory owner ownerToken)) = true ∧
      validateDocument formats target ⟨target.record record.workspace record.owner (.active directory owner ownerToken),
        journalDigest formats (target.record record.workspace record.owner (.active directory owner ownerToken))⟩ =
        .ok () := by
  obtain ⟨digest, -, hvalid⟩ := hholds.document
  obtain ⟨hversion, hkey, hparent, hname, hownerName, -, htoken⟩ := validateDocument_eq_ok hvalid
  constructor
  · dsimp only at hversion hkey hparent
    simp [journalCanAdvanceFromReserved, RepairWorkspaceTarget.record, hversion, hkey, hparent, hstate]
  · refine validateDocument_of rfl rfl rfl hname hownerName rfl ?_
    dsimp only at htoken
    rw [hstate] at htoken
    simp only [RepairWorkspaceTarget.record, isValidState, invalidIdentity_of_entry hdirectory,
      invalidIdentity_of_entry howner, Bool.not_false, Bool.and_true]
    exact htoken

theorem begin_guarantees {process nonce tokenNonce : Nat}
    (hread : ∀ document, formats.fromSlice (formats.documentToVec document) = .ok document) :
    (target.begin formats locked process nonce tokenNonce).Guarantees Eq (Safe formats target)
      (fun r _ => ∀ workspace, r = .ok workspace → Bound target workspace) s := by
  unfold «begin»
  refine guarantees_mapError_observe_then (.refl s) (fun _ _ => ?_) (fun _ _ _ heq => by cases heq)
  refine guarantees_mapError_observe_then (.refl s) (fun pending hpending => ?_) (fun _ _ _ heq => by cases heq)
  cases pending with
  | some journal => exact fun _ heq => by cases heq
  | none =>
    have hvacant : s.find target.parent target.journalName = none := find_of_read_none rfl hpending
    -- the reserved record is in the journal
    refine guarantees_mapError_then _ (writeNewJournal_guarantees hread hvacant) ?_ (fun _ _ _ _ heq => by cases heq)
    intro reserved t₁ h₁
    obtain ⟨hpath, hrecord, hrecorded₁⟩ := h₁ reserved rfl
    obtain ⟨j, hj, hholds⟩ := recordAt_eq_some.1 hrecorded₁
    -- the owner file
    refine guarantees_mapError_then (fun r t => ∀ i, r = .ok i → t₁.Created target.parent
      (utf8Bytes (target.uniqueWorkspaceName process nonce ++ ownerSuffix)) ⟨.regular [], 0o600, none, (0, 0)⟩ i t)
      ?_ ?_ (fun _ _ _ _ heq => by cases heq)
    · refine guarantees_mapError.2 (guarantees_call (.refl t₁) (fun i t ht => ?_) (fun _ _ _ heq => by cases heq))
      have hcreated := create_created ht
      refine ⟨.created hcreated fun heq => ?_, fun i' heq => by cases heq; exact hcreated⟩
      have hnone := hcreated.vacant
      rw [← (Prod.mk.inj heq).2, hj] at hnone
      cases hnone
    intro owner t₂ h₂
    have howner := h₂ owner rfl
    have hjne : (target.parent, target.journalName) ≠ (target.parent,
        utf8Bytes (target.uniqueWorkspaceName process nonce ++ ownerSuffix)) := by
      intro heq
      have hnone := howner.vacant
      rw [← (Prod.mk.inj heq).2, hj] at hnone
      cases hnone
    have hj₂ : t₂.find target.parent target.journalName = some j := by rw [howner.others _ _ hjne, hj]
    have hneOwner : t₂.find target.parent target.journalName ≠ some owner := by
      rw [howner.others _ _ hjne]
      exact howner.fresh _ _
    refine guarantees_update_then (.write hneOwner) ?_
    have hkeeps : t₁.Keeps (t₂.write owner (utf8Bytes (target.ownerToken formats process tokenNonce))) target.parent
        target.journalName := (howner.keeps hjne).trans (keeps_write hneOwner)
    generalize t₂.write owner (utf8Bytes (target.ownerToken formats process tokenNonce)) = t₃ at hkeeps ⊢
    cases hlock : tryLock locked owner with
    | error e => exact fun _ heq => by cases heq
    | ok u =>
      show (Prog.attempt _ >>= _).Guarantees _ _ _ t₃
      -- the workspace itself
      rw [guarantees_bind, guarantees_attempt]
      refine guarantees_mapError.2 (guarantees_mapError.2 (guarantees_call (.refl t₃) (fun i t₄ ht => ?_) fun e _ => ?_))
      · have hcreated := create_created ht
        have hj₃ : t₃.find target.parent target.journalName = some j := by rw [hkeeps.find, hj]
        refine ⟨.created hcreated fun heq => ?_, ?_⟩
        · have hnone := hcreated.vacant
          rw [← (Prod.mk.inj heq).2, hj₃] at hnone
          cases hnone
        refine guarantees_mapError_observe_then (.refl t₄) (fun directory hdirectory => ?_)
          (fun _ _ _ heq => by cases heq)
        have hentry : directory.entry ≠ 0 := by
          obtain ⟨hidentity, -⟩ := openDirectoryNoFollow_eq_ok.1 hdirectory
          unfold workspacePath at hidentity
          rw [identity_one, hcreated.target] at hidentity
          cases hidentity
          exact hcreated.entry
        rw [← hrecord] at hholds
        have hstate : reserved.record.workspaceState = .reserved (target.ownerToken formats process tokenNonce) := by
          rw [hrecord]
          rfl
        obtain ⟨hadvance, hvalid⟩ := active_advances hholds hstate hentry howner.entry
        refine guarantees_mapError_then _ (replaceJournal_guarantees hread hpath hadvance hvalid) ?_
          (fun _ _ _ _ heq => by cases heq)
        intro journal t₅ h₅ workspace heq
        obtain ⟨hpath', hrecord'⟩ := h₅ journal rfl
        cases heq
        have hnames : journal.record.workspace = target.uniqueWorkspaceName process nonce ∧
            journal.record.owner = target.uniqueWorkspaceName process nonce ++ ownerSuffix := by
          rw [hrecord', hrecord]
          exact ⟨rfl, rfl⟩
        refine ⟨rfl, hpath', ?_, ?_, ?_⟩
        · rw [hrecord']
          rfl
        · rw [hnames.1]
        · rw [hnames.2]
      · refine guarantees_observe_then (.refl t₃) (fun _ _ => ?_) (fun _ _ _ heq => by cases heq)
        exact fun _ heq => by cases heq

/-! ## A format that reads back what it writes -/

section Sample

/-- A text as a run of numbers. -/
private def numbers (text : String) : List Nat := text.toList.length :: text.toList.map Char.toNat

private def readText : List Nat → String × List Nat
  | [] => ("", [])
  | n :: rest => (.ofList ((rest.take n).map Char.ofNat), rest.drop n)

private theorem readText_numbers (text : String) (rest : List Nat) : readText (numbers text ++ rest) = (text, rest) := by
  unfold numbers readText
  simp only [List.cons_append, Prod.mk.injEq]
  constructor
  · rw [List.take_append_of_le_length (by simp), List.take_of_length_le (by simp), List.map_map]
    have hid : Char.ofNat ∘ Char.toNat = id := funext Char.ofNat_toNat
    rw [hid, List.map_id, String.ofList_toList]
  · rw [List.drop_append_of_le_length (by simp), List.drop_of_length_le (by simp), List.nil_append]

private def stateNumbers : WorkspaceState → List Nat
  | .reserved ownerToken => 0 :: numbers ownerToken
  | .active workspace owner ownerToken =>
    1 :: workspace.filesystem :: workspace.entry :: owner.filesystem :: owner.entry :: numbers ownerToken

private def documentNumbers (document : JournalDocument) : List Nat :=
  document.record.version :: document.record.parentIdentity.filesystem :: document.record.parentIdentity.entry ::
    (numbers document.record.targetKey ++ (numbers document.record.workspace ++ (numbers document.record.owner ++
      (numbers document.digest ++ stateNumbers document.record.workspaceState))))

private def readState : List Nat → Except String WorkspaceState
  | 0 :: rest => .ok (.reserved (readText rest).1)
  | 1 :: a :: b :: c :: d :: rest => .ok (.active ⟨a, b⟩ ⟨c, d⟩ (readText rest).1)
  | _ => .error "unknown state"

private def readDocument : List Nat → Except String JournalDocument
  | version :: filesystem :: entry :: rest =>
    let key := readText rest
    let workspace := readText key.2
    let owner := readText workspace.2
    let digest := readText owner.2
    (readState digest.2).map fun state =>
      ⟨⟨version, key.1, ⟨filesystem, entry⟩, workspace.1, owner.1, state⟩, digest.1⟩
  | _ => .error "unexpected end of input"

private theorem readState_stateNumbers (state : WorkspaceState) : readState (stateNumbers state) = .ok state := by
  have hread : ∀ text, readText (numbers text) = (text, []) := fun text => by
    simpa using readText_numbers text []
  cases state <;> simp [stateNumbers, readState, hread]

private theorem readDocument_documentNumbers (document : JournalDocument) :
    readDocument (documentNumbers document) = .ok document := by
  obtain ⟨⟨version, key, ⟨filesystem, entry⟩, workspace, owner, state⟩, digest⟩ := document
  simp [documentNumbers, readDocument, readText_numbers, readState_stateNumbers, Except.map]

/-- Numbers as runs of ones that end with a zero. -/
private def unary (l : List Nat) : List UInt8 := l.flatMap fun n => List.replicate n 1 ++ [0]

private def readUnary : Nat → List UInt8 → List Nat
  | _, [] => []
  | n, b :: rest => if b = 0 then n :: readUnary 0 rest else readUnary (n + 1) rest

private theorem readUnary_unary (l : List Nat) : readUnary 0 (unary l) = l := by
  have hone : ∀ n m rest, readUnary m (List.replicate n 1 ++ 0 :: rest) = (m + n) :: readUnary 0 rest := by
    intro n
    induction n with
    | zero => intro m rest; rfl
    | succ n ih =>
      intro m rest
      rw [List.replicate_succ, List.cons_append, readUnary, if_neg (by decide), ih]
      congr 1
      omega
  induction l with
  | nil => rfl
  | cons n l ih =>
    have hcons : unary (n :: l) = List.replicate n 1 ++ 0 :: unary l := by simp [unary]
    rw [hcons, hone, ih, Nat.zero_add]

def sampleFormats : Formats where
  recordToVec record := unary (documentNumbers ⟨record, ""⟩)
  documentToVec document := unary (documentNumbers document)
  fromSlice bytes := readDocument (readUnary 0 bytes)
  toHex bytes := String.ofList (List.replicate 64 (if bytes.length % 2 = 0 then '0' else '1'))

private theorem sampleFormats_read (document : JournalDocument) :
    sampleFormats.fromSlice (sampleFormats.documentToVec document) = .ok document := by
  show readDocument (readUnary 0 (unary (documentNumbers document))) = _
  rw [readUnary_unary, readDocument_documentNumbers]

def sampleTarget : RepairWorkspaceTarget := ⟨⟨1, 2⟩, ⟨1, 2⟩, ⟨1, 2⟩, "00112233445566778899aabbccddeeff"⟩

/-- An output directory without entries. -/
def sampleState : FileSystem := ⟨∅, fun _ => ⟨.directory, 0o700, none, (0, 0)⟩, fun n => (n, 0)⟩

private theorem sampleState_forest : sampleState.Forest := by
  refine ⟨fun _ => 0, ?_⟩
  rintro d i ⟨name, hfind, -⟩
  cases hfind

end Sample

/-! ## Stopped anywhere, recovered any number of times -/

/-- The states in which a start can be stopped, and the cleanup of what it started, whatever the repair has
made of the file system in between. -/
inductive CrashPoint (formats : Formats) (target : RepairWorkspaceTarget) (process nonce tokenNonce : Nat)
    (s : FileSystem) : FileSystem → Prop
  | start (locked : Identity → Bool) (u : FileSystem)
      (hvisits : (target.begin formats locked process nonce tokenNonce).Visits s u) :
      CrashPoint formats target process nonce tokenNonce s u
  | cleanup (locked locked' : Identity → Bool) (workspace : RepairWorkspace) (t v u : FileSystem)
      (hbegin : (target.begin formats locked process nonce tokenNonce).run s = (.ok workspace, t)) (hv : v.Forest)
      (hvisits : (workspace.cleanup formats locked').Visits v u) :
      CrashPoint formats target process nonce tokenNonce s u

/-- The states that recoveries lead to, each stopped anywhere. -/
def Recovered (formats : Formats) (target : RepairWorkspaceTarget) : FileSystem → FileSystem → Prop :=
  Relation.ReflTransGen fun u v => ∃ locked, (target.recoverPending formats locked).Visits u v

theorem bound_of_begin {process nonce tokenNonce : Nat} {workspace : RepairWorkspace}
    (hread : ∀ document, formats.fromSlice (formats.documentToVec document) = .ok document)
    (h : (target.begin formats locked process nonce tokenNonce).run s = (.ok workspace, t)) : Bound target workspace := by
  have hresult : ∀ workspace, ((target.begin formats locked process nonce tokenNonce).run s).1 = .ok workspace →
      Bound target workspace := (begin_guarantees hread).result
  rw [h] at hresult
  exact hresult workspace rfl

theorem CrashPoint.forest {process nonce tokenNonce : Nat} {u : FileSystem}
    (hread : ∀ document, formats.fromSlice (formats.documentToVec document) = .ok document) (hs : s.Forest)
    (h : CrashPoint formats target process nonce tokenNonce s u) : u.Forest := by
  cases h with
  | start locked u hvisits => exact (begin_guarantees hread).visits (fun _ _ h => h.forest) hs hvisits
  | cleanup locked locked' workspace t v u hbegin hv hvisits =>
    exact (cleanup_guarantees (bound_of_begin hread hbegin) hv).visits (fun _ _ h => h.forest) hv hvisits

theorem Recovered.forest {u v : FileSystem} (h : Recovered formats target u v) (hu : u.Forest) : v.Forest := by
  induction h with
  | refl => exact hu
  | tail _ hvisits ih =>
    obtain ⟨locked, hvisits⟩ := hvisits
    exact (recoverPending_guarantees ih).visits (fun _ _ h => h.forest) ih hvisits

/-- Every action of a start, of the cleanup of what it started, and of every recovery after either was stopped
keeps to `Safe`. -/
theorem repairWorkspace_crashSafe (formats : Formats) (target : RepairWorkspaceTarget) (process nonce tokenNonce : Nat)
    (s : FileSystem) (hread : ∀ document, formats.fromSlice (formats.documentToVec document) = .ok document)
    (hs : s.Forest) :
    (∀ locked t t', (target.begin formats locked process nonce tokenNonce).Acts Eq s t t' → Safe formats target t t') ∧
    (∀ locked locked' workspace t v, (target.begin formats locked process nonce tokenNonce).run s = (.ok workspace, t) →
      v.Forest → ∀ u u', (workspace.cleanup formats locked').Acts Eq v u u' → Safe formats target u u') ∧
    ∀ u v, CrashPoint formats target process nonce tokenNonce s u → Recovered formats target u v →
      ∀ locked t t', (target.recoverPending formats locked).Acts Eq v t t' → Safe formats target t t' := by
  refine ⟨fun locked t t' hacts => ?_, fun locked locked' workspace t v hbegin hv u u' hacts => ?_,
    fun u v hu hv locked t t' hacts => ?_⟩
  · exact (begin_guarantees hread).acts hacts
  · exact (cleanup_guarantees (bound_of_begin hread hbegin) hv).acts hacts
  · exact (recoverPending_guarantees (hv.forest (hu.forest hread hs))).acts hacts

/-- The theorem at an output directory without entries. -/
theorem repairWorkspace_crashSafe_sample :
    (∀ locked t t', (sampleTarget.begin sampleFormats locked 7 8 9).Acts Eq sampleState t t' →
      Safe sampleFormats sampleTarget t t') ∧
    (∀ locked locked' workspace t v, (sampleTarget.begin sampleFormats locked 7 8 9).run sampleState = (.ok workspace, t) →
      v.Forest → ∀ u u', (workspace.cleanup sampleFormats locked').Acts Eq v u u' → Safe sampleFormats sampleTarget u u') ∧
    ∀ u v, CrashPoint sampleFormats sampleTarget 7 8 9 sampleState u → Recovered sampleFormats sampleTarget u v →
      ∀ locked t t', (sampleTarget.recoverPending sampleFormats locked).Acts Eq v t t' →
        Safe sampleFormats sampleTarget t t' :=
  repairWorkspace_crashSafe sampleFormats sampleTarget 7 8 9 sampleState sampleFormats_read sampleState_forest

end Squallz.Recovery.RepairWorkspaceTarget
