/-
The sweep: every owner record that nobody holds is locked, its workspace is cleaned up, and the record itself goes once it
has been closed; all of this under the sweep lock.
-/
import Squallz.Staging.Cleanup

namespace Squallz.Staging

open Squallz.Api Squallz.Core Squallz.System Squallz.System.FileSystem Squallz.System.Prog
open Squallz.Destination (osStr)

variable {registry : Identity} {m m' : Machine} {me : Session} {workspace : List Char} {owner : Identity}

/-! ## Under the sweep lock -/

/-- The session holds the sweep lock. -/
structure Sweeping (registry : Identity) (me : Session) (m : Machine) : Prop where
  sound : Sound registry m
  sweep : SweepHolder registry m me

/-- An owner record has been opened: what still stands under its name is this record. -/
structure Opened (registry : Identity) (me : Session) (workspace : List Char) (owner : Identity) (m : Machine) : Prop
    extends Sweeping registry me m where
  ends : EndsInDigit workspace
  registered : ∀ d, m.files.find registry (osStr workspace) = some d →
    ∃ i, m.files.find registry (ownerName workspace) = some i
  only : ∀ i, m.files.find registry (ownerName workspace) = some i → i = owner
  old : owner.entry < m.next

/-- An open owner record that the session holds. -/
structure Seized (registry : Identity) (me : Session) (workspace : List Char) (owner : Identity) (m : Machine) : Prop
    extends Opened registry me workspace owner m where
  held : m.locks owner = some ⟨me, ownerName workspace, false⟩

/-- An owner record that nobody holds any more, of a workspace that is gone. -/
structure Removable (registry : Identity) (me : Session) (workspace : List Char) (owner : Identity) (m : Machine) : Prop
    extends Opened registry me workspace owner m where
  unlocked : Unlocked registry m workspace
  cleared : Cleared registry m workspace

/-! ## What the others leave -/

theorem Foreign.sweeping (h : Foreign registry me m m') (hs : Sound registry m') (hm : Sweeping registry me m) :
    Sweeping registry me m' := ⟨hs, h.sweepHolder hm.sound hm.sweep⟩

theorem Foreign.opened (h : Foreign registry me m m') (hs : Sound registry m')
    (hm : Opened registry me workspace owner m) : Opened registry me workspace owner m' := by
  refine ⟨h.sweeping hs hm.toSweeping, hm.ends, fun d hfound => ?_, fun i hfound => ?_,
    Nat.lt_of_lt_of_le hm.old h.next⟩
  · have hold := h.entry_of_sweepHolder hm.sound hm.sweep hm.ends.ne_sweepLockName hfound
    obtain ⟨i, hi⟩ := hm.registered d hold
    exact ⟨i, h.registered hm.sound hold hi⟩
  · exact hm.only i (h.entry_of_sweepHolder hm.sound hm.sweep (ownerName_ne_sweepLockName workspace) hfound)

theorem stable_sweeping : Stable registry me (Sweeping registry me) :=
  stable_of_foreign (fun _ h => h.sound) fun _ _ h hs hm => h.sweeping hs hm

theorem stable_opened : Stable registry me (Opened registry me workspace owner) :=
  stable_of_foreign (fun _ h => h.sound) fun _ _ h hs hm => h.opened hs hm

theorem stable_seized : Stable registry me (Seized registry me workspace owner) :=
  stable_of_foreign (fun _ h => h.sound) fun _ _ h hs hm =>
    ⟨h.opened hs hm.toOpened, (h.kept _ _ rfl).2 hm.held⟩

theorem stable_seized_cleared :
    Stable registry me fun m => Seized registry me workspace owner m ∧ Cleared registry m workspace :=
  stable_of_foreign (fun _ h => h.1.sound) fun _ _ h hs hm =>
    ⟨⟨h.opened hs hm.1.toOpened, (h.kept _ _ rfl).2 hm.1.held⟩, h.cleared_of_sweepHolder hm.1.sound hm.1.sweep hm.1.ends hm.2⟩

theorem stable_removable : Stable registry me (Removable registry me workspace owner) :=
  stable_of_foreign (fun _ h => h.sound) fun _ _ h hs hm => ⟨h.opened hs hm.toOpened,
    h.unlocked hm.sound hm.sweep hm.unlocked, h.cleared_of_sweepHolder hm.sound hm.sweep hm.ends hm.cleared⟩

/-! ## What the session's own actions leave -/

theorem Seized.tending (h : Seized registry me workspace owner m) : Tending registry m me workspace := by
  refine ⟨h.sound, h.ends, ⟨.inl h.sweep, fun i handle hfound hlock => ?_⟩, h.registered⟩
  rw [h.only i hfound, h.held] at hlock
  cases hlock
  rfl

theorem Trim.seized (htrim : Trim registry me workspace m m') (h : Seized registry me workspace owner m) :
    Seized registry me workspace owner m' := by
  have htending := htrim.tending h.tending
  have howner := htrim.entry (h.ends.ne_ownerName workspace).symm
  obtain ⟨hlocks, -, hnext⟩ := htrim.rest
  refine ⟨⟨⟨htending.sound, htrim.sweepHolder h.ends h.sweep⟩, h.ends, htending.registered, fun i hfound => ?_, ?_⟩, ?_⟩
  · exact h.only i (howner ▸ hfound)
  · rw [hnext]
    exact h.old
  · rw [hlocks]
    exact h.held

/-- A lock that is free is not the sweep lock. -/
theorem SweepHolder.lock {file : Identity} {handle : Handle} (h : SweepHolder registry m me) (hfree : m.locks file = none) :
    SweepHolder registry (m.lock file handle) me := by
  obtain ⟨i, hfound, hlock⟩ := h
  refine ⟨i, hfound, ?_⟩
  show Function.update m.locks file _ i = _
  rw [Function.update_of_ne]
  · exact hlock
  · rintro rfl
    rw [hfree] at hlock
    cases hlock

theorem SweepHolder.unlock (h : SweepHolder registry m me) (file : Identity) (created : Bool) :
    SweepHolder registry (m.unlock file ⟨me, ownerName workspace, created⟩) me := by
  obtain ⟨i, hfound, hlock⟩ := h
  refine ⟨i, by rw [files_unlock, hfound], ?_⟩
  rw [locks_unlock_ne, hlock]
  rw [hlock]
  exact fun heq => ownerName_ne_sweepLockName workspace (congrArg Handle.name (Option.some.inj heq)).symm

theorem Opened.seized (h : Opened registry me workspace owner m) (hfree : m.locks owner = none) :
    Step registry me m (m.lock owner ⟨me, ownerName workspace, false⟩) ∧
      Seized registry me workspace owner (m.lock owner ⟨me, ownerName workspace, false⟩) := by
  have hstep : Step registry me m (m.lock owner ⟨me, ownerName workspace, false⟩) :=
    .locked hfree (.stale h.sweep h.ends h.old)
  exact ⟨hstep, ⟨⟨⟨hstep.sound h.sound, h.sweep.lock hfree⟩, h.ends, h.registered, h.only, h.old⟩,
    Function.update_self _ _ _⟩⟩

theorem Opened.unlock (h : Opened registry me workspace owner m) (file : Identity) (created : Bool) :
    Opened registry me workspace owner (m.unlock file ⟨me, ownerName workspace, created⟩) := by
  have hstep : Step registry me m (m.unlock file ⟨me, ownerName workspace, created⟩) := .unlocked rfl
  have hfiles := files_unlock m file ⟨me, ownerName workspace, created⟩
  refine ⟨⟨hstep.sound h.sound, h.sweep.unlock file created⟩, h.ends, ?_, ?_, ?_⟩
  · rw [hfiles]
    exact h.registered
  · rw [hfiles]
    exact h.only
  · rw [next_unlock]
    exact h.old

theorem Seized.removable (h : Seized registry me workspace owner m) (hcleared : Cleared registry m workspace) :
    Removable registry me workspace owner (m.unlock owner ⟨me, ownerName workspace, false⟩) := by
  refine ⟨h.toOpened.unlock owner false, fun i hfound => ?_, ?_⟩
  · rw [files_unlock] at hfound
    rw [h.only i hfound, Machine.unlock, if_pos h.held]
    exact Function.update_self _ _ _
  · rw [Cleared, files_unlock]
    exact hcleared

/-! ## One record -/

theorem step_refl (m : Machine) : Step registry me m m := .idle rfl rfl rfl rfl

theorem tryLock_guarantees {file : Identity} {handle : Handle} {P locked : Machine → Prop} (hP : Stable registry me P)
    (hlock : ∀ t, P t → t.locks file = none → Step registry me t (t.lock file handle) ∧ locked (t.lock file handle))
    (hm : P m) : (tryLock file handle).Guarantees (Rely registry me) (Step registry me)
      (fun r t => r = .ok true ∧ locked t ∨ r = .ok false ∧ P t) m := by
  intro t ht
  have ht := hP m t ht hm
  dsimp only
  by_cases hfree : t.locks file = none
  · rw [if_pos hfree]
    obtain ⟨hstep, hlocked⟩ := hlock t ht hfree
    exact ⟨hstep, .inl ⟨congrArg Except.ok (decide_eq_true hfree), hlocked⟩⟩
  · rw [if_neg hfree]
    exact ⟨step_refl t, .inr ⟨congrArg Except.ok (decide_eq_false hfree), ht⟩⟩

/-- A file is closed, and what follows. -/
theorem closeFile_guarantees_then {β : Type} {file : Identity} {handle : Handle} {P : Machine → Prop} {k : Unit → Io β}
    {Q : Except FormatError β → Machine → Prop} (hP : Stable registry me P) (howner : handle.owner = me) (hm : P m)
    (hk : ∀ t, P t → (k ()).Guarantees (Rely registry me) (Step registry me) Q (t.unlock file handle)) :
    (closeFile file handle >>= k).Guarantees (Rely registry me) (Step registry me) Q m := by
  unfold closeFile
  rw [guarantees_bind, guarantees_update]
  exact fun t ht => ⟨.unlocked howner, hk t (hP m t ht hm)⟩

/-- What is left once an open owner record has been looked through. -/
def Reclaiming (registry : Identity) (me : Session) (workspace : List Char) (owner : Identity)
    (r : Except FormatError (Option SourceIdentity)) (m : Machine) : Prop :=
  Opened registry me workspace owner m ∧
    ∀ identity, r = .ok (some identity) → Seized registry me workspace owner m ∧ Cleared registry m workspace

theorem Opened.skipped (h : Opened registry me workspace owner m) :
    Reclaiming registry me workspace owner (.ok none) m := ⟨h, fun _ heq => by cases heq⟩

theorem Opened.failed (h : Opened registry me workspace owner m) (e : FormatError) :
    Reclaiming registry me workspace owner (.error e) m := ⟨h, fun _ heq => by cases heq⟩

theorem parse_workspace {bytes : List UInt8} {record : StagingOwnerRecord}
    (h : StagingOwnerRecord.parse bytes workspace = some record) : record.workspace = workspace := by
  unfold StagingOwnerRecord.parse at h
  split at h
  · split at h
    · rename_i hvalid
      cases h
      exact hvalid.2.1
    · cases h
  · cases h

/-- The owner record that is read is one of the workspace. -/
theorem readOwnerRecord_guarantees (h : Seized registry me workspace owner m) :
    (readOwnerRecord owner workspace).Guarantees (Rely registry me) (Step registry me)
      (fun r t => Seized registry me workspace owner t ∧ ∀ record, r = .ok (some record) → record.workspace = workspace)
      m := by
  unfold readOwnerRecord
  refine guarantees_read_then step_refl stable_seized h (fun bytes t ht _ => ⟨ht, fun record hrecord => ?_⟩)
    fun e t ht => ⟨ht, fun _ heq => by cases heq⟩
  split at hrecord
  · cases hrecord
  · exact parse_workspace (Except.ok.inj hrecord)

theorem reclaimOwned_guarantees (h : Opened registry me workspace owner m) :
    (reclaimOwned registry me workspace owner).Guarantees (Rely registry me) (Step registry me)
      (Reclaiming registry me workspace owner) m := by
  unfold reclaimOwned
  refine guarantees_then _ (tryLock_guarantees stable_opened (fun t ht hfree => ht.seized hfree) h)
    (fun free t ht => ?_) fun e t ht => ?_
  · rcases ht with ⟨hfree, ht⟩ | ⟨hfree, ht⟩
    · cases hfree
      refine guarantees_then _ (readOwnerRecord_guarantees ht) (fun record u hu => ?_) fun e u hu => hu.1.toOpened.failed e
      obtain ⟨hu, hrecord⟩ := hu
      cases record with
      | none => exact hu.toOpened.skipped
      | some record =>
        obtain rfl := hrecord record rfl
        have hclean := (cleanupOwnedWorkspace_guarantees record hu.tending).keeping
          (fun v w hrely hv => stable_seized v w hrely hv) (fun v w htrim hv => htrim.seized hv) hu
        refine guarantees_then _ (hclean.mono fun _ _ htrim => htrim.step) (fun cleaned v hv => ?_)
          fun e v hv => hv.2.toOpened.failed e
        obtain ⟨⟨-, hcleared⟩, hv⟩ := hv
        cases cleaned with
        | false => exact hv.toOpened.skipped
        | true =>
          exact guarantees_read_then step_refl stable_seized_cleared ⟨hv, hcleared rfl⟩
            (fun identity w hw _ => ⟨hw.1.toOpened, fun _ _ => hw⟩) fun e w hw => hw.1.toOpened.failed e
    · cases hfree
      exact ht.skipped
  · rcases ht with ⟨herror, -⟩ | ⟨herror, -⟩
    · cases herror
    · cases herror

/-! ## The registry -/

theorem parseOwnerName_eq_some {name : Name} {kind : StagingKind} (h : parseOwnerName name = some (workspace, kind)) :
    name = ownerName workspace ∧ parseWorkspaceKind workspace = some kind := by
  unfold parseOwnerName at h
  split at h
  · cases h
  · rename_i text hname
    obtain ⟨kind', hkind, heq⟩ := Option.map_eq_some_iff.1 h
    cases heq
    refine ⟨?_, hkind⟩
    obtain ⟨full, hfull, hstrip⟩ := Option.bind_eq_some_iff.1 hname
    unfold stripEnd at hstrip
    split at hstrip
    · rename_i hsuffix
      obtain ⟨front, rfl⟩ := hsuffix
      cases hstrip
      unfold Destination.toStr at hfull
      obtain ⟨text, htext, hlist⟩ := Option.map_eq_some_iff.1 hfull
      have hbytes := utf8Bytes_of_fromUtf8 htext
      rw [← String.ofList_toList (s := text), hlist] at hbytes
      rw [List.length_append, Nat.add_sub_cancel, List.take_left]
      exact hbytes.symm
    · cases hstrip

theorem openPrivateLockFile_guarantees (hends : EndsInDigit workspace) (h : Sweeping registry me m) :
    (openPrivateLockFile ⟨registry, [ownerName workspace]⟩).Guarantees (Rely registry me) (Step registry me)
      (fun r t => Sweeping registry me t ∧ ∀ owner, r = .ok (some owner) → Opened registry me workspace owner t) m := by
  unfold openPrivateLockFile
  refine guarantees_read_then step_refl stable_sweeping h (fun file t ht hlook => ?_)
    fun e t ht => ⟨ht, fun _ heq => by cases heq⟩
  rcases orNone_eq_ok hlook with ⟨owner, rfl, hfound⟩ | ⟨rfl, -⟩
  · have hfound : t.files.find registry (ownerName workspace) = some owner := found_eq_ok.1 hfound
    have hopened : Opened registry me workspace owner t := by
      refine ⟨ht, hends, fun _ _ => ⟨owner, hfound⟩, fun i hi => ?_, (ht.sound.below _ _ _ hfound).2⟩
      rw [hfound] at hi
      exact (Option.some.inj hi).symm
    refine (readOnly_verifyPrivateFileBinding _ owner).attempt.guarantees_then step_refl stable_opened hopened
      (fun bound u hu => ?_) fun e u hu => ⟨hu.toSweeping, fun _ heq => by cases heq⟩
    split
    · refine ⟨hu.toSweeping, fun owner' heq => ?_⟩
      cases heq
      exact hu
    · exact ⟨hu.toSweeping, fun _ heq => by cases heq⟩
    · exact ⟨hu.toSweeping, fun _ heq => by cases heq⟩
    · exact ⟨hu.toSweeping, fun _ heq => by cases heq⟩
  · exact ⟨ht, fun _ heq => by cases heq⟩

/-- Such a record that is a private file. -/
structure Regular (registry : Identity) (me : Session) (workspace : List Char) (owner : Identity) (m : Machine) : Prop
    extends Removable registry me workspace owner m where
  regular : ∀ i, m.files.find registry (ownerName workspace) = some i → isPrivateRegularMetadata (m.files.inodes i) = true

theorem stable_regular : Stable registry me (Regular registry me workspace owner) :=
  stable_of_foreign (fun _ h => h.sound) fun _ _ h hs hm =>
    ⟨⟨h.opened hs hm.toOpened, h.unlocked hm.sound hm.sweep hm.unlocked,
      h.cleared_of_sweepHolder hm.sound hm.sweep hm.ends hm.cleared⟩, fun i hfound => by
        have hold := h.entry_of_sweepHolder hm.sound hm.sweep (ownerName_ne_sweepLockName workspace) hfound
        rw [← (h.kind_of_registry hm.sound hold).isPrivateRegular]
        exact hm.regular i hold⟩

theorem Removable.seen {node : Inode} (h : Removable registry me workspace owner m)
    (hnode : m.files.metadata ⟨registry, [ownerName workspace]⟩ = .ok node)
    (hregular : isPrivateRegularMetadata node = true) : Regular registry me workspace owner m := by
  refine ⟨h, fun i hfound => ?_⟩
  rw [FileSystem.metadata, identity_one_of_find hfound] at hnode
  cases hnode
  exact hregular

theorem Regular.removeFile {kind : StagingKind} {files : FileSystem} (hkind : parseWorkspaceKind workspace = some kind)
    (h : Regular registry me workspace owner m)
    (hremove : m.files.removeFile ⟨registry, [ownerName workspace]⟩ = .ok ((), files)) :
    Step registry me m { m with files } ∧ Removable registry me workspace owner { m with files } := by
  obtain ⟨d, name, i, hloc, hfound, -, rfl⟩ := removeFile_eq_ok.1 hremove
  rw [locate_one] at hloc
  cases hloc
  have hremoved := removed_unlink hfound
  have hgone := hremoved.gone
  have hothers := hremoved.others
  have hstep : Step registry me m { m with files := (m.files.unlink registry (ownerName workspace)).touch i } :=
    .removed hfound hremoved (.reclaimed (.record hkind h.sweep h.unlocked h.cleared hfound (h.regular i hfound)))
  have hcleared : ((m.files.unlink registry (ownerName workspace)).touch i).find registry (osStr workspace) = none := by
    rw [hothers registry (osStr workspace) fun heq => h.ends.ne_ownerName workspace (Prod.mk.inj heq).2]
    exact h.cleared
  obtain ⟨j, hj, hlock⟩ := h.sweep
  refine ⟨hstep, ⟨⟨⟨hstep.sound h.sound, j, ?_, hlock⟩, h.ends, fun d hd => ?_, fun k hk => ?_, h.old⟩, fun k hk => ?_,
    hcleared⟩⟩
  · rw [hothers registry sweepLockName fun heq => ownerName_ne_sweepLockName workspace (Prod.mk.inj heq).2.symm]
    exact hj
  · rw [hcleared] at hd
    cases hd
  · rw [hgone] at hk
    cases hk
  · rw [hgone] at hk
    cases hk

theorem reclaimEntry_guarantees (name : Name) (h : Sweeping registry me m) :
    (reclaimEntry registry me name).Guarantees (Rely registry me) (Step registry me)
      (fun _ t => Sweeping registry me t) m := by
  unfold reclaimEntry
  cases hparse : parseOwnerName name with
  | none => exact h
  | some parsed =>
    obtain ⟨workspace, kind⟩ := parsed
    obtain ⟨rfl, hkind⟩ := parseOwnerName_eq_some hparse
    have hends := endsInDigit_of_parseKind hkind
    refine (readOnly_lookUp _).guarantees_then step_refl stable_sweeping h (fun metadata t ht => ?_) fun e t ht => ht
    split
    · exact ht
    · refine guarantees_then _ (openPrivateLockFile_guarantees hends ht) (fun opened u hu => ?_) fun e u hu => hu.1
      cases opened with
      | none => exact hu.1
      | some owner =>
        have hopened := hu.2 owner rfl
        refine guarantees_attempt_then _ (reclaimOwned_guarantees hopened) fun outcome v hv => ?_
        obtain ⟨hopened, hseized⟩ := hv
        have hclosed : ∀ t, Opened registry me workspace owner t →
            Sweeping registry me (t.unlock owner ⟨me, ownerName workspace, false⟩) :=
          fun t ht => (ht.unlock owner false).toSweeping
        cases outcome with
        | error e => exact closeFile_guarantees_then stable_opened rfl hopened hclosed
        | ok identity =>
          cases identity with
          | none => exact closeFile_guarantees_then stable_opened rfl hopened hclosed
          | some identity =>
            refine closeFile_guarantees_then stable_seized_cleared rfl (hseized identity rfl) fun t ht => ?_
            have hremoved := removePrivateFileIfBound_guarantees identity step_refl stable_removable
              stable_regular (fun w node hw => hw.seen) (fun w hw => hw.toRemovable)
              (fun w files hw hremove => hw.removeFile hkind hremove) (ht.1.removable ht.2)
            exact guarantees_then _ hremoved (fun _ w hw => hw.toSweeping) fun e w hw => hw.toSweeping

theorem reclaimEntries_guarantees (names : List Name) (entriesSeen : Nat) (h : Sweeping registry me m) :
    (reclaimEntries registry me entriesSeen names).Guarantees (Rely registry me) (Step registry me)
      (fun _ t => Sweeping registry me t) m := by
  induction names generalizing entriesSeen m with
  | nil => exact h
  | cons name names ih =>
    unfold reclaimEntries
    split
    · exact h
    · exact guarantees_then _ (reclaimEntry_guarantees name h) (fun _ t ht => ih _ ht) fun e t ht => ht

theorem reclaimStaleWorkspaces_guarantees (h : Sweeping registry me m) :
    (reclaimStaleWorkspaces registry me).Guarantees (Rely registry me) (Step registry me)
      (fun _ t => Sweeping registry me t) m := by
  unfold reclaimStaleWorkspaces
  exact (readOnly_look _).guarantees_then step_refl stable_sweeping h
    (fun names t ht => reclaimEntries_guarantees names 0 ht) fun e t ht => ht

end Squallz.Staging
