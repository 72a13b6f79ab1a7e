/-
A recovery takes only its own kind of steps, whatever others add meanwhile, and leaves no record where it succeeds.
-/
import Squallz.SourceCleanup.Steps

namespace Squallz.SourceCleanup

open Squallz.Api Squallz.Core Squallz.Recovery Squallz.System Squallz.System.Prog Squallz.System.FileSystem

/-! ## Programs that only read -/

section Reading

variable (path : Path) (record : SourceCleanupRecord)

theorem pathExists_readOnly : (pathExists path).ReadOnly := readOnly_observe _

theorem ensureSourceIdentity_readOnly (expected : Identity) : (ensureSourceIdentity path expected).ReadOnly :=
  (readOnly_observe _).bind fun _ => readOnly_ofExcept _

theorem symlinkMetadata_readOnly : (symlinkMetadata path).ReadOnly := readOnly_observe _

theorem validateRecordLayout_readOnly (requireHolder : Bool) : (validateRecordLayout record requireHolder).ReadOnly := by
  unfold validateRecordLayout
  refine (readOnly_ofExcept _).bind fun _ => (readOnly_ofExcept _).bind fun _ => ?_
  refine (readOnly_ofExcept _).bind fun _ => (readOnly_ofExcept _).bind fun _ => ?_
  exact (symlinkMetadata_readOnly _).bind fun _ => readOnly_ofExcept _

theorem validateHolderInventory_readOnly : (validateHolderInventory record).ReadOnly := by
  unfold validateHolderInventory
  refine (symlinkMetadata_readOnly _).bind fun metadata => ?_
  cases metadata with
  | none => exact (pathExists_readOnly _).bind fun _ => readOnly_ofExcept _
  | some metadata =>
    refine (readOnly_ofExcept _).bind fun _ => (readOnly_observe _).bind fun _ => (readOnly_ofExcept _).bind fun _ => ?_
    exact (pathExists_readOnly _).bind fun _ => readOnly_ofExcept _

theorem syncRecoveryDirectories_readOnly : (syncRecoveryDirectories record).ReadOnly :=
  (symlinkMetadata_readOnly _).bind fun _ => readOnly_ofExcept _

end Reading

/-! ## One change -/

section Change

variable {α β : Type} {rely guar : FileSystem → FileSystem → Prop} {I : FileSystem → Prop} {s : FileSystem}
  {f : FileSystem → Except Errno (α × FileSystem)}

theorem guarantees_change {Q : Except IoError α → FileSystem → Prop} (hguar : ∀ v, guar v v)
    (hI : ∀ s t, rely s t → I s → I t) (hs : I s) (hok : ∀ a v t, I v → f v = .ok (a, t) → guar v t ∧ Q (.ok a) t)
    (herror : ∀ e v, I v → Q (.error e) v) : (change f).Guarantees rely guar Q s := by
  refine guarantees_mapError.2 (guarantees_act_shared hguar hI hs ?_ ?_)
  · intro a v t hv h
    exact hok a v t hv h
  · intro e v hv
    exact herror _ v hv

/-- A change that is made, and what follows it. -/
theorem guarantees_change_then {k : α → Io β} {Q : Except IoError β → FileSystem → Prop} (hguar : ∀ v, guar v v)
    (hI : ∀ s t, rely s t → I s → I t) (hs : I s)
    (hok : ∀ a v t, I v → f v = .ok (a, t) → guar v t ∧ (k a).Guarantees rely guar Q t)
    (herror : ∀ e v, I v → Q (.error e) v) : (change f >>= k).Guarantees rely guar Q s :=
  guarantees_bind.2 (guarantees_change hguar hI hs hok herror)

end Change

namespace Source

/-- The staged path, once vacant, stays so. -/
def KeepsVacant (source : Source) (rely : FileSystem → FileSystem → Prop) : Prop :=
  ∀ s t, rely s t → s.find source.holder source.name = none → t.find source.holder source.name = none

/-- There is a journal, and the holder stands at its path. -/
structure Pending (source : Source) (s : FileSystem) : Prop where
  journal : s.find source.config journalName ≠ none
  holder : source.HolderIn s

/-- The lock file has been created. -/
def LockIn (source : Source) (s : FileSystem) : Prop :=
  ∃ i, s.find source.config (utf8Bytes "source-cleanup.lock") = some i ∧ (s.inodes i).isFile = true

variable {source : Source} {s t : FileSystem} {formats : Formats} {keepsVacant : Prop}

theorem Foreign.pending (h : source.Foreign s t) (hs : source.Pending s) : source.Pending t := by
  refine ⟨?_, h.holderIn hs.holder⟩
  rw [h.journal]
  exact hs.journal

theorem Foreign.lockIn (h : source.Foreign s t) (hs : source.LockIn s) : source.LockIn t := by
  obtain ⟨i, hi, hfile⟩ := hs
  refine ⟨i, h.kept _ _ _ hi, ?_⟩
  unfold Inode.isFile at hfile ⊢
  rw [h.content _ _ _ hi]
  exact hfile

theorem RecoveryStep.lockIn (hapart : source.Apart) (h : source.RecoveryStep keepsVacant s t) (hs : source.LockIn s) :
    source.LockIn t := by
  obtain ⟨i, hi, hfile⟩ := hs
  refine ⟨i, ?_, ?_⟩
  · have hother : ∀ d name, s.Removed d name t → (source.config, utf8Bytes "source-cleanup.lock") ≠ (d, name) →
        t.find source.config (utf8Bytes "source-cleanup.lock") = some i :=
      fun d name hremoved hk => (hremoved.others _ _ hk).trans hi
    rcases h.cases with rfl | ⟨j, hj⟩ | ⟨-, -, place, j, -, hj⟩ | ⟨hremoved, -⟩ | ⟨-, hholder, -, hremoved⟩
    · exact hi
    · rw [hj.vacant] at hi
      cases hi
    · refine (hj.others _ _ (fun heq => hapart.config (Prod.mk.inj heq).1.symm) ?_).trans hi
      rintro rfl
      have hvacant := hj.vacant
      rw [hi] at hvacant
      cases hvacant
    · exact hother _ _ hremoved fun heq => lock_ne_journal (Prod.mk.inj heq).2
    · -- the lock is a file, and the holder is a directory
      refine hother _ _ hremoved fun heq => ?_
      rw [(Prod.mk.inj heq).1, (Prod.mk.inj heq).2, hholder.find] at hi
      cases hi
      unfold Inode.isFile at hfile
      rw [hholder.directory] at hfile
      cases hfile
  · unfold Inode.isFile at hfile ⊢
    rw [(h.sameFile hi).1]
    exact hfile

/-! ## The lock, and the record that is read back -/

/-- The lock file is created unless it is there, and is there where the lock is taken. -/
theorem acquireLock_guarantees {rely guar : FileSystem → FileSystem → Prop} {I : FileSystem → Prop}
    (hguar : ∀ v, guar v v) (hstable : ∀ s t, rely s t → I s → I t) (hs : I s)
    (hlocked : ∀ i v t, I v → v.create (lockPath source.journal) ⟨.regular [], 0o600, none, (0, 0)⟩ = .ok (i, t) →
      guar v t ∧ I t) (locked : Bool) :
    (acquireLock source.journal locked).Guarantees rely guar (fun r t => I t ∧ ∀ u, r = .ok u → source.LockIn t) s := by
  unfold acquireLock
  -- the handle of the lock is the entry of its path where the check succeeds
  have hchecked : ∀ (file : Identity) (t : FileSystem), I t → (lockFile source.journal locked file).Guarantees rely guar
      (fun r t => I t ∧ ∀ u, r = .ok u → source.LockIn t) t := by
    intro file t ht
    unfold lockFile
    refine (readOnly_ofExcept _).guarantees_then hguar hstable ht (fun _ v hv => ?_) (fun e t ht => ⟨ht, nofun⟩)
    refine guarantees_observe.2 fun w hw => ⟨hguar w, hstable v w hw hv, fun u hu => ?_⟩
    obtain ⟨identity, hidentity, hu⟩ := bind_eq_ok.1 hu
    obtain ⟨_, hfile, -⟩ := bind_eq_ok.1 hu
    rw [ensure_eq_ok, Bool.and_eq_true, beq_iff_eq] at hfile
    obtain ⟨hfile, rfl⟩ := hfile
    exact ⟨identity, found_eq_ok.1 (ioResult_eq_ok.1 hidentity), hfile⟩
  refine guarantees_act_shared hguar hstable hs (fun file v t hv ht => ?_) fun e v hv => ?_
  · exact ⟨(hlocked file v t hv ht).1, hchecked file t (hlocked file v t hv ht).2⟩
  · cases e with
    | alreadyExists =>
      exact (readOnly_observe _).guarantees_then hguar hstable hv (fun file t ht => hchecked file t ht)
        fun e t ht => ⟨ht, nofun⟩
    | _ => exact ⟨hv, nofun⟩

theorem Recorded.bytes {i : Identity} (hs : source.Recorded formats s)
    (hi : s.find source.config journalName = some i) : (s.inodes i).bytes = formats.toVec source.document := by
  unfold Inode.bytes
  rw [hs.content i hi]

theorem intoRecord_document {record : SourceCleanupRecord} (h : source.document.intoRecord = .ok record) :
    record = source.record := by
  unfold JournalDocument.intoRecord restoredPath at h
  obtain ⟨_, -, h⟩ := bind_eq_ok.1 h
  obtain ⟨original, horiginal, h⟩ := bind_eq_ok.1 h
  obtain ⟨staged, hstaged, h⟩ := bind_eq_ok.1 h
  obtain ⟨holder, hholder, h⟩ := bind_eq_ok.1 h
  obtain ⟨preserved, hpreserved, h⟩ := bind_eq_ok.1 h
  split at horiginal
  · cases horiginal
  split at hstaged
  · cases hstaged
  split at hholder
  · cases hholder
  split at hpreserved
  · cases hpreserved
  cases horiginal
  cases hstaged
  cases hholder
  cases hpreserved
  exact (Except.ok.inj h).symm

/-! ## The record is cleared -/

section Guarantees

variable {rely : FileSystem → FileSystem → Prop} (hrely : ∀ s t, rely s t → source.Foreign s t)

theorem RecoveryStep.refl (s : FileSystem) : source.RecoveryStep keepsVacant s s := .same rfl

include hrely

theorem stable_vacant (s t : FileSystem) (h : rely s t) (hs : s.find source.config journalName = none) :
    t.find source.config journalName = none := (hrely s t h).journal.trans hs

/-- The staged path is vacant if one that is vacant stays so. -/
theorem stable_pending (s t : FileSystem) (h : rely s t)
    (hs : source.Pending s ∧ (source.KeepsVacant rely → s.find source.holder source.name = none)) :
    source.Pending t ∧ (source.KeepsVacant rely → t.find source.holder source.name = none) :=
  ⟨(hrely s t h).pending hs.1, fun hkeeps => hkeeps s t h (hs.2 hkeeps)⟩

/-- The journal is removed over a staged path that is vacant, if one that is vacant stays so. -/
theorem clearJournal_guarantees (hs : source.Pending s)
    (hvacant : source.KeepsVacant rely → s.find source.holder source.name = none) :
    (clearJournal source.journal).Guarantees rely (source.RecoveryStep (source.KeepsVacant rely))
      (fun r t => match r with
        | .ok _ => t.find source.config journalName = none ∧ source.HolderIn t
        | .error _ => source.Pending t) s := by
  unfold clearJournal
  refine guarantees_read_then .refl (stable_pending hrely) ⟨hs, hvacant⟩ (fun metadata v hv hread => ?_)
    (fun e t ht => ht.1)
  cases metadata with
  | none =>
    refine absurd ?_ hv.1.journal
    cases hfind : v.find source.config journalName with
    | none => rfl
    | some i =>
      rw [FileSystem.metadata, show v.identity source.journal = .ok i from identity_one_of_find hfind] at hread
      cases hread
  | some metadata =>
    dsimp only
    refine guarantees_bind.2 (guarantees_ofExcept.2 ?_)
    cases ensure metadata.isFile ⟨.invalidData, "source cleanup journal is not a regular file"⟩ with
    | error e => exact hv.1
    | ok u =>
      refine guarantees_change .refl (stable_pending hrely) hv (fun _ w t hw ht => ⟨.cleared ht hw.2, ?_⟩)
        (fun e t ht => ht.1)
      have hremoved := removeFile_removed ht
      have hholder := hw.1.holder
      refine ⟨hremoved.gone, hholder.of_keeps (hremoved.keeps fun heq => ?_)⟩
      obtain ⟨d, name, i, hloc, hi, hdir, -⟩ := removeFile_eq_ok.1 ht
      cases hloc
      rw [Prod.mk.injEq] at heq
      have hfind := hholder.find
      rw [heq.1, heq.2] at hfind
      cases hfind.symm.trans hi
      rw [Inode.isDir, hholder.directory] at hdir
      cases hdir

theorem removeEmptyHolder_guarantees (hvacant : s.find source.config journalName = none) (hholder : source.HolderIn s) :
    (removeEmptyHolder source.holderPath).Guarantees rely (source.RecoveryStep keepsVacant)
      (fun _ t => t.find source.config journalName = none) s := by
  unfold removeEmptyHolder
  have hstable : ∀ s t, rely s t → (s.find source.config journalName = none ∧ source.HolderIn s) →
      t.find source.config journalName = none ∧ source.HolderIn t :=
    fun s t h hs => ⟨stable_vacant hrely s t h hs.1, (hrely s t h).holderIn hs.2⟩
  refine guarantees_read_then .refl hstable ⟨hvacant, hholder⟩ (fun metadata v hv _ => ?_) (fun _ _ h => h.1)
  cases metadata with
  | none => exact hv.1
  | some metadata =>
    dsimp only
    refine (readOnly_ofExcept _).guarantees_then .refl hstable hv (fun _ v hv => ?_) (fun _ _ h => h.1)
    refine (readOnly_observe _).guarantees_then .refl hstable hv (fun names v hv => ?_) (fun _ _ h => h.1)
    refine (readOnly_ofExcept _).guarantees_then .refl hstable hv (fun _ v hv => ?_) (fun _ _ h => h.1)
    refine guarantees_change .refl hstable hv (fun _ w t hw ht => ?_) (fun _ _ h => h.1)
    have hremoved : source.RecoveryStep keepsVacant w t := .holderRemoved hw.1 hw.2 ht
    exact ⟨hremoved, hremoved.vacant hw.1⟩

theorem clearThenRemoveHolder_guarantees (hs : source.Pending s)
    (hvacant : source.KeepsVacant rely → s.find source.holder source.name = none) :
    (clearThenRemoveHolder source.journal source.record).Guarantees rely
      (source.RecoveryStep (source.KeepsVacant rely))
      (fun r t => match r with
        | .ok _ => t.find source.config journalName = none
        | .error _ => source.Pending t) s := by
  unfold clearThenRemoveHolder
  refine (validateHolderInventory_readOnly _).guarantees_then .refl (stable_pending hrely) ⟨hs, hvacant⟩
    (fun _ v hv => ?_) (fun e t ht => ht.1)
  refine (syncRecoveryDirectories_readOnly _).guarantees_then .refl (stable_pending hrely) hv (fun _ v hv => ?_)
    (fun e t ht => ht.1)
  refine guarantees_then _ (clearJournal_guarantees hrely hv.1 hv.2) (fun _ w hw => ?_) (fun e t ht => ht)
  exact guarantees_bind.2 (guarantees_attempt.2 (removeEmptyHolder_guarantees hrely hw.1 hw.2))

/-! ## The source is recovered -/

/-- What stands at the staged path is moved to one of the other places, and the staged path is vacant then. -/
theorem moveStagedSource_guarantees (hapart : source.Apart) (hs : source.Pending s) {destination : Path}
    (hdestination : destination = source.original ∨
      destination = source.preserved ∧ s.find source.directory source.name ≠ none) (stagedIdentity : Identity) :
    (moveStagedSource source.record destination stagedIdentity).Guarantees rely (source.RecoveryStep keepsVacant)
      (fun r t => ∀ u, r = .ok u →
        source.Pending t ∧ (source.KeepsVacant rely → t.find source.holder source.name = none)) s := by
  unfold moveStagedSource
  have hstable : ∀ s t, rely s t → (source.Pending s ∧ (destination = source.original ∨
      destination = source.preserved ∧ s.find source.directory source.name ≠ none)) →
      source.Pending t ∧ (destination = source.original ∨
        destination = source.preserved ∧ t.find source.directory source.name ≠ none) := by
    rintro s t h ⟨hpending, hdestination⟩
    refine ⟨(hrely s t h).pending hpending, hdestination.imp_right fun hpreserved => ⟨hpreserved.1, ?_⟩⟩
    obtain ⟨i, hi⟩ := Option.ne_none_iff_exists'.1 hpreserved.2
    rw [(hrely s t h).kept _ _ _ hi]
    exact nofun
  refine guarantees_change_then .refl hstable ⟨hs, hdestination⟩ (fun _ v t hv ht => ?_) (fun e _ _ _ h => nomatch h)
  obtain ⟨⟨hjournal, hholder⟩, hdestination⟩ := hv
  have hmoved : ∀ k i, v.Relocated (source.holder, source.name) k i t →
      source.Pending t ∧ (source.KeepsVacant rely → t.find source.holder source.name = none) := by
    intro k i hi
    refine ⟨⟨?_, hholder.of_relocated hapart hi⟩, fun _ => hi.gone⟩
    rw [hi.others _ _ (fun heq => hapart.config (Prod.mk.inj heq).1.symm)]
    · exact hjournal
    · rintro rfl
      exact hjournal hi.vacant
  have hread : ∀ (p : Io Unit), p.ReadOnly → (∃ k i, v.Relocated (source.holder, source.name) k i t) →
      p.Guarantees rely (source.RecoveryStep keepsVacant) (fun r t => ∀ u, r = .ok u →
        source.Pending t ∧ (source.KeepsVacant rely → t.find source.holder source.name = none)) t := by
    rintro p hp ⟨k, i, hi⟩
    exact (hp.guarantees .refl (stable_pending hrely) (hmoved k i hi)).post fun _ _ h _ _ => h
  rcases hdestination with rfl | ⟨rfl, hoccupied⟩
  · obtain ⟨i, hi⟩ := renameNoReplace_relocated ht hholder.locate_staged (locate_one v source.directory source.name)
    exact ⟨.restored hjournal hholder hi.vacant ht, hread _ (ensureSourceIdentity_readOnly _ _) ⟨_, i, hi⟩⟩
  · obtain ⟨i, hi⟩ := renameNoReplace_relocated ht hholder.locate_staged (locate_one v source.directory _)
    exact ⟨.preserved hjournal hholder hoccupied ht, hread _ (ensureSourceIdentity_readOnly _ _) ⟨_, i, hi⟩⟩

theorem recoverSource_guarantees (hapart : source.Apart) (hs : source.Pending s)
    {originalIdentity stagedIdentity preservedIdentity : Option Identity}
    (horiginal : originalIdentity.isSome → s.find source.directory source.name ≠ none)
    (hstaged : stagedIdentity = none → source.KeepsVacant rely → s.find source.holder source.name = none)
    (hboth : (!(stagedIdentity.isSome && preservedIdentity.isSome)) = true) :
    (recoverSource source.record originalIdentity stagedIdentity preservedIdentity).Guarantees rely
      (source.RecoveryStep keepsVacant) (fun r t => ∀ u, r = .ok u →
        source.Pending t ∧ (source.KeepsVacant rely → t.find source.holder source.name = none)) s := by
  unfold recoverSource
  cases preservedIdentity with
  | some preservedIdentity =>
    cases stagedIdentity with
    | some stagedIdentity => cases hboth
    | none => exact fun _ _ => ⟨hs, hstaged rfl⟩
  | none =>
    cases stagedIdentity with
    | none => exact fun _ _ => ⟨hs, hstaged rfl⟩
    | some stagedIdentity =>
      refine guarantees_then _ (moveStagedSource_guarantees hrely hapart hs ?_ stagedIdentity) (fun _ t ht _ _ => ht _ rfl)
        (fun e _ _ _ h => nomatch h)
      cases originalIdentity with
      | none => exact .inl rfl
      | some i => exact .inr ⟨rfl, horiginal rfl⟩

/-- What has been found of the record's paths before anything is moved. -/
structure Inspected (source : Source) (rely : FileSystem → FileSystem → Prop)
    (originalIdentity stagedIdentity : Option Identity) (s : FileSystem) : Prop where
  pending : source.Pending s
  original : originalIdentity.isSome → s.find source.directory source.name ≠ none
  staged : stagedIdentity = none → source.KeepsVacant rely → s.find source.holder source.name = none

theorem recoverRecord_guarantees (hapart : source.Apart) (hs : source.Pending s) :
    (recoverRecord source.journal source.record).Guarantees rely (source.RecoveryStep (source.KeepsVacant rely))
      (fun r t => ∀ o, r = .ok o → t.find source.config journalName = none) s := by
  unfold recoverRecord
  have hpending : ∀ s t, rely s t → source.Pending s → source.Pending t := fun s t h hs => (hrely s t h).pending hs
  have hfound : ∀ s t, rely s t → ∀ d name, s.find d name ≠ none → t.find d name ≠ none := by
    intro s t h d name hne
    obtain ⟨i, hi⟩ := Option.ne_none_iff_exists'.1 hne
    rw [(hrely s t h).kept _ _ _ hi]
    exact nofun
  have hinspected : ∀ o g s t, rely s t → Inspected source rely o g s → Inspected source rely o g t :=
    fun o g s t h hs => ⟨hpending s t h hs.pending, fun ho => hfound s t h _ _ (hs.original ho),
      fun hg hkeeps => hkeeps s t h (hs.staged hg hkeeps)⟩
  refine (validateRecordLayout_readOnly _ _).guarantees_then .refl hpending hs (fun _ v hv => ?_)
    (fun e _ _ _ h => nomatch h)
  refine (validateHolderInventory_readOnly _).guarantees_then .refl hpending hv (fun _ v hv => ?_)
    (fun e _ _ _ h => nomatch h)
  refine guarantees_read_then .refl hpending hv (fun originalIdentity v hv hread => ?_) (fun e _ _ _ h => nomatch h)
  have hv : Inspected source rely originalIdentity (some source.identity) v := by
    refine ⟨hv, fun ho hnone => ?_, nofun⟩
    rw [show v.identity source.record.original = .error .notFound from identity_one_of_none hnone] at hread
    cases hread
    cases ho
  refine guarantees_read_then .refl (hinspected _ _) hv (fun stagedIdentity v hv hread => ?_)
    (fun e _ _ _ h => nomatch h)
  have hv : Inspected source rely originalIdentity stagedIdentity v := by
    refine ⟨hv.pending, hv.original, fun hg _ => ?_⟩
    subst hg
    rw [show v.identity source.record.staged = _ from hv.pending.holder.identity_staged] at hread
    cases hfind : v.find source.holder source.name with
    | none => rfl
    | some i =>
      rw [hfind] at hread
      cases hread
  refine guarantees_read_then .refl (hinspected _ _) hv (fun preservedIdentity v hv _ => ?_)
    (fun e _ _ _ h => nomatch h)
  refine guarantees_bind.2 (guarantees_ofExcept.2 ?_)
  cases hboth : ensure (!(stagedIdentity.isSome && preservedIdentity.isSome))
      ⟨.invalidData, "source cleanup staged and preservation paths are both occupied"⟩ with
  | error e => exact fun _ h => nomatch h
  | ok u =>
    refine guarantees_then _ (recoverSource_guarantees hrely hapart hv.pending hv.original hv.staged
      (ensure_eq_ok.1 hboth)) (fun outcome w hw => ?_) (fun e _ _ _ h => nomatch h)
    refine (validateHolderInventory_readOnly _).guarantees_then .refl (stable_pending hrely) (hw _ rfl)
      (fun _ w hw => ?_) (fun e _ _ _ h => nomatch h)
    exact guarantees_then _ (clearThenRemoveHolder_guarantees hrely hw.1 hw.2) (fun _ t ht _ _ => ht)
      (fun e _ _ _ h => nomatch h)

/-! ## The pending record -/

/-- The journal is read as the record's document, or is not there. -/
theorem readJournal_guarantees (hread : formats.fromSlice (formats.toVec source.document) = .ok source.document)
    (hs : source.Recorded formats s) :
    (readJournal formats source.journal).Guarantees rely (source.RecoveryStep keepsVacant)
      (fun r t => source.Recorded formats t ∧ ∀ document, r = .ok document →
        document = none ∧ t.find source.config journalName = none ∨
          document = some source.document ∧ t.find source.config journalName ≠ none) s := by
  unfold readJournal
  have hstable : ∀ s t, rely s t → source.Recorded formats s → source.Recorded formats t :=
    fun s t h hs => (hrely s t h).recorded hs
  refine guarantees_read_then .refl hstable hs (fun metadata v hv hmetadata => ?_) (fun e t ht => ⟨ht, nofun⟩)
  cases metadata with
  | none =>
    refine ⟨hv, fun document hdocument => .inl ⟨(Except.ok.inj hdocument).symm, ?_⟩⟩
    cases hfind : v.find source.config journalName with
    | none => rfl
    | some i =>
      rw [FileSystem.metadata, show v.identity source.journal = .ok i from identity_one_of_find hfind] at hmetadata
      cases hmetadata
  | some metadata =>
    dsimp only
    refine (readOnly_ofExcept _).guarantees_then .refl hstable hv (fun _ v hv => ?_) (fun e t ht => ⟨ht, nofun⟩)
    refine guarantees_read_then .refl hstable hv (fun file v hv hfile => ?_) (fun e t ht => ⟨ht, nofun⟩)
    have hfind : v.find source.config journalName = some file := found_eq_ok.1 (ioResult_eq_ok.1 hfile)
    have hopen : ∀ s t, rely s t → (source.Recorded formats s ∧ s.find source.config journalName = some file) →
        source.Recorded formats t ∧ t.find source.config journalName = some file :=
      fun s t h hs => ⟨hstable s t h hs.1, (hrely s t h).journal.trans hs.2⟩
    refine (readOnly_observe _).guarantees_then .refl hopen ⟨hv, hfind⟩ (fun _ v hv => ?_) (fun e t ht => ⟨ht.1, nofun⟩)
    refine guarantees_read_then .refl hopen hv (fun bytes v hv hbytes => ?_) (fun e t ht => ⟨ht.1, nofun⟩)
    refine (readOnly_ofExcept _).guarantees_then .refl hopen hv (fun _ w hw => ?_) (fun e t ht => ⟨ht.1, nofun⟩)
    rw [hv.1.bytes hv.2] at hbytes
    cases hbytes
    rw [hread]
    refine ⟨hw.1, fun document hdocument => .inr ⟨(Except.ok.inj hdocument).symm, ?_⟩⟩
    rw [hw.2]
    exact nofun

/-- A recovery takes steps of a recovery only, and where it succeeds there is no record, and the lock file. -/
theorem recoverPending_guarantees (hapart : source.Apart)
    (hread : formats.fromSlice (formats.toVec source.document) = .ok source.document)
    (hs : source.Recorded formats s) (locked : Bool) :
    (recoverPending formats source.journal locked).Guarantees rely (source.RecoveryStep (source.KeepsVacant rely))
      (fun r t => ∀ o, r = .ok o → t.find source.config journalName = none ∧ source.LockIn t) s := by
  unfold recoverPending
  have hlock : ∀ s t, rely s t → source.LockIn s → source.LockIn t := fun s t h hs => (hrely s t h).lockIn hs
  refine guarantees_then _ (acquireLock_guarantees .refl (fun s t h => (hrely s t h).recorded) hs
    (fun i v t hv ht => ?_) locked) (fun _ t ht => ?_) (fun e _ _ _ h => nomatch h)
  · have hlocked : source.RecoveryStep (source.KeepsVacant rely) v t := .locked i ht
    exact ⟨hlocked, hlocked.recorded hapart hv⟩
  refine guarantees_then _ ((readJournal_guarantees hrely hread ht.1).keeping hlock
    (fun _ _ h hs => h.lockIn hapart hs) (ht.2 _ rfl)) (fun document w hw => ?_) (fun e _ _ _ h => nomatch h)
  obtain ⟨⟨hrecorded, hcases⟩, hlockIn⟩ := hw
  rcases hcases _ rfl with ⟨rfl, hvacant⟩ | ⟨rfl, hpending⟩
  · exact fun _ _ => ⟨hvacant, hlockIn⟩
  · dsimp only
    refine guarantees_bind.2 (guarantees_ofExcept.2 ?_)
    cases hrecord : source.document.intoRecord with
    | error e => exact fun _ h => nomatch h
    | ok record =>
      rw [intoRecord_document hrecord]
      refine ((recoverRecord_guarantees hrely hapart ⟨hpending, hrecorded.holder hpending⟩).keeping hlock
        (fun _ _ h hs => h.lockIn hapart hs) hlockIn).post ?_
      exact fun r t h o ho => ⟨h.1 o ho, h.2⟩

/-- Where there is no record and the lock file has been created, a recovery changes nothing. -/
theorem recoverPending_idle (hvacant : s.find source.config journalName = none) (hlock : source.LockIn s)
    (locked : Bool) : (recoverPending formats source.journal locked).Guarantees rely Eq (fun _ _ => True) s := by
  unfold recoverPending
  have hstable : ∀ s t, rely s t → (s.find source.config journalName = none ∧ source.LockIn s) →
      t.find source.config journalName = none ∧ source.LockIn t :=
    fun s t h hs => ⟨stable_vacant hrely s t h hs.1, (hrely s t h).lockIn hs.2⟩
  refine guarantees_then _ (acquireLock_guarantees (fun _ => rfl) hstable ⟨hvacant, hlock⟩ (fun i v t hv ht => ?_) locked)
    (fun _ t ht => ?_) (fun _ _ _ => trivial)
  · obtain ⟨j, hj, -⟩ := hv.2
    have hfree := (create_created (lockPath_journal ▸ ht)).vacant
    rw [hj] at hfree
    cases hfree
  unfold readJournal
  rw [bind_assoc]
  refine guarantees_read_then (fun _ => rfl) hstable ht.1 (fun metadata v hv hmetadata => ?_) (fun _ _ _ => trivial)
  rw [FileSystem.metadata, show v.identity source.journal = .error .notFound from identity_one_of_none hv.1]
    at hmetadata
  cases hmetadata
  trivial

end Guarantees

end Source

end Squallz.SourceCleanup
