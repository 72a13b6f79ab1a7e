/-
A cleanup takes only its own kind of steps, from the beginning of its journal to the end of its record.
-/
import Squallz.SourceCleanup.Recovery

namespace Squallz.SourceCleanup

open Squallz.Api Squallz.Core Squallz.Recovery Squallz.System Squallz.System.Prog Squallz.System.FileSystem

theorem validateBeforeMove_readOnly (record : SourceCleanupRecord) : (validateBeforeMove record).ReadOnly := by
  unfold validateBeforeMove
  refine (validateHolderInventory_readOnly _).bind fun _ => (pathExists_readOnly _).bind fun _ => ?_
  refine (readOnly_ofExcept _).bind fun _ => (ensureSourceIdentity_readOnly _ _).bind fun _ => ?_
  refine (pathExists_readOnly _).bind fun staged => ?_
  cases staged with
  | false => exact (pathExists_readOnly _).bind fun _ => readOnly_ofExcept _
  | true => exact ReadOnly.bind trivial fun _ => readOnly_ofExcept _

theorem syncAfterStage_readOnly (record : SourceCleanupRecord) : (syncAfterStage record).ReadOnly :=
  (symlinkMetadata_readOnly _).bind fun _ => readOnly_ofExcept _

theorem journalTempName_ne (process sequence : Nat) : journalTempName journalName process sequence ≠ journalName := by
  intro h
  have hfirst : (journalTempName journalName process sequence).head? = some 46 := by
    rw [journalTempName, List.append_assoc, show utf8Bytes "." = [46] by decide +kernel]
    rfl
  rw [h] at hfirst
  exact absurd hfirst (by decide +kernel)

namespace Source

variable {source : Source} {s t : FileSystem} {formats : Formats}

/-! ## The beginning -/

theorem fromRecord_record {document : JournalDocument} (h : JournalDocument.fromRecord source.record = .ok document) :
    document = source.document := by
  unfold JournalDocument.fromRecord storedPath at h
  obtain ⟨original, horiginal, h⟩ := bind_eq_ok.1 h
  obtain ⟨staged, hstaged, h⟩ := bind_eq_ok.1 h
  obtain ⟨holder, hholder, h⟩ := bind_eq_ok.1 h
  obtain ⟨preserved, hpreserved, h⟩ := bind_eq_ok.1 h
  split at horiginal
  · cases horiginal
  split at hstaged
  · cases hstaged
  split at hholder
  · cases hholder
  split at hpreserved
  · cases hpreserved
  cases horiginal
  cases hstaged
  cases hholder
  cases hpreserved
  exact (Except.ok.inj h).symm

/-- The source before its journal begins, in its own place, with the holder made for it. -/
structure Ready (source : Source) (s : FileSystem) : Prop where
  holder : source.HolderIn s
  original : s.find source.directory source.name = some source.identity
  vacant : s.find source.config journalName = none

/-- The holder is a new directory, beside a source that is in its own place only. -/
theorem ready_of_created {node : Inode} (h : s.Created source.directory source.holderName node source.holder t)
    (hnode : node.content = .directory) (horiginal : s.find source.directory source.name = some source.identity)
    (hpreserved : s.find source.directory (preservedName source.name source.attempt) ≠ some source.identity)
    (hname : source.name ≠ preservedName source.name source.attempt)
    (hconfig : ∃ d name, s.find d name = some source.config)
    (hvacant : s.find source.config journalName = none)
    (hjournal : (source.config, journalName) ≠ (source.directory, source.holderName)) :
    source.Apart ∧ source.Ready t ∧ source.Sole t := by
  have hlinked : ∃ d name, s.find d name = some source.identity := ⟨_, _, horiginal⟩
  have hiff := found_iff_of_created h hlinked
  have hinner : t.find source.holder source.name ≠ some source.identity := by
    rw [Ne, hiff, h.empty]
    exact nofun
  refine ⟨⟨?_, h.ne, ?_⟩, ⟨⟨h.target, h.node.1.trans hnode⟩, (hiff _ _).2 horiginal,
    (h.others _ _ hjournal).trans hvacant⟩, (source.directory, source.name), by simp [places], ?_⟩
  · rintro heq
    exact h.fresh _ _ (heq ▸ horiginal)
  · rintro heq
    obtain ⟨d, name, hfind⟩ := hconfig
    exact h.fresh _ _ (heq ▸ hfind)
  · intro other hother
    simp only [places, List.mem_cons, List.not_mem_nil, or_false] at hother
    rcases hother with rfl | rfl | rfl
    · exact ⟨fun _ => rfl, fun _ => (hiff _ _).2 horiginal⟩
    · refine ⟨fun hfound => absurd hfound hinner, fun heq => absurd (Prod.mk.inj heq).1 h.ne⟩
    · refine ⟨fun hfound => absurd ((hiff _ _).1 hfound) hpreserved, fun heq => ?_⟩
      exact absurd (Prod.mk.inj heq).2.symm hname

/-- The source in its own place, with the journal begun. -/
structure Begun (source : Source) (s : FileSystem) : Prop where
  pending : source.Pending s
  identity : s.find source.config journalName ≠ some source.identity
  original : s.find source.directory source.name = some source.identity

theorem Foreign.ready (h : source.Foreign s t) (hs : source.Ready s) : source.Ready t :=
  ⟨h.holderIn hs.holder, h.kept _ _ _ hs.original, h.journal.trans hs.vacant⟩

theorem Foreign.begun (h : source.Foreign s t) (hs : source.Begun s) : source.Begun t :=
  ⟨h.pending hs.pending, h.journal ▸ hs.identity, h.kept _ _ _ hs.original⟩

theorem Ready.created {name : Name} {i : Identity} {node : Inode} (hs : source.Ready s)
    (h : s.Created source.config name node i t) (hname : name ≠ journalName) : source.Ready t := by
  have hother : ∀ d n j, s.find d n = some j → (d, n) ≠ (source.config, name) := by
    rintro d n j hj heq
    cases heq
    rw [h.vacant] at hj
    cases hj
  refine ⟨hs.holder.of_keeps (h.keeps (hother _ _ _ hs.holder.find)), ?_, ?_⟩
  · exact (h.others _ _ (hother _ _ _ hs.original)).trans hs.original
  · exact (h.others _ _ fun heq => hname (Prod.mk.inj heq).2.symm).trans hs.vacant

/-- The journal's temporary file has been created. -/
structure TempIn (source : Source) (name : Name) (i : Identity) (s : FileSystem) : Prop where
  ready : source.Ready s
  find : s.find source.config name = some i
  identity : i ≠ source.identity
  holder : i ≠ source.holder

theorem Foreign.tempIn {name : Name} {i : Identity} (h : source.Foreign s t) (hs : source.TempIn name i s) :
    source.TempIn name i t := ⟨h.ready hs.ready, h.kept _ _ _ hs.find, hs.identity, hs.holder⟩

theorem TempIn.write {name : Name} {i : Identity} (hs : source.TempIn name i s) (bytes : List UInt8) :
    source.TempIn name i (s.write i bytes) := by
  refine ⟨⟨⟨hs.ready.holder.find, ?_⟩, hs.ready.original, hs.ready.vacant⟩, hs.find, hs.identity, hs.holder⟩
  rw [inodes_write_ne _ _ _ _ hs.holder.symm]
  exact hs.ready.holder.directory

/-- The temporary file becomes the journal. -/
theorem TempIn.begun {name : Name} {i : Identity} (hs : source.TempIn name i s)
    (h : s.renameNoReplace ⟨source.config, [name]⟩ source.journal = .ok ((), t)) : source.Begun t := by
  obtain ⟨j, hj⟩ := renameNoReplace_relocated h (locate_one s source.config name) (locate_one s source.config _)
  have hji := hj.source
  rw [hs.find] at hji
  cases hji
  have hother : ∀ d n k, s.find d n = some k → k ≠ i →
      (d, n) ≠ (source.config, name) ∧ (d, n) ≠ (source.config, journalName) := by
    intro d n k hk hne
    constructor
    · rintro heq
      cases heq
      exact hne (Option.some.inj (hk.symm.trans hs.find))
    · rintro heq
      cases heq
      exact nomatch hk.symm.trans hs.ready.vacant
  have hholder := hother _ _ _ hs.ready.holder.find hs.holder.symm
  have horiginal := hother _ _ _ hs.ready.original hs.identity.symm
  have htarget : t.find source.config journalName = some i := hj.target
  refine ⟨⟨?_, hs.ready.holder.of_keeps (hj.keeps hholder.1 hholder.2)⟩, ?_, ?_⟩
  · rw [htarget]
    exact nofun
  · rw [htarget]
    exact fun heq => hs.identity (Option.some.inj heq)
  · exact (hj.others _ _ horiginal.1 horiginal.2).trans hs.ready.original

theorem TempIn.removed {name : Name} {i : Identity} (hs : source.TempIn name i s)
    (h : s.removeFile ⟨source.config, [name]⟩ = .ok ((), t)) : source.Ready t := by
  have hremoved := removeFile_removed h
  have hother : ∀ d n k, s.find d n = some k → k ≠ i → (d, n) ≠ (source.config, name) := by
    rintro d n k hk hne heq
    cases heq
    exact hne (Option.some.inj (hk.symm.trans hs.find))
  refine ⟨hs.ready.holder.of_keeps (hremoved.keeps (hother _ _ _ hs.ready.holder.find hs.holder.symm)), ?_, ?_⟩
  · exact (hremoved.others _ _ (hother _ _ _ hs.ready.original hs.identity.symm)).trans hs.ready.original
  · by_cases hk : (source.config, journalName) = (source.config, name)
    · rw [(Prod.mk.inj hk).2]
      exact hremoved.gone
    · exact (hremoved.others _ _ hk).trans hs.ready.vacant

theorem Begun.staged (hapart : source.Apart) (hs : source.Begun s)
    (h : s.renameNoReplace source.original source.staged = .ok ((), t)) : source.Pending t := by
  obtain ⟨i, hi⟩ := renameNoReplace_relocated h (locate_one s source.directory source.name)
    hs.pending.holder.locate_staged
  have hsource := hi.source
  cases hs.original.symm.trans hsource
  refine ⟨?_, hs.pending.holder.of_keeps (hi.keeps (fun heq => ?_) fun heq => hapart.directory (Prod.mk.inj heq).1.symm)⟩
  · rw [hi.others _ _ (fun heq => ?_) fun heq => hapart.config (Prod.mk.inj heq).1.symm]
    · exact hs.pending.journal
    · -- the journal is not the source
      rw [Prod.mk.injEq] at heq
      refine hs.identity ?_
      rw [heq.1, heq.2]
      exact hs.original
  · rw [Prod.mk.injEq] at heq
    have hfind := hs.pending.holder.find
    rw [heq.2] at hfind
    exact hapart.identity (Option.some.inj (hfind.symm.trans hs.original))

theorem Trashing.pending (h : source.Trashing s t) (hs : source.Pending s) : source.Pending t :=
  ⟨h.journal ▸ hs.journal, h.holder hs.holder⟩

section Guarantees

variable {rely : FileSystem → FileSystem → Prop} (hrely : ∀ s t, rely s t → source.Foreign s t)
  {moveToTrash : Path → Io Unit} {keepsVacant : Prop}

theorem CleanupStep.refl (s : FileSystem) : source.CleanupStep formats moveToTrash keepsVacant s s :=
  .recovery (.refl s)

include hrely

/-! ## The journal begins -/

theorem writeNewJournal_guarantees (hs : source.Ready s) (process sequence : Nat) :
    (writeNewJournal source.journal (formats.toVec source.document) process sequence).Guarantees rely
      (source.CleanupStep formats moveToTrash keepsVacant) (fun r t => match r with
        | .ok _ => source.Begun t
        | .error _ => source.Ready t) s := by
  unfold writeNewJournal
  have hready : ∀ s t, rely s t → source.Ready s → source.Ready t := fun s t h => (hrely s t h).ready
  refine guarantees_change_then .refl hready hs (fun i v t hv ht => ?_) (fun _ _ h => h)
  have hcreated : v.Created source.config (journalTempName journalName process sequence) _ i t := create_created ht
  refine ⟨.tempCreated _ i (journalTempName_ne _ _) ht, ?_⟩
  have htemp : source.TempIn (journalTempName journalName process sequence) i t := by
    refine ⟨hv.created hcreated (journalTempName_ne _ _), hcreated.target, ?_, ?_⟩
    · rintro rfl
      exact hcreated.fresh _ _ hv.original
    · rintro rfl
      exact hcreated.fresh _ _ hv.holder.find
  refine guarantees_bind.2 (guarantees_update.2 fun w hw => ?_)
  have hw := (hrely t w hw).tempIn htemp
  refine ⟨.tempWritten i _ hw.ready.vacant hw.identity rfl, ?_⟩
  have hwritten : ∀ s t, rely s t → (source.TempIn (journalTempName journalName process sequence) i s ∧
      (s.inodes i).content = .regular (formats.toVec source.document)) →
      source.TempIn (journalTempName journalName process sequence) i t ∧
        (t.inodes i).content = .regular (formats.toVec source.document) :=
    fun s t h hs => ⟨(hrely s t h).tempIn hs.1, ((hrely s t h).content _ _ _ hs.1.find).trans hs.2⟩
  refine guarantees_act_shared .refl hwritten ⟨hw.write _, content_write _ _ _⟩ (fun _ x y hx hy => ?_) fun e x hx => ?_
  · obtain ⟨htemp, hcontent⟩ := hx
    refine ⟨.begun _ i htemp.find htemp.identity hcontent htemp.ready.holder hy, ?_⟩
    exact htemp.begun hy
  · refine guarantees_act_shared .refl hwritten hx (fun _ x y hx hy => ?_) fun _ _ hx => hx.1.ready
    obtain ⟨htemp, -⟩ := hx
    exact ⟨.tempRemoved _ i htemp.find htemp.identity htemp.ready.vacant hy, htemp.removed hy⟩

theorem begin_guarantees (hs : source.Ready s) (locked : Bool) (process sequence : Nat) :
    (begin formats source.journal locked process sequence source.record).Guarantees rely
      (source.CleanupStep formats moveToTrash keepsVacant) (fun r t => match r with
        | .ok _ => source.Begun t
        | .error _ => source.Ready t) s := by
  unfold begin
  have hready : ∀ s t, rely s t → source.Ready s → source.Ready t := fun s t h => (hrely s t h).ready
  refine guarantees_then _ (acquireLock_guarantees .refl hready hs (fun i v t hv ht => ?_) locked) (fun _ t ht => ?_)
    (fun _ _ h => h.1)
  · exact ⟨.recovery (.locked i ht), hv.created (create_created (lockPath_journal ▸ ht)) lock_ne_journal⟩
  refine (pathExists_readOnly _).guarantees_then .refl hready ht.1 (fun _ t ht => ?_) (fun _ _ h => h)
  refine (readOnly_ofExcept _).guarantees_then .refl hready ht (fun _ t ht => ?_) (fun _ _ h => h)
  refine (validateRecordLayout_readOnly _ _).guarantees_then .refl hready ht (fun _ t ht => ?_) (fun _ _ h => h)
  refine (validateBeforeMove_readOnly _).guarantees_then .refl hready ht (fun _ t ht => ?_) (fun _ _ h => h)
  refine guarantees_bind.2 (guarantees_ofExcept.2 ?_)
  cases hdocument : JournalDocument.fromRecord source.record with
  | error e => exact ht
  | ok document =>
    refine guarantees_bind.2 (guarantees_ofExcept.2 ?_)
    cases hbytes : serializeJournal formats document with
    | error e => exact ht
    | ok bytes =>
      obtain ⟨_, -, hbytes⟩ := bind_eq_ok.1 hbytes
      cases hbytes
      dsimp only
      rw [fromRecord_record hdocument]
      exact writeNewJournal_guarantees hrely ht process sequence

/-! ## The source is staged and handed over -/

theorem restoreStagedCleanup_guarantees (hapart : source.Apart) (hs : source.Pending s) :
    (restoreStagedCleanup source.journal source.record).Guarantees rely
      (source.CleanupStep formats moveToTrash (source.KeepsVacant rely)) (fun _ _ => True) s := by
  refine guarantees_bind.2 (guarantees_attempt.2 (((recoverRecord_guarantees hrely hapart hs).mono ?_).post ?_))
  · exact fun _ _ h => .recovery h
  · exact fun _ _ _ => trivial

theorem completeTrash_guarantees (hs : source.Pending s) :
    (completeTrash source.journal source.record).Guarantees rely
      (source.CleanupStep formats moveToTrash (source.KeepsVacant rely)) (fun r t => match r with
        | .ok _ => t.find source.config journalName = none
        | .error _ => source.Pending t) s := by
  unfold completeTrash
  have hpending : ∀ s t, rely s t → source.Pending s → source.Pending t := fun s t h => (hrely s t h).pending
  refine (validateRecordLayout_readOnly _ _).guarantees_then .refl hpending hs (fun _ v hv => ?_) (fun _ _ h => h)
  refine (validateHolderInventory_readOnly _).guarantees_then .refl hpending hv (fun _ v hv => ?_) (fun _ _ h => h)
  refine guarantees_read_then .refl hpending hv (fun staged v hv hstaged => ?_) (fun _ _ h => h)
  refine guarantees_bind.2 (guarantees_ofExcept.2 ?_)
  cases staged with
  | true => exact hv
  | false =>
    have hvacant : v.find source.holder source.name = none := by
      rw [show v.identity source.record.staged = _ from hv.holder.identity_staged] at hstaged
      cases hfind : v.find source.holder source.name with
      | none => rfl
      | some i =>
        rw [hfind] at hstaged
        cases hstaged
    refine (pathExists_readOnly _).guarantees_then .refl (stable_pending hrely) ⟨hv, fun _ => hvacant⟩
      (fun _ v hv => ?_) (fun _ _ h => h.1)
    refine (readOnly_ofExcept _).guarantees_then .refl (stable_pending hrely) hv (fun _ v hv => ?_) (fun _ _ h => h.1)
    exact (clearThenRemoveHolder_guarantees hrely hv.1 hv.2).mono fun _ _ h => .recovery h

theorem trashStagedSource_guarantees (hapart : source.Apart)
    (hadapter : ∀ s t, source.Adapts moveToTrash s t → source.Trashing s t) (hs : source.Pending s) :
    (trashStagedSource source.journal moveToTrash source.record).Guarantees rely
      (source.CleanupStep formats moveToTrash (source.KeepsVacant rely)) (fun _ _ => True) s := by
  unfold trashStagedSource
  have hpending : ∀ s t, rely s t → source.Pending s → source.Pending t := fun s t h => (hrely s t h).pending
  have hadapts : (moveToTrash source.staged).Guarantees rely (source.Adapts moveToTrash) (fun _ _ => True) s :=
    (guarantees_acts _ s).mono fun _ _ h => ⟨s, hs.holder, h.mono hrely⟩
  have hkept : ∀ s t, source.Adapts moveToTrash s t → source.Pending s → source.Pending t :=
    fun s t h => (hadapter s t h).pending
  refine guarantees_bind.2 (guarantees_attempt.2 (((hadapts.keeping hpending hkept hs).mono ?_).post ?_))
  · exact fun _ _ h => .handedOver h
  · rintro r t ⟨-, ht⟩
    dsimp only
    split
    · refine guarantees_bind.2 (guarantees_attempt.2 ((completeTrash_guarantees hrely ht).post fun r t h => ?_))
      cases r with
      | ok u => exact trivial
      | error e => exact restoreStagedCleanup_guarantees hrely hapart h
    · exact restoreStagedCleanup_guarantees hrely hapart ht

theorem stageSource_guarantees (hapart : source.Apart)
    (hadapter : ∀ s t, source.Adapts moveToTrash s t → source.Trashing s t) (hs : source.Begun s)
    (unchanged : FileSystem → Bool) :
    (stageSource source.journal unchanged moveToTrash source.record).Guarantees rely
      (source.CleanupStep formats moveToTrash (source.KeepsVacant rely)) (fun _ _ => True) s := by
  unfold stageSource
  have hpending : ∀ s t, rely s t → source.Pending s → source.Pending t := fun s t h => (hrely s t h).pending
  refine guarantees_act_shared .refl (fun s t h => (hrely s t h).begun) hs (fun _ v t hv ht => ?_) fun e v hv => ?_
  · refine ⟨.staged hv.original hv.pending.holder ht, ?_⟩
    refine (syncAfterStage_readOnly _).attempt.guarantees_then .refl hpending (hv.staged hapart ht) (fun synced w hw => ?_)
      (fun _ _ _ => trivial)
    split
    · refine (readOnly_observe _).guarantees_then .refl hpending hw (fun same w hw => ?_) (fun _ _ _ => trivial)
      split
      · refine (ensureSourceIdentity_readOnly _ _).attempt.guarantees_then .refl hpending hw (fun confirmed w hw => ?_)
          (fun _ _ _ => trivial)
        split
        · exact trashStagedSource_guarantees hrely hapart hadapter hw
        · exact restoreStagedCleanup_guarantees hrely hapart hw
      · exact restoreStagedCleanup_guarantees hrely hapart hw
    · exact restoreStagedCleanup_guarantees hrely hapart hw
  · exact restoreStagedCleanup_guarantees hrely hapart hv.pending

/-- A cleanup of a source that is ready takes steps of a cleanup only. -/
theorem cleanUp_guarantees (hapart : source.Apart)
    (hread : formats.fromSlice (formats.toVec source.document) = .ok source.document)
    (hadapter : ∀ s t, source.Adapts moveToTrash s t → source.Trashing s t) (hs : source.Ready s)
    (locked relocked : Bool) (process sequence : Nat) (unchanged : FileSystem → Bool) :
    (cleanUp formats source.journal locked relocked process sequence unchanged moveToTrash source.record).Guarantees
      rely (source.CleanupStep formats moveToTrash (source.KeepsVacant rely)) (fun _ _ => True) s := by
  unfold cleanUp
  refine guarantees_bind.2 (guarantees_attempt.2 ((begin_guarantees hrely hs locked process sequence).post ?_))
  intro r t ht
  cases r with
  | ok u => exact stageSource_guarantees hrely hapart hadapter ht unchanged
  | error e =>
    have hrecover : ∀ t, t.find source.config journalName = none → (do
        let _ ← (recoverPending formats source.journal relocked).attempt
        Prog.ret false : Io Bool).Guarantees rely
          (source.CleanupStep formats moveToTrash (source.KeepsVacant rely)) (fun _ _ => True) t := by
      intro t ht
      refine guarantees_bind.2 (guarantees_attempt.2
        (((recoverPending_guarantees hrely hapart hread (.of_vacant ht) relocked).mono ?_).post ?_))
      · exact fun _ _ h => .recovery h
      · exact fun _ _ _ => trivial
    refine guarantees_act_shared .refl (fun s t h => (hrely s t h).ready) ht (fun _ v w hv hw => ?_) fun _ v hv => ?_
    · have hremoved : source.RecoveryStep (source.KeepsVacant rely) v w := .holderRemoved hv.vacant hv.holder hw
      exact ⟨.recovery hremoved, hrecover w (hremoved.vacant hv.vacant)⟩
    · exact hrecover v hv.vacant

end Guarantees

end Source

end Squallz.SourceCleanup
