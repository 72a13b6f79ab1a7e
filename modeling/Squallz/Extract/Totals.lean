/-
The accounting of links, of directories and of whole runs.
-/
import Squallz.Extract.Accounting

namespace Squallz.Extract

open Squallz.Api Squallz.System Squallz.System.Prog

section

variable {W H I : Type} {env : Environment W H I} {opts : ExtractOptions} {limits : SafetyLimits} {total : UInt64} {s : State W H I}
variable {book : Book} {staged : DestPath} {admitted counted n : Nat}

/-! ## Beginnings -/

theorem new_keeps {world : W} {sequence : Nat} {dest : DestPath} :
    Keeps opts.limits total (ExtractSink.new env opts dest total) (fun _ v => Level opts.limits total v 0 0)
      (State.start world sequence opts.limits dest : State W H I) := by
  have hstart : Kept opts.limits total (State.start world sequence opts.limits dest : State W H I).view :=
    (level_new opts.limits dest dest total).kept.congr rfl rfl rfl
  refine (call_blind _).sees_bind hstart fun _ t ht => (call_blind _).sees_bind (ht ▸ hstart) fun canonicalDest u hu => ?_
  have hview : u.view = (State.start world sequence opts.limits dest : State W H I).view := hu.trans ht
  have hnew := level_new (H := H) (I := I) opts.limits dest canonicalDest total
  refine modifySink_keeps (hview ▸ hstart) ?_ ?_
  · rw [hview]
    exact hnew.kept
  · rw [hview]
    exact hnew

theorem emptyExtractReport_keeps {world : W} {sequence : Nat} {dest : DestPath} :
    Keeps limits total (emptyExtractReport dest)
      (fun r v => r = v.sink.report ∧ (total = 0 → Level limits total v 0 0))
      (State.start world sequence limits dest : State W H I) := by
  have hnew := level_new (H := H) (I := I) limits dest dest total
  have hstart : Kept limits total (State.start world sequence limits dest : State W H I).view := hnew.kept.congr rfl rfl rfl
  refine sees_bind (report_keeps (P := fun _ v => v = _) hstart ((hnew.complete 0 (.fromUtf8 "")).kept.congr rfl rfl rfl)
    rfl) fun _ t ht hview => ?_
  refine sees_pure ht ⟨by rw [hview]; rfl, fun hzero => ?_⟩
  subst hzero
  rw [hview]
  exact hnew.complete 0 (.fromUtf8 "")

/-! ## Copies and hard links -/

theorem copyFromDisk_keeps {entry : EntryMeta} {handle : H} {length written : UInt64} {data : Stream}
    (h : Good limits total s.view (book.copying staged none n)) (hbalanced : book.Balanced)
    (hwritten : written.toNat = min n maxU64) :
    Keeps limits total (copyFromDisk env entry staged handle length written data)
      (fun r v => ∃ m, Good limits total v (book.copying staged none m) ∧ r.toNat = min m maxU64) s := by
  induction data generalizing s n written with
  | nil =>
    refine (checkpoint_blind env).sees_bind h.kept fun _ t ht => ?_
    exact sees_pure (ht ▸ h.kept) ⟨n, ht ▸ h, hwritten⟩
  | cons read rest ih =>
    cases read with
    | error e =>
      refine (checkpoint_blind env).sees_bind h.kept fun _ t ht => ?_
      exact sees_fail (ht ▸ h.kept)
    | ok chunk =>
      refine (checkpoint_blind env).sees_bind h.kept fun _ t ht => ?_
      rw [← ht] at h
      split
      · exact sees_pure h.kept ⟨n, h, hwritten⟩
      · refine sees_bind (charge_keeps (P := fun _ v => Good limits total v { book.copying staged none n with
            charged := book.charged + n + chunk.bytes.length }) h.kept fun a ha => ?_) fun _ u hu hgood => ?_
        · rw [addOutputBytes_snd, ← chunk.toNat_size]
          exact h.charge (addOutputBytes_ok ha)
        · refine (call_blind _).sees_bind hu fun _ w hw => ?_
          refine wrote_keeps (hw ▸ hgood) (fun hlt => ?_) hbalanced (fun _ hnone => by cases hnone) fun x hx => ?_
          · rw [toNat_saturatingAdd]
            unfold maxU64
            omega
          · have hreport := hx.report entry.path (some (saturatingAdd written chunk.size, length))
            refine sees_bind (getSink_keeps hx.kept (report_keeps (P := fun _ v => Good limits total v _) hx.kept hreport.kept
              hreport)) fun _ y _ hy => ih hy ?_
            rw [toNat_saturatingAdd, chunk.toNat_size, hwritten]
            omega

theorem publishCopy_keeps {entry : EntryMeta} {source outPath : DestPath} {length : UInt64} {modified : Option SystemTime}
    {replaceExisting : Bool} (h : Good limits total s.view book) (hbalanced : book.Balanced) :
    Keeps limits total (publishCopy env opts entry source outPath length modified replaceExisting)
      (fun r v => ∃ n, Good limits total v (book.finished n) ∧ r.toNat = min n maxU64) s := by
  refine (call_blind _).sees_bind h.kept fun data t ht => ?_
  refine sees_bind (createPending_keeps (ht ▸ h) hbalanced) fun pending u hu hgood => ?_
  obtain ⟨staged, handle⟩ := pending
  refine onFailure_keeps ?_ fun t ht => (discard_keeps ht).post fun _ _ _ _ => trivial
  refine (blind_ofExcept _).sees_bind hu fun _ v hv => ?_
  rw [← hv] at hgood
  refine sees_bind (copyFromDisk_keeps hgood hbalanced rfl) fun written w hw hcopied => ?_
  obtain ⟨n, hgood, hwritten⟩ := hcopied
  refine (checkpoint_blind env).sees_bind hw fun _ x hx => (restoreFile_blind env opts _ _).sees_bind (hx ▸ hw)
    fun _ y hy => ?_
  rw [← hx, ← hy] at hgood
  exact sees_bind (commit_keeps hgood.kept) fun _ z hz hview => sees_pure hz
    ⟨n, hview ▸ hgood.published hbalanced, hwritten⟩

/-- A staging file that holds no new data is published. -/
theorem Good.linked {view : View H I} (h : Good limits total view book) (hbalanced : book.Balanced)
    (source target : DestPath) :
    Good limits total { view with events := view.events ++ [.published source target] } book := by
  refine h.log (.published source target) (by simp [Ledger.record, hbalanced.current_eq])
    (Nat.le_of_eq hbalanced.charged_eq.symm) ?_ (Nat.le_refl _)
  intro path entry bytes hsome
  rw [hbalanced.current_eq] at hsome
  cases hsome

theorem publishHardLink_keeps {source outPath : DestPath} {replaceExisting : Bool} (h : Good limits total s.view book)
    (hbalanced : book.Balanced) :
    Keeps limits total (publishHardLink env source outPath replaceExisting) (fun _ v => Good limits total v book) s := by
  refine (hardLinkPending_blind env _ _).sees_bind h.kept fun staged t ht => ?_
  refine onFailure_keeps ?_ fun t ht => (discard_keeps ht).post fun _ _ _ _ => trivial
  refine (checkpoint_blind env).sees_bind (ht ▸ h.kept) fun _ u hu => ?_
  rw [← ht, ← hu] at h
  exact (commit_keeps h.kept).post fun _ v _ hv => hv ▸ h.linked hbalanced _ _

/-- The books at a level are those of a file without bytes that is published and not yet reported. -/
theorem finished_zero (hbalanced : book.Balanced) : book.finished 0 = book := by
  obtain ⟨hcurrent, -, -, -, hannounced⟩ := hbalanced
  obtain ⟨⟨current, written, passedOver, published⟩, admitted, counted, reported, charged, added, announced⟩ := book
  cases hcurrent
  cases hannounced
  rfl

theorem writeHardLink_keeps {entry : EntryMeta} {source outPath : DestPath} (h : Level limits total s.view admitted counted)
    (hroom : counted < maxU64) :
    Keeps limits total (writeHardLink env entry source outPath) (fun _ v => Level limits total v admitted (counted + 1)) s := by
  obtain ⟨book, hgood, hbalanced, rfl, rfl⟩ := h
  refine sees_bind (takePendingOutput_keeps hgood) fun resolved t ht hgood => ?_
  refine (validatedMaterializedSource_blind env source).sees_bind ht fun r u hu => ?_
  rw [← hu] at hgood
  cases r with
  | none => exact sees_fail hgood.kept
  | some source =>
    refine sees_bind (publishHardLink_keeps hgood hbalanced) fun _ v _ hgood =>
      sees_bind (addMaterializedFile_keeps hgood) fun _ w _ hgood => ?_
    rw [← finished_zero hbalanced] at hgood
    exact addMaterialized_keeps hgood rfl hbalanced hroom

theorem linkFromDisk_keeps {entry : EntryMeta} {outTarget : DestPath} {link : List UInt8} {hard : Bool}
    (h : Level limits total s.view admitted counted) (hroom : counted < maxU64) :
    Keeps limits total (linkFromDisk env opts entry outTarget link hard) (fun _ v => Level limits total v admitted (counted + 1)) s := by
  refine getSink_keeps h.kept ?_
  have hskip : ∀ {t : State W H I}, t.view = s.view → Keeps limits total (modifyReport .addSkipped : Run W H I Unit)
      (fun _ v => Level limits total v admitted (counted + 1)) t := fun ht => count_keeps (ht ▸ h) addSkipped_counts hroom
  split
  · exact hskip rfl
  · refine (validatedMaterializedSource_blind env _).sees_bind h.kept fun source t ht => ?_
    cases source with
    | none => exact hskip ht
    | some source =>
      refine (call_blind _).sees_bind (ht ▸ h.kept) fun found u hu => ?_
      obtain ⟨length, modified⟩ := found
      have hu : u.view = s.view := hu.trans ht
      refine (resolveConflictPath_blind env opts _ _).sees_bind (hu ▸ h.kept) fun resolved v hv => ?_
      have hv : v.view = s.view := hv.trans hu
      cases resolved with
      | none => exact hskip hv
      | some resolved =>
        refine (ensureParentInside_blind env _ _).sees_bind (hv ▸ h.kept) fun _ w hw => ?_
        have hw : w.view = s.view := hw.trans hv
        obtain ⟨book, hgood, hbalanced, rfl, rfl⟩ := h
        rw [← hw] at hgood
        refine sees_bind (P := fun r v => ∃ n, Good limits total v (book.finished n) ∧ r.toNat = min n maxU64) ?_
          fun outputBytes x _ hx => ?_
        · split
          · refine sees_bind (publishHardLink_keeps hgood hbalanced) fun _ y hy hgood =>
              sees_pure hy ⟨0, ?_, rfl⟩
            rw [finished_zero hbalanced]
            exact hgood
          · exact publishCopy_keeps hgood hbalanced
        · obtain ⟨n, hgood, hbytes⟩ := hx
          refine sees_bind (addMaterializedFile_keeps hgood) fun _ y _ hgood =>
            sees_bind (addMaterialized_keeps hgood hbytes hbalanced hroom) fun _ z _ hlevel =>
              reportProgress_keeps hlevel _ _

/-! ## Files of an archive -/

/-- A change of the sink that leaves its counters. -/
theorem leaving_keeps {f : ExtractSink H I → ExtractSink H I} (h : Level limits total s.view admitted counted)
    (haccountant : (f s.view.sink).accountant = s.view.sink.accountant)
    (hreport : (f s.view.sink).report = s.view.sink.report) (hdone : (f s.view.sink).done = s.view.sink.done)
    (htotal : (f s.view.sink).total = s.view.sink.total) :
    Keeps limits total (modifySink f : Run W H I Unit) (fun _ v => Level limits total v admitted counted) s := by
  have hlevel := h.congr haccountant hreport hdone htotal
  exact modifySink_keeps h.kept hlevel.kept hlevel

theorem readIntoFile_keeps {source : EntryPath} {entry : EntryMeta} {outPath : DestPath}
    (h : Level opts.limits total s.view admitted counted) (hroom : counted < maxU64) :
    Keeps opts.limits total (readIntoFile env opts source entry outPath)
      (fun _ v => Level opts.limits total v admitted (counted + 1)) s := by
  refine (tryCall_blind _).sees_bind h.kept fun r t ht => ?_
  rw [← ht] at h
  cases r with
  | error e =>
    simp only
    split
    · refine sees_bind (leaving_keeps h rfl rfl rfl rfl) fun _ u _ hlevel => ?_
      exact sees_bind (count_keeps hlevel addFailed_counts hroom) fun _ v hv hlevel => sees_pure hv hlevel
    · exact sees_fail h.kept
  | ok data =>
    refine sees_bind (writeFile_keeps h hroom) fun wrote u hu hlevel => ?_
    refine (callRes_blind _ _).sees_bind hu fun _ v hv => ?_
    rw [← hv] at hlevel
    exact sees_pure hlevel.kept hlevel

theorem materializeLink_keeps {link target : EntryMeta} (h : Level opts.limits total s.view admitted counted)
    (hadmitted : admitted < maxU64) (hcounted : counted < maxU64) :
    Keeps opts.limits total (materializeLink env opts link target)
      (fun _ v => Level opts.limits total v (admitted + 1) (counted + 1)) s := by
  refine sees_bind (fileTarget_keeps h hadmitted hcounted _) fun target t ht hpost => ?_
  cases target with
  | none => exact sees_pure ht hpost
  | some outPath => exact sees_bind (readIntoFile_keeps hpost hcounted) fun _ u hu hlevel => sees_pure hu hlevel

/-! ## Symbolic links and directories -/

theorem commitLink_keeps {target : DestPath} {replaceExisting : Bool} {kind : PendingOutputKind}
    (h : Level limits total s.view admitted counted) : Keeps limits total (commit env staged target replaceExisting kind)
      (fun _ v => Level limits total v admitted counted) s := by
  obtain ⟨book, hgood, hbalanced, hrest⟩ := h
  exact (commit_keeps hgood.kept).post fun _ v _ hv => hv ▸ ⟨book, hgood.linked hbalanced _ _, hbalanced, hrest⟩

theorem createSymlinkEntry_keeps {canonicalDest target : DestPath} {entry : EntryMeta} {link : List UInt8}
    (h : Level limits total s.view admitted counted) : Keeps limits total (createSymlinkEntry env opts canonicalDest target entry link)
      (fun _ v => Level limits total v admitted counted) s := by
  refine (resolveConflictPath_blind env opts _ _).sees_bind h.kept fun resolved t ht => ?_
  rw [← ht] at h
  cases resolved with
  | none => exact sees_pure h.kept h
  | some resolved =>
    refine (checkpoint_blind env).sees_bind h.kept fun _ u hu => ?_
    rw [← hu] at h
    refine (ensureParentInside_blind env _ _).sees_bind h.kept fun _ v hv => ?_
    rw [← hv] at h
    refine (createPendingValue_blind env _ _ _).sees_bind h.kept fun staged w hw => ?_
    rw [← hw] at h
    refine sees_bind (P := fun _ v => Level limits total v admitted counted) ?_ fun _ x hx hlevel => sees_pure hx hlevel
    refine onFailure_keeps ?_ fun t ht => (discard_keeps ht).post fun _ _ _ _ => trivial
    refine (restoreSymlink_blind env _ _ _).sees_bind h.kept fun _ x hx => ?_
    rw [← hx] at h
    refine (checkpoint_blind env).sees_bind h.kept fun _ y hy => ?_
    rw [← hy] at h
    exact commitLink_keeps h

variable [DecidableEq I]

theorem writeDirectory_keeps {entry : EntryMeta} {rel : DestPath} (h : Level limits total s.view admitted counted)
    (hroom : counted < maxU64) :
    Keeps limits total (writeDirectory env opts entry rel) (fun _ v => Level limits total v admitted (counted + 1)) s := by
  refine getSink_keeps h.kept ((ensureDirectoryInside_blind env _ _).sees_bind h.kept fun _ t ht => ?_)
  rw [← ht] at h
  split
  · refine Blind.sees_bind ?_ h.kept fun directories u hu => ?_
    · split
      · exact blind_pure _
      · exact newDirectories_blind env _
    · rw [← hu] at h
      refine sees_bind (leaving_keeps h rfl rfl rfl rfl) fun _ v hv hlevel => ?_
      refine (record_blind env _ _ _).sees_bind hv fun directories w hw => ?_
      rw [← hw] at hlevel
      exact sees_bind (leaving_keeps hlevel rfl rfl rfl rfl) fun _ x _ hlevel =>
        count_keeps hlevel addDirectory_counts hroom
  · exact count_keeps h addDirectory_counts hroom

theorem writeMetaEntry_keeps {entry : EntryMeta} (h : Level opts.limits total s.view admitted counted)
    (hadmitted : admitted < maxU64) (hcounted : counted < maxU64) :
    Keeps opts.limits total (writeMetaEntry env opts entry)
      (fun _ v => Level opts.limits total v (admitted + 1) (counted + 1)) s := by
  refine sees_bind (admit_keeps h hadmitted entry) fun rel t ht hlevel => ?_
  refine getSink_keeps ht (sees_bind (reportProgress_keeps hlevel _ _) fun _ u hu hlevel => ?_)
  have hskip : Keeps opts.limits total (modifyReport .addSkipped : Run W H I Unit)
      (fun _ v => Level opts.limits total v (admitted + 1) (counted + 1)) u := count_keeps hlevel addSkipped_counts hcounted
  cases entry.entryType with
  | dir => exact writeDirectory_keeps hlevel hcounted
  | symlink link =>
    simp only
    cases opts.symlinks with
    | skip => exact hskip
    | follow => exact linkFromDisk_keeps hlevel hcounted
    | preserve =>
      refine sees_bind (createSymlinkEntry_keeps hlevel) fun r v hv hlevel => ?_
      cases r with
      | none => exact count_keeps hlevel addSkipped_counts hcounted
      | some materialization =>
        exact sees_bind (leaving_keeps hlevel rfl rfl rfl rfl) fun _ w _ hlevel =>
          count_keeps hlevel (addMaterialized_counts materialization 0) hcounted
  | hardlink link => exact linkFromDisk_keeps hlevel hcounted
  | other => exact hskip
  | file => exact hskip

/-! ## Entries of an archive -/

theorem extractEntry_keeps {metas : List EntryMeta} {entry : EntryMeta} {extracted : Extracted}
    (h : Level opts.limits total s.view admitted counted) (hadmitted : admitted < maxU64) (hcounted : counted < maxU64) :
    Keeps opts.limits total (extractEntry env opts metas entry extracted)
      (fun _ v => Level opts.limits total v (admitted + 1) (counted + 1)) s := by
  have hmaterialize : ∀ target : EntryMeta, Keeps opts.limits total (do
        materializeLink env opts entry target
        pure extracted : Run W H I Extracted) (fun _ v => Level opts.limits total v (admitted + 1) (counted + 1)) s :=
    fun target => sees_bind (materializeLink_keeps h hadmitted hcounted) fun _ t ht hlevel => sees_pure ht hlevel
  have hmeta : Keeps opts.limits total (do
        writeMetaEntry env opts entry
        pure extracted : Run W H I Extracted) (fun _ v => Level opts.limits total v (admitted + 1) (counted + 1)) s :=
    sees_bind (writeMetaEntry_keeps h hadmitted hcounted) fun _ t ht hlevel => sees_pure ht hlevel
  have hskip : Keeps opts.limits total (do
        recordUnmaterialized env entry
        pure extracted : Run W H I Extracted) (fun _ v => Level opts.limits total v (admitted + 1) (counted + 1)) s :=
    sees_bind (recordUnmaterialized_keeps h hadmitted hcounted entry) fun _ t ht hlevel => sees_pure ht hlevel
  unfold extractEntry
  simp only
  cases entry.entryType with
  | file =>
    refine sees_bind (fileTarget_keeps h hadmitted hcounted _) fun target t ht hpost => ?_
    cases target with
    | none => exact sees_pure ht hpost
    | some outPath => exact sees_bind (readIntoFile_keeps hpost hcounted) fun wrote u hu hlevel => sees_pure hu hlevel
  | hardlink link =>
    simp only
    split
    · exact hskip
    · split
      · refine sees_bind (fileTarget_keeps h hadmitted hcounted _) fun target t ht hpost => ?_
        cases target with
        | none => exact sees_pure ht hpost
        | some outPath => exact sees_bind (writeHardLink_keeps hpost hcounted) fun _ u hu hlevel => sees_pure hu hlevel
      · exact hmaterialize _
  | symlink link =>
    simp only
    split
    · split
      · exact hmaterialize _
      · exact hskip
    · exact hmeta
  | dir => exact hmeta
  | other => exact hmeta

/-- After some entries so many have been admitted and counted. -/
theorem extractAll_keeps {metas entries : List EntryMeta} {extracted : Extracted} {n : Nat}
    (h : Level opts.limits total s.view n n) (hroom : n + entries.length ≤ maxU64) :
    Keeps opts.limits total (extractAll env opts metas entries extracted)
      (fun _ v => Level opts.limits total v (n + entries.length) (n + entries.length)) s := by
  induction entries generalizing s extracted n with
  | nil => exact sees_pure h.kept h
  | cons entry rest ih =>
    simp only [List.length_cons] at hroom ⊢
    refine sees_bind (extractEntry_keeps h (by omega) (by omega)) fun extracted t _ hlevel => ?_
    have hrest := @ih _ extracted _ hlevel (by omega)
    rw [Nat.add_right_comm] at hrest
    exact hrest

/-! ## Runs -/

/-- What is done to directories at the end reports no bytes. -/
theorem restore_keeps {directories : DeferredDirectories H I} {pending : List (I × DirectoryMetadata)}
    (h : Level limits total s.view admitted counted) : Keeps limits total (directories.restore env opts pending)
      (fun _ v => Level limits total v admitted counted ∧ v.sink = s.view.sink) s := by
  induction pending generalizing s with
  | nil => exact sees_pure h.kept ⟨h, rfl⟩
  | cons directory rest ih =>
    obtain ⟨expected, metadata⟩ := directory
    refine (checkpoint_blind env).sees_bind h.kept fun _ t ht => ?_
    rw [← ht] at h ⊢
    refine sees_bind (report_keeps (P := fun _ v => Level limits total v admitted counted ∧ v.sink = t.view.sink) h.kept
      (h.complete 0 metadata.entry).kept ⟨h.complete 0 metadata.entry, rfl⟩) fun _ u hu hpost => ?_
    obtain ⟨hlevel, hsink⟩ := hpost
    refine (checkpoint_blind env).sees_bind hu fun _ v hv => (call_blind _).sees_bind (hv ▸ hu) fun handle w hw =>
      (call_blind _).sees_bind (hw ▸ hv ▸ hu) fun identity x hx => ?_
    rw [← hv, ← hw, ← hx] at hlevel hsink
    split
    · exact sees_fail hlevel.kept
    · refine (restoreModified_blind env _ _).sees_bind hlevel.kept fun _ y hy => ?_
      rw [← hy] at hlevel hsink
      refine (restorePermissions_blind env opts _ _).sees_bind hlevel.kept fun _ z hz => ?_
      rw [← hz] at hlevel hsink
      exact (ih hlevel).post fun _ v _ hv => ⟨hv.1, hv.2.trans hsink⟩

theorem finish_keeps (h : Level limits total s.view admitted counted) :
    Keeps limits total (finish env opts) (fun r v => r = v.sink.report ∧ Level limits total v admitted counted) s := by
  refine (checkpoint_blind env).sees_bind h.kept fun _ t ht => ?_
  rw [← ht] at h
  refine getSink_keeps h.kept ?_
  have hend {all : UInt64} {u : State W H I} (hlevel : Level limits total u.view admitted counted)
      (hsink : u.view.sink = t.view.sink) : Keeps limits total (do
        checkpoint env
        report ⟨all, all, .fromUtf8 "", none⟩
        pure t.view.sink.report : Run W H I ExtractReport)
      (fun r v => r = v.sink.report ∧ Level limits total v admitted counted) u := by
    refine (checkpoint_blind env).sees_bind hlevel.kept fun _ v hv => ?_
    rw [← hv] at hlevel hsink
    have hcomplete := hlevel.complete all (.fromUtf8 "")
    refine sees_bind (report_keeps (P := fun _ w => Level limits total w admitted counted ∧ w.sink = t.view.sink) hlevel.kept
      hcomplete.kept ⟨hcomplete, hsink⟩) fun _ w hw hpost => ?_
    exact sees_pure hw ⟨by rw [hpost.2], hpost.1⟩
  dsimp only
  split
  · exact sees_bind (restore_keeps h) fun _ u _ hpost => hend hpost.1 hpost.2
  · exact hend h rfl


/-- The books of a run over the entries of an archive. -/
theorem extractEntries_keeps {metas : List EntryMeta} {dest : DestPath} {selection : Option (List EntryPath)} {world : W}
    {sequence : Nat} (hroom : (metas.filter (selectedBy selection)).length ≤ maxU64) :
    Keeps opts.limits (totalSize (metas.filter (selectedBy selection)))
      (extractEntries env opts (.ok metas) dest selection)
      (fun r v => r = v.sink.report ∧ Level opts.limits (totalSize (metas.filter (selectedBy selection))) v
        (metas.filter (selectedBy selection)).length (metas.filter (selectedBy selection)).length)
      (State.start world sequence opts.limits dest : State W H I) := by
  unfold extractEntries
  split
  · rename_i hselection
    have hnone : metas.filter (selectedBy selection) = [] := by
      rw [List.filter_eq_nil_iff, hselection]
      intro entry _ hselected
      cases hselected
    rw [hnone]
    exact emptyExtractReport_keeps.post fun r v _ h => ⟨h.1, h.2 rfl⟩
  · show Keeps opts.limits (totalSize (metas.filter (selectedBy selection))) (do
        ExtractSink.new env opts dest (totalSize (metas.filter (selectedBy selection)))
        extractAll env opts metas (metas.filter (selectedBy selection)) []
        finish env opts) _ _
    refine sees_bind new_keeps fun _ t _ hlevel => ?_
    rw [← Nat.zero_add (metas.filter (selectedBy selection)).length] at hroom ⊢
    exact sees_bind (extractAll_keeps hlevel hroom) fun _ u _ hlevel => finish_keeps hlevel

/-- The items of a stream that are selected. -/
def selectedItems (selection : Option (List EntryPath)) (items : List (Res StreamEntry)) : Nat :=
  items.countP fun item => match item with
    | .ok item => selectedBy selection item.entry
    | .error _ => false

theorem extractStreamEntry_keeps {item : StreamEntry} (h : Level opts.limits total s.view admitted counted)
    (hadmitted : admitted < maxU64) (hcounted : counted < maxU64) :
    Keeps opts.limits total (extractStreamEntry env opts item)
      (fun _ v => Level opts.limits total v (admitted + 1) (counted + 1)) s := by
  unfold extractStreamEntry
  cases item.entry.entryType with
  | file =>
    refine sees_bind (fileTarget_keeps h hadmitted hcounted _) fun target t ht hpost => ?_
    cases target with
    | none => exact sees_pure ht hpost
    | some outPath => exact sees_bind (writeFile_keeps hpost hcounted) fun _ u hu hlevel => sees_pure hu hlevel
  | dir => exact writeMetaEntry_keeps h hadmitted hcounted
  | symlink link => exact writeMetaEntry_keeps h hadmitted hcounted
  | hardlink link => exact writeMetaEntry_keeps h hadmitted hcounted
  | other => exact writeMetaEntry_keeps h hadmitted hcounted

theorem extractStreamAll_keeps {selection : Option (List EntryPath)} {items : List (Res StreamEntry)} {n : Nat}
    (h : Level opts.limits total s.view n n) (hroom : n + items.length ≤ maxU64) :
    Keeps opts.limits total (extractStreamAll env opts selection items) (fun _ v =>
      Level opts.limits total v (n + selectedItems selection items) (n + selectedItems selection items)) s := by
  induction items generalizing s n with
  | nil => exact sees_pure h.kept h
  | cons item rest ih =>
    simp only [List.length_cons] at hroom
    cases item with
    | error e => exact sees_fail h.kept
    | ok item =>
      by_cases hselected : selectedBy selection item.entry
      · have hcount : selectedItems selection (.ok item :: rest) = selectedItems selection rest + 1 :=
          List.countP_cons_of_pos hselected
        have hstep : extractStreamAll env opts selection (.ok item :: rest) = (do
            extractStreamEntry env opts item
            extractStreamAll env opts selection rest) := by
          rw [extractStreamAll]
          exact if_pos hselected
        rw [hstep, hcount, ← Nat.add_assoc, Nat.add_right_comm]
        exact sees_bind (extractStreamEntry_keeps h (by omega) (by omega)) fun _ t _ hlevel => ih hlevel (by omega)
      · have hcount : selectedItems selection (.ok item :: rest) = selectedItems selection rest :=
          List.countP_cons_of_neg hselected
        have hstep : extractStreamAll env opts selection (.ok item :: rest) = extractStreamAll env opts selection rest := by
          rw [extractStreamAll]
          exact if_neg hselected
        rw [hstep, hcount]
        exact ih h (by omega)

/-- The books of a run over the entries of a stream. -/
theorem extractStream_keeps {items : List (Res StreamEntry)} {validateStreamEnd : Call W FormatError Unit}
    {dest : DestPath} {selection : Option (List EntryPath)} {world : W} {sequence : Nat} (hroom : items.length ≤ maxU64) :
    Keeps opts.limits total (extractStream env opts items total validateStreamEnd dest selection)
      (fun r v => r = v.sink.report ∧ (selection ≠ some [] → Level opts.limits total v (selectedItems selection items)
        (selectedItems selection items)))
      (State.start world sequence opts.limits dest : State W H I) := by
  unfold extractStream
  split
  · rename_i hselection
    exact emptyExtractReport_keeps.post fun r v _ h => ⟨h.1, fun hsome => absurd hselection hsome⟩
  · refine sees_bind new_keeps fun _ t _ hlevel => ?_
    rw [← Nat.zero_add items.length] at hroom
    refine sees_bind (extractStreamAll_keeps hlevel hroom) fun _ u hu hlevel => ?_
    rw [Nat.zero_add] at hlevel
    refine (callRes_blind _ _).sees_bind hu fun _ v hv => ?_
    rw [← hv] at hlevel
    exact (finish_keeps hlevel).post fun r v _ h => ⟨h.1, fun _ => h.2⟩

end

end Squallz.Extract
