/-
What the limits and the counters of an extraction come to: every entry is counted once, the bytes that are written stay
within the limits, and progress stays within its total where sizes are as declared.
-/
import Squallz.Extract.Totals

namespace Squallz.Extract

open Squallz.Api Squallz.System Squallz.System.Prog

/-! ## Ledgers -/

/-- What is published has been written, and so has the file that is being written. -/
theorem Ledger.published_le (events : List Event) : (ofEvents events).published +
    ((ofEvents events).current.map fun file => file.2.2).getD 0 ≤ (ofEvents events).written := by
  induction events using List.reverseRecOn with
  | nil => exact Nat.le_refl _
  | append_singleton events event ih =>
    rw [ofEvents_append]
    generalize ofEvents events = ledger at ih ⊢
    obtain ⟨current, written, passedOver, published⟩ := ledger
    cases event with
    | staged path decoded =>
      exact Nat.le_trans (Nat.add_le_add_left (Nat.zero_le _) _) ih
    | passedOver size => exact ih
    | wrote path bytes =>
      cases current with
      | none => exact Nat.le_trans ih (Nat.le_add_right _ _)
      | some file =>
        simp only [record, Option.map_some, Option.getD_some] at ih ⊢
        split
        · simp only
          omega
        · omega
    | published source target =>
      cases current with
      | none => exact ih
      | some file =>
        obtain ⟨path, decoded, bytes⟩ := file
        simp only [record, Option.map_some, Option.getD_some] at ih ⊢
        split
        · exact ih
        · exact ih
    | discarded path =>
      cases current with
      | none => exact ih
      | some file =>
        simp only [record, Option.map_some, Option.getD_some, Option.filter_some] at ih ⊢
        split
        · exact ih
        · simp only [Option.map_none, Option.getD_none]
          omega

/-! ## Archives that put up no resistance -/

abbrev compliant (data : Stream) : Environment Unit Unit Unit := willing data

def fullChunk : Chunk := ⟨List.replicate copyChunk 0, by rw [List.length_replicate]⟩

theorem length_fullChunk : fullChunk.bytes.length = copyChunk := List.length_replicate

theorem addEntryOutputBytes_unlimited {accountant : LimitsAccountant} {entry : EntryMeta} {bytes n : UInt64}
    (hlimits : accountant.limits = unlimited.limits) (hentry : entry.compressedSize = none) :
    accountant.addEntryOutputBytes entry bytes n =
      (.ok (saturatingAdd bytes n), { accountant with outputBytes := saturatingAdd accountant.outputBytes n }) := by
  have hle : ¬accountant.limits.maxOutputBytes < saturatingAdd accountant.outputBytes n := by
    rw [hlimits, UInt64.not_lt, UInt64.le_iff_toNat_le]
    exact toNat_le_maxU64 _
  have hratio : LimitsAccountant.ratioOf entry (saturatingAdd bytes n) = none := by
    unfold LimitsAccountant.ratioOf
    simp [hentry]
  unfold LimitsAccountant.addEntryOutputBytes LimitsAccountant.addOutputBytes
  simp only [if_neg hle, hratio, Option.filter_none]

theorem run_charge {W H I α : Type} {f : LimitsAccountant → Except FormatError α × LimitsAccountant} {s : State W H I}
    {a : α} {accountant : LimitsAccountant} (h : f s.sink.accountant = (.ok a, accountant)) :
    (charge f : Run W H I α).run s = (.ok a, { s with sink := { s.sink with accountant := accountant } }) := by
  rw [charge, Prog.run_bind, getSink, Prog.run]
  dsimp only [Prog.run_ret, id]
  rw [Prog.run_bind, modifySink, Prog.run_update]
  dsimp only
  rw [h]
  rfl

/-- So many bytes of a file have been written, and nothing else has been done. -/
structure Writing (staged : DestPath) (n : Nat) (s : State Unit Unit Unit) : Prop where
  ledger_eq : ∃ decoded, Ledger.ofEvents s.events = ⟨some (staged, decoded, n), n, 0, 0⟩
  limits_eq : s.sink.accountant.limits = unlimited.limits
  directories_eq : s.sink.directories = none

theorem Writing.wrote {staged : DestPath} {n : Nat} {s t : State Unit Unit Unit} (h : Writing staged n s)
    {bytes : List UInt8} (hevents : t.events = s.events ++ [.wrote staged bytes])
    (hlimits : t.sink.accountant.limits = s.sink.accountant.limits) (hdirectories : t.sink.directories = s.sink.directories) :
    Writing staged (n + bytes.length) t where
  ledger_eq := by
    obtain ⟨decoded, hledger⟩ := h.ledger_eq
    refine ⟨decoded, ?_⟩
    rw [hevents, Ledger.ofEvents_append, hledger]
    simp [Ledger.record]
  limits_eq := hlimits.trans h.limits_eq
  directories_eq := hdirectories.trans h.directories_eq

theorem copyChunks_compliant {data : Stream} {chunk : Chunk} (hchunk : chunk.bytes ≠ []) {entry : EntryMeta}
    (hentry : entry.compressedSize = none) {staged : DestPath} {entryStart : UInt64} (k n : Nat) (written : UInt64)
    (s : State Unit Unit Unit) (h : Writing staged n s) :
    (copyChunks (compliant data) entry staged () entryStart written (List.replicate k (.ok chunk))).Succeeds
      (fun r t => (∃ w, r = .ok w) ∧ Writing staged (n + k * chunk.bytes.length) t) s := by
  induction k generalizing n written s with
  | zero =>
    rw [Nat.zero_mul]
    exact ⟨.ok written, s, rfl, ⟨written, rfl⟩, h⟩
  | succ k ih =>
    rw [List.replicate_succ]
    refine succeeds_then (a := ()) (t := s) rfl ?_
    rw [if_neg hchunk]
    refine succeeds_then (run_charge (addEntryOutputBytes_unlimited h.limits_eq hentry)) ?_
    refine succeeds_then (a := ()) rfl (succeeds_then (a := ()) rfl (succeeds_then (a := ()) rfl (succeeds_then rfl
      (succeeds_then (a := ()) rfl ?_))))
    have hnext : n + (k + 1) * chunk.bytes.length = n + chunk.bytes.length + k * chunk.bytes.length := by
      rw [Nat.add_mul, Nat.one_mul]
      omega
    rw [hnext]
    exact ih _ _ _ (h.wrote rfl rfl rfl)

theorem succeeds_onFailure {W H I α : Type} {cleanup : Run W H I Unit} {body : Run W H I α} {P : α → State W H I → Prop}
    {s : State W H I} (h : body.Succeeds P s) : (onFailure cleanup body).Succeeds P s := by
  refine succeeds_bind (succeeds_attempt h) ?_
  rintro r t ⟨a, rfl, ha⟩
  exact ⟨a, t, rfl, ha⟩

/-- So many bytes have been published. -/
def Published (n : Nat) (s : State Unit Unit Unit) : Prop :=
  (Ledger.ofEvents s.events).published = n ∧ s.sink.directories = none

theorem run_restoreFile (data : Stream) (entry : EntryMeta) (s : State Unit Unit Unit) :
    (restoreFile (compliant data) unlimited () entry).run s = (.ok (), s) := by
  have hpermissions : (restorePermissions (compliant data) unlimited () entry.unixMode : Run Unit Unit Unit Unit).run s =
      (.ok (), s) := by
    cases entry.unixMode with
    | none => rfl
    | some mode => rfl
  unfold restoreFile restoreModified
  cases entry.modified with
  | none => exact hpermissions
  | some modified => exact hpermissions

theorem commit_compliant {data : Stream} {staged target : DestPath} {replaceExisting : Bool} {n : Nat}
    {s : State Unit Unit Unit} (h : Writing staged n s) :
    (commit (compliant data) staged target replaceExisting .file).Succeeds (fun _ t => Published n t) s := by
  have hpublished : Published n { s with events := s.events ++ [.published staged target] } := by
    obtain ⟨decoded, hledger⟩ := h.ledger_eq
    refine ⟨?_, h.directories_eq⟩
    show (Ledger.ofEvents (s.events ++ [.published staged target])).published = n
    rw [Ledger.ofEvents_append, hledger]
    simp [Ledger.record]
  cases replaceExisting with
  | true => exact ⟨(), _, rfl, hpublished⟩
  | false => exact ⟨(), _, rfl, hpublished⟩

theorem writeFile_compliant {data : Stream} {chunk : Chunk} (hchunk : chunk.bytes ≠ []) {entry : EntryMeta}
    (hentry : entry.compressedSize = none) {outPath : DestPath} (k : Nat)
    {s : State Unit Unit Unit} (hledger : Ledger.ofEvents s.events = .empty)
    (hlimits : s.sink.accountant.limits = unlimited.limits) (hdirectories : s.sink.directories = none) :
    (writeFile (compliant data) unlimited false entry outPath (List.replicate k (.ok chunk))).Succeeds
      (fun _ t => Published (k * chunk.bytes.length) t) s := by
  refine succeeds_bind (P := fun r t => ∃ resolved written, r = some (resolved, written) ∧
    Published (k * chunk.bytes.length) t) ?_ ?_
  · refine succeeds_then rfl (succeeds_then rfl (succeeds_then rfl ?_))
    refine succeeds_bind (succeeds_onFailure (P := fun r t => ∃ written, r = some written ∧
      Published (k * chunk.bytes.length) t) ?_) ?_
    · refine succeeds_then (a := copyChunk) rfl ?_
      refine succeeds_bind (copyChunks_compliant hchunk hentry k 0 0 _ ⟨⟨some entry, ?_⟩, hlimits, hdirectories⟩) ?_
      · show Ledger.ofEvents (s.events ++ [.staged _ (some entry)]) = _
        rw [Ledger.ofEvents_append, hledger]
        rfl
      · rintro r t ⟨⟨written, rfl⟩, hwriting⟩
        refine succeeds_then (a := ()) rfl (succeeds_then (run_restoreFile data entry _) ?_)
        exact succeeds_bind (commit_compliant hwriting) fun _ u hu => ⟨some written, u, rfl, written, rfl,
          Nat.zero_add (k * chunk.bytes.length) ▸ hu⟩
    · rintro r t ⟨written, rfl, ht⟩
      exact ⟨some (_, written), t, rfl, _, written, rfl, ht⟩
  · rintro r t ⟨resolved, written, rfl, hpublished, hdirectories⟩
    refine ⟨true, _, rfl, hpublished, ?_⟩
    show (addMaterializedFile entry outPath t.sink).directories = none
    unfold addMaterializedFile
    split
    · exact hdirectories
    · exact hdirectories

theorem published_compliant {chunk : Chunk} (hchunk : chunk.bytes ≠ []) (k : Nat) :
    (extractEntries (compliant (List.replicate k (.ok chunk))) unlimited (.ok [plainFile 0]) [] none).Succeeds
      (fun _ t => (Ledger.ofEvents t.events).published = k * chunk.bytes.length)
      (State.start () 0 unlimited.limits []) := by
  have hwrite := fun data outPath s => @writeFile_compliant data chunk hchunk (plainFile 0) rfl outPath k s
  generalize List.replicate k (Except.ok chunk) = data at hwrite ⊢
  refine succeeds_then (a := [plainFile 0]) rfl (succeeds_then (a := ()) rfl ?_)
  refine succeeds_bind (P := fun _ t => Published (k * chunk.bytes.length) t) (succeeds_bind (P := fun _ t => Published
    (k * chunk.bytes.length) t) (succeeds_then (a := some ["a"]) rfl ?_) ?_) ?_
  · refine succeeds_bind (P := fun _ t => Published (k * chunk.bytes.length) t) (succeeds_then (a := .ok data) rfl ?_) ?_
    · refine succeeds_bind (hwrite data ["a"] _ rfl rfl rfl) fun wrote t ht => ?_
      exact ⟨wrote, t, rfl, ht⟩
    · rintro wrote t ht
      exact ⟨_, t, rfl, ht⟩
  · rintro extracted t ht
    exact ⟨_, t, rfl, ht⟩
  · rintro _ t ⟨hpublished, hdirectories⟩
    refine succeeds_then (a := ()) rfl (succeeds_then (a := t.sink) rfl ?_)
    rw [hdirectories]
    exact ⟨_, _, rfl, hpublished⟩

/-! ## Links that are copied -/

theorem addOutputBytes_unlimited {accountant : LimitsAccountant} {n : UInt64}
    (hlimits : accountant.limits = unlimited.limits) : accountant.addOutputBytes n =
      (.ok (), { accountant with outputBytes := saturatingAdd accountant.outputBytes n }) := by
  have hle : ¬accountant.limits.maxOutputBytes < saturatingAdd accountant.outputBytes n := by
    rw [hlimits, UInt64.not_lt, UInt64.le_iff_toNat_le]
    exact toNat_le_maxU64 _
  unfold LimitsAccountant.addOutputBytes
  simp only [if_neg hle]

theorem copyFromDisk_compliant {data : Stream} {chunk : Chunk} (hchunk : chunk.bytes ≠ []) {entry : EntryMeta}
    {staged : DestPath} {length : UInt64} (k n : Nat) (written : UInt64) (s : State Unit Unit Unit)
    (h : Writing staged n s) :
    (copyFromDisk (compliant data) entry staged () length written (List.replicate k (.ok chunk))).Succeeds
      (fun _ t => Writing staged (n + k * chunk.bytes.length) t) s := by
  induction k generalizing n written s with
  | zero =>
    rw [Nat.zero_mul]
    exact ⟨written, s, rfl, h⟩
  | succ k ih =>
    rw [List.replicate_succ]
    refine succeeds_then (a := ()) (t := s) rfl ?_
    rw [if_neg hchunk]
    refine succeeds_then (run_charge (addOutputBytes_unlimited h.limits_eq)) ?_
    refine succeeds_then (a := ()) rfl (succeeds_then (a := ()) rfl (succeeds_then (a := ()) rfl
      (succeeds_then (a := ()) rfl ?_)))
    have hnext : n + (k + 1) * chunk.bytes.length = n + chunk.bytes.length + k * chunk.bytes.length := by
      rw [Nat.add_mul, Nat.one_mul]
      omega
    rw [hnext]
    exact ih _ _ _ (h.wrote rfl rfl rfl)

/-- A file named a and a symbolic link to it named b, each of one compressed byte. -/
def packedFile : EntryMeta := ⟨.fromUtf8 "a", .file, 0, some 1, none, none, none, false⟩

def packedLink : EntryMeta := ⟨.fromUtf8 "b", .symlink [97], 0, some 1, none, none, none, false⟩

def following : ExtractOptions := { unlimited with symlinks := .follow }

theorem copied_compliant {chunk : Chunk} (hchunk : chunk.bytes ≠ []) (k : Nat) :
    (extractStream (compliant (List.replicate k (.ok chunk))) following [.ok ⟨packedFile, []⟩, .ok ⟨packedLink, []⟩] 0
      (fun w => (.ok (), w)) [] none).Succeeds
      (fun _ t => (Ledger.ofEvents t.events).published = k * chunk.bytes.length)
      (State.start () 0 following.limits []) := by
  have hcopy := fun data entry staged length s => @copyFromDisk_compliant data chunk hchunk entry staged length k 0 0 s
  generalize List.replicate k (Except.ok chunk) = data at hcopy ⊢
  refine succeeds_then (a := ()) rfl ?_
  refine succeeds_bind (P := fun _ t => Published (k * chunk.bytes.length) t) (succeeds_then
    (p := extractStreamEntry (compliant data) following ⟨packedFile, []⟩) (a := ()) rfl (succeeds_bind
    (p := extractStreamEntry (compliant data) following ⟨packedLink, []⟩)
    (P := fun _ t => Published (k * chunk.bytes.length) t) ?_ fun _ t ht => ⟨(), t, rfl, ht⟩)) ?_
  · refine succeeds_then (a := ["b"]) rfl (succeeds_then rfl (succeeds_then (a := ()) rfl (succeeds_then rfl ?_)))
    refine succeeds_then (p := validatedMaterializedSource (compliant data) ["a"]) (a := some ["a"]) rfl ?_
    refine succeeds_then (a := (0, none)) rfl (succeeds_then (a := some ⟨["b"], true, .replaced⟩) rfl
      (succeeds_then (a := ()) rfl ?_))
    refine succeeds_bind (p := publishCopy (compliant data) following packedLink ["a"] ["b"] 0 none true)
      (P := fun _ t => Published (k * chunk.bytes.length) t) ?_ fun written t ht => ⟨(), _, rfl, ht⟩
    refine succeeds_then (a := data) rfl (succeeds_then rfl ?_)
    refine succeeds_onFailure (succeeds_then (a := copyChunk) rfl ?_)
    refine succeeds_bind (hcopy data packedLink _ 0 _ ⟨⟨none, ?_⟩, rfl, rfl⟩) ?_
    · show Ledger.ofEvents [.staged _ _, .published _ _, .staged _ _] = _
      simp [Ledger.ofEvents, Ledger.record, Ledger.empty]
    rintro written t hwriting
    refine succeeds_then (a := ()) rfl (succeeds_then (run_restoreFile data _ _) ?_)
    exact succeeds_bind (commit_compliant hwriting) fun _ u hu => ⟨written, u, rfl, Nat.zero_add (k * chunk.bytes.length) ▸ hu⟩
  · rintro _ t ⟨hpublished, hdirectories⟩
    refine succeeds_then (a := ()) rfl (succeeds_then (a := ()) rfl (succeeds_then (a := t.sink) rfl ?_))
    rw [hdirectories]
    exact ⟨_, _, rfl, hpublished⟩

/-! ## Counters -/

theorem length_selected_le {metas : List EntryMeta} (selection : Option (List EntryPath)) (hlen : metas.length < 2 ^ 64) :
    (metas.filter (selectedBy selection)).length ≤ maxU64 :=
  Nat.le_trans (List.length_filter_le _ _) (Nat.le_pred_of_lt hlen)

section

variable {W H I : Type} [DecidableEq I]

/-- A run over an archive that completes has counted each selected entry once, and the bytes that it reports are those of
the files that it has published, or the largest number where there are more. -/
theorem extraction_accounted (env : Environment W H I) (opts : ExtractOptions) (metas : List EntryMeta) (dest : DestPath)
    (selection : Option (List EntryPath)) (world : W) (sequence : Nat) (report : ExtractReport) (t : State W H I)
    (hlen : metas.length < 2 ^ 64)
    (hrun : (extractEntries env opts (.ok metas) dest selection).run (.start world sequence opts.limits dest) =
      (.ok report, t)) :
    report.selectedEntries.toNat = (metas.filter (selectedBy selection)).length ∧
      report.created.toNat + report.directories.toNat + report.skipped.toNat + report.replaced.toNat +
        report.renamed.toNat + report.failed.toNat = report.selectedEntries.toNat ∧
      report.outputBytes.toNat = min (Ledger.ofEvents t.events).published (2 ^ 64 - 1) ∧
      report.outputBytes ≤ opts.limits.maxOutputBytes := by
  have hroom := length_selected_le selection hlen
  obtain ⟨rfl, book, hgood, hbalanced, hadmitted, hcounted⟩ := (extractEntries_keeps hroom).run_eq_ok hrun
  have hselected := hgood.selected_eq
  have hcount := hgood.counted_eq
  have hbytes := hgood.reported_eq
  have hlimit := hgood.outputBytes_le
  have hcharged := hbalanced.charged_eq
  rw [hgood.outputBytes_eq] at hlimit
  have hle := Ledger.published_le t.events
  have hledger : Ledger.ofEvents t.events = book.toLedger := hgood.ledger_eq
  rw [hledger] at hle ⊢
  rw [hadmitted] at hselected
  rw [hcounted] at hcount
  rw [hbalanced.reported_eq] at hbytes
  refine ⟨hselected, hcount.trans hselected.symm, hbytes, ?_⟩
  rw [UInt64.le_iff_toNat_le, hbytes]
  omega

end

theorem extraction_accounted_byte : ∃ report t, (extractEntries (compliant [.ok ⟨[7], by decide⟩]) unlimited
    (.ok [plainFile 0]) [] none).run (.start () 0 unlimited.limits []) = (.ok report, t) ∧
      report.selectedEntries.toNat = 1 ∧
      report.created.toNat + report.directories.toNat + report.skipped.toNat + report.replaced.toNat +
        report.renamed.toNat + report.failed.toNat = 1 ∧ report.outputBytes.toNat = 1 := by
  obtain ⟨report, t, hrun, hpublished⟩ := @published_compliant ⟨[7], by decide⟩ (List.cons_ne_nil _ _) 1
  obtain ⟨hselected, hcounted, hbytes, -⟩ := extraction_accounted (compliant [.ok ⟨[7], by decide⟩]) unlimited
    [plainFile 0] [] none () 0 report t (by decide) hrun
  refine ⟨report, t, hrun, hselected, hcounted.trans hselected, ?_⟩
  rw [hbytes, hpublished]
  rfl

/-- A file of 2^64 bytes is published. -/
theorem published_full : (extractEntries (compliant (List.replicate (2 ^ 48) (.ok fullChunk))) unlimited
    (.ok [plainFile 0]) [] none).Succeeds (fun _ t => (Ledger.ofEvents t.events).published = 2 ^ 64)
    (.start () 0 unlimited.limits []) := by
  have hpublished := @published_compliant fullChunk
    (List.ne_nil_of_length_pos (by rw [length_fullChunk]; exact Nat.succ_pos _)) (2 ^ 48)
  rw [length_fullChunk] at hpublished
  exact hpublished

/-- A file of 2^64 bytes is reported as one byte less. -/
theorem output_bytes_saturate : ∃ report t, (extractEntries (compliant (List.replicate (2 ^ 48) (.ok fullChunk))) unlimited
    (.ok [plainFile 0]) [] none).run (.start () 0 unlimited.limits []) = (.ok report, t) ∧
      report.outputBytes.toNat ≠ (Ledger.ofEvents t.events).published := by
  obtain ⟨report, t, hrun, hpublished⟩ := published_full
  refine ⟨report, t, hrun, ?_⟩
  rw [hpublished]
  exact Nat.ne_of_lt report.outputBytes.toNat_lt

/-! ## Limits -/

/-- The bytes and the entries of a run are within the limits, and so is the ratio of the file that is being written. -/
structure WithinLimits {W H I : Type} (limits : SafetyLimits) (t : State W H I) : Prop where
  /-- The largest number is no limit: the counter of bytes stops there. -/
  written_le : limits.maxOutputBytes.toNat < 2 ^ 64 - 1 →
    (Ledger.ofEvents t.events).written ≤ limits.maxOutputBytes.toNat
  selected_le : t.sink.report.selectedEntries ≤ limits.maxEntries
  ratio : ∀ path entry bytes compressed, (Ledger.ofEvents t.events).current = some (path, some entry, bytes) →
    entry.compressedSize = some compressed → 1024 * 1024 < min bytes (2 ^ 64 - 1) →
    min bytes (2 ^ 64 - 1) / max compressed.toNat 1 ≤ limits.maxCompressionRatio.toNat

theorem Kept.withinLimits {W H I : Type} {limits : SafetyLimits} {total : UInt64} {t : State W H I}
    (h : Kept limits total t.view) : WithinLimits limits t where
  written_le := h.written_le
  selected_le := UInt64.le_iff_toNat_le.2 h.selected_le
  ratio := fun path entry bytes compressed hcurrent hcompressed hlarge =>
    h.ratio path entry bytes hcurrent compressed hcompressed hlarge

section

variable {W H I : Type} [DecidableEq I]

/-- Whatever an archive or a stream declares and decodes to, every state of a run is within the limits, and a run that
completes has no more entries than they allow. -/
theorem limits_kept (env : Environment W H I) (opts : ExtractOptions) (metas : List EntryMeta)
    (items : List (Res StreamEntry)) (total : UInt64) (validateStreamEnd : Call W FormatError Unit) (dest : DestPath)
    (selection : Option (List EntryPath)) (world : W) (sequence : Nat) (hmetas : metas.length < 2 ^ 64)
    (hitems : items.length < 2 ^ 64) :
    (∀ t, (extractEntries env opts (.ok metas) dest selection).Visits (.start world sequence opts.limits dest) t →
      WithinLimits opts.limits t) ∧
    (∀ t, (extractStream env opts items total validateStreamEnd dest selection).Visits
      (.start world sequence opts.limits dest) t → WithinLimits opts.limits t) ∧
    (∀ report t, (extractEntries env opts (.ok metas) dest selection).run (.start world sequence opts.limits dest) =
      (.ok report, t) → (metas.filter (selectedBy selection)).length ≤ opts.limits.maxEntries.toNat) ∧
    (∀ report t, (extractStream env opts items total validateStreamEnd dest selection).run
      (.start world sequence opts.limits dest) = (.ok report, t) → selection ≠ some [] →
      selectedItems selection items ≤ opts.limits.maxEntries.toNat) := by
  have hroom := length_selected_le selection hmetas
  have hentries := @extractEntries_keeps W H I env opts _ metas dest selection world sequence hroom
  have hstream := @extractStream_keeps W H I env opts total _ items validateStreamEnd dest selection world sequence
    (Nat.le_pred_of_lt hitems)
  refine ⟨fun t ht => (hentries.visits ht).withinLimits, fun t ht => (hstream.visits ht).withinLimits, ?_, ?_⟩
  · intro report t hrun
    obtain ⟨-, book, hgood, -, hadmitted, -⟩ := hentries.run_eq_ok hrun
    exact hadmitted ▸ hgood.selected_eq ▸ hgood.kept.selected_le
  · intro report t hrun hsome
    obtain ⟨-, hlevel⟩ := hstream.run_eq_ok hrun
    obtain ⟨book, hgood, -, hadmitted, -⟩ := hlevel hsome
    exact hadmitted ▸ hgood.selected_eq ▸ hgood.kept.selected_le

end

theorem limits_kept_byte : (∀ t, (extractEntries (compliant [.ok ⟨[7], by decide⟩]) unlimited (.ok [plainFile 0]) []
      none).Visits (.start () 0 unlimited.limits []) t → WithinLimits unlimited.limits t) ∧
    (∀ t, (extractStream (compliant [.ok ⟨[7], by decide⟩]) unlimited [.ok ⟨packedFile, [.ok ⟨[7], by decide⟩]⟩] 0
      (fun w => (.ok (), w)) [] none).Visits (.start () 0 unlimited.limits []) t → WithinLimits unlimited.limits t) := by
  obtain ⟨hentries, hstream, -, -⟩ := limits_kept (compliant [.ok ⟨[7], by decide⟩]) unlimited [plainFile 0]
    [.ok ⟨packedFile, [.ok ⟨[7], by decide⟩]⟩] 0 (fun w => (.ok (), w)) [] none () 0 (by decide) (by decide)
  exact ⟨hentries, hstream⟩

/-- More is written than the largest limit, and a link to a file is copied to two million times the compressed sizes. -/
theorem limits_passed :
    (∃ report t, (extractEntries (compliant (List.replicate (2 ^ 48) (.ok fullChunk))) unlimited (.ok [plainFile 0]) []
      none).run (.start () 0 unlimited.limits []) = (.ok report, t) ∧
      unlimited.limits.maxOutputBytes.toNat < (Ledger.ofEvents t.events).written) ∧
    ∃ report t, (extractStream (compliant (List.replicate 32 (.ok fullChunk))) following
      [.ok ⟨packedFile, []⟩, .ok ⟨packedLink, []⟩] 0 (fun w => (.ok (), w)) [] none).run
      (.start () 0 following.limits []) = (.ok report, t) ∧
      (Ledger.ofEvents t.events).published / 2 > following.limits.maxCompressionRatio.toNat := by
  constructor
  · obtain ⟨report, t, hrun, hpublished⟩ := published_full
    refine ⟨report, t, hrun, ?_⟩
    have hle := Ledger.published_le t.events
    have hmax : unlimited.limits.maxOutputBytes.toNat = 2 ^ 64 - 1 := rfl
    omega
  · have hcopied := @copied_compliant fullChunk
      (List.ne_nil_of_length_pos (by rw [length_fullChunk]; exact Nat.succ_pos _)) 32
    obtain ⟨report, t, hrun, hpublished⟩ := hcopied
    refine ⟨report, t, hrun, ?_⟩
    rw [hpublished, length_fullChunk]
    decide

/-! ## Progress -/

/-- The sum of the declared sizes of the files of a list. -/
def declaredSize (entries : List EntryMeta) : Nat :=
  ((entries.filter fun entry => entry.entryType = .file).map fun entry => entry.size.toNat).sum

theorem toNat_sum (sizes : List UInt64) : sizes.sum.toNat = (sizes.map UInt64.toNat).sum % 2 ^ 64 := by
  induction sizes with
  | nil => rfl
  | cons size sizes ih =>
    rw [List.sum_cons, UInt64.toNat_add, ih, List.map_cons, List.sum_cons, Nat.add_mod_mod]

theorem toNat_totalSize (entries : List EntryMeta) : (totalSize entries).toNat = declaredSize entries % 2 ^ 64 := by
  unfold totalSize declaredSize
  rw [toNat_sum, List.map_map]
  rfl

theorem Reported.le {H I : Type} {total : UInt64} {view : View H I} {progress : Progress} (h : Reported total view progress)
    (hlt : (Ledger.ofEvents view.events).handled < 2 ^ 64) (hle : (Ledger.ofEvents view.events).handled ≤ total.toNat) :
    progress.done ≤ progress.total := by
  rcases h with heq | ⟨htotal, hdone⟩
  · exact heq ▸ UInt64.le_refl _
  · rw [htotal, UInt64.le_iff_toNat_le]
    exact Nat.le_trans (hdone hlt) hle

section

variable {W H I : Type} [DecidableEq I]

/-- Progress stays within its total as long as the declared sizes of the selected files fit into 64 bits and no more is
decoded and passed over than they add up to; and a run that completes has counted right only then. -/
theorem progress_exact_iff (env : Environment W H I) (opts : ExtractOptions) (metas : List EntryMeta) (dest : DestPath)
    (selection : Option (List EntryPath)) (world : W) (sequence : Nat) (hlen : metas.length < 2 ^ 64) :
    (∀ t, (extractEntries env opts (.ok metas) dest selection).Visits (.start world sequence opts.limits dest) t →
      declaredSize (metas.filter (selectedBy selection)) < 2 ^ 64 →
      (Ledger.ofEvents t.events).handled ≤ declaredSize (metas.filter (selectedBy selection)) →
      ∀ progress ∈ t.reports, progress.done ≤ progress.total) ∧
    ∀ report t, (extractEntries env opts (.ok metas) dest selection).run (.start world sequence opts.limits dest) =
        (.ok report, t) →
      ((t.sink.total.toNat = declaredSize (metas.filter (selectedBy selection)) ∧
          t.sink.done.toNat = (Ledger.ofEvents t.events).handled ∧
          ∀ progress ∈ t.reports, progress.done ≤ progress.total) ↔
        declaredSize (metas.filter (selectedBy selection)) < 2 ^ 64 ∧
          (Ledger.ofEvents t.events).handled ≤ declaredSize (metas.filter (selectedBy selection))) := by
  have hroom := length_selected_le selection hlen
  have hkeeps := @extractEntries_keeps W H I env opts _ metas dest selection world sequence hroom
  have htotal := toNat_totalSize (metas.filter (selectedBy selection))
  generalize metas.filter (selectedBy selection) = selected at hkeeps htotal ⊢
  constructor
  · intro t ht hfits hle progress hmem
    rw [Nat.mod_eq_of_lt hfits] at htotal
    exact ((hkeeps.visits ht).reports progress hmem).le (Nat.lt_of_le_of_lt hle hfits) (htotal ▸ hle)
  · intro report t hrun
    obtain ⟨-, book, hgood, hbalanced, -, -⟩ := hkeeps.run_eq_ok hrun
    have hledger : Ledger.ofEvents t.events = book.toLedger := hgood.ledger_eq
    have hsink : t.sink.total = totalSize selected := hgood.total_eq
    constructor
    · rintro ⟨htotal', hdone, hreports⟩
      have hfits : declaredSize selected < 2 ^ 64 := htotal' ▸ t.sink.total.toNat_lt
      have hhandled : (Ledger.ofEvents t.events).handled < 2 ^ 64 := hdone ▸ t.sink.done.toNat_lt
      refine ⟨hfits, ?_⟩
      rw [hledger, ← hbalanced.added_eq, ← hbalanced.announced_eq] at hhandled ⊢
      rcases hgood.announced_eq hhandled with hzero | ⟨progress, hmem, hannounced, htotal''⟩
      · rw [hzero]
        exact Nat.zero_le _
      · have hle := UInt64.le_iff_toNat_le.1 (hreports progress hmem)
        rw [hannounced, htotal'', ← hsink, htotal'] at hle
        exact hle
    · rintro ⟨hfits, hle⟩
      rw [Nat.mod_eq_of_lt hfits] at htotal
      have hhandled : (Ledger.ofEvents t.events).handled < 2 ^ 64 := Nat.lt_of_le_of_lt hle hfits
      refine ⟨hsink ▸ htotal, ?_, fun progress hmem => (hgood.kept.reports progress hmem).le hhandled (htotal ▸ hle)⟩
      rw [hledger, ← hbalanced.added_eq] at hhandled ⊢
      exact hgood.done_eq hhandled

end

/-- A run over a file that is declared with its one byte. -/
def byteRun : Except Fault ExtractReport × State Unit Unit Unit :=
  (extractEntries (compliant [.ok ⟨[7], by decide⟩]) unlimited (.ok [plainFile 1]) [] none).run
    (.start () 0 unlimited.limits [])

theorem progress_exact_iff_byte : byteRun.1.isOk ∧ ∀ progress ∈ byteRun.2.reports, progress.done ≤ progress.total :=
  ⟨by decide +kernel, (progress_exact_iff (compliant [.ok ⟨[7], by decide⟩]) unlimited [plainFile 1] [] none () 0
    (by decide)).1 byteRun.2 (visits_run _ _) (by decide) (by decide +kernel)⟩

/-- A run over two files that are there already and are skipped, each declared with half of 2^64 bytes. -/
def skippingRun : Except Fault ExtractReport × State Unit Unit Unit :=
  (extractEntries (compliant []) { unlimited with overwrite := .skip }
    (.ok [plainFile (2 ^ 63), { plainFile (2 ^ 63) with path := .fromUtf8 "b" }]) [] none).run
    (.start () 0 unlimited.limits [])

/-- The total of the declared sizes is zero, and half of them is reported as done. -/
theorem progress_wraps : skippingRun.1.isOk ∧ skippingRun.2.sink.total = 0 ∧
    ∃ progress ∈ skippingRun.2.reports, progress.total < progress.done := by
  decide +kernel

end Squallz.Extract
