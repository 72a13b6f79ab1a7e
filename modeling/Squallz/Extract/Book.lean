/-
The books of an extraction: what its events add up to, what its counters must say of them, and what each change of the
counters makes of that.
-/
import Squallz.Extract.Blind

namespace Squallz.Extract

open Squallz.Api

/-! ## What events add up to -/

/-- The file that is being written, with its entry and its bytes so far, and the bytes that have been written, passed over
and published. -/
structure Ledger where
  current : Option (DestPath × Option EntryMeta × Nat)
  written : Nat
  passedOver : Nat
  published : Nat

namespace Ledger

/-- The bytes that progress counts. -/
def handled (ledger : Ledger) : Nat := ledger.written + ledger.passedOver

def empty : Ledger := ⟨none, 0, 0, 0⟩

def record (ledger : Ledger) : Event → Ledger
  | .staged path decoded => { ledger with current := some (path, decoded, 0) }
  | .wrote path bytes =>
    { ledger with
      written := ledger.written + bytes.length
      current := ledger.current.map fun file =>
        if file.1 = path then (file.1, file.2.1, file.2.2 + bytes.length) else file }
  | .published source _ =>
    match ledger.current with
    | some (path, _, bytes) =>
      if path = source then { ledger with current := none, published := ledger.published + bytes } else ledger
    | none => ledger
  | .discarded path => { ledger with current := ledger.current.filter fun file => file.1 ≠ path }
  | .passedOver size => { ledger with passedOver := ledger.passedOver + size.toNat }

def ofEvents (events : List Event) : Ledger := events.foldl record empty

@[simp] theorem ofEvents_append (events : List Event) (event : Event) :
    ofEvents (events ++ [event]) = (ofEvents events).record event := by
  unfold ofEvents
  rw [List.foldl_append]
  rfl

end Ledger

/-! ## Numbers -/

/-- The largest number of 64 bits. -/
def maxU64 : Nat := 2 ^ 64 - 1

theorem toNat_le_maxU64 (a : UInt64) : a.toNat ≤ maxU64 := by
  have := a.toNat_lt
  unfold maxU64
  omega

theorem toNat_saturatingAdd (a b : UInt64) : (saturatingAdd a b).toNat = min (a.toNat + b.toNat) maxU64 := by
  unfold saturatingAdd maxU64
  rw [UInt64.toNat_ofNat', Nat.mod_eq_of_lt (by omega)]

theorem toNat_saturatingAdd_one {a : UInt64} (h : a.toNat < maxU64) : (saturatingAdd a 1).toNat = a.toNat + 1 := by
  rw [toNat_saturatingAdd]
  have : (1 : UInt64).toNat = 1 := rfl
  omega

theorem toNat_add_of_lt {a b : UInt64} (h : a.toNat + b.toNat < 2 ^ 64) : (a + b).toNat = a.toNat + b.toNat := by
  rw [UInt64.toNat_add]
  exact Nat.mod_eq_of_lt h

theorem Chunk.toNat_size (chunk : Chunk) : chunk.size.toNat = chunk.bytes.length := by
  have := chunk.length_le
  unfold copyChunk at this
  unfold Chunk.size
  rw [UInt64.toNat_ofNat', Nat.mod_eq_of_lt (by omega)]

/-! ## What is kept -/

section

variable {H I : Type} (limits : SafetyLimits) (total : UInt64)

/-- The ratio of the bytes of an entry is within the limit, where it is checked. -/
def RatioKept (entry : EntryMeta) (bytes : Nat) : Prop :=
  ∀ compressed, entry.compressedSize = some compressed → ratioCheckMinSize.toNat < bytes →
    bytes / max compressed.toNat 1 ≤ limits.maxCompressionRatio.toNat

/-- What is reported has no more done than what has been written and passed over, of a total that never changes, except
where all of it is reported. -/
def Reported (view : View H I) (progress : Progress) : Prop :=
  progress.done = progress.total ∨ progress.total = total ∧
    ((Ledger.ofEvents view.events).handled < 2 ^ 64 → progress.done.toNat ≤ (Ledger.ofEvents view.events).handled)

/-- What holds in every state of a run. -/
structure Kept (view : View H I) : Prop where
  /-- There is a limit of bytes, unless it is the largest number. -/
  written_le : limits.maxOutputBytes.toNat < maxU64 →
    (Ledger.ofEvents view.events).written ≤ limits.maxOutputBytes.toNat
  selected_le : view.sink.report.selectedEntries.toNat ≤ limits.maxEntries.toNat
  ratio : ∀ path entry bytes, (Ledger.ofEvents view.events).current = some (path, some entry, bytes) →
    RatioKept limits entry (min bytes maxU64)
  reports : ∀ progress ∈ view.reports, Reported total view progress

/-- The entries that the counters of outcomes count. -/
def ExtractReport.counted (report : ExtractReport) : Nat :=
  report.created.toNat + report.directories.toNat + report.skipped.toNat + report.replaced.toNat +
    report.renamed.toNat + report.failed.toNat

/-- The numbers that the counters stand for. -/
structure Book extends Ledger where
  admitted : Nat
  counted : Nat
  reported : Nat
  charged : Nat
  added : Nat
  announced : Nat

/-- The counters of a run that has not failed. -/
structure Good (view : View H I) (book : Book) : Prop where
  kept : Kept limits total view
  ledger_eq : Ledger.ofEvents view.events = book.toLedger
  limits_eq : view.sink.accountant.limits = limits
  total_eq : view.sink.total = total
  entries_eq : view.sink.accountant.entries.toNat = book.admitted
  outputBytes_eq : view.sink.accountant.outputBytes.toNat = min book.charged maxU64
  outputBytes_le : view.sink.accountant.outputBytes.toNat ≤ limits.maxOutputBytes.toNat
  written_le : book.written ≤ book.charged
  selected_eq : view.sink.report.selectedEntries.toNat = book.admitted
  counted_eq : view.sink.report.counted = book.counted
  reported_eq : view.sink.report.outputBytes.toNat = min book.reported maxU64
  done_eq : book.added < 2 ^ 64 → view.sink.done.toNat = book.added
  added_le : book.added ≤ book.handled
  /-- What has been announced has been reported. -/
  announced_eq : book.announced < 2 ^ 64 → book.announced = 0 ∨
    ∃ progress ∈ view.reports, progress.done.toNat = book.announced ∧ progress.total = total

variable {limits total} {view : View H I} {book : Book}

/-- The parts of a state that matter for what is kept. -/
theorem Kept.congr {view' : View H I} (h : Kept limits total view) (hevents : view'.events = view.events)
    (hreports : view'.reports = view.reports)
    (hselected : view'.sink.report.selectedEntries = view.sink.report.selectedEntries) : Kept limits total view' where
  written_le := hevents ▸ h.written_le
  selected_le := hselected ▸ h.selected_le
  ratio := hevents ▸ h.ratio
  reports := by
    unfold Reported
    rw [hreports, hevents]
    exact h.reports

/-- A change of the sink that leaves the counters. -/
theorem Good.congr {sink : ExtractSink H I} (h : Good limits total view book)
    (haccountant : sink.accountant = view.sink.accountant) (hreport : sink.report = view.sink.report)
    (hdone : sink.done = view.sink.done) (htotal : sink.total = view.sink.total) :
    Good limits total { view with sink := sink } book where
  kept := h.kept.congr rfl rfl (by rw [hreport])
  ledger_eq := h.ledger_eq
  limits_eq := haccountant ▸ h.limits_eq
  total_eq := htotal.trans h.total_eq
  entries_eq := haccountant ▸ h.entries_eq
  outputBytes_eq := haccountant ▸ h.outputBytes_eq
  outputBytes_le := haccountant ▸ h.outputBytes_le
  written_le := h.written_le
  selected_eq := hreport ▸ h.selected_eq
  counted_eq := hreport ▸ h.counted_eq
  reported_eq := hreport ▸ h.reported_eq
  done_eq := hdone ▸ h.done_eq
  added_le := h.added_le
  announced_eq := h.announced_eq

/-! ## Charges -/

/-- Changing the accountant keeps what is kept. -/
theorem Kept.charge (h : Kept limits total view) (accountant : LimitsAccountant) :
    Kept limits total { view with sink := { view.sink with accountant := accountant } } := h.congr rfl rfl rfl

theorem checkEntry_limits (accountant : LimitsAccountant) (entry : EntryMeta) :
    (accountant.checkEntry entry).2.limits = accountant.limits ∧
      (accountant.checkEntry entry).2.outputBytes = accountant.outputBytes ∧
      (accountant.checkEntry entry).2.entries = accountant.entries + 1 := by
  unfold LimitsAccountant.checkEntry
  simp only
  split
  · exact ⟨rfl, rfl, rfl⟩
  · split
    · exact ⟨rfl, rfl, rfl⟩
    · exact ⟨rfl, rfl, rfl⟩

theorem checkEntry_ok {accountant : LimitsAccountant} {entry : EntryMeta} {u : Unit}
    (h : (accountant.checkEntry entry).1 = .ok u) : accountant.entries + 1 ≤ accountant.limits.maxEntries := by
  unfold LimitsAccountant.checkEntry at h
  simp only at h
  split at h
  · cases h
  · rename_i hle
    exact UInt64.not_lt.1 hle

theorem addOutputBytes_snd (accountant : LimitsAccountant) (n : UInt64) :
    (accountant.addOutputBytes n).2 = { accountant with outputBytes := saturatingAdd accountant.outputBytes n } := by
  unfold LimitsAccountant.addOutputBytes
  simp only
  split
  · rfl
  · rfl

theorem addOutputBytes_ok {accountant : LimitsAccountant} {n : UInt64} {u : Unit}
    (h : (accountant.addOutputBytes n).1 = .ok u) :
    saturatingAdd accountant.outputBytes n ≤ accountant.limits.maxOutputBytes := by
  unfold LimitsAccountant.addOutputBytes at h
  simp only at h
  split at h
  · cases h
  · rename_i hle
    exact UInt64.not_lt.1 hle

theorem addEntryOutputBytes_snd (accountant : LimitsAccountant) (entry : EntryMeta) (bytes n : UInt64) :
    (accountant.addEntryOutputBytes entry bytes n).2 =
      { accountant with outputBytes := saturatingAdd accountant.outputBytes n } := by
  have hsnd := addOutputBytes_snd accountant n
  unfold LimitsAccountant.addEntryOutputBytes
  simp only
  generalize accountant.addOutputBytes n = charged at hsnd ⊢
  obtain ⟨r, accountant'⟩ := charged
  cases r with
  | error e => exact hsnd
  | ok u =>
    simp only
    split
    · exact hsnd
    · exact hsnd

/-- What is charged for an entry is within the limits of bytes and of the ratio. -/
theorem addEntryOutputBytes_ok {accountant : LimitsAccountant} {entry : EntryMeta} {bytes n bytes' : UInt64}
    (h : (accountant.addEntryOutputBytes entry bytes n).1 = .ok bytes') :
    saturatingAdd accountant.outputBytes n ≤ accountant.limits.maxOutputBytes ∧ bytes' = saturatingAdd bytes n ∧
      RatioKept accountant.limits entry bytes'.toNat := by
  have hok := @addOutputBytes_ok accountant n ()
  have hsnd := addOutputBytes_snd accountant n
  unfold LimitsAccountant.addEntryOutputBytes at h
  simp only at h
  generalize accountant.addOutputBytes n = charged at h hok hsnd
  obtain ⟨r, accountant'⟩ := charged
  cases r with
  | error e => cases h
  | ok u =>
    simp only at h hsnd
    split at h
    · cases h
    · rename_i hratio
      cases h
      refine ⟨hok rfl, rfl, ?_⟩
      intro compressed hcompressed hlarge
      unfold LimitsAccountant.ratioOf at hratio
      rw [if_pos (UInt64.lt_iff_toNat_lt.2 hlarge), hcompressed, Option.map_some, Option.filter_eq_none_iff] at hratio
      have hle := hratio _ rfl
      unfold LimitsAccountant.exceeds at hle
      rw [decide_eq_true_eq, hsnd, UInt64.lt_iff_toNat_lt, UInt64.toNat_div, Nat.not_lt] at hle
      have hmax : (max compressed 1).toNat = max compressed.toNat 1 := by
        rw [UInt64.toNat_max]
        rfl
      rw [hmax] at hle
      exact hle

/-- Bytes are charged. -/
theorem Good.charge (h : Good limits total view book) {n : UInt64}
    (hle : saturatingAdd view.sink.accountant.outputBytes n ≤ view.sink.accountant.limits.maxOutputBytes) :
    Good limits total { view with sink := { view.sink with accountant :=
      { view.sink.accountant with outputBytes := saturatingAdd view.sink.accountant.outputBytes n } } }
      { book with charged := book.charged + n.toNat } where
  kept := h.kept.charge _
  ledger_eq := h.ledger_eq
  limits_eq := h.limits_eq
  total_eq := h.total_eq
  entries_eq := h.entries_eq
  outputBytes_eq := by
    have hn := toNat_le_maxU64 n
    show (saturatingAdd view.sink.accountant.outputBytes n).toNat = min (book.charged + n.toNat) maxU64
    rw [toNat_saturatingAdd, h.outputBytes_eq]
    omega
  outputBytes_le := by
    have := UInt64.le_iff_toNat_le.1 hle
    rw [h.limits_eq] at this
    exact this
  written_le := Nat.le_trans h.written_le (Nat.le_add_right _ _)
  selected_eq := h.selected_eq
  counted_eq := h.counted_eq
  reported_eq := h.reported_eq
  done_eq := h.done_eq
  added_le := h.added_le
  announced_eq := h.announced_eq

/-- An entry is admitted. -/
theorem Good.admitEntry (h : Good limits total view book) {entry : EntryMeta} {u : Unit}
    (hok : (view.sink.accountant.checkEntry entry).1 = .ok u) (hroom : book.admitted < maxU64) :
    Good limits total { view with sink := { view.sink with
      accountant := (view.sink.accountant.checkEntry entry).2
      report := { view.sink.report with selectedEntries := saturatingAdd view.sink.report.selectedEntries 1 } } }
      { book with admitted := book.admitted + 1 } := by
  obtain ⟨hlimits, houtput, hentries⟩ := checkEntry_limits view.sink.accountant entry
  have hselected : (saturatingAdd view.sink.report.selectedEntries 1).toNat = book.admitted + 1 := by
    rw [toNat_saturatingAdd_one (by rw [h.selected_eq]; exact hroom), h.selected_eq]
  have hcount : (view.sink.accountant.entries + 1).toNat = book.admitted + 1 := by
    unfold maxU64 at hroom
    rw [UInt64.toNat_add, h.entries_eq]
    exact Nat.mod_eq_of_lt (by have : (1 : UInt64).toNat = 1 := rfl; omega)
  have hle : book.admitted + 1 ≤ limits.maxEntries.toNat := by
    have := UInt64.le_iff_toNat_le.1 (checkEntry_ok hok)
    rw [hcount, h.limits_eq] at this
    exact this
  exact {
    kept := {
      written_le := h.kept.written_le
      selected_le := by
        show (saturatingAdd view.sink.report.selectedEntries 1).toNat ≤ _
        rw [hselected]
        exact hle
      ratio := h.kept.ratio
      reports := h.kept.reports }
    ledger_eq := h.ledger_eq
    limits_eq := hlimits.trans h.limits_eq
    total_eq := h.total_eq
    entries_eq := by
      show (view.sink.accountant.checkEntry entry).2.entries.toNat = _
      rw [hentries, hcount]
    outputBytes_eq := by
      show (view.sink.accountant.checkEntry entry).2.outputBytes.toNat = _
      rw [houtput]
      exact h.outputBytes_eq
    outputBytes_le := by
      show (view.sink.accountant.checkEntry entry).2.outputBytes.toNat ≤ _
      rw [houtput]
      exact h.outputBytes_le
    written_le := h.written_le
    selected_eq := hselected
    counted_eq := h.counted_eq
    reported_eq := h.reported_eq
    done_eq := h.done_eq
    added_le := h.added_le
    announced_eq := h.announced_eq }

/-! ## Outcomes -/

/-- A change of the report that counts one entry, with some bytes of content. -/
structure Counts (change : ExtractReport → ExtractReport) (bytes : UInt64) : Prop where
  selected_eq : ∀ report, (change report).selectedEntries = report.selectedEntries
  counted_eq : ∀ report, report.counted < maxU64 → (change report).counted = report.counted + 1
  outputBytes_eq : ∀ report, (change report).outputBytes.toNat = min (report.outputBytes.toNat + bytes.toNat) maxU64

theorem min_maxU64 (a : UInt64) : a.toNat = min (a.toNat + (0 : UInt64).toNat) maxU64 := by
  have hle := toNat_le_maxU64 a
  have hzero : (0 : UInt64).toNat = 0 := rfl
  omega

theorem addSkipped_counts : Counts .addSkipped 0 where
  selected_eq := fun _ => rfl
  counted_eq := fun report h => by
    unfold ExtractReport.counted ExtractReport.addSkipped at *
    simp only [toNat_saturatingAdd_one (show report.skipped.toNat < maxU64 by omega)]
    omega
  outputBytes_eq := fun _ => min_maxU64 _

theorem addDirectory_counts : Counts .addDirectory 0 where
  selected_eq := fun _ => rfl
  counted_eq := fun report h => by
    unfold ExtractReport.counted ExtractReport.addDirectory at *
    simp only [toNat_saturatingAdd_one (show report.directories.toNat < maxU64 by omega)]
    omega
  outputBytes_eq := fun _ => min_maxU64 _

theorem addFailed_counts : Counts .addFailed 0 where
  selected_eq := fun _ => rfl
  counted_eq := fun report h => by
    unfold ExtractReport.counted ExtractReport.addFailed at *
    simp only [toNat_saturatingAdd_one (show report.failed.toNat < maxU64 by omega)]
    omega
  outputBytes_eq := fun _ => min_maxU64 _

theorem addMaterialized_counts (materialization : Materialization) (bytes : UInt64) :
    Counts (.addMaterialized materialization bytes) bytes where
  selected_eq := fun _ => by cases materialization <;> rfl
  counted_eq := fun report h => by
    unfold ExtractReport.counted at *
    cases materialization with
    | created =>
      simp only [ExtractReport.addMaterialized, toNat_saturatingAdd_one (show report.created.toNat < maxU64 by omega)]
      omega
    | replaced =>
      simp only [ExtractReport.addMaterialized, toNat_saturatingAdd_one (show report.replaced.toNat < maxU64 by omega)]
      omega
    | renamed =>
      simp only [ExtractReport.addMaterialized, toNat_saturatingAdd_one (show report.renamed.toNat < maxU64 by omega)]
      omega
  outputBytes_eq := fun _ => by cases materialization <;> exact toNat_saturatingAdd _ _

/-- An entry is counted, with some bytes of content that the report holds if they are not too many. -/
theorem Good.count (h : Good limits total view book) {change : ExtractReport → ExtractReport} {bytes : UInt64} {n : Nat}
    (hcounts : Counts change bytes) (hbytes : bytes.toNat = min n maxU64) (hroom : book.counted < maxU64) :
    Good limits total { view with sink := { view.sink with report := change view.sink.report } }
      { book with counted := book.counted + 1, reported := book.reported + n } where
  kept := h.kept.congr rfl rfl (hcounts.selected_eq _)
  ledger_eq := h.ledger_eq
  limits_eq := h.limits_eq
  total_eq := h.total_eq
  entries_eq := h.entries_eq
  outputBytes_eq := h.outputBytes_eq
  outputBytes_le := h.outputBytes_le
  written_le := h.written_le
  selected_eq := (congrArg UInt64.toNat (hcounts.selected_eq _)).trans h.selected_eq
  counted_eq := by
    show (change view.sink.report).counted = book.counted + 1
    rw [hcounts.counted_eq _ (by rw [h.counted_eq]; exact hroom), h.counted_eq]
  reported_eq := by
    show (change view.sink.report).outputBytes.toNat = min (book.reported + n) maxU64
    rw [hcounts.outputBytes_eq, h.reported_eq]
    omega
  done_eq := h.done_eq
  added_le := h.added_le
  announced_eq := h.announced_eq

/-! ## Progress -/

/-- What has been handled is added to what is done. -/
theorem Good.addDone (h : Good limits total view book) {done n : UInt64}
    (hdone : view.sink.done.toNat + n.toNat < 2 ^ 64 → done.toNat = view.sink.done.toNat + n.toNat)
    (hle : book.added + n.toNat ≤ book.handled) :
    Good limits total { view with sink := { view.sink with done := done } } { book with added := book.added + n.toNat } where
  kept := h.kept.congr rfl rfl rfl
  ledger_eq := h.ledger_eq
  limits_eq := h.limits_eq
  total_eq := h.total_eq
  entries_eq := h.entries_eq
  outputBytes_eq := h.outputBytes_eq
  outputBytes_le := h.outputBytes_le
  written_le := h.written_le
  selected_eq := h.selected_eq
  counted_eq := h.counted_eq
  reported_eq := h.reported_eq
  done_eq := fun hlt => by
    have hlt : book.added + n.toNat < 2 ^ 64 := hlt
    have hold := h.done_eq (by omega)
    show done.toNat = book.added + n.toNat
    rw [hdone (by omega), hold]
  added_le := hle
  announced_eq := h.announced_eq

theorem Kept.addReport (h : Kept limits total view) {progress : Progress} (hprogress : Reported total view progress) :
    Kept limits total { view with reports := view.reports ++ [progress] } where
  written_le := h.written_le
  selected_le := h.selected_le
  ratio := h.ratio
  reports := by
    intro p hmem
    rcases List.mem_append.1 hmem with hmem | hmem
    · exact h.reports p hmem
    · rw [List.mem_singleton.1 hmem]
      exact hprogress

theorem Good.addReport (h : Good limits total view book) {progress : Progress} (hprogress : Reported total view progress)
    {announced : Nat} (hannounced : announced < 2 ^ 64 → announced = 0 ∨
      ∃ p ∈ view.reports ++ [progress], p.done.toNat = announced ∧ p.total = total) :
    Good limits total { view with reports := view.reports ++ [progress] } { book with announced := announced } where
  kept := h.kept.addReport hprogress
  ledger_eq := h.ledger_eq
  limits_eq := h.limits_eq
  total_eq := h.total_eq
  entries_eq := h.entries_eq
  outputBytes_eq := h.outputBytes_eq
  outputBytes_le := h.outputBytes_le
  written_le := h.written_le
  selected_eq := h.selected_eq
  counted_eq := h.counted_eq
  reported_eq := h.reported_eq
  done_eq := h.done_eq
  added_le := h.added_le
  announced_eq := hannounced

/-- Progress is reported: all that is done is announced. -/
theorem Good.report (h : Good limits total view book) (path : EntryPath) (entry : Option (UInt64 × UInt64)) :
    Good limits total { view with reports := view.reports ++ [⟨view.sink.done, view.sink.total, path, entry⟩] }
      { book with announced := book.added } := by
  refine h.addReport (.inr ⟨h.total_eq, fun hlt => ?_⟩) fun hlt => .inr ⟨_, List.mem_append_right _ List.mem_cons_self,
    h.done_eq hlt, h.total_eq⟩
  rw [h.ledger_eq] at hlt ⊢
  have hle : book.added ≤ book.toLedger.handled := h.added_le
  rw [h.done_eq (by omega)]
  exact hle

/-- Complete progress is reported. -/
theorem Good.complete (h : Good limits total view book) (n : UInt64) (path : EntryPath) :
    Good limits total { view with reports := view.reports ++ [⟨n, n, path, none⟩] } book := by
  refine h.addReport (.inl rfl) fun hlt => ?_
  rcases h.announced_eq hlt with hzero | ⟨p, hmem, hp⟩
  · exact .inl hzero
  · exact .inr ⟨p, List.mem_append_left _ hmem, hp⟩

/-! ## Events -/

/-- An event after which no more has been written than may be, and the bytes of the current file are as they should be. -/
theorem Kept.log (h : Kept limits total view) (event : Event)
    (hwritten : limits.maxOutputBytes.toNat < maxU64 →
      ((Ledger.ofEvents view.events).record event).written ≤ limits.maxOutputBytes.toNat)
    (hratio : ∀ path entry bytes, ((Ledger.ofEvents view.events).record event).current = some (path, some entry, bytes) →
      RatioKept limits entry (min bytes maxU64))
    (hhandled : (Ledger.ofEvents view.events).handled ≤ ((Ledger.ofEvents view.events).record event).handled) :
    Kept limits total { view with events := view.events ++ [event] } where
  written_le := by
    rw [Ledger.ofEvents_append]
    exact hwritten
  selected_le := h.selected_le
  ratio := by
    rw [Ledger.ofEvents_append]
    exact hratio
  reports := by
    intro progress hmem
    rcases h.reports progress hmem with heq | ⟨htotal, hdone⟩
    · exact .inl heq
    · refine .inr ⟨htotal, fun hlt => ?_⟩
      simp only [Ledger.ofEvents_append] at hlt ⊢
      exact Nat.le_trans (hdone (Nat.lt_of_le_of_lt hhandled hlt)) hhandled

/-- An event after which the books stand as the ledger says. -/
theorem Good.log (h : Good limits total view book) (event : Event) {ledger : Ledger} (hledger : book.toLedger.record event = ledger)
    (hwritten : ledger.written ≤ book.charged)
    (hratio : ∀ path entry bytes, ledger.current = some (path, some entry, bytes) →
      RatioKept limits entry (min bytes maxU64))
    (hhandled : book.toLedger.handled ≤ ledger.handled) :
    Good limits total { view with events := view.events ++ [event] } { book with toLedger := ledger } where
  kept := by
    refine h.kept.log event ?_ ?_ ?_
    · intro hlimit
      rw [h.ledger_eq, hledger]
      have hle := h.outputBytes_le
      rw [h.outputBytes_eq] at hle
      omega
    · rw [h.ledger_eq, hledger]
      exact hratio
    · rw [h.ledger_eq, hledger]
      exact hhandled
  ledger_eq := by rw [Ledger.ofEvents_append, h.ledger_eq, hledger]
  limits_eq := h.limits_eq
  total_eq := h.total_eq
  entries_eq := h.entries_eq
  outputBytes_eq := h.outputBytes_eq
  outputBytes_le := h.outputBytes_le
  written_le := hwritten
  selected_eq := h.selected_eq
  counted_eq := h.counted_eq
  reported_eq := h.reported_eq
  done_eq := h.done_eq
  added_le := Nat.le_trans h.added_le hhandled
  announced_eq := h.announced_eq

theorem ratioKept_of_le {entry : EntryMeta} {bytes : Nat} (h : bytes ≤ ratioCheckMinSize.toNat) :
    RatioKept limits entry bytes := fun _ _ hlarge => absurd hlarge (Nat.not_lt.2 h)

/-- A staging file is dropped. -/
theorem Kept.discarded (h : Kept limits total view) (path : DestPath) :
    Kept limits total { view with events := view.events ++ [.discarded path] } := by
  refine h.log _ h.written_le ?_ (Nat.le_refl _)
  intro path' entry bytes hcurrent
  obtain ⟨hcurrent, -⟩ := Option.filter_eq_some_iff.1 hcurrent
  exact h.ratio path' entry bytes hcurrent

theorem Ledger.record_published (ledger : Ledger) (source target : DestPath) :
    (ledger.record (.published source target)).written = ledger.written ∧
      (ledger.record (.published source target)).passedOver = ledger.passedOver ∧
      ∀ file, (ledger.record (.published source target)).current = some file → ledger.current = some file := by
  unfold Ledger.record
  simp only
  split
  · split
    · exact ⟨rfl, rfl, fun file hfile => by cases hfile⟩
    · exact ⟨rfl, rfl, fun file hfile => hfile⟩
  · exact ⟨rfl, rfl, fun file hfile => hfile⟩

/-- A staging file gets its name. -/
theorem Kept.published (h : Kept limits total view) (source target : DestPath) :
    Kept limits total { view with events := view.events ++ [.published source target] } := by
  obtain ⟨hwritten, hpassed, hcurrent⟩ := (Ledger.ofEvents view.events).record_published source target
  refine h.log _ (hwritten ▸ h.written_le) (fun path entry bytes hsome => h.ratio path entry bytes (hcurrent _ hsome)) ?_
  unfold Ledger.handled
  rw [hwritten, hpassed]

end

end Squallz.Extract
