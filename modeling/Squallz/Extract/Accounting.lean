/-
The accounting of an extraction: every selected entry is counted once, and the bytes of the report are those of the files
that have been published.
-/
import Squallz.Extract.Book

namespace Squallz.Extract

open Squallz.Api Squallz.System Squallz.System.Prog

section

variable {W H I α β : Type} (env : Environment W H I) (opts : ExtractOptions)

/-- What is kept in every state of a program, and what it succeeds with. -/
abbrev Keeps (limits : SafetyLimits) (total : UInt64) (p : Run W H I α) (P : α → View H I → Prop) (s : State W H I) : Prop :=
  Sees State.view (Kept limits total) p P s

variable {env opts} {limits : SafetyLimits} {total : UInt64} {s : State W H I} {P : α → View H I → Prop}

/-! ## Steps -/

theorem modifySink_keeps {f : ExtractSink H I → ExtractSink H I} {P : Unit → View H I → Prop} (h : Kept limits total s.view)
    (hkept : Kept limits total { s.view with sink := f s.view.sink }) (hP : P () { s.view with sink := f s.view.sink }) :
    Keeps limits total (modifySink f : Run W H I Unit) P s :=
  sees_step h (sees_pure hkept hP)

theorem getSink_keeps {f : ExtractSink H I → Run W H I α} (h : Kept limits total s.view) (hf : Keeps limits total (f s.view.sink) P s) :
    Keeps limits total (getSink >>= f) P s := sees_step h hf

theorem log_keeps {event : Event} {P : Unit → View H I → Prop} (h : Kept limits total s.view)
    (hkept : Kept limits total { s.view with events := s.view.events ++ [event] })
    (hP : P () { s.view with events := s.view.events ++ [event] }) : Keeps limits total (log event : Run W H I Unit) P s :=
  sees_step h (sees_pure hkept hP)

theorem report_keeps {progress : Progress} {P : Unit → View H I → Prop} (h : Kept limits total s.view)
    (hkept : Kept limits total { s.view with reports := s.view.reports ++ [progress] })
    (hP : P () { s.view with reports := s.view.reports ++ [progress] }) :
    Keeps limits total (report progress : Run W H I Unit) P s :=
  sees_step h (sees_pure hkept hP)

theorem charge_keeps {f : LimitsAccountant → Except FormatError α × LimitsAccountant} (h : Kept limits total s.view)
    (hP : ∀ a, (f s.view.sink.accountant).1 = .ok a →
      P a { s.view with sink := { s.view.sink with accountant := (f s.view.sink.accountant).2 } }) :
    Keeps limits total (charge f : Run W H I α) P s := by
  refine getSink_keeps h (sees_step h ?_)
  have hkept := h.charge (f s.view.sink.accountant).2
  cases hf : (f s.view.sink.accountant).1 with
  | ok a => exact sees_pure hkept (hP a hf)
  | error e => exact sees_fail hkept

/-- What happens on failure needs no more than what is kept. -/
theorem onFailure_keeps {cleanup : Run W H I Unit} {body : Run W H I α} (h : Keeps limits total body P s)
    (hcleanup : ∀ t : State W H I, Kept limits total t.view → Keeps limits total cleanup (fun _ _ => True) t) :
    Keeps limits total (onFailure cleanup body) P s := by
  refine sees_bind (sees_attempt h) fun r t ht hr => ?_
  cases r with
  | ok a => exact sees_pure ht (hr a rfl)
  | error fault => exact sees_bind (sees_attempt (hcleanup t ht)) fun _ u hu _ => sees_fail hu

theorem discard_keeps {path : DestPath} (h : Kept limits total s.view) :
    Keeps limits total (discard env path) (fun _ v => v = { s.view with events := s.view.events ++ [.discarded path] }) s := by
  have hkept := h.discarded path
  exact sees_bind (log_keeps (P := fun _ v => v = { s.view with events := s.view.events ++ [.discarded path] }) h hkept rfl)
    fun _ t ht hview => (tryCall_blind _).sees_bind ht fun _ u hu => sees_pure (hu ▸ ht) (hu.trans hview)

/-! ## Levels -/

/-- The books between two steps: no file is being written, and all that has been written is charged, done and announced. -/
structure Book.Balanced (book : Book) : Prop where
  current_eq : book.current = none
  charged_eq : book.charged = book.written
  added_eq : book.added = book.toLedger.handled
  reported_eq : book.reported = book.published
  announced_eq : book.announced = book.added

/-- The books of a run between two steps: so many entries have been admitted, and so many have been counted. -/
def Level (limits : SafetyLimits) (total : UInt64) (view : View H I) (admitted counted : Nat) : Prop :=
  ∃ book, Good limits total view book ∧ book.Balanced ∧ book.admitted = admitted ∧ book.counted = counted

theorem Level.kept {view : View H I} {admitted counted : Nat} (h : Level limits total view admitted counted) :
    Kept limits total view := by
  obtain ⟨book, hgood, -⟩ := h
  exact hgood.kept

theorem Level.congr {view : View H I} {sink : ExtractSink H I} {admitted counted : Nat}
    (h : Level limits total view admitted counted) (haccountant : sink.accountant = view.sink.accountant)
    (hreport : sink.report = view.sink.report) (hdone : sink.done = view.sink.done)
    (htotal : sink.total = view.sink.total) : Level limits total { view with sink := sink } admitted counted := by
  obtain ⟨book, hgood, hrest⟩ := h
  exact ⟨book, hgood.congr haccountant hreport hdone htotal, hrest⟩

/-- An entry is counted that has brought no content. -/
theorem Level.count {view : View H I} {admitted counted : Nat} (h : Level limits total view admitted counted)
    {change : ExtractReport → ExtractReport} (hcounts : Counts change 0) (hroom : counted < maxU64) :
    Level limits total { view with sink := { view.sink with report := change view.sink.report } } admitted (counted + 1) := by
  obtain ⟨book, hgood, ⟨hcurrent, hcharged, hadded, hreported, hannounced⟩, hadmitted, rfl⟩ := h
  exact ⟨_, hgood.count (n := 0) hcounts rfl hroom, ⟨hcurrent, hcharged, hadded, hreported, hannounced⟩, hadmitted, rfl⟩

theorem Level.report {view : View H I} {admitted counted : Nat} (h : Level limits total view admitted counted)
    (path : EntryPath) (entry : Option (UInt64 × UInt64)) :
    Level limits total { view with reports := view.reports ++ [⟨view.sink.done, view.sink.total, path, entry⟩] }
      admitted counted := by
  obtain ⟨book, hgood, ⟨hcurrent, hcharged, hadded, hreported, -⟩, hcounts⟩ := h
  exact ⟨_, hgood.report path entry, ⟨hcurrent, hcharged, hadded, hreported, rfl⟩, hcounts⟩

theorem Level.complete {view : View H I} (h : Level limits total view admitted counted) (n : UInt64) (path : EntryPath) :
    Level limits total { view with reports := view.reports ++ [⟨n, n, path, none⟩] } admitted counted := by
  obtain ⟨book, hgood, hrest⟩ := h
  exact ⟨book, hgood.complete n path, hrest⟩

/-- A run begins: nothing has been reported, and nothing has been done to files. -/
def State.start (world : W) (sequence : Nat) (limits : SafetyLimits) (dest : DestPath) : State W H I where
  world := world
  sink := ⟨dest, dest, .new limits, [], [], [], none, 0, 0, .empty dest⟩
  sequence := sequence
  reports := []
  events := []

theorem level_new (limits : SafetyLimits) (dest canonicalDest : DestPath) (total : UInt64) :
    Level limits total (⟨⟨dest, canonicalDest, .new limits, [], [], [], none, 0, total, .empty dest⟩, [], []⟩ : View H I) 0 0 := by
  refine ⟨⟨.empty, 0, 0, 0, 0, 0, 0⟩, ?_, ⟨rfl, rfl, rfl, rfl, rfl⟩, rfl, rfl⟩
  exact {
    kept := {
      written_le := fun _ => Nat.zero_le _
      selected_le := Nat.zero_le _
      ratio := fun _ _ _ hcurrent => by cases hcurrent
      reports := fun _ hmem => by cases hmem }
    ledger_eq := rfl
    limits_eq := rfl
    total_eq := rfl
    entries_eq := rfl
    outputBytes_eq := rfl
    outputBytes_le := Nat.zero_le _
    written_le := Nat.le_refl _
    selected_eq := rfl
    counted_eq := rfl
    reported_eq := rfl
    done_eq := fun _ => rfl
    added_le := Nat.le_refl _
    announced_eq := fun _ => .inl rfl }

variable {admitted counted : Nat}

theorem count_keeps (h : Level limits total s.view admitted counted) {change : ExtractReport → ExtractReport}
    (hcounts : Counts change 0) (hroom : counted < maxU64) :
    Keeps limits total (modifyReport change : Run W H I Unit) (fun _ v => Level limits total v admitted (counted + 1)) s :=
  modifySink_keeps h.kept (h.count hcounts hroom).kept (h.count hcounts hroom)

theorem reportProgress_keeps (h : Level limits total s.view admitted counted) (path : EntryPath)
    (entry : Option (UInt64 × UInt64)) :
    Keeps limits total (reportProgress path entry : Run W H I Unit) (fun _ v => Level limits total v admitted counted) s :=
  getSink_keeps h.kept (report_keeps h.kept (h.report path entry).kept (h.report path entry))

/-! ## Admission -/

theorem admit_keeps (h : Level opts.limits total s.view admitted counted) (hroom : admitted < maxU64) (entry : EntryMeta) :
    Keeps opts.limits total (admitEntry env entry) (fun _ v => Level opts.limits total v (admitted + 1) counted) s := by
  obtain ⟨book, hgood, hbalanced, rfl, hcounted⟩ := h
  refine (checkpoint_blind env).sees_bind hgood.kept fun _ t ht => ?_
  refine (blind_ofExcept _).sees_bind (ht ▸ hgood.kept) fun rel u hu => ?_
  have hview : u.view = s.view := hu.trans ht
  have hcharge : Keeps opts.limits total (charge fun accountant => accountant.checkEntry entry : Run W H I Unit)
      (fun _ v => v.reports = s.view.reports ∧ v.events = s.view.events ∧ ∃ r,
        (s.view.sink.accountant.checkEntry entry).1 = .ok r ∧
        v.sink = { s.view.sink with accountant := (s.view.sink.accountant.checkEntry entry).2 }) u := by
    refine charge_keeps (hview ▸ hgood.kept) fun r hr => ?_
    rw [hview] at hr ⊢
    exact ⟨rfl, rfl, r, hr, rfl⟩
  refine sees_bind hcharge fun _ w hw hpost => ?_
  obtain ⟨hreports, hevents, r, hr, hsink⟩ := hpost
  refine getSink_keeps hw ?_
  split
  · exact sees_fail hw
  · have hadmit := hgood.admitEntry hr hroom
    have hafter : (⟨w.view.sink, w.view.reports, w.view.events⟩ : View H I) =
        ⟨{ s.view.sink with accountant := (s.view.sink.accountant.checkEntry entry).2 }, s.view.reports,
          s.view.events⟩ := by rw [hsink, hreports, hevents]
    have hafter : w.view = _ := hafter
    refine sees_bind (modifySink_keeps (P := fun _ v => Level opts.limits total v (book.admitted + 1) counted) hw ?_ ?_)
      fun _ x hx hlevel => sees_pure hx hlevel
    · rw [hafter]
      exact hadmit.kept
    · rw [hafter]
      exact ⟨_, hadmit, ⟨hbalanced.1, hbalanced.2, hbalanced.3, hbalanced.4, hbalanced.5⟩, rfl, hcounted⟩

theorem recordUnmaterialized_keeps (h : Level opts.limits total s.view admitted counted) (hadmitted : admitted < maxU64)
    (hcounted : counted < maxU64) (entry : EntryMeta) :
    Keeps opts.limits total (recordUnmaterialized env entry)
      (fun _ v => Level opts.limits total v (admitted + 1) (counted + 1)) s :=
  sees_bind (admit_keeps h hadmitted entry) fun _ _ _ hlevel => count_keeps hlevel addSkipped_counts hcounted

/-- A file that is left as it is. -/
theorem passOver_keeps (h : Level limits total s.view admitted counted) (hcounted : counted < maxU64) (entry : EntryMeta) :
    Keeps limits total (do
        log (.passedOver entry.size)
        addDone entry.size
        modifyReport .addSkipped
        reportProgress entry.path (some (entry.size, entry.size))
        pure none : Run W H I (Option DestPath))
      (fun target v => target = none ∧ Level limits total v admitted (counted + 1)) s := by
  obtain ⟨book, hgood, ⟨hcurrent, hcharged, hadded, hreported, -⟩, rfl, rfl⟩ := h
  have hlogged := hgood.log (.passedOver entry.size) rfl hgood.written_le (fun path entry' bytes hsome => by
      have hnone : book.current = some (path, some entry', bytes) := hsome
      rw [hcurrent] at hnone
      cases hnone) (by unfold Ledger.handled Ledger.record; simp only; omega)
  refine sees_bind (log_keeps (P := fun _ v => v = { s.view with events := s.view.events ++ [.passedOver entry.size] })
    hgood.kept hlogged.kept rfl) fun _ t ht hview => ?_
  rw [← hview] at hlogged
  have hpassed : book.added + entry.size.toNat = (book.toLedger.record (.passedOver entry.size)).handled := by
    rw [hadded]
    exact Nat.add_assoc _ _ _
  have hdone := hlogged.addDone (n := entry.size)
    (toNat_add_of_lt : _ → (t.view.sink.done + entry.size).toNat = t.view.sink.done.toNat + entry.size.toNat)
    (Nat.le_of_eq hpassed)
  refine sees_bind (modifySink_keeps (P := fun _ v => Good limits total v _) ht hdone.kept hdone) fun _ u hu hgood => ?_
  have hcount := hgood.count (n := 0) addSkipped_counts rfl hcounted
  refine sees_bind (modifySink_keeps (P := fun _ v => Good limits total v _) hu hcount.kept hcount) fun _ w hw hgood => ?_
  have hreport := hgood.report entry.path (some (entry.size, entry.size))
  refine sees_bind (getSink_keeps hw (report_keeps (P := fun _ v => Level limits total v book.admitted (book.counted + 1))
    hw hreport.kept ⟨_, hreport, ⟨hcurrent, hcharged, hpassed, hreported, rfl⟩, rfl, rfl⟩)) fun _ x hx hlevel =>
      sees_pure hx ⟨rfl, hlevel⟩

theorem fileTarget_keeps (h : Level opts.limits total s.view admitted counted) (hadmitted : admitted < maxU64)
    (hcounted : counted < maxU64) (entry : EntryMeta) :
    Keeps opts.limits total (fileTarget env opts entry) (fun target v => match target with
      | none => Level opts.limits total v (admitted + 1) (counted + 1)
      | some _ => Level opts.limits total v (admitted + 1) counted) s := by
  refine sees_bind (admit_keeps h hadmitted entry) fun rel t ht hlevel => ?_
  refine getSink_keeps ht ?_
  refine sees_bind (reportProgress_keeps hlevel _ _) fun _ u hu hlevel => ?_
  refine (resolveConflictPath_blind env opts _ entry).sees_bind hu fun target w hw => ?_
  rw [← hw] at hlevel hu
  cases target with
  | none =>
    refine (passOver_keeps hlevel hcounted entry).post ?_
    rintro target v - ⟨rfl, hv⟩
    exact hv
  | some resolved =>
    refine (ensureParentInside_blind env _ _).sees_bind hu fun _ x hx => ?_
    rw [← hx] at hlevel hu
    refine sees_bind (modifySink_keeps (P := fun _ v => Level opts.limits total v (admitted + 1) counted) hu ?_ ?_)
      fun _ y hy hlevel => sees_pure hy hlevel
    · exact hu.congr rfl rfl rfl
    · exact hlevel.congr rfl rfl rfl rfl

/-! ## Files -/

/-- The books while a file is written: so many bytes of it have been charged, written and counted as done. -/
def Book.copying (book : Book) (staged : DestPath) (decoded : Option EntryMeta) (n : Nat) : Book where
  current := some (staged, decoded, n)
  written := book.written + n
  passedOver := book.passedOver
  published := book.published
  admitted := book.admitted
  counted := book.counted
  reported := book.reported
  charged := book.charged + n
  added := book.added + n
  announced := book.added + n

variable {book : Book} {staged : DestPath} {decoded : Option EntryMeta} {n : Nat}

/-- A chunk that has been charged is written and counted as done. -/
theorem wrote_keeps {chunk : Chunk} {add : UInt64 → UInt64 → UInt64}
    (h : Good limits total s.view { book.copying staged decoded n with charged := book.charged + n + chunk.bytes.length })
    (hadd : ∀ {a b : UInt64}, a.toNat + b.toNat < 2 ^ 64 → (add a b).toNat = a.toNat + b.toNat)
    (hbalanced : book.Balanced) (hratio : ∀ entry, decoded = some entry → RatioKept limits entry (min (n + chunk.bytes.length) maxU64))
    {next : Run W H I α}
    (hnext : ∀ t : State W H I, Good limits total t.view
      { book.copying staged decoded (n + chunk.bytes.length) with announced := book.added + n } →
      Keeps limits total next P t) :
    Keeps limits total (do
        log (.wrote staged chunk.bytes)
        modifySink fun sink => { sink with done := add sink.done chunk.size }
        next) P s := by
  have hledger : (book.copying staged decoded n).toLedger.record (.wrote staged chunk.bytes) =
      (book.copying staged decoded (n + chunk.bytes.length)).toLedger := by
    simp only [Book.copying, Ledger.record, Option.map_some, if_pos, Nat.add_assoc]
  have hlogged := h.log (.wrote staged chunk.bytes) hledger (by
      simp only [Book.copying, hbalanced.charged_eq]
      omega)
    (fun path entry bytes hcurrent => by
      simp only [Book.copying, Option.some.injEq, Prod.mk.injEq] at hcurrent
      obtain ⟨-, hdecoded, rfl⟩ := hcurrent
      exact hratio entry hdecoded)
    (by simp only [Book.copying, Ledger.handled]; omega)
  refine sees_bind (log_keeps (P := fun _ v => v = { s.view with events := s.view.events ++ [.wrote staged chunk.bytes] })
    h.kept hlogged.kept rfl) fun _ t ht hview => ?_
  rw [← hview] at hlogged
  have hsize := chunk.toNat_size
  have hdone := hlogged.addDone (n := chunk.size)
    (hadd : _ → (add t.view.sink.done chunk.size).toNat = t.view.sink.done.toNat + chunk.size.toNat) (by
      simp only [Book.copying, Ledger.handled, hbalanced.added_eq, hsize]
      omega)
  rw [hsize] at hdone
  simp only [Book.copying, Nat.add_assoc] at hdone
  exact sees_bind (modifySink_keeps (P := fun _ v => Good limits total v _) ht hdone.kept hdone) fun _ u _ hgood =>
    hnext u hgood

/-- The books of a file that is being written, and the bytes that it has. -/
theorem copyChunks_keeps {entry : EntryMeta} {handle : H} {entryStart written : UInt64} {data : Stream}
    (h : Good limits total s.view (book.copying staged (some entry) n)) (hbalanced : book.Balanced)
    (hwritten : written.toNat = min n maxU64) :
    Keeps limits total (copyChunks env entry staged handle entryStart written data) (fun r v => ∃ m,
      Good limits total v (book.copying staged (some entry) m) ∧ ∀ a, r = .ok a → a.toNat = min m maxU64) s := by
  induction data generalizing s n written with
  | nil =>
    refine (checkpoint_blind env).sees_bind h.kept fun _ t ht => ?_
    refine sees_pure (ht ▸ h.kept) ⟨n, ht ▸ h, fun a ha => ?_⟩
    cases ha
    exact hwritten
  | cons read rest ih =>
    cases read with
    | error e =>
      refine (checkpoint_blind env).sees_bind h.kept fun _ t ht => ?_
      refine sees_pure (ht ▸ h.kept) ⟨n, ht ▸ h, fun a ha => ?_⟩
      cases ha
    | ok chunk =>
      refine (checkpoint_blind env).sees_bind h.kept fun _ t ht => ?_
      rw [← ht] at h
      split
      · refine sees_pure h.kept ⟨n, h, fun a ha => ?_⟩
        cases ha
        exact hwritten
      · refine sees_bind (charge_keeps (P := fun a v => a.toNat = min (n + chunk.bytes.length) maxU64 ∧
          RatioKept limits entry a.toNat ∧ Good limits total v { book.copying staged (some entry) n with
            charged := book.charged + n + chunk.bytes.length }) h.kept fun a ha => ?_) fun a u hu hpost => ?_
        · obtain ⟨hle, rfl, hratio⟩ := addEntryOutputBytes_ok ha
          rw [addEntryOutputBytes_snd]
          have hgood := h.charge hle
          rw [chunk.toNat_size] at hgood
          refine ⟨?_, h.limits_eq ▸ hratio, hgood⟩
          rw [toNat_saturatingAdd, chunk.toNat_size, hwritten]
          omega
        · obtain ⟨ha, hratio, hgood⟩ := hpost
          refine (call_blind _).sees_bind hu fun _ w hw => ?_
          refine wrote_keeps (hw ▸ hgood) toNat_add_of_lt hbalanced (fun entry' hentry => ?_) fun x hx => ?_
          · cases hentry
            exact ha ▸ hratio
          · refine getSink_keeps hx.kept ?_
            have hreport := hx.report entry.path
              (some (min (saturatingSub x.view.sink.done entryStart) entry.size, entry.size))
            exact sees_bind (getSink_keeps hx.kept (report_keeps (P := fun _ v => Good limits total v _) hx.kept hreport.kept
              hreport)) fun _ y _ hy => ih hy ha

theorem published_keeps {source target : DestPath} (h : Kept limits total s.view) :
    Keeps limits total (log (.published source target) : Run W H I Unit)
      (fun _ v => v = { s.view with events := s.view.events ++ [.published source target] }) s :=
  log_keeps h (h.published source target) rfl

/-- A commit that succeeds has published the staging file, whatever its last steps are. -/
theorem commit_keeps {target : DestPath} {replaceExisting : Bool} {kind : PendingOutputKind} (h : Kept limits total s.view) :
    Keeps limits total (commit env staged target replaceExisting kind)
      (fun _ v => v = { s.view with events := s.view.events ++ [.published staged target] }) s := by
  have hcall (f : Call W IoError Unit) : Keeps limits total (do
      call f
      log (.published staged target))
      (fun _ v => v = { s.view with events := s.view.events ++ [.published staged target] }) s :=
    (call_blind f).sees_bind h fun _ t ht => ht ▸ published_keeps (ht ▸ h)
  unfold commit
  split
  · exact hcall _
  · split
    · exact hcall _
    · refine (tryCall_blind _).sees_bind h fun r t ht => ?_
      rw [← ht] at h ⊢
      cases r with
      | ok u =>
        exact sees_bind (published_keeps h) fun _ u hu hview => ((call_blind _).sees hu).post fun _ v _ hv => hv.trans hview
      | error error =>
        simp only
        split
        · exact sees_fail h
        · refine (call_blind _).sees_bind h fun _ u hu => ?_
          rw [← hu] at h ⊢
          refine (onFailure_blind (blind_bind (tryCall_blind _) fun _ => blind_pure _) (call_blind _)).sees_bind h
            fun _ w hw => ?_
          rw [← hw] at h ⊢
          exact published_keeps h

theorem createPending_keeps {target : DestPath} (h : Good limits total s.view book) (hbalanced : book.Balanced) :
    Keeps limits total (createPending env target decoded) (fun r v => Good limits total v (book.copying r.1 decoded 0)) s := by
  refine (createPendingValue_blind env _ _ _).sees_bind h.kept fun r t ht => ?_
  rw [← ht] at h
  have hstaged : { book with toLedger := (book.copying r.1 decoded 0).toLedger } = book.copying r.1 decoded 0 := by
    simp only [Book.copying, hbalanced.announced_eq, Nat.add_zero]
  have hlogged := h.log (.staged r.1 decoded)
    (rfl : _ = (book.copying r.1 decoded 0).toLedger) h.written_le
    (fun path entry bytes hcurrent => by
      simp only [Book.copying, Option.some.injEq, Prod.mk.injEq] at hcurrent
      obtain ⟨-, -, rfl⟩ := hcurrent
      exact ratioKept_of_le (Nat.zero_le _)) (Nat.le_refl _)
  rw [hstaged] at hlogged
  exact sees_bind (log_keeps (P := fun _ v => Good limits total v _) h.kept hlogged.kept hlogged) fun _ u hu hgood =>
    sees_pure hu hgood

/-- The books when a file with so many bytes has been published and is not yet reported. -/
def Book.finished (book : Book) (n : Nat) : Book where
  current := none
  written := book.written + n
  passedOver := book.passedOver
  published := book.published + n
  admitted := book.admitted
  counted := book.counted
  reported := book.reported
  charged := book.charged + n
  added := book.added + n
  announced := book.added + n

theorem Good.published {view : View H I} {target : DestPath} (h : Good limits total view (book.copying staged decoded n))
    (hbalanced : book.Balanced) :
    Good limits total { view with events := view.events ++ [.published staged target] } (book.finished n) := by
  have hledger : (book.copying staged decoded n).toLedger.record (.published staged target) = (book.finished n).toLedger := by
    simp [Book.copying, Book.finished, Ledger.record]
  refine h.log (.published staged target) hledger ?_ ?_ (Nat.le_refl _)
  · simp [Book.copying, hbalanced.charged_eq]
  · intro path entry bytes hcurrent
    cases hcurrent

theorem recordProblem_keeps (h : Good limits total s.view book) (hroom : book.counted < maxU64) :
    Keeps limits total (recordProblem : Run W H I Unit) (fun _ v => Good limits total v { book with counted := book.counted + 1 }) s := by
  have hcount := h.count (n := 0) addFailed_counts rfl hroom
  unfold recordProblem modifyReport
  exact modifySink_keeps h.kept hcount.kept hcount

theorem addMaterializedFile_keeps {entry : EntryMeta} {path : DestPath} (h : Good limits total s.view book) :
    Keeps limits total (modifySink (addMaterializedFile entry path) : Run W H I Unit) (fun _ v => Good limits total v book) s := by
  have hgood : Good limits total { s.view with sink := addMaterializedFile entry path s.view.sink } book := by
    unfold addMaterializedFile
    split
    · exact h.congr rfl rfl rfl rfl
    · exact h
  exact modifySink_keeps h.kept hgood.kept hgood

/-- A file that is dropped has been charged and written all the same. -/
theorem dropped_keeps (h : Good limits total s.view (book.copying staged decoded n)) (hbalanced : book.Balanced) :
    Keeps limits total (discard env staged) (fun _ v => Level limits total v book.admitted book.counted) s := by
  have hledger : (book.copying staged decoded n).toLedger.record (.discarded staged) =
      ⟨none, book.written + n, book.passedOver, book.published⟩ := by
    simp [Book.copying, Ledger.record]
  have hlogged := h.log (.discarded staged) hledger (by simp [Book.copying, hbalanced.charged_eq])
    (fun path entry bytes hcurrent => by cases hcurrent) (Nat.le_refl _)
  refine (discard_keeps h.kept).post fun _ v _ hv => hv ▸ ⟨_, hlogged, ⟨rfl, ?_, ?_, hbalanced.reported_eq, rfl⟩, rfl, rfl⟩
  · simp only [Book.copying, hbalanced.charged_eq]
  · simp only [Book.copying, hbalanced.added_eq, Ledger.handled]
    omega

/-- A file that has been published is reported. -/
theorem addMaterialized_keeps {materialization : Materialization} {bytes : UInt64}
    (h : Good limits total s.view (book.finished n)) (hbytes : bytes.toNat = min n maxU64) (hbalanced : book.Balanced)
    (hroom : book.counted < maxU64) :
    Keeps limits total (modifyReport (.addMaterialized materialization bytes) : Run W H I Unit)
      (fun _ v => Level limits total v book.admitted (book.counted + 1)) s := by
  have hcount := h.count (addMaterialized_counts materialization bytes) hbytes hroom
  refine modifySink_keeps h.kept hcount.kept ⟨_, hcount, ⟨rfl, ?_, ?_, ?_, rfl⟩, rfl, rfl⟩
  · simp only [Book.finished, hbalanced.charged_eq]
  · simp only [Book.finished, hbalanced.added_eq, Ledger.handled]
    omega
  · simp only [Book.finished, hbalanced.reported_eq]

theorem takePendingOutput_keeps {outPath : DestPath} (h : Good limits total s.view book) :
    Keeps limits total (takePendingOutput outPath : Run W H I ResolvedOutput) (fun _ v => Good limits total v book) s := by
  refine getSink_keeps h.kept (sees_bind (modifySink_keeps (P := fun _ v => Good limits total v book) h.kept ?_ ?_) ?_)
  · exact h.kept.congr rfl rfl rfl
  · exact h.congr rfl rfl rfl rfl
  · exact fun _ t ht hgood => sees_pure ht hgood

/-- What is counted once the data of a file is written, or was left out. -/
def Copied (limits : SafetyLimits) (total : UInt64) (book : Book) (staged : DestPath) (entry : EntryMeta) :
    Option UInt64 → View H I → Prop
  | none, view => ∃ n, Good limits total view ({ book with counted := book.counted + 1 }.copying staged (some entry) n)
  | some written, view => ∃ n, Good limits total view (book.finished n) ∧ written.toNat = min n maxU64

theorem writeStaged_keeps {tolerant : Bool} {entry : EntryMeta} {outPath : DestPath} {data : Stream}
    (h : Good opts.limits total s.view book) (hbalanced : book.Balanced) (hroom : book.counted < maxU64) :
    Keeps opts.limits total (writeStaged env opts tolerant entry outPath data) (fun r v => match r with
      | none => Level opts.limits total v book.admitted (book.counted + 1)
      | some (_, written) => ∃ n, Good opts.limits total v (book.finished n) ∧ written.toNat = min n maxU64) s := by
  refine getSink_keeps h.kept (sees_bind (takePendingOutput_keeps h) fun resolved t ht hgood => ?_)
  refine sees_bind (createPending_keeps hgood hbalanced) fun pending u hu hgood => ?_
  obtain ⟨staged, handle⟩ := pending
  refine sees_bind (P := Copied opts.limits total book staged entry) (onFailure_keeps ?_
    fun t ht => (discard_keeps ht).post fun _ _ _ _ => trivial) fun written v hv hpost => ?_
  · refine (blind_ofExcept _).sees_bind hu fun _ v hv => ?_
    rw [← hv] at hgood
    refine sees_bind (copyChunks_keeps hgood hbalanced rfl) fun copied w hw hcopied => ?_
    obtain ⟨n, hgood, hwritten⟩ := hcopied
    cases copied with
    | error e =>
      simp only
      split
      · exact sees_bind (recordProblem_keeps hgood hroom) fun _ x hx hgood => sees_pure hx ⟨n, hgood⟩
      · exact sees_fail hw
    | ok written =>
      refine (checkpoint_blind env).sees_bind hw fun _ x hx => (restoreFile_blind env opts _ _).sees_bind (hx ▸ hw)
        fun _ y hy => ?_
      rw [← hx, ← hy] at hgood
      refine sees_bind (commit_keeps hgood.kept) fun _ z hz hview => sees_pure hz ⟨n, ?_, hwritten _ rfl⟩
      exact hview ▸ hgood.published hbalanced
  · cases written with
    | none =>
      obtain ⟨n, hgood⟩ := hpost
      have hbalanced : { book with counted := book.counted + 1 }.Balanced :=
        ⟨hbalanced.1, hbalanced.2, hbalanced.3, hbalanced.4, hbalanced.5⟩
      exact sees_bind (dropped_keeps hgood hbalanced) fun _ w hw hlevel => sees_pure hw hlevel
    | some written => exact sees_pure hv hpost

theorem writeFile_keeps {tolerant : Bool} {entry : EntryMeta} {outPath : DestPath} {data : Stream}
    (h : Level opts.limits total s.view admitted counted) (hroom : counted < maxU64) :
    Keeps opts.limits total (writeFile env opts tolerant entry outPath data)
      (fun _ v => Level opts.limits total v admitted (counted + 1)) s := by
  obtain ⟨book, hgood, hbalanced, rfl, rfl⟩ := h
  refine sees_bind (writeStaged_keeps hgood hbalanced hroom) fun r t ht hpost => ?_
  cases r with
  | none => exact sees_pure ht hpost
  | some written =>
    obtain ⟨n, hgood, hwritten⟩ := hpost
    exact sees_bind (addMaterializedFile_keeps hgood) fun _ u _ hgood =>
      sees_bind (addMaterialized_keeps hgood hwritten hbalanced hroom) fun _ w hw hlevel =>
        sees_pure hw hlevel

end

end Squallz.Extract
