/-
A source cleanup that is stopped anywhere and recovered any number of times, while others add entries: the source stays
in one place until the trash has it, and no recovery deletes or overwrites anything.
-/
import Squallz.SourceCleanup.Cleanup

namespace Squallz.SourceCleanup.Source

open Squallz.Api Squallz.Core Squallz.Recovery Squallz.System Squallz.System.Prog Squallz.System.FileSystem

/-! ## What can happen -/

inductive Running
  | idle
  | cleaning (p : Io Bool)
  | recovering (p : Io SourceCleanupRecovery)

/-- A cleanup and the recoveries after it, each of them stopped anywhere, with the entries that others add in between;
`trashed` tells whether the source has been taken from the holder. -/
inductive History (formats : Formats) (moveToTrash : Path → Io Unit) (source : Source) :
    Running → Bool → FileSystem → Prop
  | begins (s : FileSystem) (locked relocked : Bool) (process sequence : Nat) (unchanged : FileSystem → Bool)
      (hready : source.Ready s) (hsole : source.Sole s) :
      History formats moveToTrash source (.cleaning (cleanUp formats source.journal locked relocked process sequence
        unchanged moveToTrash source.record)) false s
  | shares {running : Running} {trashed : Bool} {s t : FileSystem}
      (h : History formats moveToTrash source running trashed s) (ht : source.Foreign s t) :
      History formats moveToTrash source running trashed t
  | cleans {u : FileSystem → FileSystem} {k : FileSystem → Io Bool} {trashed : Bool} {s : FileSystem}
      (h : History formats moveToTrash source (.cleaning (.step u k)) trashed s) (hkept : ¬ source.Took s (u s)) :
      History formats moveToTrash source (.cleaning (k s)) trashed (u s)
  | trashes {u : FileSystem → FileSystem} {k : FileSystem → Io Bool} {trashed : Bool} {s : FileSystem}
      (h : History formats moveToTrash source (.cleaning (.step u k)) trashed s) (htook : source.Took s (u s)) :
      History formats moveToTrash source (.cleaning (k s)) true (u s)
  | recovers {u : FileSystem → FileSystem} {k : FileSystem → Io SourceCleanupRecovery} {trashed : Bool} {s : FileSystem}
      (h : History formats moveToTrash source (.recovering (.step u k)) trashed s) :
      History formats moveToTrash source (.recovering (k s)) trashed (u s)
  | stops {running : Running} {trashed : Bool} {s : FileSystem}
      (h : History formats moveToTrash source running trashed s) : History formats moveToTrash source .idle trashed s
  | restarts {trashed : Bool} {s : FileSystem} (h : History formats moveToTrash source .idle trashed s) (locked : Bool) :
      History formats moveToTrash source (.recovering (recoverPending formats source.journal locked)) trashed s

/-- What the recoveries that start in a state keep to. -/
structure Recoverable (formats : Formats) (source : Source) (s : FileSystem) : Prop where
  /-- Their actions, whatever others add meanwhile. -/
  actions : ∀ rely : FileSystem → FileSystem → Prop, (∀ t u, rely t u → source.Foreign t u) → ∀ locked t u,
    (recoverPending formats source.journal locked).Acts rely s t u →
    source.RecoveryStep (source.KeepsVacant rely) t u ∧ ∀ d name i, t.find d name = some i →
      source.Fate t u d name i ∧ (u.inodes i).SameFile (t.inodes i)
  /-- After one that has succeeded, the next one changes nothing. -/
  again : ∀ locked outcome t, (recoverPending formats source.journal locked).Ends source.Foreign s (.ok outcome) t →
    ∀ relocked t' v w, source.Foreign t t' →
      (recoverPending formats source.journal relocked).Acts source.Foreign t' v w → w = v

variable {source : Source} {formats : Formats} {moveToTrash : Path → Io Unit} {running : Running} {trashed : Bool}
  {s t : FileSystem}

theorem recoverable_of_recorded (hapart : source.Apart)
    (hread : formats.fromSlice (formats.toVec source.document) = .ok source.document)
    (hs : source.Recorded formats s) : Recoverable formats source s where
  actions rely hrely locked t u h := by
    have hstep := (recoverPending_guarantees hrely hapart hread hs locked).acts h
    exact ⟨hstep, fun d name i hi => ⟨hstep.fate hi, hstep.sameFile hi⟩⟩
  again locked outcome t hends relocked t' v w ht h := by
    obtain ⟨hvacant, hlock⟩ := (recoverPending_guarantees (fun _ _ h => h) hapart hread hs locked).ends hends outcome rfl
    exact ((recoverPending_idle (fun _ _ h => h) (ht.journal.trans hvacant) (ht.lockIn hlock) relocked).acts h).symm

/-! ## What holds throughout -/

/-- What is left of the running program keeps to its steps. -/
def Running.Keeps (formats : Formats) (moveToTrash : Path → Io Unit) (source : Source) (s : FileSystem) : Running → Prop
  | .idle => True
  | .cleaning p => p.Guarantees source.Foreign (source.CleanupStep formats moveToTrash False) (fun _ _ => True) s
  | .recovering p => p.Guarantees source.Foreign (source.RecoveryStep False) (fun _ _ => True) s

theorem RecoveryStep.mono {keepsVacant keepsVacant' : Prop} (hkeeps : keepsVacant' → keepsVacant)
    (h : source.RecoveryStep keepsVacant s t) : source.RecoveryStep keepsVacant' s t := by
  cases h with
  | same h => exact .same h
  | locked i h => exact .locked i h
  | restored hpending hholder hvacant h => exact .restored hpending hholder hvacant h
  | preserved hpending hholder hoccupied h => exact .preserved hpending hholder hoccupied h
  | cleared h hvacant => exact .cleared h fun hk => hvacant (hkeeps hk)
  | holderRemoved hcleared hholder h => exact .holderRemoved hcleared hholder h

theorem CleanupStep.mono {keepsVacant keepsVacant' : Prop} (hkeeps : keepsVacant' → keepsVacant)
    (h : source.CleanupStep formats moveToTrash keepsVacant s t) :
    source.CleanupStep formats moveToTrash keepsVacant' s t := by
  cases h with
  | recovery h => exact .recovery (h.mono hkeeps)
  | tempCreated name i hname h => exact .tempCreated name i hname h
  | tempWritten i bytes hvacant hi h => exact .tempWritten i bytes hvacant hi h
  | tempRemoved name i htemp hi hvacant h => exact .tempRemoved name i htemp hi hvacant h
  | begun name i htemp hi hcontent hholder h => exact .begun name i htemp hi hcontent hholder h
  | staged hpresent hholder h => exact .staged hpresent hholder h
  | handedOver h => exact .handedOver h

/-- A program that has not acted again keeps to what it kept to before others have acted. -/
theorem guarantees_shared {α : Type} {guar : FileSystem → FileSystem → Prop} {p : Io α}
    (h : p.Guarantees source.Foreign guar (fun _ _ => True) s) (ht : source.Foreign s t) :
    p.Guarantees source.Foreign guar (fun _ _ => True) t := by
  cases p with
  | ret a => trivial
  | fail e => trivial
  | step u k => exact fun v hv => h v (ht.trans hv)

theorem CleanupStep.sole_of_kept (hapart : source.Apart)
    (hadapter : ∀ s t, source.Adapts moveToTrash s t → source.Trashing s t)
    (h : source.CleanupStep formats moveToTrash False s t) (hrecorded : source.Recorded formats s)
    (hkept : ¬ source.Took s t) (hs : source.Sole s) : source.Sole t := by
  rcases h.sole hapart hrecorded hs with h | h
  · exact h
  · exact (hadapter s t h).sole hkept hs

theorem history_invariant (hapart : source.Apart)
    (hread : formats.fromSlice (formats.toVec source.document) = .ok source.document)
    (hadapter : ∀ s t, source.Adapts moveToTrash s t → source.Trashing s t)
    (h : History formats moveToTrash source running trashed s) :
    source.Recorded formats s ∧ (trashed = false → source.Sole s) ∧ running.Keeps formats moveToTrash source s := by
  induction h with
  | begins s locked relocked process sequence unchanged hready hsole =>
    refine ⟨.of_vacant hready.vacant, fun _ => hsole, ?_⟩
    exact (cleanUp_guarantees (fun _ _ h => h) hapart hread hadapter hready locked relocked process sequence
      unchanged).mono fun _ _ h => h.mono False.elim
  | @shares running trashed s t h ht ih =>
    obtain ⟨hrecorded, hsole, hkeeps⟩ := ih
    refine ⟨ht.recorded hrecorded, fun hnot => ht.sole (hsole hnot), ?_⟩
    cases running with
    | idle => trivial
    | cleaning p => exact guarantees_shared hkeeps ht
    | recovering p => exact guarantees_shared hkeeps ht
  | @cleans u k trashed s h hkept ih =>
    obtain ⟨hrecorded, hsole, hkeeps⟩ := ih
    obtain ⟨hstep, hrest⟩ := hkeeps s (.refl source s)
    exact ⟨hstep.recorded hapart hadapter hrecorded,
      fun hnot => hstep.sole_of_kept hapart hadapter hrecorded hkept (hsole hnot), hrest⟩
  | @trashes u k trashed s h htook ih =>
    obtain ⟨hrecorded, hsole, hkeeps⟩ := ih
    obtain ⟨hstep, hrest⟩ := hkeeps s (.refl source s)
    exact ⟨hstep.recorded hapart hadapter hrecorded, nofun, hrest⟩
  | @recovers u k trashed s h ih =>
    obtain ⟨hrecorded, hsole, hkeeps⟩ := ih
    obtain ⟨hstep, hrest⟩ := hkeeps s (.refl source s)
    exact ⟨hstep.recorded hapart hrecorded, fun hnot => hstep.sole hapart hrecorded (hsole hnot), hrest⟩
  | stops h ih => exact ⟨ih.1, ih.2.1, trivial⟩
  | @restarts trashed s h locked ih =>
    refine ⟨ih.1, ih.2.1, ?_⟩
    exact ((recoverPending_guarantees (fun _ _ h => h) hapart hread ih.1 locked).mono fun _ _ h => h.mono False.elim).post
      fun _ _ _ => trivial

/-! ## Crash safety -/

/-- In every history of a cleanup: the source is at one of its places until the adapter takes it, every action of the
cleanup is one of its steps, and so is every action of the recoveries, wherever they start. -/
theorem sourceCleanup_crashSafe (hapart : source.Apart)
    (hread : formats.fromSlice (formats.toVec source.document) = .ok source.document)
    (hadapter : ∀ s t, source.Adapts moveToTrash s t → source.Trashing s t) :
    (∀ running trashed s, History formats moveToTrash source running trashed s →
      (trashed = false → source.Sole s) ∧ Recoverable formats source s ∧
      ∀ u k, running = .cleaning (.step u k) → trashed = false → source.Took s (u s) →
        source.Adapts moveToTrash s (u s)) ∧
    ∀ (rely : FileSystem → FileSystem → Prop), (∀ s t, rely s t → source.Foreign s t) →
      ∀ locked relocked process sequence unchanged s t u, source.Ready s →
        (cleanUp formats source.journal locked relocked process sequence unchanged moveToTrash source.record).Acts
          rely s t u →
        source.CleanupStep formats moveToTrash (source.KeepsVacant rely) t u := by
  constructor
  · intro running trashed s h
    obtain ⟨hrecorded, hsole, hkeeps⟩ := history_invariant hapart hread hadapter h
    refine ⟨hsole, recoverable_of_recorded hapart hread hrecorded, ?_⟩
    rintro u k rfl hnot htook
    rcases (hkeeps s (.refl source s)).1.sole hapart hrecorded (hsole hnot) with hkept | hadapts
    · obtain ⟨place, hplace, hiff⟩ := hkept
      exact absurd ((hiff place hplace).2 rfl) (htook.2 place hplace)
    · exact hadapts
  · intro rely hrely locked relocked process sequence unchanged s t u hs h
    exact (cleanUp_guarantees hrely hapart hread hadapter hs locked relocked process sequence unchanged).acts h

/-! ## A run -/

section Sample

/-- The source `a` in a directory, whose journal is in another one. -/
def sampleSource : Source where
  directory := ⟨1, 10⟩
  name := utf8Bytes "a"
  holderName := utf8Bytes ".squallz-trash-hold-7-1"
  attempt := 1
  identity := ⟨1, 11⟩
  holder := ⟨1, 21⟩
  config := ⟨1, 20⟩

/-- The journal of the source as `/d/a`. -/
def sampleText : String :=
  "\x7b\"version\":1,\"original\":\x7b\"encoding\":\"unix\",\"units\":[47,100,47,97]\x7d," ++
  "\"staged\":\x7b\"encoding\":\"unix\",\"units\":[47,100,47,46,115,113,117,97,108,108,122,45,116,114,97,115,104," ++
  "45,104,111,108,100,45,55,45,49,47,97]\x7d,\"holder\":\x7b\"encoding\":\"unix\",\"units\":[47,100,47,46,115,113," ++
  "117,97,108,108,122,45,116,114,97,115,104,45,104,111,108,100,45,55,45,49]\x7d,\"preserved\":\x7b\"encoding\":" ++
  "\"unix\",\"units\":[47,100,47,97,46,115,113,117,97,108,108,122,45,112,114,101,115,101,114,118,101,100]\x7d," ++
  "\"identity\":\x7b\"filesystem\":1,\"entry\":11\x7d\x7d"

def sampleFormats : Formats where
  toVec _ := utf8Bytes sampleText
  fromSlice bytes := if bytes = utf8Bytes sampleText then .ok sampleSource.document else .error "expected value"

/-- The directory, the one of the journal, and that of the trash. -/
def sampleBefore : FileSystem where
  links := (((AList.insert (⟨1, 1⟩, utf8Bytes "d") ⟨1, 10⟩ ∅).insert (⟨1, 1⟩, utf8Bytes "c") ⟨1, 20⟩).insert
    (⟨1, 1⟩, utf8Bytes "t") ⟨1, 12⟩).insert (⟨1, 10⟩, utf8Bytes "a") ⟨1, 11⟩
  inodes i := ⟨if i = ⟨1, 11⟩ then .regular [97] else .directory, 0o700, none, (0, 0)⟩
  clock n := (n, 0)

/-- The holder has been created. -/
def sampleState : FileSystem :=
  ((sampleBefore.setInode ⟨1, 21⟩ ⟨.directory, 0o700, none, (0, 0)⟩).link ⟨1, 10⟩ sampleSource.holderName ⟨1, 21⟩).touch
    ⟨1, 21⟩

/-- The adapter moves what it is given into the trash. -/
def sampleTrash (path : Path) : Io Unit := change (·.renameNoReplace path ⟨⟨1, 12⟩, [utf8Bytes "a"]⟩)

private theorem sampleState_created : sampleBefore.Created sampleSource.directory sampleSource.holderName
    ⟨.directory, 0o700, none, (0, 0)⟩ sampleSource.holder sampleState :=
  create_created (create_eq_ok.2 ⟨_, _, rfl, by decide +kernel, by decide +kernel, rfl⟩)

private theorem sampleState_ready :
    sampleSource.Apart ∧ sampleSource.Ready sampleState ∧ sampleSource.Sole sampleState :=
  ready_of_created sampleState_created rfl (by decide +kernel) (by decide +kernel) (by decide +kernel)
    ⟨⟨1, 1⟩, utf8Bytes "c", by decide +kernel⟩ (by decide +kernel) (by decide +kernel)

private theorem sampleTrash_trashing {s t : FileSystem} (h : sampleSource.Adapts sampleTrash s t) :
    sampleSource.Trashing s t := by
  obtain ⟨v, hv, h⟩ := h
  refine Guarantees.acts (Q := fun _ _ => True) (guarantees_change (I := sampleSource.HolderIn) .refl
    (fun _ _ h => h.holderIn) hv (fun _ w u hw hu => ⟨?_, trivial⟩) fun _ _ _ => trivial) h
  obtain ⟨i, hi⟩ := renameNoReplace_relocated hu hw.locate_staged (locate_one w ⟨1, 12⟩ (utf8Bytes "a"))
  exact .relocated sampleState_ready.1 hi (by decide +kernel) (by decide +kernel)

private theorem sampleFormats_read (document : JournalDocument) :
    sampleFormats.fromSlice (sampleFormats.toVec document) = .ok sampleSource.document := by
  dsimp only [sampleFormats]
  rw [if_pos rfl]

/-- A cleanup whose source the trash takes, and whatever happens after it. -/
theorem sourceCleanup_crashSafe_sample :
    (∀ running trashed s, History sampleFormats sampleTrash sampleSource running trashed s →
      (trashed = false → sampleSource.Sole s) ∧ Recoverable sampleFormats sampleSource s ∧
      ∀ u k, running = .cleaning (.step u k) → trashed = false → sampleSource.Took s (u s) →
        sampleSource.Adapts sampleTrash s (u s)) ∧
    ∀ (rely : FileSystem → FileSystem → Prop), (∀ s t, rely s t → sampleSource.Foreign s t) →
      ∀ locked relocked process sequence unchanged s t u, sampleSource.Ready s →
        (cleanUp sampleFormats sampleSource.journal locked relocked process sequence unchanged sampleTrash
          sampleSource.record).Acts rely s t u →
        sampleSource.CleanupStep sampleFormats sampleTrash (sampleSource.KeepsVacant rely) t u :=
  sourceCleanup_crashSafe sampleState_ready.1 (sampleFormats_read _) fun _ _ => sampleTrash_trashing

/-- A cleanup of the source whose adapter fails. -/
def sampleCleanup : Io Bool :=
  cleanUp sampleFormats sampleSource.journal false false 7 1 (fun _ => true) (fun _ => .fail ⟨.other, "TrashError"⟩)
    sampleSource.record

/-- The source has been moved back, and an entry appears at the staged path. -/
def sampleAppeared : FileSystem :=
  (sampleCleanup.after 35 sampleState).2.link sampleSource.holder sampleSource.name ⟨1, 99⟩

/-- The record of a source that has been moved back is cleared over an entry that has just appeared at the staged
path. -/
theorem cleared_over_new_entry :
    sampleSource.Ready sampleState ∧ sampleSource.Sole sampleState ∧ ∃ u,
      sampleCleanup.Acts sampleSource.Foreign sampleState sampleAppeared u ∧
      sampleAppeared.find sampleSource.config journalName ≠ none ∧ u.find sampleSource.config journalName = none ∧
      sampleAppeared.find sampleSource.holder sampleSource.name ≠ none := by
  have hnext : ((sampleCleanup.after 35 sampleState).1.first.map fun u =>
      (u sampleAppeared).find sampleSource.config journalName) = some none := by decide +kernel
  obtain ⟨u, hfirst, hcleared⟩ := Option.map_eq_some_iff.1 hnext
  refine ⟨sampleState_ready.2.1, sampleState_ready.2.2, u sampleAppeared, ?_, by decide +kernel, hcleared,
    by decide +kernel⟩
  exact acts_after (.refl sampleSource) hfirst (.link (by decide +kernel) (by decide +kernel) (by decide +kernel))

end Sample

end Squallz.SourceCleanup.Source
