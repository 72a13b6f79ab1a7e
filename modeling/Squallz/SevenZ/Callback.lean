/-
What the callback of an extraction does to the books of a run: it goes on behind drained data, stops where nothing that is
selected comes later in the block, passes over a block that is broken, or ends the run.
-/
import Squallz.SevenZ.Draining

namespace Squallz.SevenZ

open Squallz.Api Squallz.Bytes Squallz.System Squallz.Extract

/-! ## Books -/

/-- What a run keeps besides its sink. -/
structure Book where
  remaining : List Pending
  failure : Option FormatError
  steps : List Step

def Extraction.book {W H I : Type} (s : Extraction W H I) : Book := ⟨s.remaining, s.failure, s.steps⟩

def failedSteps (pendings : List Pending) : List Step := pendings.map fun pending => .failed pending.fileIndex

namespace Book

def add (b : Book) (steps : List Step) : Book := { b with steps := b.steps ++ steps }

/-- The entries of a block that are still to come. -/
def pendingOf (b : Book) (blockIndex : Option Nat) : List Pending :=
  b.remaining.filter fun pending => blockIndex = some pending.block

/-- What is recorded where the data of an entry cannot be read. -/
def brokenSteps (b : Book) (plan : EntryReadPlan) : List Step :=
  .broken plan.fileIndex :: failedSteps (b.pendingOf plan.blockIndex)

/-- The block of an entry is given up. -/
def unprocessed (b : Book) (plan : EntryReadPlan) : Book :=
  { b with
    remaining := b.remaining.filter fun pending => plan.blockIndex ≠ some pending.block
    steps := b.steps ++ b.brokenSteps plan }

/-- A part of some steps has been taken. -/
structure Partly (b : Book) (steps : List Step) (b' : Book) : Prop where
  failure : b'.failure = b.failure
  steps : ∃ taken, taken <+: steps ∧ b'.steps = b.steps ++ taken

end Book

theorem Book.add_add (b : Book) (x y : List Step) : (b.add x).add y = b.add (x ++ y) := by
  unfold add
  rw [List.append_assoc]

theorem Book.add_nil (b : Book) : b.add [] = b := by
  unfold add
  rw [List.append_nil]

theorem Book.Partly.none (b : Book) (steps : List Step) : b.Partly steps b :=
  ⟨rfl, [], List.nil_prefix, (List.append_nil _).symm⟩

theorem Book.Partly.behind {b b' : Book} {x y : List Step} (h : (b.add x).Partly y b') : b.Partly (x ++ y) b' := by
  obtain ⟨hfailure, taken, hprefix, hsteps⟩ := h
  refine ⟨hfailure, x ++ taken, (List.prefix_append_right_inj x).2 hprefix, ?_⟩
  rw [hsteps, ← List.append_assoc]
  rfl

theorem Book.Partly.mono {b b' : Book} {x y : List Step} (h : b.Partly x b') (hxy : x <+: y) : b.Partly y b' := by
  obtain ⟨hfailure, taken, hprefix, hsteps⟩ := h
  exact ⟨hfailure, taken, hprefix.trans hxy, hsteps⟩

section

variable {D W H I : Type} {dec : Decoder D} {env : Environment W H I} {opts : ExtractOptions} {passwordSupplied : Bool}

/-! ## Programs of the sink -/

theorem ends_onSink {α : Type} (p : Run W H I α) (t : Extraction W H I × Source D) :
    Ends (onSink p) (fun _ t' => t'.1.book = t.1.book ∧ t'.2 = t.2) t := ends_within (ends_within ⟨rfl, rfl⟩)

/-- A program of the sink of whose result something is known. -/
theorem ends_onSink_of {α : Type} {p : Run W H I α} {Q : Except Fault α → Prop} (h : ∀ s, Ends p (fun r _ => Q r) s)
    (t : Extraction W H I × Source D) : Ends (onSink p) (fun r t' => Q r ∧ t'.1.book = t.1.book ∧ t'.2 = t.2) t :=
  ends_within (ends_within ((h t.1.sink).mono fun _ _ hr => ⟨hr, rfl, rfl⟩))

theorem ends_control (s : Extraction W H I) : Ends (control env) (fun _ s' => s'.book = s.book) s := ends_within rfl

theorem ends_getSource {α : Type} {next : Source D → Extracting D W H I α} {Q : Except Fault α → Extraction W H I × Source D → Prop}
    {t : Extraction W H I × Source D} (h : Ends (next t.2) Q t) : Ends (getSource >>= next) Q t := h

theorem ends_getExtraction {α : Type} {next : Extraction W H I → Extracting D W H I α}
    {Q : Except Fault α → Extraction W H I × Source D → Prop} {t : Extraction W H I × Source D}
    (h : Ends (next t.1) Q t) : Ends (getExtraction >>= next) Q t := h

theorem ends_record (step : Step) (t : Extraction W H I × Source D) :
    Ends (record step) (fun r t' => r = .ok () ∧ t'.1.book = t.1.book.add [step] ∧ t'.2 = t.2) t :=
  ends_step (ends_pure ⟨rfl, rfl, rfl⟩)

/-! ## Files -/

/-- How a copy ends: with all data taken, or with a read that fails, which never happens where there are no data. -/
def Copied (t : Extraction W H I × Source D) (copied : Except FormatError UInt64) (t' : Extraction W H I × Source D) :
    Prop :=
  match copied with
  | .ok _ => Drains Extraction.book t () t'
  | .error _ => Leaves Extraction.book t t' ∧ t.2 ≠ .empty

theorem ends_copyEntry {tolerant : Bool} {buffer left : Nat} {entry : EntryMeta} {staged : DestPath} {handle : H}
    {entryStart written : UInt64} (hbuffer : buffer ≠ 0) (t : Extraction W H I × Source D) :
    Ends (copyEntry dec env tolerant buffer entry staged handle entryStart left written)
      (Outcome (Copied t) (Leaves Extraction.book t)) t := by
  induction left generalizing t written with
  | zero => exact ends_fail rfl
  | succ left ih =>
    refine ends_bind (ends_onSink _ t) (fun _ t₀ ⟨hview₀, hsource₀⟩ => ?_) fun _ t₀ h => h.1
    refine ends_bind (ends_onSink _ t₀) (fun _ t₁ ⟨hview₁, hsource₁⟩ => ?_) fun _ t₁ h => h.1.trans hview₀
    have hview := hview₁.trans hview₀
    have hsource := hsource₁.trans hsource₀
    refine ends_bind (ends_readSource buffer t₁) (fun r t₂ ⟨read, hr, hread, hstate⟩ => ?_)
      fun _ _ ⟨_, hr, _⟩ => by cases hr
    cases hr
    rw [hsource] at hread
    have hview₂ : t₂.1.book = t.1.book := (congrArg Extraction.book hstate).trans hview
    match r with
    | .error error =>
      refine ends_pure ⟨hview₂, fun hempty => ?_⟩
      rw [hempty] at hread
      cases hread
    | .ok bytes =>
      refine ends_ite (fun hend => ?_) fun _ => ?_
      · subst hend
        exact ends_pure ⟨hview₂, Source.drained_of_end hread hbuffer⟩
      · refine ends_bind (ends_onSink _ t₂) (fun written t₃ ⟨hview₃, hsource₃⟩ => ?_) fun _ t₃ h => h.1.trans hview₂
        have hbehind := hview₃.trans hview₂
        refine (ih t₃).mono fun r t₄ h₄ => ?_
        match r with
        | .ok (.ok _) =>
          refine ⟨h₄.1.trans hbehind, Source.Drained.of_read hread ?_⟩
          rw [← hsource₃]
          exact h₄.2
        | .ok (.error _) =>
          refine ⟨Eq.trans h₄.1 hbehind, fun hempty => h₄.2 ?_⟩
          rw [hempty] at hread
          rw [hsource₃]
          exact (congrArg Prod.snd hread).symm
        | .error _ => exact Eq.trans h₄ hbehind

theorem streamBufferSize_ne_zero {n : Nat} (h : streamBufferSize opts copyChunk = .ok n) : n ≠ 0 := by
  unfold streamBufferSize at h
  split at h
  · cases h
    decide
  · split at h
    · cases h
    · cases h
      omega

/-- How an entry is staged: its data are taken, or passed over where a read fails. -/
def Staged (tolerant : Bool) (t : Extraction W H I × Source D) (written : Option UInt64)
    (t' : Extraction W H I × Source D) : Prop :=
  match written with
  | some _ => Drains Extraction.book t () t'
  | none => Leaves Extraction.book t t' ∧ t.2 ≠ .empty ∧ tolerant = true

theorem ends_finishEntry_ok {tolerant : Bool} {entry : EntryMeta} {outPath staged : DestPath} {handle : H}
    {replaceExisting : Bool} {written : UInt64} (s : Extract.State W H I) :
    Ends (finishEntry env opts passwordSupplied tolerant entry outPath staged handle replaceExisting (.ok written))
      (fun r _ => r ≠ .ok none) s := by
  refine ends_bind (ends_true _ ) (fun _ s₁ _ => ?_) fun _ _ _ h => by cases h
  refine ends_bind (ends_true _ ) (fun _ s₂ _ => ?_) fun _ _ _ h => by cases h
  refine ends_bind (ends_true _ ) (fun _ s₃ _ => ends_pure fun h => by cases h) fun _ _ _ h => by cases h

theorem ends_finishEntry_error {tolerant : Bool} {entry : EntryMeta} {outPath staged : DestPath} {handle : H}
    {replaceExisting : Bool} {error : FormatError} (s : Extract.State W H I) :
    Ends (finishEntry env opts passwordSupplied tolerant entry outPath staged handle replaceExisting (.error error))
      (fun r _ => ∀ written, r = .ok written → written = none ∧ tolerant = true) s := by
  refine ends_ite (fun h => ?_) fun _ => ends_fail fun _ h => by cases h
  refine ends_bind (ends_true _) (fun _ _ _ => ends_pure fun _ hr => ?_) fun _ _ _ _ h => by cases h
  cases hr
  exact ⟨rfl, (Bool.and_eq_true_iff.1 h).1⟩

theorem ends_stageEntry {tolerant : Bool} {entry : EntryMeta} {outPath staged : DestPath} {handle : H}
    {replaceExisting : Bool} {entryStart : UInt64} (t : Extraction W H I × Source D) :
    Ends (stageEntry dec env opts passwordSupplied tolerant entry outPath staged handle replaceExisting entryStart)
      (Outcome (Staged tolerant t) (Leaves Extraction.book t)) t := by
  refine ends_bind (P := fun r t' => r = streamBufferSize opts copyChunk ∧ t' = t) (ends_ofExcept ⟨rfl, rfl⟩)
    (fun buffer t' ⟨hbuffer, ht⟩ => ?_) fun _ t' ⟨_, ht⟩ => (by subst ht; rfl)
  subst ht
  refine ends_getSource (ends_bind (ends_copyEntry (streamBufferSize_ne_zero hbuffer.symm) t') (fun copied t₁ h₁ => ?_)
    fun _ _ h => h)
  match copied with
  | .ok written =>
    refine (ends_onSink_of ends_finishEntry_ok t₁).mono fun r t₂ ⟨hr, hview, hsource⟩ => ?_
    match r with
    | .ok none => exact absurd rfl hr
    | .ok (some _) => exact ⟨hview.trans h₁.1, hsource ▸ h₁.2⟩
    | .error _ => exact hview.trans h₁.1
  | .error error =>
    refine (ends_onSink_of ends_finishEntry_error t₁).mono fun r t₂ ⟨hr, hview, hsource⟩ => ?_
    match r with
    | .ok none => exact ⟨hview.trans h₁.1, h₁.2, (hr none rfl).2⟩
    | .ok (some _) => cases (hr _ rfl).1
    | .error _ => exact hview.trans h₁.1

/-- A part of the callback that cleans up where it fails. -/
theorem ends_cleanUp {α : Type} {cleanup : Run W H I Unit} {body : Extracting D W H I α}
    {P : α → Extraction W H I × Source D → Prop} {t₀ t : Extraction W H I × Source D}
    (h : Ends body (Outcome P (Leaves Extraction.book t₀)) t) :
    Ends (cleanUp cleanup body) (Outcome P (Leaves Extraction.book t₀)) t := by
  refine ends_bind (P := fun r t' => ∃ r', r = .ok r' ∧ Outcome P (Leaves Extraction.book t₀) r' t')
    (ends_attempt (h.mono fun r t' hr => ⟨r, rfl, hr⟩)) (fun r t₁ ⟨r', heq, h₁⟩ => ?_) fun _ _ ⟨_, heq, _⟩ => by cases heq
  cases heq
  match r with
  | .ok a => exact ends_pure h₁
  | .error fault =>
    refine ends_bind (P := fun _ t' => t'.1.book = t₁.1.book ∧ t'.2 = t₁.2) (ends_attempt ((ends_onSink cleanup t₁).mono fun _ _ h => h)) (fun _ t₂ h₂ => ends_fail ?_)
      fun _ _ h₂ => ?_
    · exact h₂.1.trans h₁
    · exact h₂.1.trans h₁

/-- Whether an entry is written: then its data have been taken, and else a read of them failed. -/
def Written (tolerant : Bool) (t : Extraction W H I × Source D) (written : Bool) (t' : Extraction W H I × Source D) :
    Prop :=
  match written with
  | true => Drains Extraction.book t () t'
  | false => Leaves Extraction.book t t' ∧ t.2 ≠ .empty ∧ tolerant = true

theorem ends_writeEntry {tolerant : Bool} {entry : EntryMeta} {outPath : DestPath} (t : Extraction W H I × Source D) :
    Ends (writeEntry dec env opts passwordSupplied tolerant entry outPath)
      (Outcome (Written tolerant t) (Leaves Extraction.book t)) t := by
  refine ends_bind (ends_onSink _ t) (fun ⟨entryStart, resolved, staged, handle⟩ t₁ ⟨hview, hsource⟩ => ?_)
    fun _ _ h => h.1
  refine ends_bind (ends_cleanUp (ends_stageEntry t₁)) (fun written t₂ h₂ => ?_) fun _ _ h => Eq.trans h hview
  match written with
  | none =>
    refine ends_bind (ends_onSink _ t₂) (fun _ t₃ h₃ => ends_pure ?_) fun _ _ h₃ => ?_
    · exact ⟨h₃.1.trans (Eq.trans h₂.1 hview), hsource ▸ h₂.2.1, h₂.2.2⟩
    · exact h₃.1.trans (Eq.trans h₂.1 hview)
  | some written =>
    refine ends_bind (ends_onSink _ t₂) (fun _ t₃ h₃ => ends_pure ?_) fun _ _ h₃ => ?_
    · refine ⟨h₃.1.trans (h₂.1.trans hview), ?_⟩
      rw [h₃.2, ← hsource]
      exact h₂.2
    · exact h₃.1.trans (h₂.1.trans hview)

/-! ## Broken blocks -/

theorem ends_recordPending (pendings : List Pending) (t : Extraction W H I × Source D) :
    Ends (recordPending env pendings) (Outcome
      (fun _ t' => t'.1.book = t.1.book.add (failedSteps pendings) ∧ t'.2 = t.2)
      (fun t' => t.1.book.Partly (failedSteps pendings) t'.1.book)) t := by
  induction pendings generalizing t with
  | nil => exact ends_pure ⟨t.1.book.add_nil.symm, rfl⟩
  | cons pending rest ih =>
    refine ends_bind (ends_onSink _ t) (fun _ t₁ ⟨h₁, hs₁⟩ => ?_) fun _ t₁ ⟨h₁, _⟩ => ?_
    · refine ends_bind (ends_record _ t₁) (fun _ t₂ ⟨_, h₂, hs₂⟩ => (ih t₂).mono fun r t₃ h₃ => ?_)
        fun _ _ ⟨h, _⟩ => by cases h
      rw [h₁] at h₂
      rw [h₂] at h₃
      match r with
      | .ok () => exact ⟨h₃.1.trans (Book.add_add _ _ _), h₃.2.trans (hs₂.trans hs₁)⟩
      | .error fault => exact Book.Partly.behind h₃
    · show t.1.book.Partly _ t₁.1.book
      rw [h₁]
      exact .none _ _

theorem Book.unprocessed_none {b : Book} {plan : EntryReadPlan} (h : plan.blockIndex = none) :
    b.unprocessed plan = b.add [.broken plan.fileIndex] ∧ b.brokenSteps plan = [.broken plan.fileIndex] := by
  have hsteps : b.brokenSteps plan = [.broken plan.fileIndex] := by
    rw [brokenSteps, pendingOf, h, List.filter_eq_nil_iff.2 (fun pending _ => by simp)]
    rfl
  refine ⟨?_, hsteps⟩
  rw [unprocessed, hsteps, h, List.filter_eq_self.2 (fun pending _ => by simp)]
  rfl

theorem Book.pendingOf_some (b : Book) (block : Nat) :
    b.pendingOf (some block) = b.remaining.filter fun pending => pending.block = block := by
  refine List.filter_congr fun pending _ => ?_
  rw [decide_eq_decide, Option.some.injEq]
  exact eq_comm

variable (env) in
/-- The block of an entry is given up: everything of it that is still to come has failed. -/
theorem ends_recordUnprocessedBlockEntries (plan : EntryReadPlan) (t : Extraction W H I × Source D) :
    Ends (recordUnprocessedBlockEntries env plan) (Outcome
      (fun _ t' => t'.1.book = t.1.book.unprocessed plan)
      (fun t' => t.1.book.Partly (t.1.book.brokenSteps plan) t'.1.book)) t := by
  refine ends_bind (ends_record _ t) (fun _ t₁ ⟨_, h₁, hs₁⟩ => ?_) fun _ _ ⟨h, _⟩ => by cases h
  cases hblock : plan.blockIndex with
  | none => exact ends_pure (h₁.trans (Book.unprocessed_none hblock).1.symm)
  | some block =>
    refine ends_getExtraction (ends_update ?_)
    have hremaining : t₁.1.remaining = t.1.remaining := congrArg Book.remaining h₁
    have hsteps : t₁.1.steps = t.1.steps ++ [.broken plan.fileIndex] := congrArg Book.steps h₁
    have hfailure : t₁.1.failure = t.1.failure := congrArg Book.failure h₁
    have hpending : t.1.book.brokenSteps plan =
        .broken plan.fileIndex :: failedSteps (t₁.1.remaining.filter fun pending => pending.block = block) := by
      rw [Book.brokenSteps, hblock, Book.pendingOf_some, hremaining]
      rfl
    rw [hpending]
    refine (ends_recordPending _ _).mono fun r t₂ h₂ => ?_
    match r with
    | .ok () =>
      have hleft : (t₁.1.remaining.filter fun pending => pending.block ≠ block) =
          t.1.remaining.filter fun pending => plan.blockIndex ≠ some pending.block := by
        rw [hremaining, hblock]
        refine List.filter_congr fun pending _ => ?_
        rw [decide_eq_decide, ne_eq, ne_eq, Option.some.injEq, not_iff_not]
        exact eq_comm
      rw [Outcome, h₂.1, Book.unprocessed, hpending]
      show Book.mk (t₁.1.remaining.filter fun pending => pending.block ≠ block) t₁.1.failure (t₁.1.steps ++ _) = _
      rw [hleft, hfailure, hsteps, List.append_assoc]
      rfl
    | .error fault =>
      obtain ⟨hf, taken, hprefix, hs⟩ := h₂
      refine ⟨hf.trans hfailure, .broken plan.fileIndex :: taken, List.cons_prefix_cons.2 ⟨rfl, hprefix⟩, ?_⟩
      rw [hs]
      show t₁.1.steps ++ taken = _
      rw [hsteps, List.append_assoc]
      rfl

/-! ## Entries -/

/-- How an entry is read past: its data are taken if something of its block comes later, and what comes later is given up
where they cannot be read. -/
inductive Skipped (opts : ExtractOptions) (plan : EntryReadPlan) (t : Extraction W H I × Source D) :
    Bool → Extraction W H I × Source D → Prop
  | drained {t' : Extraction W H I × Source D} (later : plan.selectedLaterInBlock = true)
    (drains : Drains Extraction.book t () t') : Skipped opts plan t true t'
  | last {t' : Extraction W H I × Source D} (last : plan.selectedLaterInBlock = false) (book : t'.1.book = t.1.book)
    (source : t'.2 = t.2) : Skipped opts plan t plan.blockIndex.isNone t'
  | broken {t' : Extraction W H I × Source D} (tolerant : opts.bestEffort = true) (later : plan.selectedLaterInBlock = true)
    (book : t'.1.book = t.1.book.unprocessed plan) : Skipped opts plan t false t'

theorem ends_skipEntryStream (plan : EntryReadPlan) (t : Extraction W H I × Source D) :
    Ends (skipEntryStream dec env opts passwordSupplied plan) (Outcome (Skipped opts plan t)
      (fun t' => t.1.book.Partly (t.1.book.brokenSteps plan) t'.1.book)) t := by
  have hsame : ∀ t' : Extraction W H I × Source D, t'.1.book = t.1.book →
      t.1.book.Partly (t.1.book.brokenSteps plan) t'.1.book := by
    intro t' h
    rw [h]
    exact .none _ _
  refine ends_bind (ends_onSink _ t) (fun _ t₁ ⟨h₁, hs₁⟩ => ?_) fun _ t₁ h => hsame t₁ h.1
  cases hlater : plan.selectedLaterInBlock with
  | false => exact ends_pure (.last hlater h₁ hs₁)
  | true =>
    refine ends_bind (ends_caught (ends_mapError (ends_drainEntry ends_control t₁))) (fun read t₂ h₂ => ?_)
      fun _ t₂ h₂ => hsame t₂ (Eq.trans h₂ h₁)
    match read with
    | .ok () => exact ends_pure (.drained hlater ⟨h₂.1.trans h₁, hs₁ ▸ h₂.2⟩)
    | .error error =>
      have hbook : t₂.1.book = t.1.book := Eq.trans h₂ h₁
      refine ends_ite (fun htolerant => ?_) fun _ => ends_fail (hsame t₂ hbook)
      have hbroken := ends_recordUnprocessedBlockEntries env plan t₂
      rw [hbook] at hbroken
      refine ends_bind hbroken (fun _ t₃ h₃ => ends_pure ?_) fun _ t₃ h₃ => h₃
      exact .broken (Bool.and_eq_true_iff.1 htolerant).1 hlater h₃

/-- What becomes of an entry that is selected: it is delivered, and the callback goes on behind its data or reads past them;
or its data cannot be read, and what comes later in its block is given up as well. -/
inductive Extracted (opts : ExtractOptions) (entry : EntryMeta) (plan : EntryReadPlan) (t : Extraction W H I × Source D) :
    Bool → Extraction W H I × Source D → Prop
  | delivered {t' : Extraction W H I × Source D} (book : t'.1.book = t.1.book.add [.delivered plan.fileIndex])
    (source : t.2.Drained t'.2 ∨ entry.entryType = .dir ∧ t'.2 = t.2) : Extracted opts entry plan t true t'
  | last {t' : Extraction W H I × Source D} (last : plan.selectedLaterInBlock = false)
    (book : t'.1.book = t.1.book.add [.delivered plan.fileIndex]) (source : t'.2 = t.2) :
    Extracted opts entry plan t plan.blockIndex.isNone t'
  | brokenBehind {t' : Extraction W H I × Source D} (tolerant : opts.bestEffort = true)
    (later : plan.selectedLaterInBlock = true)
    (book : t'.1.book = (t.1.book.add [.delivered plan.fileIndex]).unprocessed plan) : Extracted opts entry plan t false t'
  | broken {t' : Extraction W H I × Source D} (tolerant : opts.bestEffort = true)
    (book : t'.1.book = (t.1.book.add [.failed plan.fileIndex]).unprocessed plan)
    (reason : t.2 ≠ .empty ∨ opts.symlinks ≠ .skip ∧ ∃ target, entry.entryType = .symlink target) :
    Extracted opts entry plan t false t'

/-- What is done when a selected entry ends the run. -/
def Interrupted (plan : EntryReadPlan) (t t' : Extraction W H I × Source D) : Prop :=
  t.1.book.Partly (.delivered plan.fileIndex :: t.1.book.brokenSteps plan) t'.1.book ∨
    t.1.book.Partly (.failed plan.fileIndex :: t.1.book.brokenSteps plan) t'.1.book

theorem Interrupted.none {plan : EntryReadPlan} {t t' : Extraction W H I × Source D} (h : t'.1.book = t.1.book) :
    Interrupted plan t t' := by
  refine .inl ?_
  rw [h]
  exact .none _ _

/-- What is done behind a first step that is recorded. -/
theorem Interrupted.behind {plan : EntryReadPlan} {t t' : Extraction W H I × Source D} {step : Step}
    (hstep : step = .delivered plan.fileIndex ∨ step = .failed plan.fileIndex)
    (h : (t.1.book.add [step]).Partly ((t.1.book.add [step]).brokenSteps plan) t'.1.book) : Interrupted plan t t' := by
  have hbehind : t.1.book.Partly (step :: t.1.book.brokenSteps plan) t'.1.book := Book.Partly.behind h
  rcases hstep with rfl | rfl
  · exact .inl hbehind
  · exact .inr hbehind

/-- An entry that is delivered, and read past. -/
theorem ends_skip_delivered {entry : EntryMeta} {plan : EntryReadPlan} {t t₁ : Extraction W H I × Source D}
    (hbook : t₁.1.book = t.1.book.add [.delivered plan.fileIndex]) (hsource : t₁.2 = t.2) :
    Ends (skipEntryStream dec env opts passwordSupplied plan)
      (Outcome (Extracted opts entry plan t) (Interrupted plan t)) t₁ := by
  refine (ends_skipEntryStream plan t₁).mono fun r t₂ h₂ => ?_
  match r with
  | .ok goesOn =>
    cases h₂ with
    | drained later drains => exact .delivered (drains.1.trans hbook) (.inl (hsource ▸ drains.2))
    | last last book source => exact .last last (book.trans hbook) (source.trans hsource)
    | broken tolerant later book =>
      rw [hbook] at book
      exact .brokenBehind tolerant later book
  | .error fault =>
    refine .behind (.inl rfl) ?_
    rw [← hbook]
    exact h₂

variable [DecidableEq I]

theorem ends_writeMeta {entry : EntryMeta} {plan : EntryReadPlan} (t : Extraction W H I × Source D) :
    Ends (writeMeta env opts entry plan) (Outcome
      (fun _ t' => t'.1.book = t.1.book.add [.delivered plan.fileIndex] ∧ t'.2 = t.2) (Interrupted plan t)) t := by
  refine ends_bind (ends_onSink _ t) (fun _ t₁ ⟨h₁, hs₁⟩ => ?_) fun _ t₁ h₁ => .none h₁.1
  refine (ends_record _ t₁).mono fun r t₂ ⟨hr, h₂, hs₂⟩ => ?_
  subst hr
  rw [h₁] at h₂
  exact ⟨h₂, hs₂.trans hs₁⟩

theorem ends_extractLink {entry : EntryMeta} {plan : EntryReadPlan} (hskip : opts.symlinks ≠ .skip)
    (hlink : ∃ target, entry.entryType = .symlink target) (t : Extraction W H I × Source D) :
    Ends (extractLink dec env opts passwordSupplied entry plan)
      (Outcome (Extracted opts entry plan t) (Interrupted plan t)) t := by
  refine ends_bind (ends_caught (ends_mapError (ends_readSymlinkTarget ends_control t))) (fun read t₁ h₁ => ?_)
    fun _ t₁ h₁ => .none h₁
  match read with
  | .ok target =>
    refine ends_bind (ends_onSink _ t₁) (fun _ t₂ ⟨h₂, hs₂⟩ => ?_) fun _ t₂ h₂ => .none (h₂.1.trans h₁.1)
    refine ends_bind (ends_record _ t₂) (fun _ t₃ ⟨_, h₃, hs₃⟩ => ends_pure ?_) fun _ _ ⟨h, _⟩ => by cases h
    refine .delivered ?_ (.inl ?_)
    · rw [h₃, h₂, h₁.1]
    · rw [hs₃, hs₂]
      exact h₁.2
  | .error error =>
    have hbook : t₁.1.book = t.1.book := h₁
    refine ends_ite (fun htolerant => ?_) fun _ => ends_fail (.none hbook)
    refine ends_bind (ends_onSink _ t₁) (fun _ t₂ ⟨h₂, hs₂⟩ => ?_) fun _ t₂ h₂ => .none (h₂.1.trans hbook)
    refine ends_bind (ends_record _ t₂) (fun _ t₃ ⟨_, h₃, hs₃⟩ => ?_) fun _ _ ⟨h, _⟩ => by cases h
    rw [h₂, hbook] at h₃
    have hbroken := ends_recordUnprocessedBlockEntries env plan t₃
    rw [h₃] at hbroken
    refine ends_bind hbroken (fun _ t₄ h₄ => ends_pure ?_) fun _ t₄ h₄ => .behind (.inr rfl) h₄
    exact .broken (Bool.and_eq_true_iff.1 htolerant).1 h₄ (.inr ⟨hskip, hlink⟩)

omit [DecidableEq I] in
theorem ends_extractFile {entry : EntryMeta} {plan : EntryReadPlan} (t : Extraction W H I × Source D) :
    Ends (extractFile dec env opts passwordSupplied entry plan)
      (Outcome (Extracted opts entry plan t) (Interrupted plan t)) t := by
  refine ends_bind (ends_onSink _ t) (fun target t₁ ⟨h₁, hs₁⟩ => ?_) fun _ t₁ h₁ => .none h₁.1
  match target with
  | none =>
    refine ends_bind (ends_record _ t₁) (fun _ t₂ ⟨_, h₂, hs₂⟩ => ?_) fun _ _ ⟨h, _⟩ => by cases h
    rw [h₁] at h₂
    exact ends_skip_delivered h₂ (hs₂.trans hs₁)
  | some outPath =>
    refine ends_bind (ends_writeEntry t₁) (fun written t₂ h₂ => ?_) fun _ t₂ h₂ => .none (Eq.trans h₂ h₁)
    match written with
    | true =>
      refine ends_bind (ends_record _ t₂) (fun _ t₃ ⟨_, h₃, hs₃⟩ => ends_pure ?_) fun _ _ ⟨h, _⟩ => by cases h
      refine .delivered ?_ (.inl ?_)
      · rw [h₃, h₂.1, h₁]
      · rw [hs₃, ← hs₁]
        exact h₂.2
    | false =>
      have hbook : t₂.1.book = t.1.book := Eq.trans h₂.1 h₁
      refine ends_bind (ends_record _ t₂) (fun _ t₃ ⟨_, h₃, hs₃⟩ => ?_) fun _ _ ⟨h, _⟩ => by cases h
      rw [hbook] at h₃
      have hbroken := ends_recordUnprocessedBlockEntries env plan t₃
      rw [h₃] at hbroken
      refine ends_bind hbroken (fun _ t₄ h₄ => ends_pure ?_) fun _ t₄ h₄ => .behind (.inr rfl) h₄
      exact .broken h₂.2.2 h₄ (.inl (hs₁ ▸ h₂.2.1))

theorem ends_extractSelected {entry : EntryMeta} {plan : EntryReadPlan} (t : Extraction W H I × Source D)
    (hkind : entry.entryType = .file ∨ entry.entryType = .dir ∨ ∃ target, entry.entryType = .symlink target) :
    Ends (extractSelected dec env opts passwordSupplied entry plan)
      (Outcome (Extracted opts entry plan t) (Interrupted plan t)) t := by
  unfold extractSelected
  rcases hkind with hfile | hdir | ⟨target, hlink⟩
  · rw [hfile]
    exact ends_extractFile t
  · rw [hdir]
    refine ends_bind (ends_writeMeta t) (fun _ t₁ h₁ => ends_pure ?_) fun _ _ h => h
    exact .delivered h₁.1 (.inr ⟨hdir, h₁.2⟩)
  · rw [hlink]
    refine ends_ite (fun _ => ?_) fun hskip => ends_extractLink hskip ⟨target, hlink⟩ t
    exact ends_bind (ends_writeMeta t) (fun _ t₁ h₁ => ends_skip_delivered h₁.1 h₁.2) fun _ _ h => h

end

end Squallz.SevenZ
