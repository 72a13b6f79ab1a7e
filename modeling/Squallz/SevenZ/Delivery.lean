/-
An extraction calls back each selected entry once, at its own data, and accounts for each: the invariant of a run, what the
callback does to it, and what the pass over the blocks makes of it.
-/
import Mathlib.Data.List.Nodup
import Squallz.SevenZ.Callback
import Squallz.SevenZ.Plans

namespace Squallz.SevenZ

open Squallz.Api Squallz.Bytes Squallz.System Squallz.Extract

/-! ## Steps -/

/-- The file that a step is the end of. -/
def Step.ended : Step → Option Nat
  | .delivered file | .failed file => some file
  | _ => none

def Step.calledFile : Step → Option Nat
  | .called file _ _ => some file
  | _ => none

def endedFiles (steps : List Step) : List Nat := steps.filterMap Step.ended

def calledFiles (steps : List Step) : List Nat := steps.filterMap Step.calledFile

@[simp] theorem endedFiles_append (x y : List Step) : endedFiles (x ++ y) = endedFiles x ++ endedFiles y :=
  List.filterMap_append

@[simp] theorem calledFiles_append (x y : List Step) : calledFiles (x ++ y) = calledFiles x ++ calledFiles y :=
  List.filterMap_append

theorem endedFiles_failedSteps (pendings : List Pending) :
    endedFiles (failedSteps pendings) = pendings.map (·.fileIndex) := by
  unfold endedFiles failedSteps
  rw [List.filterMap_map]
  exact List.filterMap_eq_map (f := fun pending : Pending => pending.fileIndex) ▸ rfl

theorem calledFiles_failedSteps (pendings : List Pending) : calledFiles (failedSteps pendings) = [] := by
  unfold calledFiles failedSteps
  rw [List.filterMap_map]
  exact List.filterMap_eq_nil_iff.2 fun _ _ => rfl

theorem endedFiles_brokenSteps (b : Book) (plan : EntryReadPlan) :
    endedFiles (b.brokenSteps plan) = (b.pendingOf plan.blockIndex).map (·.fileIndex) := endedFiles_failedSteps _

theorem calledFiles_brokenSteps (b : Book) (plan : EntryReadPlan) : calledFiles (b.brokenSteps plan) = [] :=
  calledFiles_failedSteps _

/-! ## Runs -/

section

variable (archive : Archive) (opts : ExtractOptions) (wanted : Option (List (List UInt8)))

/-- The order in which a pass comes to the files: block by block, and those without a block at the end. -/
def visitOrder : List Nat :=
  (List.range archive.blocks.length).flatMap archive.filesOf ++
    (List.range archive.files.length).filter fun i => archive.fileBlockIndex[i]? = some none

/-- The bytes of a block before the data of a file. -/
def offsetOf (block i : Nat) : Nat := ((archive.filesOf block).takeWhile (· ≠ i)).map archive.sizeOf |>.sum

/-- The place of the data of a file, if its block is decoded. -/
def placeOf (i : Nat) : Option Place :=
  match archive.blockOf i with
  | some block =>
    if block ∈ dataBlocks archive opts wanted then some ⟨block, offsetOf archive block i, archive.sizeOf i⟩ else none
  | none => none

/-- A selected file comes to its end: it is delivered or recorded as failed, by its own callback, or in best-effort mode
because something before it in its block was broken. -/
def Accounted (steps : List Step) (i : Nat) : Prop :=
  i ∈ endedFiles steps ∧ (.called i (placeOf archive opts wanted i) false ∈ steps ∨
    opts.bestEffort = true ∧ ∃ j block, j < i ∧ archive.blockOf j = some block ∧ archive.blockOf i = some block ∧
      .broken j ∈ steps)

/-- In best-effort mode the files without a block are left where the target of one of them, which has no data, was to be
read. -/
def LeftBehindLink (i : Nat) : Prop :=
  opts.bestEffort = true ∧ opts.symlinks ≠ .skip ∧ archive.blockOf i = none ∧ ∃ j entry, j < i ∧
    archive.blockOf j = none ∧ archive.files[j]? = some entry ∧ isSymlink entry = true ∧ isWanted wanted entry = true

/-- What is known of the selected ones among some files. -/
def AllAccounted (steps : List Step) (past : List Nat) : Prop :=
  ∀ i ∈ past, archive.Selected wanted i → Accounted archive opts wanted steps i ∨ LeftBehindLink archive opts wanted i

/-- What holds of the steps of a run wherever it comes to: a file is called once, at its place, and ends once. -/
structure Regular (steps : List Step) : Prop where
  calls : (calledFiles steps).Nodup
  places : ∀ i place, .called i place false ∈ steps → place = placeOf archive opts wanted i
  ends : (endedFiles steps).Nodup

/-- What is pending among the files that are still to come. -/
structure Awaits (todo : List Nat) (remaining : List Pending) : Prop where
  complete : ∀ i ∈ todo, archive.Selected wanted i → ∀ block, archive.blockOf i = some block →
    ∃ pending ∈ remaining, pending.block = block ∧ pending.fileIndex = i
  sound : ∀ pending ∈ remaining, pending.fileIndex ∈ todo ∧ archive.blockOf pending.fileIndex = some pending.block ∧
    archive.Selected wanted pending.fileIndex
  once : (remaining.map (·.fileIndex)).Nodup

/-- A run without a failure, with the files that it has come past and those that are still to come. -/
structure Running (past todo : List Nat) (b : Book) : Prop where
  failure : b.failure = none
  order : visitOrder archive = past ++ todo
  regular : Regular archive opts wanted b.steps
  accounted : AllAccounted archive opts wanted b.steps past
  called : ∀ i ∈ calledFiles b.steps, i ∈ past
  ended : ∀ i ∈ endedFiles b.steps, i ∈ past
  awaits : Awaits archive wanted todo b.remaining

/-- A run whose callback has been called for a file, before anything is done with it. -/
structure AtCall (past : List Nat) (i : Nat) (todo : List Nat) (b : Book) : Prop where
  failure : b.failure = none
  before : ∃ (steps : List Step) (remaining : List Pending),
    Running archive opts wanted past (i :: todo) ⟨remaining, none, steps⟩ ∧
      b.steps = steps ++ [.called i (placeOf archive opts wanted i) false]
  awaits : Awaits archive wanted todo b.remaining

/-- A run that has come to its end: up to some file all selected ones are accounted for, and behind the next one nothing was
called. -/
def Halted (steps : List Step) : Prop :=
  Regular archive opts wanted steps ∧ ∃ past rest, visitOrder archive = past ++ rest ∧
    AllAccounted archive opts wanted steps past ∧
    ∀ i place, .called i place false ∈ steps → i ∈ past ++ rest.take 1

/-- A run with a failure, whose callbacks have no effect any more. -/
structure Stopped (todo : List Nat) (b : Book) : Prop where
  failure : b.failure.isSome
  halted : Halted archive opts wanted b.steps
  called : ∀ i ∈ todo, i ∉ calledFiles b.steps

end

section

variable {archive : Archive} {opts : ExtractOptions} {wanted : Option (List (List UInt8))} {past todo rest later : List Nat}
  {i : Nat} {b b' : Book}

/-! ## What a callback does to a run -/

theorem mem_calledFiles {steps : List Step} {i : Nat} {place : Option Place} {ignored : Bool}
    (h : .called i place ignored ∈ steps) : i ∈ calledFiles steps := List.mem_filterMap.2 ⟨_, h, rfl⟩

theorem Accounted.append {steps : List Step} (h : Accounted archive opts wanted steps i) (more : List Step) :
    Accounted archive opts wanted (steps ++ more) i := by
  obtain ⟨hended, hcalled⟩ := h
  refine ⟨by rw [endedFiles_append]; exact List.mem_append_left _ hended, ?_⟩
  rcases hcalled with hcalled | ⟨htolerant, j, block, hj, hjb, hib, hbroken⟩
  · exact .inl (List.mem_append_left _ hcalled)
  · exact .inr ⟨htolerant, j, block, hj, hjb, hib, List.mem_append_left _ hbroken⟩

theorem AllAccounted.append {steps : List Step} (h : AllAccounted archive opts wanted steps past) (more : List Step) :
    AllAccounted archive opts wanted (steps ++ more) past := fun i hi hselected =>
  (h i hi hselected).imp_left fun h => h.append more

/-- What a call and what follows it do to the steps of a run: the files that end are those of the call and behind it. -/
theorem Running.regular_append {steps more : List Step} {remaining : List Pending} (hnodup : (visitOrder archive).Nodup)
    (h : Running archive opts wanted past (i :: todo) ⟨remaining, none, steps⟩) (hcalls : calledFiles more = [])
    (honce : (endedFiles more).Nodup) (hends : ∀ j ∈ endedFiles more, j ∈ i :: todo) :
    Regular archive opts wanted (steps ++ [.called i (placeOf archive opts wanted i) false] ++ more) := by
  rw [h.order, List.nodup_append] at hnodup
  obtain ⟨-, -, hdisjoint⟩ := hnodup
  refine ⟨?_, fun j place hj => ?_, ?_⟩
  · rw [calledFiles_append, calledFiles_append, hcalls, List.append_nil]
    refine h.regular.calls.append (List.nodup_singleton i) fun j hj hi => ?_
    cases List.mem_singleton.1 hi
    exact hdisjoint _ (h.called _ hj) _ List.mem_cons_self rfl
  · rcases List.mem_append.1 hj with hj | hj
    · rcases List.mem_append.1 hj with hj | hj
      · exact h.regular.places j place hj
      · cases List.mem_singleton.1 hj
        rfl
    · exact absurd (hcalls ▸ mem_calledFiles hj) List.not_mem_nil
  · rw [endedFiles_append, endedFiles_append]
    show (endedFiles steps ++ [] ++ endedFiles more).Nodup
    rw [List.append_nil]
    exact h.regular.ends.append honce fun j hj hm => hdisjoint j (h.ended j hj) j (hends j hm) rfl

/-- The run has come past a file and some behind it. -/
theorem AtCall.advance (rest : List Nat) (more : List Step) (hnodup : (visitOrder archive).Nodup)
    (h : AtCall archive opts wanted past i (rest ++ later) b) (hfailure : b'.failure = none)
    (hsteps : b'.steps = b.steps ++ more) (hcalls : calledFiles more = []) (honce : (endedFiles more).Nodup)
    (hends : ∀ j ∈ endedFiles more, j ∈ i :: rest)
    (haccounted : AllAccounted archive opts wanted b'.steps (i :: rest))
    (hawaits : Awaits archive wanted later b'.remaining) :
    Running archive opts wanted (past ++ i :: rest) later b' := by
  obtain ⟨steps, remaining, hrunning, hbefore⟩ := h.before
  have hends' : ∀ j ∈ endedFiles more, j ∈ i :: (rest ++ later) := by
    intro j hj
    rw [← List.cons_append]
    exact List.mem_append_left later (hends j hj)
  have hall : b'.steps = steps ++ [.called i (placeOf archive opts wanted i) false] ++ more := by rw [hsteps, hbefore]
  refine ⟨hfailure, ?_, ?_, ?_, fun j hj => ?_, fun j hj => ?_, hawaits⟩
  · rw [hrunning.order, List.append_assoc]
    rfl
  · rw [hall]
    exact hrunning.regular_append hnodup hcalls honce hends'
  · intro j hj hselected
    rcases List.mem_append.1 hj with hj | hj
    · rw [hall, List.append_assoc]
      exact hrunning.accounted.append _ j hj hselected
    · exact haccounted j hj hselected
  · rw [hall, calledFiles_append, calledFiles_append, hcalls, List.append_nil] at hj
    rcases List.mem_append.1 hj with hj | hj
    · exact List.mem_append_left _ (hrunning.called j hj)
    · cases List.mem_singleton.1 hj
      exact List.mem_append_right _ List.mem_cons_self
  · rw [hall, endedFiles_append, endedFiles_append] at hj
    rcases List.mem_append.1 hj with hj | hj
    · rcases List.mem_append.1 hj with hj | hj
      · exact List.mem_append_left _ (hrunning.ended j hj)
      · cases hj
    · exact List.mem_append_right _ (hends j hj)

/-- The step that a callback takes for its own entry, which is missing where the entry is not selected. -/
inductive Own (archive : Archive) (wanted : Option (List (List UInt8))) (i : Nat) : List Step → Prop
  | none (h : ¬ archive.Selected wanted i) : Own archive wanted i []
  | delivered : Own archive wanted i [.delivered i]
  | failed : Own archive wanted i [.failed i]

theorem Own.calledFiles_eq {own : List Step} (h : Own archive wanted i own) : calledFiles own = [] := by
  cases h with
  | none => rfl
  | delivered => rfl
  | failed => rfl

theorem Own.endedFiles_eq {own : List Step} (h : Own archive wanted i own) :
    endedFiles own = [i] ∨ endedFiles own = [] ∧ ¬ archive.Selected wanted i := by
  cases h with
  | none h => exact .inr ⟨rfl, h⟩
  | delivered => exact .inl rfl
  | failed => exact .inl rfl

/-- The file of a call is accounted for by its own step. -/
theorem AtCall.accounted {own : List Step} (more : List Step) (h : AtCall archive opts wanted past i todo b)
    (hown : Own archive wanted i own) (hselected : archive.Selected wanted i) :
    Accounted archive opts wanted (b.steps ++ (own ++ more)) i := by
  obtain ⟨steps, remaining, -, hsteps⟩ := h.before
  refine ⟨?_, .inl ?_⟩
  · rw [endedFiles_append, endedFiles_append]
    rcases hown.endedFiles_eq with hends | ⟨-, hnot⟩
    · rw [hends]
      exact List.mem_append_right _ (List.mem_append_left _ List.mem_cons_self)
    · exact absurd hselected hnot
  · rw [hsteps]
    exact List.mem_append_left _ (List.mem_append_right _ List.mem_cons_self)

theorem Own.nodup {own : List Step} (h : Own archive wanted i own) :
    (endedFiles own).Nodup ∧ ∀ j ∈ endedFiles own, j = i := by
  rcases h.endedFiles_eq with hends | ⟨hends, -⟩
  · rw [hends]
    exact ⟨List.nodup_singleton i, fun j hj => List.mem_singleton.1 hj⟩
  · rw [hends]
    exact ⟨List.nodup_nil, fun j hj => absurd hj List.not_mem_nil⟩

/-- The callback goes on. -/
theorem AtCall.goesOn {own : List Step} (hnodup : (visitOrder archive).Nodup)
    (h : AtCall archive opts wanted past i todo b) (hown : Own archive wanted i own) (hb' : b' = b.add own) :
    Running archive opts wanted (past ++ [i]) todo b' := by
  subst hb'
  refine AtCall.advance [] own hnodup h h.failure rfl hown.calledFiles_eq hown.nodup.1 (fun j hj => ?_)
    (fun j hj hselected => ?_) h.awaits
  · rw [hown.nodup.2 j hj]
    exact List.mem_cons_self
  · cases List.mem_singleton.1 hj
    refine .inl ?_
    have := h.accounted [] hown hselected
    rwa [List.append_nil] at this

/-- Nothing that is selected comes later in the block. -/
theorem AtCall.last {own : List Step} (hnodup : (visitOrder archive).Nodup)
    (h : AtCall archive opts wanted past i (rest ++ later) b) (hown : Own archive wanted i own) (hb' : b' = b.add own)
    (hrest : ∀ j ∈ rest, ¬ archive.Selected wanted j) : Running archive opts wanted (past ++ i :: rest) later b' := by
  subst hb'
  refine h.advance rest own hnodup h.failure rfl hown.calledFiles_eq hown.nodup.1 (fun j hj => ?_)
    (fun j hj hselected => ?_) ⟨fun j hj => h.awaits.complete j (List.mem_append_right _ hj), fun pending hp => ?_,
      h.awaits.once⟩
  · rw [hown.nodup.2 j hj]
    exact List.mem_cons_self
  · rcases List.mem_cons.1 hj with rfl | hj
    · refine .inl ?_
      have := h.accounted [] hown hselected
      rwa [List.append_nil] at this
    · exact absurd hselected (hrest j hj)
  · obtain ⟨hmem, hblock, hselected⟩ := h.awaits.sound pending hp
    refine ⟨?_, hblock, hselected⟩
    rcases List.mem_append.1 hmem with hmem | hmem
    · exact absurd hselected (hrest _ hmem)
    · exact hmem

/-- The files of pending entries of a block are those that come later in it. -/
theorem Awaits.pendingOf {blockIndex : Option Nat} (h : Awaits archive wanted (rest ++ later) b.remaining)
    (hlater : ∀ j ∈ later, ∀ block, blockIndex = some block → archive.blockOf j ≠ some block) :
    ((b.pendingOf blockIndex).map (·.fileIndex)).Nodup ∧
      ∀ j ∈ (b.pendingOf blockIndex).map (·.fileIndex), j ∈ rest := by
  refine ⟨h.once.sublist (List.filter_sublist.map _), fun j hj => ?_⟩
  obtain ⟨pending, hp, rfl⟩ := List.mem_map.1 hj
  obtain ⟨hp, hblock⟩ := List.mem_filter.1 hp
  obtain ⟨hmem, hof, -⟩ := h.sound pending hp
  rcases List.mem_append.1 hmem with hmem | hmem
  · exact hmem
  · exact absurd hof (hlater _ hmem _ (of_decide_eq_true hblock))

/-- What a broken block adds to the files that have ended. -/
theorem AtCall.nodup_broken {own : List Step} (plan : EntryReadPlan) (hnodup : (visitOrder archive).Nodup)
    (h : AtCall archive opts wanted past i (rest ++ later) b) (hown : Own archive wanted i own)
    (hlater : ∀ j ∈ later, ∀ block, plan.blockIndex = some block → archive.blockOf j ≠ some block) :
    (endedFiles (own ++ b.brokenSteps plan)).Nodup ∧ ∀ j ∈ endedFiles (own ++ b.brokenSteps plan), j ∈ i :: rest := by
  obtain ⟨hpendingNodup, hpendingRest⟩ := h.awaits.pendingOf hlater
  have hiRest : i ∉ rest := by
    obtain ⟨steps, remaining, hrunning, -⟩ := h.before
    rw [hrunning.order, ← List.cons_append, List.nodup_append] at hnodup
    exact (List.nodup_cons.1 (List.nodup_append.1 hnodup.2.1).1).1
  rw [endedFiles_append, endedFiles_brokenSteps]
  refine ⟨hown.nodup.1.append hpendingNodup fun j hj hm => ?_, fun j hj => ?_⟩
  · rw [hown.nodup.2 j hj] at hm
    exact hiRest (hpendingRest i hm)
  · rcases List.mem_append.1 hj with hj | hj
    · rw [hown.nodup.2 j hj]
      exact List.mem_cons_self
    · exact List.mem_cons_of_mem _ (hpendingRest j hj)

/-- The block of a file is given up, in best-effort mode: what is pending of it has failed. -/
theorem AtCall.broke {own : List Step} {plan : EntryReadPlan} (hnodup : (visitOrder archive).Nodup)
    (h : AtCall archive opts wanted past i (rest ++ later) b) (hown : Own archive wanted i own)
    (hplan : PlanAt archive wanted i plan) (htolerant : opts.bestEffort = true)
    (hb' : b' = (b.add own).unprocessed plan)
    (hrest : ∀ j ∈ rest, i < j ∧ archive.blockOf j = archive.blockOf i)
    (hlater : ∀ j ∈ later, ∀ block, archive.blockOf i = some block → archive.blockOf j ≠ some block)
    (hlink : plan.blockIndex = none → ∀ j ∈ rest, LeftBehindLink archive opts wanted j) :
    Running archive opts wanted (past ++ i :: rest) later b' := by
  subst hb'
  have hblock := hplan.blockOf
  rw [hblock] at hlater
  obtain ⟨honce, hends⟩ := h.nodup_broken plan hnodup hown hlater
  have hmore : endedFiles (own ++ (b.add own).brokenSteps plan) =
      endedFiles own ++ (b.pendingOf plan.blockIndex).map (·.fileIndex) := by
    rw [endedFiles_append, endedFiles_brokenSteps]
    rfl
  refine h.advance rest (own ++ (b.add own).brokenSteps plan) hnodup h.failure ?_ ?_ honce hends
    (fun j hj hselected => ?_) ⟨fun j hj hselected block hof => ?_, fun pending hp => ?_, ?_⟩
  · exact List.append_assoc _ _ _
  · rw [calledFiles_append, hown.calledFiles_eq, calledFiles_brokenSteps]
    rfl
  · have hsteps : ((b.add own).unprocessed plan).steps = b.steps ++ (own ++ (b.add own).brokenSteps plan) :=
      List.append_assoc _ _ _
    rw [hsteps]
    rcases List.mem_cons.1 hj with rfl | hj
    · exact .inl (h.accounted _ hown hselected)
    · cases hplanBlock : plan.blockIndex with
      | none => exact .inr (hlink hplanBlock j hj)
      | some block =>
        have hof : archive.blockOf j = some block := by rw [(hrest j hj).2, hblock, hplanBlock]
        obtain ⟨pending, hp, hpb, rfl⟩ := h.awaits.complete j (List.mem_append_left _ hj) hselected block hof
        refine .inl ⟨?_, .inr ⟨htolerant, i, block, (hrest _ hj).1, by rw [hblock, hplanBlock], hof, ?_⟩⟩
        · rw [endedFiles_append, hmore]
          refine List.mem_append_right _ (List.mem_append_right _ (List.mem_map.2 ⟨pending, ?_, rfl⟩))
          exact List.mem_filter.2 ⟨hp, by rw [hplanBlock, hpb]; exact decide_eq_true rfl⟩
        · refine List.mem_append_right _ (List.mem_append_right _ ?_)
          rw [Book.brokenSteps, hplan.fileIndex]
          exact List.mem_cons_self
  · obtain ⟨pending, hp, hpb, hpi⟩ := h.awaits.complete j (List.mem_append_right _ hj) hselected block hof
    refine ⟨pending, List.mem_filter.2 ⟨hp, decide_eq_true fun heq => ?_⟩, hpb, hpi⟩
    rw [hpb] at heq
    exact hlater j hj block heq hof
  · obtain ⟨hp, hne⟩ := List.mem_filter.1 hp
    have hne := of_decide_eq_true hne
    obtain ⟨hmem, hof, hselected⟩ := h.awaits.sound pending hp
    refine ⟨?_, hof, hselected⟩
    rcases List.mem_append.1 hmem with hmem | hmem
    · rw [(hrest _ hmem).2, hblock] at hof
      exact absurd hof hne
    · exact hmem
  · exact h.awaits.once.sublist (List.filter_sublist.map _)

/-- What is done when a callback ends the run, or is interrupted by a panic. -/
theorem AtCall.halted {own : List Step} {plan : EntryReadPlan} (hnodup : (visitOrder archive).Nodup)
    (h : AtCall archive opts wanted past i (rest ++ later) b) (hown : Own archive wanted i own)
    (hlater : ∀ j ∈ later, ∀ block, plan.blockIndex = some block → archive.blockOf j ≠ some block)
    (hb' : b.Partly (own ++ b.brokenSteps plan) b') :
    Halted archive opts wanted b'.steps ∧ ∀ j ∈ rest ++ later, j ∉ calledFiles b'.steps := by
  obtain ⟨honce, hends⟩ := h.nodup_broken plan hnodup hown hlater
  obtain ⟨steps, remaining, hrunning, hsteps⟩ := h.before
  obtain ⟨-, taken, hprefix, htaken⟩ := hb'
  have hcalls : calledFiles taken = [] := by
    have hall : calledFiles (own ++ b.brokenSteps plan) = [] := by
      rw [calledFiles_append, hown.calledFiles_eq, calledFiles_brokenSteps]
      rfl
    exact List.sublist_nil.1 (hall ▸ hprefix.sublist.filterMap _)
  have htakenEnds : (endedFiles taken).Sublist (endedFiles (own ++ b.brokenSteps plan)) := hprefix.sublist.filterMap _
  have hall : b'.steps = steps ++ [.called i (placeOf archive opts wanted i) false] ++ taken := by rw [htaken, hsteps]
  have hcalled : calledFiles b'.steps = calledFiles steps ++ [i] := by
    rw [hall, calledFiles_append, calledFiles_append, hcalls, List.append_nil]
    rfl
  refine ⟨⟨?_, past, i :: (rest ++ later), hrunning.order, ?_, fun j place hj => ?_⟩, fun j hj hmem => ?_⟩
  · rw [hall]
    refine hrunning.regular_append hnodup hcalls (honce.sublist htakenEnds) fun j hj => ?_
    rw [← List.cons_append]
    exact List.mem_append_left later (hends j (htakenEnds.subset hj))
  · rw [hall, List.append_assoc]
    exact hrunning.accounted.append _
  · have hmem := mem_calledFiles hj
    rw [hcalled] at hmem
    rcases List.mem_append.1 hmem with hmem | hmem
    · exact List.mem_append_left _ (hrunning.called j hmem)
    · exact List.mem_append_right _ hmem
  · rw [hcalled] at hmem
    have hdisjoint := hnodup
    rw [hrunning.order, List.nodup_append] at hdisjoint
    obtain ⟨-, hbehind, hdisjoint⟩ := hdisjoint
    rcases List.mem_append.1 hmem with hmem | hmem
    · exact hdisjoint j (hrunning.called j hmem) j (List.mem_cons_of_mem _ hj) rfl
    · rw [List.mem_singleton.1 hmem] at hj
      exact (List.nodup_cons.1 hbehind).1 hj

/-- A callback behind a failure is called without any effect. -/
theorem Stopped.ignore {place : Option Place} (h : Stopped archive opts wanted (i :: todo) b)
    (hnodup : (i :: todo).Nodup) : Stopped archive opts wanted todo (b.add [.called i place true]) := by
  obtain ⟨hfailure, ⟨hregular, past, rest, horder, haccounted, hcalled⟩, htodo⟩ := h
  have hcalls : calledFiles (b.steps ++ [.called i place true]) = calledFiles b.steps ++ [i] := by
    rw [calledFiles_append]
    rfl
  have hactive : ∀ j place', .called j place' false ∈ b.steps ++ [.called i place true] →
      .called j place' false ∈ b.steps := by
    intro j place' hj
    rcases List.mem_append.1 hj with hj | hj
    · exact hj
    · cases List.mem_singleton.1 hj
  refine ⟨hfailure, ⟨⟨?_, fun j place' hj => hregular.places j place' (hactive j place' hj), ?_⟩, past, rest, horder,
    haccounted.append _, fun j place' hj => hcalled j place' (hactive j place' hj)⟩, fun j hj hmem => ?_⟩
  · show (calledFiles (b.steps ++ _)).Nodup
    rw [hcalls]
    refine hregular.calls.append (List.nodup_singleton i) fun j hj hi => ?_
    rw [List.mem_singleton.1 hi] at hj
    exact htodo i List.mem_cons_self hj
  · show (endedFiles (b.steps ++ _)).Nodup
    rw [endedFiles_append]
    show (endedFiles b.steps ++ []).Nodup
    rw [List.append_nil]
    exact hregular.ends
  · have hmem : j ∈ calledFiles (b.steps ++ [.called i place true]) := hmem
    rw [hcalls] at hmem
    rcases List.mem_append.1 hmem with hmem | hmem
    · exact htodo j (List.mem_cons_of_mem _ hj) hmem
    · rw [List.mem_singleton.1 hmem] at hj
      exact (List.nodup_cons.1 hnodup).1 hj

end

/-! ## The callback -/

section Callback

variable {D W H I : Type} {dec : Decoder D} {env : Environment W H I} {opts : ExtractOptions} {passwordSupplied : Bool}
  {archive : Archive} {wanted : Option (List (List UInt8))} {plans : List EntryReadPlan} {fromNtTime : UInt64 → SystemTime}

theorem ends_outcome_error {T α : Type} {p : Prog T Fault α} {P : α → T → Prop} {R R' : T → Prop} {t : T}
    (h : Ends p (Outcome P R) t) (hR : ∀ t', R t' → R' t') : Ends p (Outcome P R') t := by
  refine h.mono fun r t' hr => ?_
  match r with
  | .ok a => exact hr
  | .error fault => exact hR t' hr

theorem ends_keepFailure {keep : FormatError → Extraction W H I → Extraction W H I} {p : Extracting D W H I Bool}
    {P : Bool → Extraction W H I × Source D → Prop} {R : Extraction W H I × Source D → Prop}
    {t : Extraction W H I × Source D} (h : Ends p (Outcome P R) t) :
    Ends (keepFailure keep p) (Outcome (fun goesOn t' => P goesOn t' ∨
      goesOn = false ∧ ∃ error t₀, R t₀ ∧ t' = (keep error t₀.1, t₀.2)) R) t := by
  refine ends_bind (ends_caught h) (fun r t₁ h₁ => ?_) fun _ _ h₁ => h₁
  match r with
  | .ok goesOn => exact ends_pure (.inl h₁)
  | .error error => exact ends_update (ends_pure (.inr ⟨rfl, error, t₁, h₁, rfl⟩))

theorem Source.empty_of_place {source : Source D} (h : source.place = none) : source = .empty := by
  cases source with
  | empty => rfl
  | entry => cases h

/-- The data of an entry without any are drained. -/
theorem Source.drained_of_size {source : Source D} {place : Option Place} (h : source.place = place)
    (hsize : ∀ p ∈ place, p.remaining = 0) : source.Drained source := by
  cases source with
  | empty => exact .empty
  | entry session remaining =>
    subst h
    have hremaining : remaining = 0 := hsize _ rfl
    subst hremaining
    exact .entry session session.decoder 0

theorem metaOf_kind (entry : ArchiveEntry) (encrypted : Bool) :
    (metaOf fromNtTime entry encrypted).entryType = .file ∨ (metaOf fromNtTime entry encrypted).entryType = .dir ∨
      ∃ target, (metaOf fromNtTime entry encrypted).entryType = .symlink target := by
  unfold metaOf
  dsimp only
  split
  · exact .inr (.inr ⟨_, rfl⟩)
  · split
    · exact .inr (.inl rfl)
    · exact .inl rfl

theorem isSymlink_of_metaOf {entry : ArchiveEntry} {encrypted : Bool} {target : List UInt8}
    (h : (metaOf fromNtTime entry encrypted).entryType = .symlink target) : isSymlink entry = true := by
  unfold metaOf at h
  dsimp only at h
  split at h
  · assumption
  · split at h
    · cases h
    · cases h

theorem isDirectory_of_metaOf {entry : ArchiveEntry} {encrypted : Bool}
    (h : (metaOf fromNtTime entry encrypted).entryType = .dir) : entry.isDirectory = true := by
  unfold metaOf at h
  dsimp only at h
  split at h
  · cases h
  · split at h
    · assumption
    · cases h

/-- How a callback leaves a run: it goes on behind the data of the entry, or it is done with the files of the block, or
the run has failed. -/
def CalledBack (archive : Archive) (opts : ExtractOptions) (wanted : Option (List (List UInt8))) (past : List Nat) (i : Nat)
    (rest later : List Nat) (t : Extraction W H I × Source D) :
    Except Fault Bool → Extraction W H I × Source D → Prop :=
  Outcome (fun goesOn t' => match goesOn with
    | true => Running archive opts wanted (past ++ [i]) (rest ++ later) t'.1.book ∧ t.2.Drained t'.2
    | false => Running archive opts wanted (past ++ i :: rest) later t'.1.book ∨
        Stopped archive opts wanted (rest ++ later) t'.1.book)
    fun t' => Halted archive opts wanted t'.1.steps

variable [DecidableEq I]

/-- What the callback finds, and what is asked of the layout of the archive. -/
structure Visiting (archive : Archive) (opts : ExtractOptions) (wanted : Option (List (List UInt8))) (i : Nat)
    (rest later : List Nat) (source : Source D) : Prop where
  nodup : (visitOrder archive).Nodup
  directories : ∀ entry, archive.files[i]? = some entry → entry.isDirectory = true → archive.sizeOf i = 0
  place : source.place = placeOf archive opts wanted i
  rest : ∀ j ∈ rest, i < j ∧ archive.blockOf j = archive.blockOf i
  later : ∀ j ∈ later, ∀ block, archive.blockOf i = some block → archive.blockOf j ≠ some block

section Called

variable {past rest later : List Nat} {i : Nat} {entry : ArchiveEntry} {plan : EntryReadPlan}
  {t : Extraction W H I × Source D}

omit [DecidableEq I] in
/-- A callback that fails leaves a run that has failed. -/
theorem calledBack_of_failure {p : Extracting D W H I Bool} {P : Bool → Extraction W H I × Source D → Prop}
    (hvisiting : Visiting archive opts wanted i rest later t.2)
    (hcall : AtCall archive opts wanted past i (rest ++ later) t.1.book) (hplan : PlanAt archive wanted i plan)
    (h : Ends p (Outcome P fun t' => ∃ own, Own archive wanted i own ∧
      t.1.book.Partly (own ++ t.1.book.brokenSteps plan) t'.1.book) t)
    (hP : ∀ goesOn t', P goesOn t' → CalledBack archive opts wanted past i rest later t (.ok goesOn) t') :
    Ends (keepFailure (fun error s => { s with failure := some error }) p)
      (CalledBack archive opts wanted past i rest later t) t := by
  have hhalted : ∀ t' : Extraction W H I × Source D, (∃ own, Own archive wanted i own ∧
      t.1.book.Partly (own ++ t.1.book.brokenSteps plan) t'.1.book) →
      Halted archive opts wanted t'.1.steps ∧ ∀ j ∈ rest ++ later, j ∉ calledFiles t'.1.steps := by
    rintro t' ⟨own, hown, hpartly⟩
    refine hcall.halted hvisiting.nodup hown (fun j hj block hblock => ?_) hpartly
    exact hvisiting.later j hj block (hplan.blockOf.trans hblock)
  refine (ends_keepFailure h).mono fun r t' hr => ?_
  match r with
  | .ok goesOn =>
    rcases hr with hr | ⟨rfl, error, t₀, h₀, rfl⟩
    · exact hP goesOn t' hr
    · exact .inr ⟨rfl, (hhalted t₀ h₀).1, (hhalted t₀ h₀).2⟩
  | .error fault => exact (hhalted t' hr).1

/-- Nothing of the block that is selected comes later. -/
theorem Visiting.unselected {source : Source D} (hvisiting : Visiting archive opts wanted i rest later source)
    (hplan : PlanAt archive wanted i plan) (hblock : plan.blockIndex ≠ none) (hlast : plan.selectedLaterInBlock = false) :
    ∀ j ∈ rest, ¬ archive.Selected wanted j := by
  intro j hj hselected
  obtain ⟨hlt, hof⟩ := hvisiting.rest j hj
  have : plan.selectedLaterInBlock = true := hplan.later.2 ⟨hblock, j, hlt, hof.trans hplan.blockOf, hselected⟩
  rw [hlast] at this
  cases this

omit [DecidableEq I] in
/-- A callback that has done with the rest of its block, or has none and goes on. -/
theorem AtCall.calledBack_last {own : List Step} {t' : Extraction W H I × Source D}
    (hvisiting : Visiting archive opts wanted i rest later t.2)
    (hcall : AtCall archive opts wanted past i (rest ++ later) t.1.book) (hplan : PlanAt archive wanted i plan)
    (hown : Own archive wanted i own) (hlast : plan.selectedLaterInBlock = false)
    (hbook : t'.1.book = t.1.book.add own) (hsource : t'.2 = t.2) :
    CalledBack archive opts wanted past i rest later t (.ok plan.blockIndex.isNone) t' := by
  cases hblock : plan.blockIndex with
  | none =>
    refine ⟨hcall.goesOn hvisiting.nodup hown hbook, ?_⟩
    have hplace := hvisiting.place
    rw [placeOf, hplan.blockOf, hblock] at hplace
    rw [hsource, Source.empty_of_place hplace]
    exact .empty
  | some block =>
    refine .inl (hcall.last hvisiting.nodup hown hbook (hvisiting.unselected hplan ?_ hlast))
    rw [hblock]
    exact Option.some_ne_none block

omit [DecidableEq I] in
/-- A callback whose block is given up. -/
theorem AtCall.calledBack_broke {own : List Step} {t' : Extraction W H I × Source D}
    (hvisiting : Visiting archive opts wanted i rest later t.2)
    (hcall : AtCall archive opts wanted past i (rest ++ later) t.1.book) (hplan : PlanAt archive wanted i plan)
    (hown : Own archive wanted i own) (htolerant : opts.bestEffort = true)
    (hbook : t'.1.book = (t.1.book.add own).unprocessed plan)
    (hlink : plan.blockIndex = none → ∀ j ∈ rest, LeftBehindLink archive opts wanted j) :
    CalledBack archive opts wanted past i rest later t (.ok false) t' :=
  .inl (hcall.broke hvisiting.nodup hown hplan htolerant hbook hvisiting.rest hvisiting.later hlink)

theorem ends_called_selected (hvisiting : Visiting archive opts wanted i rest later t.2)
    (hcall : AtCall archive opts wanted past i (rest ++ later) t.1.book) (hplan : PlanAt archive wanted i plan)
    (hentry : archive.files[i]? = some entry) (hwanted : isWanted wanted entry = true) :
    Ends (keepFailure (fun error s => { s with failure := some error })
        (extractSelected dec env opts passwordSupplied (metaOf fromNtTime entry plan.encrypted) plan))
      (CalledBack archive opts wanted past i rest later t) t := by
  have hindex := hplan.fileIndex
  have hdelivered : Own archive wanted i [.delivered plan.fileIndex] := hindex ▸ .delivered
  have hfailed : Own archive wanted i [.failed plan.fileIndex] := hindex ▸ .failed
  refine calledBack_of_failure hvisiting hcall hplan
    (ends_outcome_error (ends_extractSelected t (metaOf_kind entry plan.encrypted)) fun t' hr => ?_) fun goesOn t' hr => ?_
  · rcases hr with hr | hr
    · exact ⟨_, hdelivered, hr⟩
    · exact ⟨_, hfailed, hr⟩
  · cases hr with
    | delivered book source =>
      refine ⟨hcall.goesOn hvisiting.nodup hdelivered book, ?_⟩
      rcases source with source | ⟨hdir, source⟩
      · exact source
      · rw [source]
        refine Source.drained_of_size hvisiting.place fun place hplace => ?_
        have hsize := hvisiting.directories entry hentry (isDirectory_of_metaOf hdir)
        unfold placeOf at hplace
        split at hplace
        · split at hplace
          · cases hplace
            exact hsize
          · cases hplace
        · cases hplace
    | last last book source => exact hcall.calledBack_last hvisiting hplan hdelivered last book source
    | brokenBehind tolerant later book =>
      exact hcall.calledBack_broke hvisiting hplan hdelivered tolerant book fun hnone => absurd hnone (hplan.later.1 later).1
    | broken tolerant book reason =>
      refine hcall.calledBack_broke hvisiting hplan hfailed tolerant book fun hnone j hj => ?_
      have hof : archive.blockOf i = none := hplan.blockOf.trans hnone
      rcases reason with hsource | ⟨hskip, target, htype⟩
      · have hplace := hvisiting.place
        rw [placeOf, hof] at hplace
        exact absurd (Source.empty_of_place hplace) hsource
      · exact ⟨tolerant, hskip, (hvisiting.rest j hj).2.trans hof, i, entry, (hvisiting.rest j hj).1, hof, hentry,
          isSymlink_of_metaOf htype, hwanted⟩

omit [DecidableEq I] in
theorem ends_called_unselected (hvisiting : Visiting archive opts wanted i rest later t.2)
    (hcall : AtCall archive opts wanted past i (rest ++ later) t.1.book) (hplan : PlanAt archive wanted i plan)
    (hselected : ¬ archive.Selected wanted i) :
    Ends (keepFailure (fun error s => { s with failure := some error }) (skipEntryStream dec env opts passwordSupplied plan))
      (CalledBack archive opts wanted past i rest later t) t := by
  have hnone : Own archive wanted i [] := .none hselected
  refine calledBack_of_failure hvisiting hcall hplan
    (ends_outcome_error (ends_skipEntryStream plan t) fun t' hr => ⟨[], hnone, hr⟩) fun goesOn t' hr => ?_
  cases hr with
  | drained later drains => exact ⟨hcall.goesOn hvisiting.nodup hnone (drains.1.trans (Book.add_nil _).symm), drains.2⟩
  | last last book source =>
    exact hcall.calledBack_last hvisiting hplan hnone last (book.trans (Book.add_nil _).symm) source
  | broken tolerant later book =>
    refine hcall.calledBack_broke hvisiting hplan hnone tolerant ?_ fun hblock => absurd hblock (hplan.later.1 later).1
    rw [Book.add_nil]
    exact book

end Called

/-- The call of a file, and what is pending behind it. -/
theorem Running.atCall {past todo : List Nat} {i : Nat} {b b' : Book}
    (h : Running archive opts wanted past (i :: todo) b) (hfailure : b'.failure = none)
    (hsteps : b'.steps = b.steps ++ [.called i (placeOf archive opts wanted i) false])
    (hawaits : Awaits archive wanted todo b'.remaining) : AtCall archive opts wanted past i todo b' :=
  ⟨hfailure, ⟨b.steps, b.remaining, ⟨rfl, h.order, h.regular, h.accounted, h.called, h.ended, h.awaits⟩, hsteps⟩, hawaits⟩

theorem Awaits.skip {todo : List Nat} {i : Nat} {remaining : List Pending}
    (h : Awaits archive wanted (i :: todo) remaining) (hselected : ¬ archive.Selected wanted i) :
    Awaits archive wanted todo remaining := by
  refine ⟨fun j hj => h.complete j (List.mem_cons_of_mem _ hj), fun pending hp => ?_, h.once⟩
  obtain ⟨hmem, hof, hsel⟩ := h.sound pending hp
  refine ⟨?_, hof, hsel⟩
  rcases List.mem_cons.1 hmem with heq | hmem
  · exact absurd (heq ▸ hsel) hselected
  · exact hmem

theorem mem_dropPending {plan : EntryReadPlan} {remaining : List Pending} {pending : Pending} :
    pending ∈ dropPending plan remaining ↔
      pending ∈ remaining ∧ ¬ (plan.blockIndex = some pending.block ∧ pending.fileIndex = plan.fileIndex) := by
  unfold dropPending
  rw [List.mem_filter, Bool.not_eq_true', Bool.and_eq_false_iff, decide_eq_false_iff_not, decide_eq_false_iff_not,
    not_and_or]

theorem Awaits.dropPending {todo : List Nat} {i : Nat} {remaining : List Pending} {plan : EntryReadPlan}
    (h : Awaits archive wanted (i :: todo) remaining) (hplan : PlanAt archive wanted i plan) (hi : i ∉ todo) :
    Awaits archive wanted todo (dropPending plan remaining) := by
  refine ⟨fun j hj hselected block hblock => ?_, fun pending hp => ?_, h.once.sublist (List.filter_sublist.map _)⟩
  · obtain ⟨pending, hp, hpb, rfl⟩ := h.complete j (List.mem_cons_of_mem _ hj) hselected block hblock
    refine ⟨pending, mem_dropPending.2 ⟨hp, fun ⟨_, heq⟩ => hi ?_⟩, hpb, rfl⟩
    rw [hplan.fileIndex] at heq
    rwa [← heq]
  · obtain ⟨hp, hother⟩ := mem_dropPending.1 hp
    obtain ⟨hmem, hof, hsel⟩ := h.sound pending hp
    refine ⟨?_, hof, hsel⟩
    rcases List.mem_cons.1 hmem with heq | hmem
    · refine absurd ⟨?_, heq.trans hplan.fileIndex.symm⟩ hother
      rw [← hplan.blockOf, ← heq, hof]
    · exact hmem

/-- A callback in a run without a failure. -/
theorem ends_extractCallback {past rest later : List Nat} {i : Nat} {t : Extraction W H I × Source D}
    (hplans : buildEntryReadPlans archive wanted = .ok plans) (hi : i < archive.files.length)
    (hvisiting : Visiting archive opts wanted i rest later t.2)
    (hrunning : Running archive opts wanted past (i :: (rest ++ later)) t.1.book) :
    Ends (extractCallback dec env opts passwordSupplied fromNtTime archive wanted plans i)
      (CalledBack archive opts wanted past i rest later t) t := by
  obtain ⟨hlength, hplanAt⟩ := buildEntryReadPlans_spec hplans
  have hfailure : t.1.failure = none := hrunning.failure
  refine ends_getExtraction (ends_getSource (ends_bind (ends_record _ t) (fun _ t₁ ⟨_, h₁, hs₁⟩ => ?_)
    fun _ _ ⟨h, _⟩ => by cases h))
  rw [hfailure, hvisiting.place] at h₁
  rw [hfailure]
  have hget := List.getElem?_eq_getElem hi
  have hplanGet := List.getElem?_eq_getElem (show i < plans.length by rw [hlength]; exact hi)
  have hplan := hplanAt i _ hplanGet
  have hvisiting' : Visiting archive opts wanted i rest later t₁.2 := hs₁ ▸ hvisiting
  have hcalledBack : ∀ u : Extraction W H I × Source D, u.2 = t.2 → ∀ r t',
      CalledBack archive opts wanted past i rest later u r t' →
        CalledBack archive opts wanted past i rest later t r t' := by
    intro u hu r t' h
    unfold CalledBack at h ⊢
    rw [hu] at h
    exact h
  have hfailure₁ : t₁.1.book.failure = none := by
    rw [h₁]
    exact hfailure
  have hsteps : t₁.1.book.steps = t.1.book.steps ++ [.called i (placeOf archive opts wanted i) false] := by
    rw [h₁]
    rfl
  have hremaining : t₁.1.book.remaining = t.1.book.remaining := by
    rw [h₁]
    rfl
  have hi' : i ∉ rest ++ later := by
    have := hvisiting.nodup
    rw [hrunning.order, List.nodup_append] at this
    exact (List.nodup_cons.1 this.2.1).1
  unfold extractEntry
  rw [hget, hplanGet]
  refine ends_ite (fun hcontra => by cases hcontra) fun _ => ends_ite (fun hwanted => ?_) fun hwanted => ?_
  · refine ends_update (Ends.mono (ends_called_selected (t := (_, t₁.2)) hvisiting' ?_ hplan hget hwanted)
      (hcalledBack _ hs₁))
    refine hrunning.atCall hfailure₁ hsteps ?_
    show Awaits archive wanted (rest ++ later) (dropPending plans[i] t₁.1.book.remaining)
    rw [hremaining]
    exact hrunning.awaits.dropPending hplan hi'
  · have hselected : ¬ archive.Selected wanted i := by
      rintro ⟨entry, hentry, hw⟩
      rw [hget] at hentry
      cases hentry
      exact hwanted hw
    refine (ends_called_unselected hvisiting' ?_ hplan hselected).mono (hcalledBack _ hs₁)
    refine hrunning.atCall hfailure₁ hsteps ?_
    rw [hremaining]
    exact hrunning.awaits.skip hselected

/-- A callback in a run with a failure. -/
theorem ends_extractCallback_stopped {todo : List Nat} {i : Nat} {t : Extraction W H I × Source D}
    (hstopped : Stopped archive opts wanted (i :: todo) t.1.book) (hnodup : (i :: todo).Nodup) :
    Ends (extractCallback dec env opts passwordSupplied fromNtTime archive wanted plans i)
      (fun r t' => r = .ok false ∧ Stopped archive opts wanted todo t'.1.book) t := by
  have hfailure : t.1.failure.isSome = true := hstopped.failure
  refine ends_getExtraction (ends_getSource (ends_bind (ends_record _ t) (fun _ t₁ ⟨_, h₁, _⟩ => ?_)
    fun _ _ ⟨h, _⟩ => by cases h))
  rw [hfailure] at h₁ ⊢
  refine ends_ite (fun _ => ends_pure ⟨rfl, ?_⟩) fun h => absurd rfl h
  rw [h₁]
  exact hstopped.ignore hnodup

end Callback

end Squallz.SevenZ
