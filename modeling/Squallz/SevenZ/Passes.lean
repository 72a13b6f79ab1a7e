/-
A pass over the blocks of an archive comes to every file in the order of the blocks, with the callback at the file's own data.

The invariant is carried from callback to callback: before a file of a block that is decoded, the source stands behind the data of
the files before it, and none of them is left over.
-/
import Mathlib.Data.List.Nodup
import Squallz.SevenZ.Delivery

namespace Squallz.SevenZ

open Squallz.Api Squallz.Bytes Squallz.System Squallz.Extract

/-! ## Layouts -/

/-- The files without a block. -/
def Archive.unassigned (archive : Archive) : List Nat :=
  (List.range archive.files.length).filter fun i => archive.fileBlockIndex[i]? = some none

/-- A layout as the parser of an archive leaves it: a file belongs to one of the blocks or to none, the files of a block stand one
behind the other from its first one on, and a directory has no data. -/
structure Archive.WellFormed (archive : Archive) : Prop where
  assigned : ∀ i < archive.files.length, ∃ assignment, archive.fileBlockIndex[i]? = some assignment ∧
    ∀ block ∈ assignment, block < archive.blocks.length
  contiguous : ∀ block < archive.blocks.length, ∃ first, archive.blockFirstFileIndex[block]? = some first ∧
    first ≤ archive.files.length ∧ archive.filesOf block = List.range' first (archive.filesOf block).length
  directories : ∀ i entry, archive.files[i]? = some entry → entry.isDirectory = true → archive.sizeOf i = 0

section Layouts

variable {archive : Archive} {block i : Nat}

theorem mem_unassigned : i ∈ archive.unassigned ↔ i < archive.files.length ∧ archive.fileBlockIndex[i]? = some none := by
  rw [Archive.unassigned, List.mem_filter, List.mem_range, decide_eq_true_eq]

theorem blockOf_unassigned (h : i ∈ archive.unassigned) : archive.blockOf i = none := by
  rw [Archive.blockOf, (mem_unassigned.1 h).2]
  rfl

theorem lt_of_mem_filesOf (h : i ∈ archive.filesOf block) : i < archive.files.length := (mem_filesOf.1 h).1

/-- The files of a block or without one, in their order. -/
theorem lt_of_filter_range {p : Nat → Bool} {n : Nat} {done rest : List Nat}
    (h : (List.range n).filter p = done ++ i :: rest) : ∀ j ∈ rest, i < j := by
  have hsorted : ((List.range n).filter p).Pairwise (· < ·) := List.pairwise_lt_range.filter p
  rw [h, List.pairwise_append] at hsorted
  exact (List.pairwise_cons.1 hsorted.2.1).1

theorem visitOrder_eq : visitOrder archive =
    (List.range archive.blocks.length).flatMap archive.filesOf ++ archive.unassigned := rfl

theorem blockOf_of_mem_flatMap {blocks : List Nat} {j : Nat} (h : j ∈ blocks.flatMap archive.filesOf) :
    ∃ b ∈ blocks, archive.blockOf j = some b := by
  obtain ⟨b, hb, hj⟩ := List.mem_flatMap.1 h
  exact ⟨b, hb, (mem_filesOf.1 hj).2⟩

/-- Behind the files of a block there are none of its own. -/
theorem blockOf_later {blocks : List Nat} (hblock : block ∉ blocks) :
    ∀ j ∈ blocks.flatMap archive.filesOf ++ archive.unassigned, archive.blockOf j ≠ some block := by
  rintro j hj heq
  rcases List.mem_append.1 hj with hj | hj
  · obtain ⟨b, hb, hof⟩ := blockOf_of_mem_flatMap hj
    rw [heq] at hof
    cases hof
    exact hblock hb
  · rw [blockOf_unassigned hj] at heq
    cases heq

theorem nodup_visitOrder (archive : Archive) : (visitOrder archive).Nodup := by
  rw [visitOrder_eq, List.nodup_append]
  refine ⟨List.nodup_flatMap.2 ⟨fun b _ => List.nodup_range.filter _, ?_⟩, List.nodup_range.filter _, ?_⟩
  · refine List.nodup_range.imp fun {a b} hab => ?_
    intro i ha hb
    have hof := (mem_filesOf.1 ha).2
    rw [(mem_filesOf.1 hb).2] at hof
    cases hof
    exact hab rfl
  · rintro i hi j hj rfl
    obtain ⟨b, -, hof⟩ := blockOf_of_mem_flatMap hi
    rw [blockOf_unassigned hj] at hof
    cases hof

/-- A pass comes to every file. -/
theorem mem_visitOrder (h : archive.WellFormed) (hi : i < archive.files.length) : i ∈ visitOrder archive := by
  obtain ⟨assignment, hget, hlt⟩ := h.assigned i hi
  rw [visitOrder_eq]
  cases assignment with
  | none => exact List.mem_append_right _ (mem_unassigned.2 ⟨hi, hget⟩)
  | some b =>
    refine List.mem_append_left _ (List.mem_flatMap.2 ⟨b, List.mem_range.2 (hlt b rfl), mem_filesOf.2 ⟨hi, ?_⟩⟩)
    rw [Archive.blockOf, hget]
    rfl

/-- The bytes of a block before the data of one of its files. -/
theorem offsetOf_eq {done rest : List Nat} (h : archive.filesOf block = done ++ i :: rest) :
    offsetOf archive block i = (done.map archive.sizeOf).sum := by
  have hnodup : (archive.filesOf block).Nodup := List.nodup_range.filter _
  have hi : i ∉ done := by
    rw [h, List.nodup_append] at hnodup
    exact fun hmem => hnodup.2.2 i hmem i List.mem_cons_self rfl
  have hother : ∀ j ∈ done, decide (j ≠ i) = true := by
    intro j hj
    refine decide_eq_true ?_
    rintro rfl
    exact hi hj
  have htake : (done ++ i :: rest).takeWhile (· ≠ i) = done := by
    rw [List.takeWhile_append_of_pos hother]
    simp
  unfold offsetOf
  rw [h, htake]

end Layouts

/-! ## The loops -/

section Passes

variable {D W H I : Type} [DecidableEq I] {dec : Decoder D} {env : Environment W H I} {opts : ExtractOptions}
  {passwordSupplied : Bool} {archive : Archive} {wanted : Option (List (List UInt8))} {plans : List EntryReadPlan}
  {fromNtTime : UInt64 → SystemTime} {past rest later : List Nat} {block : Nat} {t : Extraction W H I × Source D}

/-- A run that has come past some files, or has failed. -/
def Visited (archive : Archive) (opts : ExtractOptions) (wanted : Option (List (List UInt8))) (past todo : List Nat)
    (t : Extraction W H I × Source D) : Prop :=
  Running archive opts wanted past todo t.1.book ∨ Stopped archive opts wanted todo t.1.book

/-- How a part of a pass ends. -/
def Passed (archive : Archive) (opts : ExtractOptions) (wanted : Option (List (List UInt8))) (past todo : List Nat)
    {α : Type} : Except Fault α → Extraction W H I × Source D → Prop :=
  Outcome (fun _ t' => Visited archive opts wanted past todo t') fun t' => Halted archive opts wanted t'.1.steps

theorem Running.halted {todo : List Nat} {b : Book} (h : Running archive opts wanted past todo b) :
    Halted archive opts wanted b.steps :=
  ⟨h.regular, past, todo, h.order, h.accounted, fun i _ hcalled =>
    List.mem_append_left _ (h.called i (mem_calledFiles hcalled))⟩

omit [DecidableEq I] in
theorem Visited.halted {todo : List Nat} (h : Visited archive opts wanted past todo t) :
    Halted archive opts wanted t.1.steps := by
  rcases h with h | h
  · exact h.halted
  · exact h.halted

theorem Stopped.mono {todo todo' : List Nat} {b : Book} (h : Stopped archive opts wanted todo b)
    (hsub : ∀ i ∈ todo', i ∈ todo) : Stopped archive opts wanted todo' b :=
  ⟨h.failure, h.halted, fun i hi => h.called i (hsub i hi)⟩

omit [DecidableEq I] in
/-- A decoder is turned to an entry. -/
theorem ends_enter {α : Type} {next : Unit → Extracting D W H I α} {Q : Except Fault α → Extraction W H I × Source D → Prop}
    (i : Nat) (h : ∀ source, (∀ session remaining, t.2 = .entry session remaining →
      source = .entry { session with decoder := dec.toEntry i session.decoder } (archive.sizeOf i)) →
        Ends (next ()) Q (t.1, source)) : Ends (enter dec archive i >>= next) Q t := by
  obtain ⟨s, source⟩ := t
  cases source with
  | empty => exact ends_update (h .empty fun _ _ heq => by cases heq)
  | entry session remaining =>
    refine ends_update (h _ fun session' remaining' heq => ?_)
    cases heq
    rfl

/-- The entries of a block behind a failure of the run. -/
theorem ends_decodeEntries_stopped (hnodup : (rest ++ later).Nodup)
    (h : Stopped archive opts wanted (rest ++ later) t.1.book) :
    Ends (decodeEntries dec archive (extractCallback dec env opts passwordSupplied fromNtTime archive wanted plans) rest)
      (Passed archive opts wanted past later) t := by
  cases rest with
  | nil => exact ends_pure (.inr h)
  | cons i rest =>
    refine ends_enter i fun source _ => ends_bind (ends_extractCallback_stopped h hnodup) (fun goesOn t₁ ⟨hfalse, h₁⟩ => ?_)
      fun _ _ ⟨h, _⟩ => by cases h
    cases hfalse
    exact ends_pure (.inr (h₁.mono fun j hj => List.mem_append_right _ hj))

/-- The entries of a block, with the data of those before them behind. -/
theorem ends_decodeEntries (hlayout : archive.WellFormed) (hplans : buildEntryReadPlans archive wanted = .ok plans)
    (hblock : block ∈ dataBlocks archive opts wanted) (done : List Nat) (hfiles : archive.filesOf block = done ++ rest)
    (hlater : ∀ j ∈ later, archive.blockOf j ≠ some block) {session : Session D} (hsource : t.2 = .entry session 0)
    (hsession : session.block = block) (htaken : session.taken = (done.map archive.sizeOf).sum)
    (hrunning : Running archive opts wanted past (rest ++ later) t.1.book) :
    Ends (decodeEntries dec archive (extractCallback dec env opts passwordSupplied fromNtTime archive wanted plans) rest)
      (Passed archive opts wanted (past ++ rest) later) t := by
  induction rest generalizing done past session t with
  | nil =>
    rw [List.append_nil]
    exact ends_pure (.inl hrunning)
  | cons i rest ih =>
    have hmem : i ∈ archive.filesOf block := by
      rw [hfiles]
      exact List.mem_append_right _ List.mem_cons_self
    have hof := (mem_filesOf.1 hmem).2
    have hrest : ∀ j ∈ rest, archive.blockOf j = some block := by
      intro j hj
      refine (mem_filesOf.1 ?_).2
      rw [hfiles]
      exact List.mem_append_right _ (List.mem_cons_of_mem i hj)
    refine ends_enter i fun source hentered => ?_
    have hentered := hentered session 0 hsource
    have hvisiting : Visiting archive opts wanted i rest later source := by
      refine ⟨nodup_visitOrder archive, hlayout.directories i, ?_, fun j hj => ⟨lt_of_filter_range hfiles j hj, ?_⟩,
        fun j hj b hb => ?_⟩
      · rw [hentered, placeOf, hof]
        dsimp only
        rw [if_pos hblock, offsetOf_eq hfiles, ← htaken, ← hsession]
        rfl
      · rw [hrest j hj, hof]
      · rw [hof] at hb
        cases hb
        exact hlater j hj
    refine ends_bind (ends_extractCallback (t := (t.1, source)) hplans (lt_of_mem_filesOf hmem) hvisiting hrunning)
      (fun goesOn t₁ h₁ => ?_) fun _ _ h₁ => h₁
    cases goesOn with
    | true =>
      obtain ⟨hrunning₁, hdrained⟩ := h₁
      rw [hentered] at hdrained
      generalize hlast : t₁.2 = last at hdrained
      cases hdrained with
      | entry _ decoder =>
        have := ih (done ++ [i]) (by rw [hfiles, List.append_assoc]; rfl) hlast hsession
          (by simp [htaken]) hrunning₁
        rw [List.append_assoc] at this
        exact this
    | false =>
      refine ends_pure ?_
      rcases h₁ with h₁ | h₁
      · exact .inl h₁
      · exact .inr (h₁.mono fun j hj => List.mem_append_right _ hj)

/-- A block that is decoded. -/
theorem ends_decodeBlock (hlayout : archive.WellFormed) (hplans : buildEntryReadPlans archive wanted = .ok plans)
    (hblock : block ∈ dataBlocks archive opts wanted) (hlater : ∀ j ∈ later, archive.blockOf j ≠ some block)
    (hnodup : (archive.filesOf block ++ later).Nodup)
    (h : Visited archive opts wanted past (archive.filesOf block ++ later) t) :
    Ends (decodeBlock dec archive (extractCallback dec env opts passwordSupplied fromNtTime archive wanted plans) block)
      (Passed archive opts wanted (past ++ archive.filesOf block) later) t := by
  unfold decodeBlock
  cases dec.new block with
  | error error => exact ends_fail h.halted
  | ok decoder =>
    refine ends_ok (ends_update ?_)
    rcases h with h | h
    · exact ends_decodeEntries hlayout hplans hblock [] rfl hlater rfl rfl rfl h
    · exact ends_decodeEntries_stopped hnodup h

/-! ## Blocks that are not decoded -/

theorem ends_announceEntries_stopped (hnodup : (rest ++ later).Nodup) (others : List Nat)
    (h : Stopped archive opts wanted (rest ++ later) t.1.book) (hrest : ∀ j ∈ rest, archive.fileBlockIndex[j]? = some (some block))
    (hothers : ∀ j ∈ others.head?, archive.fileBlockIndex[j]? ≠ some (some block)) :
    Ends (announceEntries archive (extractCallback dec env opts passwordSupplied fromNtTime archive wanted plans) block
      (rest ++ others)) (Passed archive opts wanted past later) t := by
  cases rest with
  | nil =>
    cases others with
    | nil => exact ends_pure (.inr h)
    | cons j others =>
      unfold announceEntries
      exact ends_ite (fun _ => ends_pure (.inr h)) fun hsame => absurd (hothers j rfl) hsame
  | cons i rest =>
    unfold announceEntries
    refine ends_ite (fun hother => absurd (hrest i List.mem_cons_self) hother) fun _ => ?_
    refine ends_bind (ends_extractCallback_stopped h hnodup) (fun goesOn t₁ ⟨hfalse, h₁⟩ => ?_)
      fun _ _ ⟨h, _⟩ => by cases h
    cases hfalse
    exact ends_pure (.inr (h₁.mono fun j hj => List.mem_append_right _ hj))

/-- The entries of a block that is not decoded. -/
theorem ends_announceEntries (hlayout : archive.WellFormed) (hplans : buildEntryReadPlans archive wanted = .ok plans)
    (hblock : block ∉ dataBlocks archive opts wanted) (done : List Nat) (hfiles : archive.filesOf block = done ++ rest)
    (hlater : ∀ j ∈ later, archive.blockOf j ≠ some block) (others : List Nat)
    (hothers : ∀ j ∈ others.head?, archive.fileBlockIndex[j]? ≠ some (some block)) (hsource : t.2 = .empty)
    (hrunning : Running archive opts wanted past (rest ++ later) t.1.book) :
    Ends (announceEntries archive (extractCallback dec env opts passwordSupplied fromNtTime archive wanted plans) block
      (rest ++ others)) (Passed archive opts wanted (past ++ rest) later) t := by
  induction rest generalizing done past t with
  | nil =>
    rw [List.append_nil]
    cases others with
    | nil => exact ends_pure (.inl hrunning)
    | cons j others =>
      unfold announceEntries
      exact ends_ite (fun _ => ends_pure (.inl hrunning)) fun hsame => absurd (hothers j rfl) hsame
  | cons i rest ih =>
    have hmem : i ∈ archive.filesOf block := by
      rw [hfiles]
      exact List.mem_append_right _ List.mem_cons_self
    have hof := (mem_filesOf.1 hmem).2
    have hrest : ∀ j ∈ rest, archive.blockOf j = some block := by
      intro j hj
      refine (mem_filesOf.1 ?_).2
      rw [hfiles]
      exact List.mem_append_right _ (List.mem_cons_of_mem i hj)
    have hvisiting : Visiting archive opts wanted i rest later t.2 := by
      refine ⟨nodup_visitOrder archive, hlayout.directories i, ?_, fun j hj => ⟨lt_of_filter_range hfiles j hj, ?_⟩,
        fun j hj b hb => ?_⟩
      · rw [hsource, placeOf, hof]
        dsimp only
        rw [if_neg hblock]
        rfl
      · rw [hrest j hj, hof]
      · rw [hof] at hb
        cases hb
        exact hlater j hj
    have hindex : archive.fileBlockIndex[i]? = some (some block) := by
      rw [Archive.filesOf] at hmem
      exact of_decide_eq_true (List.mem_filter.1 hmem).2
    rw [List.cons_append]
    unfold announceEntries
    refine ends_ite (fun hother => absurd hindex hother) fun _ => ?_
    refine ends_bind (ends_extractCallback hplans (lt_of_mem_filesOf hmem) hvisiting hrunning)
      (fun goesOn t₁ h₁ => ?_) fun _ _ h₁ => h₁
    cases goesOn with
    | true =>
      obtain ⟨hrunning₁, hdrained⟩ := h₁
      rw [hsource] at hdrained
      generalize hlast : t₁.2 = last at hdrained
      cases hdrained
      have := ih (done ++ [i]) (by rw [hfiles, List.append_assoc]; rfl) hlast hrunning₁
      rw [List.append_assoc] at this
      exact this
    | false =>
      refine ends_pure ?_
      rcases h₁ with h₁ | h₁
      · exact .inl h₁
      · exact .inr (h₁.mono fun j hj => List.mem_append_right _ hj)

omit [DecidableEq I] in
theorem fileBlockIndex_of_mem {i : Nat} (h : i ∈ archive.filesOf block) : archive.fileBlockIndex[i]? = some (some block) :=
  of_decide_eq_true (List.mem_filter.1 h).2

/-- The files from the first one of a block on: those of the block, and others. -/
theorem files_of_first (hlayout : archive.WellFormed) (hblock : block < archive.blocks.length) :
    ∃ first, ∃ others : List Nat, archive.blockFirstFileIndex[block]? = some first ∧ first ≤ archive.files.length ∧
      List.range' first (archive.files.length - first) = archive.filesOf block ++ others ∧
      ∀ j ∈ others.head?, archive.fileBlockIndex[j]? ≠ some (some block) := by
  obtain ⟨first, hfirst, hle, hfiles⟩ := hlayout.contiguous block hblock
  generalize hn : (archive.filesOf block).length = n at hfiles
  have hmem : ∀ i, i ∈ archive.filesOf block ↔ first ≤ i ∧ i < first + n := by
    intro i
    rw [hfiles, List.mem_range'_1]
  have hroom : first + n ≤ archive.files.length := by
    rcases Nat.eq_zero_or_pos n with hzero | hpos
    · omega
    · have := lt_of_mem_filesOf ((hmem (first + n - 1)).2 ⟨by omega, by omega⟩)
      omega
  refine ⟨first, List.range' (first + n) (archive.files.length - first - n), hfirst, hle, ?_, fun j hj hindex => ?_⟩
  · rw [hfiles, List.range'_append_1, Nat.add_sub_cancel' (by omega)]
  · have hj' := List.mem_of_mem_head? hj
    rw [List.mem_range'_1] at hj'
    have hhead : j = first + n := by
      cases hcount : archive.files.length - first - n with
      | zero =>
        rw [hcount] at hj
        cases hj
      | succ count =>
        rw [hcount, List.range'_succ] at hj
        cases hj
        rfl
    have hown : j ∈ archive.filesOf block := mem_filesOf.2 ⟨by omega, by rw [Archive.blockOf, hindex]; rfl⟩
    have := (hmem j).1 hown
    omega

theorem ends_announceBlock (hlayout : archive.WellFormed) (hplans : buildEntryReadPlans archive wanted = .ok plans)
    (hblock : block ∉ dataBlocks archive opts wanted) (hlt : block < archive.blocks.length)
    (hlater : ∀ j ∈ later, archive.blockOf j ≠ some block) (hnodup : (archive.filesOf block ++ later).Nodup)
    (h : Visited archive opts wanted past (archive.filesOf block ++ later) t) :
    Ends (announceBlock archive (extractCallback dec env opts passwordSupplied fromNtTime archive wanted plans) block)
      (Passed archive opts wanted (past ++ archive.filesOf block) later) t := by
  obtain ⟨first, others, hfirst, hle, hfiles, hothers⟩ := files_of_first hlayout hlt
  unfold announceBlock
  rw [hfirst]
  refine ends_ok (ends_ite (fun hout => absurd hout (Nat.not_lt.2 hle)) fun _ => ends_update ?_)
  rw [hfiles]
  rcases h with h | h
  · exact ends_announceEntries hlayout hplans hblock [] rfl hlater others hothers rfl h
  · exact ends_announceEntries_stopped hnodup others h (fun j hj => fileBlockIndex_of_mem hj) hothers

/-! ## The pass -/

/-- The blocks, one after the other. -/
theorem ends_visitBlocks (hlayout : archive.WellFormed) (hplans : buildEntryReadPlans archive wanted = .ok plans)
    {blocks : List Nat} (hdistinct : blocks.Nodup) (hblocks : ∀ block ∈ blocks, block < archive.blocks.length)
    (hnodup : (blocks.flatMap archive.filesOf ++ archive.unassigned).Nodup)
    (h : Visited archive opts wanted past (blocks.flatMap archive.filesOf ++ archive.unassigned) t) :
    Ends (visitBlocks dec archive (extractCallback dec env opts passwordSupplied fromNtTime archive wanted plans)
        (some (dataBlocks archive opts wanted)) true blocks)
      (Outcome (fun goesOn t' => goesOn = true ∧
          Visited archive opts wanted (past ++ blocks.flatMap archive.filesOf) archive.unassigned t')
        fun t' => Halted archive opts wanted t'.1.steps) t := by
  induction blocks generalizing past t with
  | nil =>
    rw [List.flatMap_nil, List.append_nil]
    exact ends_pure ⟨rfl, h⟩
  | cons block blocks ih =>
    obtain ⟨hnew, hdistinct⟩ := List.nodup_cons.1 hdistinct
    rw [List.flatMap_cons, List.append_assoc] at hnodup h
    have hlater := @blockOf_later archive block blocks hnew
    have hrest := (List.nodup_append.1 hnodup).2.1
    have hnext := fun t => @ih (past ++ archive.filesOf block) t hdistinct
      (fun b hb => hblocks b (List.mem_cons_of_mem _ hb)) hrest
    simp only [List.append_assoc] at hnext
    rw [List.flatMap_cons]
    unfold visitBlocks
    by_cases hdata : block ∈ dataBlocks archive opts wanted
    · have hasked : ((some (dataBlocks archive opts wanted)).any fun asked => !asked.contains block) = false := by
        rw [Option.any_some, Bool.not_eq_false', List.contains_iff_mem]
        exact hdata
      rw [hasked]
      refine ends_ite (fun hfalse => by cases hfalse) fun _ => ?_
      refine ends_bind (ends_decodeBlock hlayout hplans hdata hlater hnodup h) (fun complete t₁ h₁ => ?_) fun _ _ h₁ => h₁
      exact ends_ite (fun hfalse => by simp at hfalse) fun _ => hnext t₁ h₁
    · have hasked : ((some (dataBlocks archive opts wanted)).any fun asked => !asked.contains block) = true := by
        rw [Option.any_some, Bool.not_eq_true', Bool.eq_false_iff, ne_eq, List.contains_iff_mem]
        exact hdata
      rw [hasked]
      refine ends_ite (fun _ => ?_) fun hfalse => absurd rfl hfalse
      refine ends_bind (ends_announceBlock hlayout hplans hdata (hblocks block List.mem_cons_self) hlater hnodup h)
        (fun _ t₁ h₁ => hnext t₁ h₁) fun _ _ h₁ => h₁

theorem ends_visitUnassigned_stopped {files : List Nat}
    (h : Stopped archive opts wanted (files.filter fun i => archive.fileBlockIndex[i]? = some none) t.1.book)
    (hnodup : files.Nodup) :
    Ends (visitUnassigned archive (extractCallback dec env opts passwordSupplied fromNtTime archive wanted plans) files)
      (Passed archive opts wanted past []) t := by
  induction files with
  | nil => exact ends_pure (.inr h)
  | cons i files ih =>
    unfold visitUnassigned
    by_cases hindex : archive.fileBlockIndex[i]? = some none
    · have hkeep : decide (archive.fileBlockIndex[i]? = some none) = true := decide_eq_true hindex
      have hfiltered := hnodup.filter fun i => decide (archive.fileBlockIndex[i]? = some none)
      rw [List.filter_cons, hkeep, if_pos rfl] at h hfiltered
      refine ends_ite (fun _ => ?_) fun hother => absurd hindex hother
      refine ends_bind (ends_extractCallback_stopped h hfiltered) (fun goesOn t₁ ⟨hfalse, h₁⟩ => ?_) fun _ _ ⟨h, _⟩ => by cases h
      cases hfalse
      exact ends_pure (.inr (h₁.mono fun j hj => absurd hj List.not_mem_nil))
    · have hskip : decide (archive.fileBlockIndex[i]? = some none) = false := decide_eq_false hindex
      rw [List.filter_cons, hskip] at h
      exact ends_ite (fun hsame => absurd hsame hindex) fun _ => ih h (List.nodup_cons.1 hnodup).2

/-- The files without a block. -/
theorem ends_visitUnassigned (hlayout : archive.WellFormed) (hplans : buildEntryReadPlans archive wanted = .ok plans)
    {files : List Nat} (done : List Nat) (hfiles : archive.unassigned = done ++ files.filter fun i => archive.fileBlockIndex[i]? = some none)
    (hinside : ∀ i ∈ files, i < archive.files.length) (hsource : t.2 = .empty)
    (h : Running archive opts wanted past (files.filter fun i => archive.fileBlockIndex[i]? = some none) t.1.book) :
    Ends (visitUnassigned archive (extractCallback dec env opts passwordSupplied fromNtTime archive wanted plans) files)
      (Passed archive opts wanted (past ++ files.filter fun i => archive.fileBlockIndex[i]? = some none) []) t := by
  induction files generalizing done past t with
  | nil =>
    rw [List.filter_nil, List.append_nil]
    exact ends_pure (.inl h)
  | cons i files ih =>
    unfold visitUnassigned
    by_cases hindex : archive.fileBlockIndex[i]? = some none
    · have hkeep : decide (archive.fileBlockIndex[i]? = some none) = true := decide_eq_true hindex
      rw [List.filter_cons, hkeep, if_pos rfl] at h hfiles ⊢
      have hmem : ∀ j ∈ i :: files.filter fun i => archive.fileBlockIndex[i]? = some none, archive.blockOf j = none := by
        intro j hj
        refine @blockOf_unassigned archive j ?_
        rw [hfiles]
        exact List.mem_append_right _ hj
      have hof := hmem i List.mem_cons_self
      have hvisiting : Visiting archive opts wanted i (files.filter fun i => archive.fileBlockIndex[i]? = some none) []
          t.2 := by
        refine ⟨nodup_visitOrder archive, hlayout.directories i, ?_, fun j hj => ⟨lt_of_filter_range hfiles j hj, ?_⟩,
          fun j hj => absurd hj List.not_mem_nil⟩
        · rw [hsource, placeOf, hof]
          rfl
        · rw [hmem j (List.mem_cons_of_mem _ hj), hof]
      refine ends_ite (fun _ => ?_) fun hother => absurd hindex hother
      rw [← List.append_nil (files.filter _)] at h
      refine ends_bind (ends_extractCallback hplans (hinside i List.mem_cons_self) hvisiting h)
        (fun goesOn t₁ h₁ => ?_) fun _ _ h₁ => h₁
      cases goesOn with
      | true =>
        obtain ⟨hrunning₁, hdrained⟩ := h₁
        rw [List.append_nil] at hrunning₁
        rw [hsource] at hdrained
        generalize hlast : t₁.2 = last at hdrained
        cases hdrained
        have := ih (done ++ [i]) (by rw [hfiles, List.append_assoc]; rfl)
          (fun j hj => hinside j (List.mem_cons_of_mem _ hj)) hlast hrunning₁
        rw [List.append_assoc] at this
        exact this
      | false =>
        refine ends_pure ?_
        rcases h₁ with h₁ | h₁
        · exact .inl h₁
        · exact .inr (h₁.mono fun j hj => absurd hj List.not_mem_nil)
    · have hskip : decide (archive.fileBlockIndex[i]? = some none) = false := decide_eq_false hindex
      rw [List.filter_cons, hskip] at h hfiles ⊢
      exact ends_ite (fun hsame => absurd hsame hindex) fun _ =>
        ih done hfiles (fun j hj => hinside j (List.mem_cons_of_mem _ hj)) hsource h

/-- The whole pass. -/
theorem ends_visit (hlayout : archive.WellFormed) (hplans : buildEntryReadPlans archive wanted = .ok plans)
    (h : Running archive opts wanted [] (visitOrder archive) t.1.book) :
    Ends (visit dec archive (extractCallback dec env opts passwordSupplied fromNtTime archive wanted plans)
        (some (dataBlocks archive opts wanted)) true)
      (Passed archive opts wanted (visitOrder archive) []) t := by
  have hnodup := nodup_visitOrder archive
  rw [visitOrder_eq] at h hnodup ⊢
  unfold visit
  refine ends_bind (ends_visitBlocks hlayout hplans List.nodup_range (fun b hb => List.mem_range.1 hb) hnodup (.inl h))
    (fun goesOn t₁ ⟨htrue, h₁⟩ => ?_) fun _ _ h₁ => h₁
  subst htrue
  rw [List.nil_append] at h₁
  refine ends_ite (fun _ => ends_ite (fun _ => ends_update ?_) fun hfalse => absurd rfl hfalse)
    fun hfalse => absurd rfl hfalse
  rcases h₁ with h₁ | h₁
  · exact ends_visitUnassigned (t := (t₁.1, Source.empty)) hlayout hplans [] rfl
      (fun i hi => List.mem_range.1 hi) rfl h₁
  · exact ends_visitUnassigned_stopped (t := (t₁.1, Source.empty)) h₁ List.nodup_range

end Passes

end Squallz.SevenZ
