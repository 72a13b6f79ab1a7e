/-
What the plans of the entries say: their block, and whether a selected entry comes later in it; and what is pending when a
run begins.
-/
import Squallz.SevenZ.Extraction

namespace Squallz.SevenZ

open Squallz.Api Squallz.Bytes Squallz.System Squallz.Extract

/-! ## Layouts -/

/-- The block of a file. -/
def Archive.blockOf (archive : Archive) (i : Nat) : Option Nat := archive.fileBlockIndex[i]?.join

/-- A file that a selection asks for. -/
def Archive.Selected (archive : Archive) (wanted : Option (List (List UInt8))) (i : Nat) : Prop :=
  ∃ entry, archive.files[i]? = some entry ∧ isWanted wanted entry = true

/-- The blocks whose data are asked for. -/
def dataBlocks (archive : Archive) (opts : ExtractOptions) (wanted : Option (List (List UInt8))) : List Nat :=
  archive.files.zipIdx.filterMap fun (entry, i) => if asksForData opts wanted entry then archive.blockOf i else none

variable {archive : Archive} {wanted : Option (List (List UInt8))}

theorem mem_filesOf {block i : Nat} : i ∈ archive.filesOf block ↔
    i < archive.files.length ∧ archive.blockOf i = some block := by
  unfold Archive.filesOf Archive.blockOf
  rw [List.mem_filter, List.mem_range, decide_eq_true_eq]
  constructor
  · rintro ⟨hi, h⟩
    exact ⟨hi, by rw [h]; rfl⟩
  · rintro ⟨hi, h⟩
    refine ⟨hi, ?_⟩
    rcases hget : archive.fileBlockIndex[i]? with _ | _ | b
    · rw [hget] at h
      cases h
    · rw [hget] at h
      cases h
    · rw [hget] at h
      cases h
      rfl

/-! ## Plans -/

/-- The plan of a file. -/
structure PlanAt (archive : Archive) (wanted : Option (List (List UInt8))) (i : Nat) (plan : EntryReadPlan) : Prop where
  fileIndex : plan.fileIndex = i
  block : archive.fileBlockIndex[i]? = some plan.blockIndex
  later : plan.selectedLaterInBlock = true ↔
    plan.blockIndex ≠ none ∧ ∃ j, i < j ∧ archive.blockOf j = plan.blockIndex ∧ archive.Selected wanted j

theorem PlanAt.blockOf {i : Nat} {plan : EntryReadPlan} (h : PlanAt archive wanted i plan) :
    archive.blockOf i = plan.blockIndex := by
  rw [Archive.blockOf, h.block]
  rfl

/-- The blocks in which a selected file was seen from an index on. -/
def SeenFrom (archive : Archive) (wanted : Option (List (List UInt8))) (k : Nat) (seen : List Bool) : Prop :=
  ∀ block later, seen[block]? = some later → (later = true ↔ ∃ j, k ≤ j ∧ archive.blockOf j = some block ∧
    archive.Selected wanted j)

theorem SeenFrom.step {k : Nat} {seen : List Bool} (h : SeenFrom archive wanted (k + 1) seen)
    (hother : ∀ block, archive.blockOf k = some block → ¬ archive.Selected wanted k) : SeenFrom archive wanted k seen := by
  intro block later hget
  rw [h block later hget]
  constructor
  · rintro ⟨j, hj, hrest⟩
    exact ⟨j, Nat.le_of_succ_le hj, hrest⟩
  · rintro ⟨j, hj, hblock, hselected⟩
    refine ⟨j, Nat.lt_of_le_of_ne hj fun heq => ?_, hblock, hselected⟩
    subst heq
    exact hother block hblock hselected

theorem SeenFrom.mark {k block : Nat} {seen : List Bool} (h : SeenFrom archive wanted (k + 1) seen)
    (hblock : archive.blockOf k = some block) (hselected : archive.Selected wanted k) :
    SeenFrom archive wanted k (seen.set block true) := by
  intro block' later hget
  rw [List.getElem?_set] at hget
  by_cases heq : block = block'
  · subst heq
    rw [if_pos rfl] at hget
    split at hget
    · cases hget
      exact ⟨fun _ => ⟨k, Nat.le_refl _, hblock, hselected⟩, fun _ => rfl⟩
    · cases hget
  · rw [if_neg heq] at hget
    rw [h block' later hget]
    constructor
    · rintro ⟨j, hj, hrest⟩
      exact ⟨j, Nat.le_of_succ_le hj, hrest⟩
    · rintro ⟨j, hj, hblock', hrest⟩
      refine ⟨j, Nat.lt_of_le_of_ne hj fun hkj => ?_, hblock', hrest⟩
      subst hkj
      rw [hblock] at hblock'
      exact heq (Option.some.inj hblock')

/-- The files before an index, the last one first. -/
theorem take_zipIdx_reverse {α : Type} {l : List α} {k : Nat} (hk : k < l.length) :
    (l.zipIdx.take (k + 1)).reverse = (l[k], k) :: (l.zipIdx.take k).reverse := by
  have hlength : k < l.zipIdx.length := by rwa [List.length_zipIdx]
  rw [List.take_succ_eq_append_getElem hlength, List.reverse_append, List.getElem_zipIdx]
  simp

theorem entryReadPlansFrom_spec {k : Nat} {seen : List Bool} {plans result : List EntryReadPlan}
    (hk : k ≤ archive.files.length) (hseen : SeenFrom archive wanted k seen)
    (hplans : ∀ j plan, plans[j]? = some plan → PlanAt archive wanted (k + j) plan)
    (hlength : plans.length = archive.files.length - k)
    (h : entryReadPlansFrom archive wanted (archive.files.zipIdx.take k).reverse seen plans = .ok result) :
    result.length = archive.files.length ∧ ∀ i plan, result[i]? = some plan → PlanAt archive wanted i plan := by
  induction k generalizing seen plans with
  | zero =>
    rw [List.take_zero, List.reverse_nil, entryReadPlansFrom] at h
    cases h
    refine ⟨hlength, fun i plan hi => ?_⟩
    have := hplans i plan hi
    rwa [Nat.zero_add] at this
  | succ k ih =>
    rw [take_zipIdx_reverse hk, entryReadPlansFrom] at h
    have hcons : ∀ plan, PlanAt archive wanted k plan → ∀ j plan', (plan :: plans)[j]? = some plan' →
        PlanAt archive wanted (k + j) plan' := by
      intro plan hplan j plan' hj
      cases j with
      | zero =>
        cases hj
        exact hplan
      | succ j =>
        have := hplans j plan' hj
        rwa [Nat.succ_add] at this
    have hselected : archive.Selected wanted k ↔ isWanted wanted archive.files[k] = true := by
      unfold Archive.Selected
      rw [List.getElem?_eq_getElem hk]
      constructor
      · rintro ⟨_, ⟨⟩, hw⟩
        exact hw
      · intro hw
        exact ⟨_, rfl, hw⟩
    rcases hblock : archive.fileBlockIndex[k]? with _ | _ | block
    · rw [hblock] at h
      cases h
    · rw [hblock] at h
      refine ih (Nat.le_of_lt hk) (hseen.step fun b hb => ?_) (hcons _ ⟨rfl, hblock, ?_⟩) ?_ h
      · rw [Archive.blockOf, hblock] at hb
        cases hb
      · exact ⟨fun hf => (by cases hf), fun hf => absurd rfl hf.1⟩
      · rw [List.length_cons, hlength]
        omega
    · rw [hblock] at h
      rw [bind_eq_ok] at h
      obtain ⟨encrypted, -, h⟩ := h
      split at h
      · cases h
      · rename_i later hget
        have hof : archive.blockOf k = some block := by rw [Archive.blockOf, hblock]; rfl
        refine ih (Nat.le_of_lt hk) ?_ (hcons _ ⟨rfl, hblock, ?_⟩) ?_ h
        · by_cases hw : isWanted wanted archive.files[k] = true
          · rw [if_pos hw]
            exact hseen.mark hof (hselected.2 hw)
          · rw [if_neg hw]
            exact hseen.step fun _ _ hsel => hw (hselected.1 hsel)
        · rw [hseen block later hget]
          exact ⟨fun hj => ⟨by simp, hj⟩, fun hj => hj.2⟩
        · rw [List.length_cons, hlength]
          omega

/-- Each file has its plan. -/
theorem buildEntryReadPlans_spec {plans : List EntryReadPlan} (h : buildEntryReadPlans archive wanted = .ok plans) :
    plans.length = archive.files.length ∧ ∀ i plan, plans[i]? = some plan → PlanAt archive wanted i plan := by
  unfold buildEntryReadPlans at h
  rw [← List.take_length (l := archive.files.zipIdx), List.length_zipIdx] at h
  have hnone : ∀ j plan, ([] : List EntryReadPlan)[j]? = some plan →
      PlanAt archive wanted (archive.files.length + j) plan := by
    intro j plan hj
    cases hj
  refine entryReadPlansFrom_spec (Nat.le_refl _) (fun block later hget => ?_) hnone (Nat.sub_self _).symm h
  constructor
  · intro hlater
    rw [List.getElem?_replicate] at hget
    split at hget
    · cases hget
      cases hlater
    · cases hget
  · rintro ⟨j, hj, -, entry, hentry, -⟩
    rw [List.getElem?_eq_none hj] at hentry
    cases hentry

/-- The blocks that a run decodes are those whose data are asked for. -/
theorem blocksOf_plans {plans : List EntryReadPlan} {opts : ExtractOptions}
    (h : buildEntryReadPlans archive wanted = .ok plans) :
    blocksOf archive plans (asksForData opts wanted) = dataBlocks archive opts wanted := by
  obtain ⟨hlength, hplans⟩ := buildEntryReadPlans_spec h
  refine List.filterMap_congr fun ⟨entry, i⟩ hmem => ?_
  have hi : i < plans.length := by
    rw [hlength]
    exact (List.mem_zipIdx' hmem).1
  dsimp only
  rw [List.getElem?_eq_getElem hi, Option.bind_some, (hplans i _ (List.getElem?_eq_getElem hi)).blockOf]

/-! ## What is pending -/

/-- What is pending: the selected files of a list that have a block. -/
structure PendingOf (archive : Archive) (wanted : Option (List (List UInt8))) (files : List (ArchiveEntry × Nat))
    (remaining : List Pending) : Prop where
  sound : ∀ pending ∈ remaining, archive.blockOf pending.fileIndex = some pending.block ∧
    ∃ entry, (entry, pending.fileIndex) ∈ files ∧ isWanted wanted entry = true
  complete : ∀ entry i block, (entry, i) ∈ files → isWanted wanted entry = true → archive.blockOf i = some block →
    ∃ pending ∈ remaining, pending.block = block ∧ pending.fileIndex = i
  sublist : (remaining.map (·.fileIndex)).Sublist (files.map Prod.snd)

theorem buildRemainingSelectedByBlock_spec {fromNtTime : UInt64 → SystemTime} {plans : List EntryReadPlan}
    (hplans : ∀ i plan, plans[i]? = some plan → PlanAt archive wanted i plan) {files : List (ArchiveEntry × Nat)}
    {remaining : List Pending} (h : buildRemainingSelectedByBlock fromNtTime wanted plans files = .ok remaining) :
    PendingOf archive wanted files remaining := by
  induction files generalizing remaining with
  | nil =>
    cases h
    exact ⟨fun _ hp => absurd hp List.not_mem_nil, fun _ _ _ hf => absurd hf List.not_mem_nil, .slnil⟩
  | cons file rest ih =>
    obtain ⟨entry, i⟩ := file
    unfold buildRemainingSelectedByBlock at h
    -- what is known of the rest is known of all files
    have hweaken : ∀ {remaining}, PendingOf archive wanted rest remaining → ∀ pending ∈ remaining,
        archive.blockOf pending.fileIndex = some pending.block ∧
          ∃ entry', (entry', pending.fileIndex) ∈ (entry, i) :: rest ∧ isWanted wanted entry' = true := by
      intro remaining hr pending hp
      obtain ⟨hblock, entry', hmem, hw⟩ := hr.sound pending hp
      exact ⟨hblock, entry', List.mem_cons_of_mem _ hmem, hw⟩
    by_cases hw : isWanted wanted entry = true
    · rw [if_neg (by rw [hw]; exact Bool.false_ne_true)] at h
      cases hplan : plans[i]? with
      | none =>
        rw [hplan] at h
        cases h
      | some plan =>
        rw [hplan, bind_eq_ok] at h
        obtain ⟨later, hlater, h⟩ := h
        have hr := ih hlater
        have hat := hplans i plan hplan
        cases hblock : plan.blockIndex with
        | none =>
          rw [hblock] at h
          cases h
          refine ⟨hweaken hr, fun entry' i' block hmem hw' hb => ?_, hr.sublist.cons _⟩
          rcases List.mem_cons.1 hmem with heq | hmem
          · cases heq
            rw [hat.blockOf, hblock] at hb
            cases hb
          · exact hr.complete entry' i' block hmem hw' hb
        | some block =>
          rw [hblock] at h
          cases h
          refine ⟨fun pending hp => ?_, fun entry' i' block' hmem hw' hb => ?_, ?_⟩
          · rcases List.mem_cons.1 hp with rfl | hp
            · dsimp only
              rw [hat.fileIndex]
              exact ⟨by rw [hat.blockOf, hblock], entry, List.mem_cons_self, hw⟩
            · exact hweaken hr pending hp
          · rcases List.mem_cons.1 hmem with heq | hmem
            · cases heq
              rw [hat.blockOf, hblock] at hb
              cases hb
              exact ⟨_, List.mem_cons_self, rfl, hat.fileIndex⟩
            · obtain ⟨pending, hp, hrest⟩ := hr.complete entry' i' block' hmem hw' hb
              exact ⟨pending, List.mem_cons_of_mem _ hp, hrest⟩
          · rw [List.map_cons, List.map_cons]
            dsimp only
            rw [hat.fileIndex]
            exact hr.sublist.cons_cons i
    · rw [Bool.not_eq_true] at hw
      rw [if_pos (by rw [hw]; rfl)] at h
      have hr := ih h
      refine ⟨hweaken hr, fun entry' i' block hmem hw' hb => ?_, hr.sublist.cons _⟩
      rcases List.mem_cons.1 hmem with heq | hmem
      · cases heq
        rw [hw] at hw'
        cases hw'
      · exact hr.complete entry' i' block hmem hw' hb

end Squallz.SevenZ
