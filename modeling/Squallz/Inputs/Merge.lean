/-
Merging overlapping roots: of the candidates of one source the first one with the deepest archive path is kept, and
with every kept candidate the directories of its root that its name lies in.
-/
import Squallz.Inputs.Items
import Squallz.Text.Separators

namespace Squallz.Inputs

open Squallz.Api Squallz.Text

/-! ## Candidates -/

structure CollectedCandidate (T : Type) where
  item : T
  rootIndex : Nat
deriving DecidableEq

def archivePathDepth (path : EntryPath) : Nat := ((path.raw.splitOn slash).filter (· ≠ [])).length

/-- The names above a name, the nearest one first; the loop ends before an empty one. -/
def ancestorsFrom : Nat → List Char → List (List Char)
  | 0, _ => []
  | fuel + 1, name =>
    match rsplitOnce '/' name with
    | none => []
    | some (parent, _) => if parent = [] then [] else parent :: ancestorsFrom fuel parent

def ancestors (name : String) : List String := (ancestorsFrom name.toList.length name.toList).map .ofList

section Merge

variable {T : Type} (C : CollectedInput T)

def CollectedInput.name (candidate : CollectedCandidate T) : EntryPath := (C.asRef candidate.item).name

def CollectedInput.isDirectory (candidate : CollectedCandidate T) : Bool :=
  (C.asRef candidate.item).entryType = .dir

/-- The first loop over the candidates from `index` on: which of them are preferred. -/
def preferLoop (candidates : List (CollectedCandidate T)) :
    List (CollectedCandidate T) → Nat → (SourcePath → Option Nat) → List Bool → Res (List Bool)
  | [], _, _, keep => pure keep
  | candidate :: rest, index, preferredBySource, keep => do
    let sourcePath ← C.deduplicationPath candidate.item
    let inserted : SourcePath → Option Nat := fun s => if s = sourcePath then some index else preferredBySource s
    match preferredBySource sourcePath with
    | some preferred =>
      match candidates[preferred]? with
      | none => Api.panic "index out of bounds"
      | some chosen =>
        if !C.matchesSameSource chosen.item candidate.item then raise (inputChanged (C.asRef candidate.item))
        else if archivePathDepth (C.name chosen) < archivePathDepth (C.name candidate) then
          preferLoop candidates rest (index + 1) inserted ((keep.set preferred false).set index true)
        else preferLoop candidates rest (index + 1) preferredBySource keep
    | none => preferLoop candidates rest (index + 1) inserted (keep.set index true)

/-- The map of the directories by root and name: the first one is entered. -/
def directoriesFrom : List (CollectedCandidate T) → Nat → (Nat × String → Option Nat) → Nat × String → Option Nat
  | [], _, directories => directories
  | candidate :: rest, index, directories =>
    directoriesFrom rest (index + 1) fun key =>
      if C.isDirectory candidate = true ∧ key = (candidate.rootIndex, (C.name candidate).display) ∧
        directories key = none then some index
      else directories key

/-- The directories that a preferred candidate lies in, added to the kept ones. -/
def keepAncestors (directories : Nat × String → Option Nat) (root : Nat) : List String → List Bool → List Bool
  | [], keep => keep
  | parent :: parents, keep =>
    keepAncestors directories root parents
      (match directories (root, parent) with
      | some directory => keep.set directory true
      | none => keep)

def ancestorLoop (directories : Nat × String → Option Nat) (preferred : List Bool) :
    List (CollectedCandidate T) → Nat → List Bool → List Bool
  | [], _, keep => keep
  | candidate :: rest, index, keep =>
    ancestorLoop directories preferred rest (index + 1)
      (if preferred[index]? = some true then
        keepAncestors directories candidate.rootIndex (ancestors (C.name candidate).display) keep
      else keep)

/-- The last loop: the items of the candidates that are kept. -/
def keptItems (candidates : List (CollectedCandidate T)) (keep : List Bool) : List T :=
  (candidates.zip keep).filterMap fun entry => if entry.2 then some entry.1.item else none

def deduplicateCollectedInputs (candidates : List (CollectedCandidate T)) : Res (List T) := do
  let preferred ← preferLoop C candidates candidates 0 (fun _ => none) (List.replicate candidates.length false)
  let directories := directoriesFrom C candidates 0 fun _ => none
  let keep := ancestorLoop C directories preferred candidates 0 preferred
  pure (keptItems candidates keep)

/-! ## Preferred candidates -/

/-- A candidate of a source at an index. -/
def CandidateOf (candidates : List (CollectedCandidate T)) (index : Nat) (source : SourcePath)
    (candidate : CollectedCandidate T) : Prop :=
  candidates[index]? = some candidate ∧ C.deduplicationPath candidate.item = .ok source

def CollectedInput.depth (candidate : CollectedCandidate T) : Nat := archivePathDepth (C.name candidate)

/-- The first of the deepest candidates of a source among the first `count` ones. -/
structure Preferred (candidates : List (CollectedCandidate T)) (count : Nat) (source : SourcePath) (index : Nat) : Prop where
  lt : index < count
  candidate : ∃ candidate, CandidateOf C candidates index source candidate ∧
    ∀ other candidate', other < count → CandidateOf C candidates other source candidate' →
      C.depth candidate' ≤ C.depth candidate ∧ (other < index → C.depth candidate' < C.depth candidate)

/-- What the first loop has established after the first `count` candidates. -/
structure Preferring (candidates : List (CollectedCandidate T)) (count : Nat)
    (preferredBySource : SourcePath → Option Nat) (keep : List Bool) : Prop where
  length : keep.length = candidates.length
  resolved : ∀ index candidate, index < count → candidates[index]? = some candidate →
    ∃ source, C.deduplicationPath candidate.item = .ok source
  preferred : ∀ source index, preferredBySource source = some index → Preferred C candidates count source index
  absent : ∀ source, preferredBySource source = none → ∀ index candidate, index < count →
    ¬ CandidateOf C candidates index source candidate
  keep : ∀ index, keep[index]? = some true ↔ ∃ source, preferredBySource source = some index
  agree : ∀ source index other candidate candidate', index < count → other < count →
    CandidateOf C candidates index source candidate → CandidateOf C candidates other source candidate' →
    C.matchesSameSource candidate.item candidate'.item = true

variable {C} {candidates : List (CollectedCandidate T)}

theorem Preferred.unique {count index other : Nat} {source : SourcePath} (h : Preferred C candidates count source index)
    (h' : Preferred C candidates count source other) : index = other := by
  obtain ⟨candidate, hcandidate, hmax⟩ := h.candidate
  obtain ⟨candidate', hcandidate', hmax'⟩ := h'.candidate
  obtain ⟨hle, hlt⟩ := hmax other candidate' h'.lt hcandidate'
  obtain ⟨hle', hlt'⟩ := hmax' index candidate h.lt hcandidate
  rcases Nat.lt_trichotomy index other with hbefore | heq | hafter
  · have := hlt' hbefore
    omega
  · exact heq
  · have := hlt hafter
    omega

theorem CandidateOf.source_unique {index : Nat} {source source' : SourcePath} {candidate candidate' : CollectedCandidate T}
    (h : CandidateOf C candidates index source candidate) (h' : CandidateOf C candidates index source' candidate') :
    source = source' ∧ candidate = candidate' := by
  obtain ⟨hget, hpath⟩ := h
  obtain ⟨hget', hpath'⟩ := h'
  rw [hget] at hget'
  cases hget'
  rw [hpath] at hpath'
  cases hpath'
  exact ⟨rfl, rfl⟩

theorem preferring_zero : Preferring C candidates 0 (fun _ => none) (List.replicate candidates.length false) where
  length := List.length_replicate
  resolved _ _ hlt _ := absurd hlt (Nat.not_lt_zero _)
  preferred _ _ h := by cases h
  absent _ _ _ _ hlt _ := absurd hlt (Nat.not_lt_zero _)
  keep index := by
    constructor
    · intro h
      have := List.eq_of_mem_replicate (List.mem_of_getElem? h)
      cases this
    · rintro ⟨source, h⟩
      cases h
  agree _ _ _ _ _ hlt := absurd hlt (Nat.not_lt_zero _)

section Step

variable {count : Nat} {preferredBySource : SourcePath → Option Nat} {keep : List Bool}
  {candidate : CollectedCandidate T} {source : SourcePath}

/-- The facts of the step that do not depend on which candidate of the source is preferred. -/
theorem Preferring.resolved_succ (h : Preferring C candidates count preferredBySource keep)
    (hget : candidates[count]? = some candidate) (hpath : C.deduplicationPath candidate.item = .ok source) :
    ∀ index candidate', index < count + 1 → candidates[index]? = some candidate' →
      ∃ source, C.deduplicationPath candidate'.item = .ok source := by
  intro index candidate' hlt hget'
  rcases Nat.lt_succ_iff_lt_or_eq.1 hlt with hlt | rfl
  · exact h.resolved index candidate' hlt hget'
  · rw [hget] at hget'
    cases hget'
    exact ⟨source, hpath⟩

/-- The candidates of the source agree once the new one agrees with one of them. -/
theorem Preferring.agree_succ (h : Preferring C candidates count preferredBySource keep)
    (hcandidate : CandidateOf C candidates count source candidate)
    (hsame : ∀ index candidate', index < count → CandidateOf C candidates index source candidate' →
      C.matchesSameSource candidate'.item candidate.item = true) :
    ∀ source index other candidate candidate', index < count + 1 → other < count + 1 →
      CandidateOf C candidates index source candidate → CandidateOf C candidates other source candidate' →
      C.matchesSameSource candidate.item candidate'.item = true := by
  intro source' index other c c' hindex hother hc hc'
  rcases Nat.lt_succ_iff_lt_or_eq.1 hindex with hindex | rfl
  · rcases Nat.lt_succ_iff_lt_or_eq.1 hother with hother | rfl
    · exact h.agree source' index other c c' hindex hother hc hc'
    · obtain ⟨rfl, rfl⟩ := hcandidate.source_unique hc'
      exact hsame index c hindex hc
  · obtain ⟨rfl, rfl⟩ := hcandidate.source_unique hc
    rcases Nat.lt_succ_iff_lt_or_eq.1 hother with hother | rfl
    · exact C.symm (hsame other c' hother hc')
    · obtain ⟨-, rfl⟩ := hcandidate.source_unique hc'
      exact C.refl _

/-- A preferred candidate of another source stays preferred. -/
theorem Preferred.other {index : Nat} {source' : SourcePath} (h : Preferred C candidates count source' index)
    (hcandidate : CandidateOf C candidates count source candidate) (hne : source' ≠ source) :
    Preferred C candidates (count + 1) source' index := by
  obtain ⟨chosen, hchosen, hmax⟩ := h.candidate
  refine ⟨Nat.lt_succ_of_lt h.lt, chosen, hchosen, fun other candidate' hlt hother => ?_⟩
  rcases Nat.lt_succ_iff_lt_or_eq.1 hlt with hlt | rfl
  · exact hmax other candidate' hlt hother
  · exact absurd (hother.source_unique hcandidate).1 hne

/-- A new source: its candidate is preferred. -/
theorem Preferring.insert (h : Preferring C candidates count preferredBySource keep)
    (hcandidate : CandidateOf C candidates count source candidate) (hnone : preferredBySource source = none) :
    Preferring C candidates (count + 1) (fun s => if s = source then some count else preferredBySource s)
      (keep.set count true) where
  length := by rw [List.length_set, h.length]
  resolved := h.resolved_succ hcandidate.1 hcandidate.2
  preferred source' index hsome := by
    split at hsome
    · rename_i heq
      cases hsome
      subst heq
      refine ⟨Nat.lt_succ_self _, candidate, hcandidate, fun other candidate' hlt hother => ?_⟩
      rcases Nat.lt_succ_iff_lt_or_eq.1 hlt with hlt | rfl
      · exact absurd hother (h.absent source' hnone other candidate' hlt)
      · obtain ⟨-, rfl⟩ := hother.source_unique hcandidate
        exact ⟨Nat.le_refl _, fun hlt => absurd hlt (Nat.lt_irrefl _)⟩
    · rename_i hne
      exact (h.preferred source' index hsome).other hcandidate hne
  absent source' hnone' index candidate' hlt hother := by
    split at hnone'
    · cases hnone'
    · rename_i hne
      rcases Nat.lt_succ_iff_lt_or_eq.1 hlt with hlt | rfl
      · exact h.absent source' hnone' index candidate' hlt hother
      · exact hne (hother.source_unique hcandidate).1
  keep index := by
    have hlt : count < keep.length := by
      rw [h.length]
      exact (List.getElem?_eq_some_iff.1 hcandidate.1).1
    by_cases hindex : index = count
    · subst hindex
      rw [List.getElem?_set_self hlt]
      exact ⟨fun _ => ⟨source, if_pos rfl⟩, fun _ => rfl⟩
    · rw [List.getElem?_set_ne (Ne.symm hindex), h.keep index]
      constructor
      · rintro ⟨source', hsome⟩
        refine ⟨source', ?_⟩
        rw [if_neg, hsome]
        rintro rfl
        rw [hnone] at hsome
        cases hsome
      · rintro ⟨source', hsome⟩
        split at hsome
        · cases hsome
          exact absurd rfl hindex
        · exact ⟨source', hsome⟩
  agree := h.agree_succ hcandidate fun index candidate' hlt hother =>
    absurd hother (h.absent source hnone index candidate' hlt)

variable {preferred : Nat} {chosen : CollectedCandidate T}

/-- All earlier candidates of a source agree with a candidate that agrees with the preferred one. -/
theorem Preferring.agrees_with (h : Preferring C candidates count preferredBySource keep)
    (hsome : preferredBySource source = some preferred) (hchosen : candidates[preferred]? = some chosen)
    (hmatch : C.matchesSameSource chosen.item candidate.item = true) :
    ∀ index candidate', index < count → CandidateOf C candidates index source candidate' →
      C.matchesSameSource candidate'.item candidate.item = true := by
  intro index candidate' hlt hother
  have hpreferred := h.preferred source preferred hsome
  obtain ⟨chosen', hchosen', -⟩ := hpreferred.candidate
  obtain ⟨hget, hpath⟩ := hchosen'
  rw [hchosen] at hget
  cases hget
  exact C.trans (h.agree source index preferred candidate' chosen hlt hpreferred.lt hother ⟨hchosen, hpath⟩) hmatch

/-- A deeper candidate of a known source takes the place of the preferred one. -/
theorem Preferring.replace (h : Preferring C candidates count preferredBySource keep)
    (hcandidate : CandidateOf C candidates count source candidate)
    (hsome : preferredBySource source = some preferred) (hchosen : candidates[preferred]? = some chosen)
    (hmatch : C.matchesSameSource chosen.item candidate.item = true) (hdeeper : C.depth chosen < C.depth candidate) :
    Preferring C candidates (count + 1) (fun s => if s = source then some count else preferredBySource s)
      ((keep.set preferred false).set count true) where
  length := by rw [List.length_set, List.length_set, h.length]
  resolved := h.resolved_succ hcandidate.1 hcandidate.2
  preferred source' index hsome' := by
    split at hsome'
    · rename_i heq
      cases hsome'
      subst heq
      refine ⟨Nat.lt_succ_self _, candidate, hcandidate, fun other candidate' hlt hother => ?_⟩
      rcases Nat.lt_succ_iff_lt_or_eq.1 hlt with hlt | rfl
      · obtain ⟨chosen', ⟨hget, -⟩, hmax⟩ := (h.preferred source' preferred hsome).candidate
        rw [hchosen] at hget
        cases hget
        have hle := (hmax other candidate' hlt hother).1
        exact ⟨Nat.le_of_lt (Nat.lt_of_le_of_lt hle hdeeper), fun _ => Nat.lt_of_le_of_lt hle hdeeper⟩
      · obtain ⟨-, rfl⟩ := hother.source_unique hcandidate
        exact ⟨Nat.le_refl _, fun hlt => absurd hlt (Nat.lt_irrefl _)⟩
    · rename_i hne
      exact (h.preferred source' index hsome').other hcandidate hne
  absent source' hnone' index candidate' hlt hother := by
    split at hnone'
    · cases hnone'
    · rename_i hne
      rcases Nat.lt_succ_iff_lt_or_eq.1 hlt with hlt | rfl
      · exact h.absent source' hnone' index candidate' hlt hother
      · exact hne (hother.source_unique hcandidate).1
  keep index := by
    have hlt : count < keep.length := by
      rw [h.length]
      exact (List.getElem?_eq_some_iff.1 hcandidate.1).1
    have hpreferred := (h.preferred source preferred hsome).lt
    by_cases hindex : index = count
    · subst hindex
      rw [List.getElem?_set_self (by rwa [List.length_set])]
      exact ⟨fun _ => ⟨source, if_pos rfl⟩, fun _ => rfl⟩
    · rw [List.getElem?_set_ne (Ne.symm hindex)]
      by_cases hold : index = preferred
      · subst hold
        rw [List.getElem?_set_self (Nat.lt_trans hpreferred hlt)]
        constructor
        · intro hfalse
          cases hfalse
        · rintro ⟨source', hsome'⟩
          -- only this source has preferred the candidate that is given up
          split at hsome'
          · cases hsome'
            exact absurd rfl hindex
          · rename_i hne
            obtain ⟨c, hc, -⟩ := (h.preferred source' index hsome').candidate
            obtain ⟨c', hc', -⟩ := (h.preferred source index hsome).candidate
            exact absurd (hc.source_unique hc').1 hne
      · rw [List.getElem?_set_ne (Ne.symm hold), h.keep index]
        constructor
        · rintro ⟨source', hsome'⟩
          refine ⟨source', ?_⟩
          rw [if_neg, hsome']
          rintro rfl
          rw [hsome] at hsome'
          cases hsome'
          exact hold rfl
        · rintro ⟨source', hsome'⟩
          split at hsome'
          · cases hsome'
            exact absurd rfl hindex
          · exact ⟨source', hsome'⟩
  agree := h.agree_succ hcandidate (h.agrees_with hsome hchosen hmatch)

/-- A candidate that is no deeper leaves the preferred one. -/
theorem Preferring.pass (h : Preferring C candidates count preferredBySource keep)
    (hcandidate : CandidateOf C candidates count source candidate)
    (hsome : preferredBySource source = some preferred) (hchosen : candidates[preferred]? = some chosen)
    (hmatch : C.matchesSameSource chosen.item candidate.item = true) (hdepth : C.depth candidate ≤ C.depth chosen) :
    Preferring C candidates (count + 1) preferredBySource keep where
  length := h.length
  resolved := h.resolved_succ hcandidate.1 hcandidate.2
  preferred source' index hsome' := by
    have hpreferred := h.preferred source' index hsome'
    by_cases hsource : source' = source
    · subst hsource
      rw [hsome] at hsome'
      cases hsome'
      obtain ⟨chosen', hof, hmax⟩ := hpreferred.candidate
      have hget := hof.1
      rw [hchosen] at hget
      cases hget
      refine ⟨Nat.lt_succ_of_lt hpreferred.lt, chosen, hof, fun other candidate' hlt hother => ?_⟩
      rcases Nat.lt_succ_iff_lt_or_eq.1 hlt with hlt | rfl
      · exact hmax other candidate' hlt hother
      · obtain ⟨-, rfl⟩ := hother.source_unique hcandidate
        exact ⟨hdepth, fun hlt => absurd (Nat.lt_trans hlt hpreferred.lt) (Nat.lt_irrefl _)⟩
    · exact hpreferred.other hcandidate hsource
  absent source' hnone index candidate' hlt hother := by
    rcases Nat.lt_succ_iff_lt_or_eq.1 hlt with hlt | rfl
    · exact h.absent source' hnone index candidate' hlt hother
    · rw [(hother.source_unique hcandidate).1, hsome] at hnone
      cases hnone
  keep := h.keep
  agree := h.agree_succ hcandidate (h.agrees_with hsome hchosen hmatch)

end Step

/-- The first loop prefers the first of the deepest candidates of every source. -/
theorem preferLoop_ok {rest : List (CollectedCandidate T)} {count : Nat} {preferredBySource : SourcePath → Option Nat}
    {keep keep' : List Bool} (h : Preferring C candidates count preferredBySource keep)
    (hrest : candidates.drop count = rest) (hcount : count ≤ candidates.length)
    (hloop : preferLoop C candidates rest count preferredBySource keep = .ok keep') :
    ∃ preferredBySource', Preferring C candidates candidates.length preferredBySource' keep' := by
  induction rest generalizing count preferredBySource keep with
  | nil =>
    cases hloop
    have hlen : count = candidates.length := Nat.le_antisymm hcount (List.drop_eq_nil_iff.1 hrest)
    exact ⟨preferredBySource, hlen ▸ h⟩
  | cons candidate rest ih =>
    have hlt : count < candidates.length := by
      by_contra hge
      rw [List.drop_eq_nil_of_le (Nat.le_of_not_lt hge)] at hrest
      cases hrest
    rw [List.drop_eq_getElem_cons hlt] at hrest
    obtain ⟨hget, hrest⟩ := List.cons_eq_cons.1 hrest
    have hget : candidates[count]? = some candidate := by rw [List.getElem?_eq_getElem hlt, hget]
    rw [preferLoop] at hloop
    obtain ⟨sourcePath, hpath, hloop⟩ := bind_eq_ok.1 hloop
    dsimp only at hloop
    have hcandidate : CandidateOf C candidates count sourcePath candidate := ⟨hget, hpath⟩
    split at hloop
    · rename_i preferred hsome
      split at hloop
      · cases hloop
      rename_i chosen hchosen
      split at hloop
      · cases hloop
      rename_i hmatch
      have hmatch : C.matchesSameSource chosen.item candidate.item = true := by simpa using hmatch
      split at hloop
      · rename_i hdeeper
        exact ih (h.replace hcandidate hsome hchosen hmatch hdeeper) hrest hlt hloop
      · rename_i hdepth
        exact ih (h.pass hcandidate hsome hchosen hmatch (Nat.le_of_not_lt hdepth)) hrest hlt hloop
    · rename_i hnone
      exact ih (h.insert hcandidate hnone) hrest hlt hloop

/-! ## Directories on the way -/

/-- A name above a name: not empty, and with a slash after it a prefix. -/
def Ancestor (above name : String) : Prop := above ≠ "" ∧ above.toList ++ ['/'] <+: name.toList

theorem mem_ancestorsFrom {fuel : Nat} {name parent : List Char} (hfuel : name.length ≤ fuel) :
    parent ∈ ancestorsFrom fuel name ↔ parent ≠ [] ∧ parent ++ ['/'] <+: name := by
  induction fuel generalizing name with
  | zero =>
    obtain rfl := List.length_eq_zero_iff.1 (Nat.le_zero.1 hfuel)
    simp [ancestorsFrom]
  | succ fuel ih =>
    rw [ancestorsFrom]
    split
    · rename_i hnone
      constructor
      · intro h
        cases h
      · rintro ⟨-, hfront⟩
        exact absurd (hfront.subset (by simp)) (rsplitOnce_eq_none hnone)
    · rename_i last after hsome
      obtain ⟨rfl, hafter⟩ := rsplitOnce_eq_some hsome
      have hlast : ∀ {front : List Char}, front ++ ['/'] <+: last ++ '/' :: after ↔
          front = last ∨ front ++ ['/'] <+: last := by
        intro front
        have hassoc : last ++ '/' :: after = last ++ ['/'] ++ after := by simp
        constructor
        · intro h
          rw [hassoc] at h
          rcases List.prefix_concat_iff.1 (prefix_of_separator hafter h) with heq | hbefore
          · exact .inl (List.append_inj_left' heq rfl)
          · exact .inr hbefore
        · rintro (rfl | h)
          · rw [hassoc]
            exact List.prefix_append _ _
          · exact h.trans (List.prefix_append _ _)
      split
      · rename_i hempty
        subst hempty
        constructor
        · intro h
          cases h
        · rintro ⟨hne, hfront⟩
          rcases hlast.1 hfront with rfl | hbefore
          · exact absurd rfl hne
          · have := List.prefix_nil.1 hbefore
            simp at this
      · rename_i hne
        have hshort : last.length ≤ fuel := by
          rw [List.length_append, List.length_cons] at hfuel
          omega
        rw [List.mem_cons, ih hshort, hlast]
        constructor
        · rintro (rfl | ⟨hparent, hfront⟩)
          · exact ⟨hne, .inl rfl⟩
          · exact ⟨hparent, .inr hfront⟩
        · rintro ⟨hparent, rfl | hfront⟩
          · exact .inl rfl
          · exact .inr ⟨hparent, hfront⟩

theorem mem_ancestors {name parent : String} : parent ∈ ancestors name ↔ Ancestor parent name := by
  unfold ancestors Ancestor
  rw [List.mem_map]
  constructor
  · rintro ⟨front, hfront, rfl⟩
    obtain ⟨hne, hfront⟩ := (mem_ancestorsFrom (Nat.le_refl _)).1 hfront
    rw [String.toList_ofList]
    refine ⟨fun hempty => hne ?_, hfront⟩
    rw [← String.toList_ofList (l := front), hempty]
    rfl
  · rintro ⟨hne, hfront⟩
    refine ⟨parent.toList, (mem_ancestorsFrom (Nat.le_refl _)).2 ⟨fun hempty => hne ?_, hfront⟩, String.ofList_toList⟩
    exact String.toList_inj.1 (hempty.trans rfl)

theorem Ancestor.trans {above middle name : String} (h : Ancestor above middle) (h' : Ancestor middle name) :
    Ancestor above name :=
  ⟨h.1, (h.2.trans (List.prefix_append _ _)).trans h'.2⟩

variable (C) in
/-- A directory candidate with a root and a name. -/
def DirectoryAt (candidates : List (CollectedCandidate T)) (index root : Nat) (name : String) : Prop :=
  ∃ candidate, candidates[index]? = some candidate ∧ C.isDirectory candidate = true ∧ candidate.rootIndex = root ∧
    (C.name candidate).display = name

variable (C) in
/-- What the map of directories holds after the first `count` candidates. -/
structure Registered (candidates : List (CollectedCandidate T)) (count : Nat) (directories : Nat × String → Option Nat) :
    Prop where
  found : ∀ root name index, directories (root, name) = some index → index < count ∧
    DirectoryAt C candidates index root name ∧ ∀ other < index, ¬ DirectoryAt C candidates other root name
  absent : ∀ root name, directories (root, name) = none → ∀ index < count, ¬ DirectoryAt C candidates index root name

theorem directoriesFrom_registered {rest : List (CollectedCandidate T)} {count : Nat}
    {directories : Nat × String → Option Nat} (h : Registered C candidates count directories)
    (hrest : candidates.drop count = rest) (hcount : count ≤ candidates.length) :
    Registered C candidates candidates.length (directoriesFrom C rest count directories) := by
  induction rest generalizing count directories with
  | nil =>
    have hlen : count = candidates.length := Nat.le_antisymm hcount (List.drop_eq_nil_iff.1 hrest)
    exact hlen ▸ h
  | cons candidate rest ih =>
    have hlt : count < candidates.length := by
      by_contra hge
      rw [List.drop_eq_nil_of_le (Nat.le_of_not_lt hge)] at hrest
      cases hrest
    rw [List.drop_eq_getElem_cons hlt] at hrest
    obtain ⟨hget, hrest⟩ := List.cons_eq_cons.1 hrest
    have hget : candidates[count]? = some candidate := by rw [List.getElem?_eq_getElem hlt, hget]
    rw [directoriesFrom]
    refine ih ⟨fun root name index hsome => ?_, fun root name hnone index hindex hdir => ?_⟩ hrest hlt
    · split at hsome
      · rename_i hnew
        obtain ⟨hdir, hkey, hnone⟩ := hnew
        cases hsome
        cases hkey
        exact ⟨Nat.lt_succ_self _, ⟨candidate, hget, hdir, rfl, rfl⟩, fun other hother => h.absent _ _ hnone other hother⟩
      · obtain ⟨hindex, hfound⟩ := h.found root name index hsome
        exact ⟨Nat.lt_succ_of_lt hindex, hfound⟩
    · split at hnone
      · cases hnone
      · rename_i hnot
        rcases Nat.lt_succ_iff_lt_or_eq.1 hindex with hindex | rfl
        · exact h.absent root name hnone index hindex hdir
        · obtain ⟨candidate', hget', hdir, rfl, rfl⟩ := hdir
          rw [hget] at hget'
          cases hget'
          exact hnot ⟨hdir, rfl, hnone⟩

section Keeping

variable {directories : Nat × String → Option Nat}

theorem keepAncestors_spec {root : Nat} {parents : List String} {keep : List Bool} :
    (keepAncestors directories root parents keep).length = keep.length ∧
      ∀ index, (keepAncestors directories root parents keep)[index]? = some true ↔ keep[index]? = some true ∨
        (index < keep.length ∧ ∃ parent ∈ parents, directories (root, parent) = some index) := by
  induction parents generalizing keep with
  | nil => exact ⟨rfl, fun index => by simp [keepAncestors]⟩
  | cons parent parents ih =>
    rw [keepAncestors]
    split
    · rename_i directory hsome
      obtain ⟨hlen, hkeep⟩ := @ih (keep.set directory true)
      rw [List.length_set] at hlen hkeep
      refine ⟨hlen, fun index => ?_⟩
      rw [hkeep]
      by_cases hindex : index = directory
      · subst hindex
        constructor
        · rintro (h | ⟨hlt, other, hother, h⟩)
          · refine .inr ⟨?_, parent, List.mem_cons_self, hsome⟩
            have := (List.getElem?_eq_some_iff.1 h).1
            rwa [List.length_set] at this
          · exact .inr ⟨hlt, other, List.mem_cons_of_mem _ hother, h⟩
        · rintro (h | ⟨hlt, -⟩)
          · exact .inl (List.getElem?_set_self (List.getElem?_eq_some_iff.1 h).1)
          · exact .inl (List.getElem?_set_self hlt)
      · rw [List.getElem?_set_ne (Ne.symm hindex)]
        refine or_congr_right (and_congr_right fun _ => ?_)
        constructor
        · rintro ⟨other, hother, h⟩
          exact ⟨other, List.mem_cons_of_mem _ hother, h⟩
        · rintro ⟨other, hother, h⟩
          rcases List.mem_cons.1 hother with rfl | hother
          · rw [hsome] at h
            cases h
            exact absurd rfl hindex
          · exact ⟨other, hother, h⟩
    · rename_i hnone
      obtain ⟨hlen, hkeep⟩ := @ih keep
      refine ⟨hlen, fun index => ?_⟩
      rw [hkeep]
      refine or_congr_right (and_congr_right fun _ => ?_)
      constructor
      · rintro ⟨other, hother, h⟩
        exact ⟨other, List.mem_cons_of_mem _ hother, h⟩
      · rintro ⟨other, hother, h⟩
        rcases List.mem_cons.1 hother with rfl | hother
        · rw [hnone] at h
          cases h
        · exact ⟨other, hother, h⟩

variable (C) in
/-- A directory that a preferred candidate from an index on lies in. -/
def OnTheWay (candidates : List (CollectedCandidate T)) (directories : Nat × String → Option Nat) (preferred : List Bool)
    (count index : Nat) : Prop :=
  ∃ below candidate parent, count ≤ below ∧ candidates[below]? = some candidate ∧ preferred[below]? = some true ∧
    Ancestor parent (C.name candidate).display ∧ directories (candidate.rootIndex, parent) = some index

theorem ancestorLoop_spec {preferred : List Bool} {rest : List (CollectedCandidate T)} {count : Nat} {keep : List Bool}
    (hrest : candidates.drop count = rest) :
    (ancestorLoop C directories preferred rest count keep).length = keep.length ∧
      ∀ index, (ancestorLoop C directories preferred rest count keep)[index]? = some true ↔ keep[index]? = some true ∨
        (index < keep.length ∧ OnTheWay C candidates directories preferred count index) := by
  induction rest generalizing count keep with
  | nil =>
    refine ⟨rfl, fun index => ⟨.inl, ?_⟩⟩
    rintro (h | ⟨-, below, candidate, parent, hle, hget, -⟩)
    · exact h
    · have hlen := List.drop_eq_nil_iff.1 hrest
      have hlt := (List.getElem?_eq_some_iff.1 hget).1
      omega
  | cons candidate rest ih =>
    have hlt : count < candidates.length := by
      by_contra hge
      rw [List.drop_eq_nil_of_le (Nat.le_of_not_lt hge)] at hrest
      cases hrest
    rw [List.drop_eq_getElem_cons hlt] at hrest
    obtain ⟨hget, hrest⟩ := List.cons_eq_cons.1 hrest
    have hget : candidates[count]? = some candidate := by rw [List.getElem?_eq_getElem hlt, hget]
    -- what is on the way of this candidate, or of a later one
    have hstep : ∀ index, OnTheWay C candidates directories preferred count index ↔
        (preferred[count]? = some true ∧ ∃ parent ∈ ancestors (C.name candidate).display,
          directories (candidate.rootIndex, parent) = some index) ∨
          OnTheWay C candidates directories preferred (count + 1) index := by
      intro index
      constructor
      · rintro ⟨below, candidate', parent, hle, hget', hpreferred, hparent, hdir⟩
        rcases Nat.eq_or_lt_of_le hle with rfl | hlater
        · rw [hget] at hget'
          cases hget'
          exact .inl ⟨hpreferred, parent, mem_ancestors.2 hparent, hdir⟩
        · exact .inr ⟨below, candidate', parent, hlater, hget', hpreferred, hparent, hdir⟩
      · rintro (⟨hpreferred, parent, hparent, hdir⟩ | ⟨below, candidate', parent, hle, hget', hrest'⟩)
        · exact ⟨count, candidate, parent, Nat.le_refl _, hget, hpreferred, mem_ancestors.1 hparent, hdir⟩
        · exact ⟨below, candidate', parent, Nat.le_of_succ_le hle, hget', hrest'⟩
    rw [ancestorLoop]
    split
    · rename_i hpreferred
      obtain ⟨hlen, hkeep⟩ := @ih (count + 1)
        (keepAncestors directories candidate.rootIndex (ancestors (C.name candidate).display) keep) hrest
      obtain ⟨hlen', hkeep'⟩ := @keepAncestors_spec directories candidate.rootIndex
        (ancestors (C.name candidate).display) keep
      rw [hlen'] at hlen hkeep
      refine ⟨hlen, fun index => ?_⟩
      rw [hkeep, hkeep', hstep, or_assoc, ← and_or_left]
      refine or_congr_right (and_congr_right fun _ => or_congr_left ?_)
      exact ⟨fun h => ⟨hpreferred, h⟩, fun h => h.2⟩
    · rename_i hpreferred
      obtain ⟨hlen, hkeep⟩ := @ih (count + 1) keep hrest
      refine ⟨hlen, fun index => ?_⟩
      rw [hkeep, hstep]
      refine or_congr_right (and_congr_right fun _ => ?_)
      exact ⟨.inr, fun h => h.resolve_left fun h => hpreferred h.1⟩

end Keeping

/-! ## The merged items -/

theorem keptItems_sublist (candidates : List (CollectedCandidate T)) (keep : List Bool) :
    (keptItems candidates keep).Sublist (candidates.map CollectedCandidate.item) := by
  induction candidates generalizing keep with
  | nil => exact List.nil_sublist _
  | cons candidate candidates ih =>
    cases keep with
    | nil => exact List.nil_sublist _
    | cons kept keep =>
      unfold keptItems
      rw [List.zip_cons_cons, List.filterMap_cons, List.map_cons]
      cases kept with
      | false => exact (ih keep).cons _
      | true => exact (ih keep).cons_cons _

variable (C) in
/-- What is kept of the candidates: by index, so that equal candidates are told apart. -/
structure Merged (candidates : List (CollectedCandidate T)) (keep : List Bool) : Prop where
  length : keep.length = candidates.length
  resolved : ∀ (index : Nat) candidate, candidates[index]? = some candidate →
    ∃ source, CandidateOf C candidates index source candidate
  agree : ∀ source index other candidate candidate', CandidateOf C candidates index source candidate →
    CandidateOf C candidates other source candidate' → C.matchesSameSource candidate.item candidate'.item = true
  once : ∀ source index candidate, CandidateOf C candidates index source candidate → C.isDirectory candidate = false →
    ∃ kept, Preferred C candidates candidates.length source kept ∧ ∀ (other : Nat) candidate',
      CandidateOf C candidates other source candidate' → (keep[other]? = some true ↔ other = kept)
  atLeastOnce : ∀ source index candidate, CandidateOf C candidates index source candidate →
    ∃ (kept : Nat) (candidate' : CollectedCandidate T), keep[kept]? = some true ∧
      CandidateOf C candidates kept source candidate'
  ancestors : ∀ (index : Nat) candidate, keep[index]? = some true → candidates[index]? = some candidate →
    ∀ (above : Nat) name, DirectoryAt C candidates above candidate.rootIndex name →
      Ancestor name (C.name candidate).display →
        ∃ kept ≤ above, keep[kept]? = some true ∧ DirectoryAt C candidates kept candidate.rootIndex name

theorem isDirectory_eq {source : SourcePath} {index other : Nat} {candidate candidate' : CollectedCandidate T}
    {count : Nat} {preferredBySource : SourcePath → Option Nat} {keep : List Bool}
    (h : Preferring C candidates count preferredBySource keep) (hindex : index < count) (hother : other < count)
    (hcandidate : CandidateOf C candidates index source candidate)
    (hcandidate' : CandidateOf C candidates other source candidate') :
    C.isDirectory candidate = C.isDirectory candidate' := by
  have hsame := C.entryType (h.agree source index other candidate candidate' hindex hother hcandidate hcandidate')
  unfold CollectedInput.isDirectory
  rw [hsame]

/-- Merging succeeds only if all candidates of one source agree. It keeps each source that is no directory once, as the
first of its deepest candidates, each directory at least once, and of the directories with a name above a kept one the
first of that root. -/
theorem deduplicateCollectedInputs_merged {items : List T} (h : deduplicateCollectedInputs C candidates = .ok items) :
    ∃ keep, Merged C candidates keep ∧ items = keptItems candidates keep ∧
      items.Sublist (candidates.map CollectedCandidate.item) := by
  obtain ⟨preferred, hpreferred, h⟩ := bind_eq_ok.1 h
  cases h
  obtain ⟨bySource, hpreferring⟩ := preferLoop_ok preferring_zero rfl (Nat.zero_le _) hpreferred
  have hempty : Registered C candidates 0 fun _ => none := by
    constructor
    · intro root name index h
      cases h
    · intro root name _ index hlt
      exact absurd hlt (Nat.not_lt_zero _)
  have hregistered : Registered C candidates candidates.length (directoriesFrom C candidates 0 fun _ => none) :=
    directoriesFrom_registered hempty rfl (Nat.zero_le _)
  generalize directoriesFrom C candidates 0 (fun _ => none) = directories at hregistered
  obtain ⟨hlen, hkeep⟩ := @ancestorLoop_spec T C candidates directories preferred candidates 0 preferred rfl
  have hlt : ∀ {index : Nat} {candidate : CollectedCandidate T}, candidates[index]? = some candidate →
      index < candidates.length := fun hget => (List.getElem?_eq_some_iff.1 hget).1
  have hchosen : ∀ {source index candidate}, CandidateOf C candidates index source candidate →
      ∃ chosen, bySource source = some chosen ∧ Preferred C candidates candidates.length source chosen := by
    intro source index candidate hcandidate
    cases hsome : bySource source with
    | none => exact absurd hcandidate (hpreferring.absent source hsome index candidate (hlt hcandidate.1))
    | some chosen => exact ⟨chosen, rfl, hpreferring.preferred source chosen hsome⟩
  refine ⟨_, ⟨hlen.trans hpreferring.length, ?_, ?_, ?_, ?_, ?_⟩, rfl, keptItems_sublist _ _⟩
  · intro index candidate hget
    obtain ⟨source, hpath⟩ := hpreferring.resolved index candidate (hlt hget) hget
    exact ⟨source, hget, hpath⟩
  · intro source index other candidate candidate' hcandidate hcandidate'
    exact hpreferring.agree source index other candidate candidate' (hlt hcandidate.1) (hlt hcandidate'.1) hcandidate
      hcandidate'
  · intro source index candidate hcandidate hfile
    obtain ⟨chosen, hsome, hfirst⟩ := hchosen hcandidate
    refine ⟨chosen, hfirst, fun other candidate' hcandidate' => ?_⟩
    rw [hkeep, hpreferring.keep]
    constructor
    · rintro (⟨source', hsome'⟩ | ⟨-, below, candidate'', parent, -, -, -, -, hdir⟩)
      · obtain ⟨c, hc, -⟩ := (hpreferring.preferred source' other hsome').candidate
        rw [(hc.source_unique hcandidate').1, hsome] at hsome'
        cases hsome'
        rfl
      · -- only directories are added, and this source is none
        obtain ⟨-, ⟨c, hget, hisDir, -⟩, -⟩ := hregistered.found _ _ _ hdir
        rw [hcandidate'.1] at hget
        cases hget
        rw [isDirectory_eq hpreferring (hlt hcandidate'.1) (hlt hcandidate.1) hcandidate' hcandidate, hfile] at hisDir
        cases hisDir
    · rintro rfl
      exact .inl ⟨source, hsome⟩
  · intro source index candidate hcandidate
    obtain ⟨chosen, hsome, hfirst⟩ := hchosen hcandidate
    obtain ⟨c, hc, -⟩ := hfirst.candidate
    exact ⟨chosen, c, (hkeep chosen).2 (.inl ((hpreferring.keep chosen).2 ⟨source, hsome⟩)), hc⟩
  · intro index candidate hkept hget above name hdirectory habove
    -- a directory that was added has its own ancestors on the way of the same candidate
    have hway : ∃ (below : Nat) (candidate' : CollectedCandidate T), candidates[below]? = some candidate' ∧ preferred[below]? = some true ∧
        candidate'.rootIndex = candidate.rootIndex ∧ Ancestor name (C.name candidate').display := by
      rcases (hkeep index).1 hkept with hpreferred | ⟨-, below, candidate', parent, -, hget', hpreferred, hparent, hdir⟩
      · exact ⟨index, candidate, hget, hpreferred, rfl, habove⟩
      · obtain ⟨-, ⟨c, hgetc, -, hroot, hname⟩, -⟩ := hregistered.found _ _ _ hdir
        rw [hget] at hgetc
        cases hgetc
        exact ⟨below, candidate', hget', hpreferred, hroot.symm, habove.trans (hname ▸ hparent)⟩
    obtain ⟨below, candidate', hget', hpreferred', hroot, hname⟩ := hway
    cases hsome : directories (candidate.rootIndex, name) with
    | none =>
      obtain ⟨c, hgetc, -⟩ := id hdirectory
      exact absurd hdirectory (hregistered.absent _ _ hsome above (hlt hgetc))
    | some kept =>
      obtain ⟨hkeptLt, hkeptDir, hfirst⟩ := hregistered.found _ _ _ hsome
      refine ⟨kept, ?_, ?_, hkeptDir⟩
      · by_contra hgt
        exact hfirst above (Nat.lt_of_not_le hgt) hdirectory
      · rw [← hroot] at hsome
        refine (hkeep kept).2 (.inr ⟨?_, below, candidate', name, Nat.zero_le _, hget', hpreferred', hname, hsome⟩)
        rw [hpreferring.length]
        exact hkeptLt

end Merge

/-! ## Two directories of one name -/

/-- A prepared directory or file with nothing but its place. -/
def samplePrepared (name : String) (sourcePath : SourcePath) (entry : UInt64) (directory : Bool) : PreparedInputItem where
  item := ⟨sourcePath, .fromUtf8 name, if directory then .dir else .file, 0, none, none, none⟩
  sourcePath := sourcePath
  source := if directory then .directory ⟨1, entry⟩ else .file ⟨1, entry⟩ ⟨0, none, (0, 0)⟩

/-- The directory that a file lies in, and the file: names that are no text are shown with a replacement character. -/
def lossyDirectory : CollectedCandidate PreparedInputItem :=
  ⟨samplePrepared "r/x\uFFFD" [[116], [114], [120, 0xFF]] 4 true, 0⟩

def lossyFile : CollectedCandidate PreparedInputItem :=
  ⟨samplePrepared "r/x\uFFFD/f" [[116], [114], [120, 0xFF], [102]] 5 false, 0⟩

/-- The roots `t/r` and `t`, where the directory `r` holds two directories whose names are shown alike; the file is
excluded below the second root. -/
def lossyCandidates : List (CollectedCandidate PreparedInputItem) :=
  [⟨samplePrepared "r" [[116], [114]] 2 true, 0⟩,
    ⟨samplePrepared "r/x\uFFFD" [[116], [114], [120, 0xFE]] 3 true, 0⟩, lossyDirectory, lossyFile,
    ⟨samplePrepared "t" [[116]] 1 true, 1⟩, ⟨samplePrepared "t/r" [[116], [114]] 2 true, 1⟩,
    ⟨samplePrepared "t/r/x\uFFFD" [[116], [114], [120, 0xFE]] 3 true, 1⟩,
    ⟨samplePrepared "t/r/x\uFFFD" [[116], [114], [120, 0xFF]] 4 true, 1⟩]

theorem deduplicateCollectedInputs_merged_sample :
    ∃ keep, Merged preparedInputItems lossyCandidates keep ∧
      keptItems lossyCandidates [true, true, false, true, true, true, true, true] = keptItems lossyCandidates keep :=
  have h : deduplicateCollectedInputs preparedInputItems lossyCandidates =
      .ok (keptItems lossyCandidates [true, true, false, true, true, true, true, true]) := by decide +kernel
  have ⟨keep, hmerged, hitems, _⟩ := deduplicateCollectedInputs_merged h
  ⟨keep, hmerged, hitems⟩

/-- The file is kept, but not the directory of its root that it lies in. -/
theorem lossy_directory_dropped :
    ∃ items, deduplicateCollectedInputs preparedInputItems lossyCandidates = .ok items ∧
      lossyFile ∈ lossyCandidates ∧ lossyFile.item ∈ items ∧ lossyDirectory ∈ lossyCandidates ∧
      preparedInputItems.isDirectory lossyDirectory = true ∧ lossyDirectory.rootIndex = lossyFile.rootIndex ∧
      Ancestor (preparedInputItems.name lossyDirectory).display (preparedInputItems.name lossyFile).display ∧
      lossyDirectory.item ∉ items :=
  ⟨keptItems lossyCandidates [true, true, false, true, true, true, true, true], by decide +kernel, by decide,
    by decide +kernel, by decide, by decide, rfl, ⟨by decide, ['f'], by decide⟩, by decide +kernel⟩

end Squallz.Inputs
