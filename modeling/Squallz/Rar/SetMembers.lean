/-
The members of a RAR set, apart from the order in which the directory lists them: which names a scheme takes, and in what
paddings all of them are spelt.
-/
import Squallz.Rar.Discovery

namespace Squallz.Rar

open Squallz.Api Squallz.Destination Squallz.Text

/-! ## What a scheme makes of a name -/

namespace VolumeScheme

/-- The scheme apart from its paddings. -/
def key : VolumeScheme → VolumeScheme
  | .modern scheme => .modern { scheme with paddingCandidates := [] }
  | .legacy scheme => .legacy scheme

/-- The paddings that are left; legacy names have one spelling only. -/
def paddings : VolumeScheme → List ModernPadding
  | .modern scheme => scheme.paddingCandidates
  | .legacy _ => [.unpadded]

/-- The index of a name that belongs to the set. -/
def indexOf : VolumeScheme → List UInt8 → Option Nat
  | .modern scheme, fileName =>
    ((parseModernName fileName).filter fun name => name.base = scheme.base ∧ name.partPrefix = scheme.partPrefix ∧
      name.rarExtension = scheme.rarExtension).map (·.index)
  | .legacy scheme, fileName =>
    ((parseLegacyName fileName).filter fun name => name.base = scheme.base ∧
      if name.index = 0 then name.rarExtension = scheme.rarExtension else name.rPrefix = scheme.rPrefix).map (·.index)

/-- A name that is passed over. -/
def Stranger : VolumeScheme → List UInt8 → Prop
  | .modern scheme, fileName => ∀ shape, parseModernNameShape fileName = some shape → shape.base ≠ scheme.base
  | .legacy scheme, fileName => ∀ name, parseLegacyName fileName = some name → name.base ≠ scheme.base

/-- The number of a name is spelt in a padding. -/
def Spelt : VolumeScheme → List UInt8 → ModernPadding → Prop
  | .modern _, fileName, padding =>
    ∀ name, parseModernName fileName = some name → formatVolumeNumber (name.index + 1) padding = name.digits
  | .legacy _, _, _ => True

@[simp] theorem key_indexOf (scheme : VolumeScheme) : scheme.key.indexOf = scheme.indexOf := by cases scheme <;> rfl

@[simp] theorem key_stranger (scheme : VolumeScheme) : scheme.key.Stranger = scheme.Stranger := by cases scheme <;> rfl

@[simp] theorem key_spelt (scheme : VolumeScheme) : scheme.key.Spelt = scheme.Spelt := by cases scheme <;> rfl

theorem parseModernName_eq_some {fileName : List UInt8} {name : ModernName} : parseModernName fileName = some name ↔
    ∃ shape, parseModernNameShape fileName = some shape ∧ checkedModernName shape = .ok name := by
  rw [parseModernName, Option.bind_eq_some_iff]
  refine exists_congr fun shape => and_congr_right fun _ => ?_
  cases checkedModernName shape with
  | error fault => simp [Except.toOption]
  | ok found => simp [Except.toOption]

theorem Stranger.indexOf_eq_none {scheme : VolumeScheme} {fileName : List UInt8} (h : scheme.Stranger fileName) :
    scheme.indexOf fileName = none := by
  cases scheme with
  | modern scheme =>
    simp only [indexOf, Option.map_eq_none_iff, Option.filter_eq_none_iff, decide_eq_true_eq]
    rintro name hname ⟨hbase, -⟩
    obtain ⟨shape, hshape, hchecked⟩ := parseModernName_eq_some.1 hname
    have heq := (checkedModernName_eq_ok (digits_of_shape hshape).2 hchecked).1
    exact h shape hshape (by rw [← heq]; exact hbase)
  | legacy scheme =>
    simp only [indexOf, Option.map_eq_none_iff, Option.filter_eq_none_iff, decide_eq_true_eq]
    rintro name hname ⟨hbase, -⟩
    exact h name hname hbase

end VolumeScheme

open VolumeScheme

section Scheme

variable {scheme scheme' : VolumeScheme} {fileName : List UInt8} {index : Nat}

theorem resolveCandidatePadding_eq {modern : ModernScheme} {digits : List Char} (hindex : index < maxRarVolumeCount) :
    modern.resolveCandidatePadding digits index =
      if modern.paddingCandidates.filter (fun padding => formatVolumeNumber (index + 1) padding = digits) = [] then
        corrupt "RAR volume set mixes numbering widths"
      else .ok { modern with paddingCandidates :=
        modern.paddingCandidates.filter fun padding => formatVolumeNumber (index + 1) padding = digits } := by
  have hmax : maxRarVolumeCount = 1000000 := rfl
  rw [ModernScheme.resolveCandidatePadding, checkedAddU64_eq (by omega)]

/-- What follows from a name that is taken: its index, and the paddings in which it is spelt. -/
structure Narrowed (scheme : VolumeScheme) (fileName : List UInt8) (index : Nat) (scheme' : VolumeScheme) : Prop where
  index : scheme.indexOf fileName = some index
  key : scheme'.key = scheme.key
  sublist : scheme'.paddings.Sublist scheme.paddings
  paddings : ∀ padding, padding ∈ scheme'.paddings ↔ padding ∈ scheme.paddings ∧ scheme.Spelt fileName padding

theorem memberIndex_eq_ok {place : Option (Nat × VolumeScheme)} (h : scheme.memberIndex fileName = .ok place) :
    (place = none ∧ scheme.Stranger fileName) ∨
      ∃ index scheme', place = some (index, scheme') ∧ Narrowed scheme fileName index scheme' := by
  cases scheme with
  | modern modern =>
    simp only [memberIndex] at h
    cases hshape : parseModernNameShape fileName with
    | none =>
      rw [hshape] at h
      cases h
      exact .inl ⟨rfl, fun shape hsome => by rw [hshape] at hsome; cases hsome⟩
    | some shape =>
      rw [hshape] at h
      dsimp only at h
      split at h
      · rename_i hbase
        cases h
        refine .inl ⟨rfl, fun found hsome => ?_⟩
        rw [hshape] at hsome
        cases hsome
        exact hbase
      · rename_i hbase
        obtain ⟨name, hname, h⟩ := bind_eq_ok.1 h
        obtain ⟨heq, hlt, -⟩ := checkedModernName_eq_ok (digits_of_shape hshape).2 hname
        have hparse : parseModernName fileName = some name := parseModernName_eq_some.2 ⟨shape, hshape, hname⟩
        split at h
        · cases h
        · rename_i hcasing
          rw [not_or, not_not, not_not] at hcasing
          rw [resolveCandidatePadding_eq hlt] at h
          split at h
          · cases h
          · cases h
            refine .inr ⟨_, _, rfl, ?_, rfl, List.filter_sublist, fun padding => ?_⟩
            · simp only [indexOf, hparse, Option.map_eq_some_iff, Option.filter_eq_some_iff, decide_eq_true_eq]
              exact ⟨name, ⟨rfl, by rw [heq]; exact not_not.1 hbase, hcasing.1, hcasing.2⟩, rfl⟩
            · simp only [paddings, Spelt, hparse, Option.some.injEq, List.mem_filter, decide_eq_true_eq]
              exact and_congr_right fun _ => ⟨fun hformat found hfound => hfound ▸ hformat, fun hall => hall name rfl⟩
  | legacy legacy =>
    simp only [memberIndex] at h
    cases hparse : parseLegacyName fileName with
    | none =>
      rw [hparse] at h
      cases h
      exact .inl ⟨rfl, fun name hsome => by rw [hparse] at hsome; cases hsome⟩
    | some name =>
      rw [hparse] at h
      dsimp only at h
      split at h
      · rename_i hbase
        cases h
        refine .inl ⟨rfl, fun found hsome => ?_⟩
        rw [hparse] at hsome
        cases hsome
        exact hbase
      · rename_i hbase
        cases hcasing : if name.index = 0 then decide (name.rarExtension = legacy.rarExtension)
            else decide (name.rPrefix = legacy.rPrefix) with
        | false =>
          rw [hcasing] at h
          cases h
        | true =>
          rw [hcasing] at h
          cases h
          refine .inr ⟨_, _, rfl, ?_, rfl, List.Sublist.refl _, fun padding => (iff_of_eq (and_true _)).symm⟩
          simp only [indexOf, hparse, Option.map_eq_some_iff, Option.filter_eq_some_iff, decide_eq_true_eq]
          refine ⟨name, ⟨rfl, not_not.1 hbase, ?_⟩, rfl⟩
          by_cases hzero : name.index = 0
          · simpa [hzero] using hcasing
          · simpa [hzero] using hcasing

theorem memberIndex_of_stranger (h : scheme.Stranger fileName) : scheme.memberIndex fileName = .ok none := by
  cases scheme with
  | modern modern =>
    simp only [memberIndex]
    split
    · rfl
    · rename_i shape hshape
      rw [if_pos (h shape hshape)]
  | legacy legacy =>
    simp only [memberIndex]
    split
    · rfl
    · rename_i name hname
      rw [if_pos (h name hname)]

theorem memberIndex_of_indexOf (hindex : scheme.indexOf fileName = some index) {padding : ModernPadding}
    (hpadding : padding ∈ scheme.paddings) (hspelt : scheme.Spelt fileName padding) :
    ∃ scheme', scheme.memberIndex fileName = .ok (some (index, scheme')) := by
  cases scheme with
  | modern modern =>
    simp only [indexOf, Option.map_eq_some_iff, Option.filter_eq_some_iff, decide_eq_true_eq] at hindex
    obtain ⟨name, ⟨hparse, hbase, hletters, hext⟩, rfl⟩ := hindex
    obtain ⟨shape, hshape, hname⟩ := parseModernName_eq_some.1 hparse
    obtain ⟨heq, hlt, -⟩ := checkedModernName_eq_ok (digits_of_shape hshape).2 hname
    have hne : modern.paddingCandidates.filter (fun padding => formatVolumeNumber (name.index + 1) padding = name.digits) ≠ [] :=
      List.ne_nil_of_mem (List.mem_filter.2 ⟨hpadding, decide_eq_true (hspelt name hparse)⟩)
    simp only [memberIndex, hshape]
    rw [if_neg (by rw [← heq]; exact not_not.2 hbase), hname, ok_bind,
      if_neg (not_or.2 ⟨not_not.2 hletters, not_not.2 hext⟩), resolveCandidatePadding_eq hlt, if_neg hne]
    exact ⟨_, rfl⟩
  | legacy legacy =>
    simp only [indexOf, Option.map_eq_some_iff, Option.filter_eq_some_iff, decide_eq_true_eq] at hindex
    obtain ⟨name, ⟨hparse, hbase, hcasing⟩, rfl⟩ := hindex
    refine ⟨.legacy legacy, ?_⟩
    simp only [memberIndex, hparse]
    rw [if_neg (not_not.2 hbase), if_neg]
    by_cases hzero : name.index = 0
    · simpa [hzero] using hcasing
    · simpa [hzero] using hcasing

end Scheme

/-! ## The entries of a directory -/

/-- An entry that the set can be found beside: it is passed over, or it is a regular file with an index. -/
def VolumeScheme.Fits (scheme : VolumeScheme) (entry : DirEntry) : Prop :=
  scheme.Stranger entry.fileName ∨ ∃ index identity, scheme.indexOf entry.fileName = some index ∧
    index < maxRarVolumeCount ∧ entry.node = .regular identity

/-- The candidate that an entry is where it is not the selected file. -/
def VolumeScheme.candidateOf (scheme : VolumeScheme) (entry : DirEntry) : Option Candidate :=
  match scheme.indexOf entry.fileName, entry.node with
  | some index, .regular identity => some ⟨index, entry.fileName, false, identity⟩
  | _, _ => none

/-- The candidates in the order of their indices, with each index once. -/
structure Ordered (candidates : List Candidate) : Prop where
  sorted : candidates.Pairwise fun left right => left.index ≤ right.index
  distinct : (candidates.map Candidate.index).Nodup

theorem insertCandidate_perm (candidate : Candidate) (candidates : List Candidate) :
    (insertCandidate candidate candidates).Perm (candidate :: candidates) := List.perm_orderedInsert _ _ _

theorem Ordered.insert {candidates : List Candidate} (h : Ordered candidates) {candidate : Candidate}
    (hnew : candidate.index ∉ candidates.map Candidate.index) : Ordered (insertCandidate candidate candidates) := by
  have htotal : Std.Total fun left right : Candidate => left.index ≤ right.index := ⟨fun a b => Nat.le_total _ _⟩
  have htrans : IsTrans Candidate fun left right => left.index ≤ right.index := ⟨fun a b c => Nat.le_trans⟩
  refine ⟨h.sorted.orderedInsert candidate candidates, ?_⟩
  exact ((insertCandidate_perm candidate candidates).map Candidate.index).nodup_iff.2 (List.nodup_cons.2 ⟨hnew, h.distinct⟩)

/-- Numbers below a bound, each once, are no more than the bound. -/
theorem length_le_of_nodup {numbers : List Nat} {bound : Nat} (hnodup : numbers.Nodup)
    (hlt : ∀ number ∈ numbers, number < bound) : numbers.length ≤ bound := by
  have hsub := hnodup.subperm fun number hnumber => List.mem_range.2 (hlt number hnumber)
  simpa using hsub.length_le

/-- All members of a set among some entries are spelt in a padding. -/
def VolumeScheme.AllSpelt (scheme : VolumeScheme) (entries : List DirEntry) (padding : ModernPadding) : Prop :=
  ∀ entry ∈ entries, ∀ index, scheme.indexOf entry.fileName = some index → scheme.Spelt entry.fileName padding

section Key

variable {scheme scheme' : VolumeScheme}

theorem indexOf_of_key (h : scheme'.key = scheme.key) : scheme'.indexOf = scheme.indexOf := by
  rw [← key_indexOf, h, key_indexOf]

theorem fits_of_key (h : scheme'.key = scheme.key) : scheme'.Fits = scheme.Fits := by
  funext entry
  rw [Fits, Fits, indexOf_of_key h, ← key_stranger, h, key_stranger]

theorem candidateOf_of_key (h : scheme'.key = scheme.key) : scheme'.candidateOf = scheme.candidateOf := by
  funext entry
  rw [candidateOf, candidateOf, indexOf_of_key h]

theorem allSpelt_of_key (h : scheme'.key = scheme.key) : scheme'.AllSpelt = scheme.AllSpelt := by
  funext entries padding
  rw [AllSpelt, AllSpelt, indexOf_of_key h, ← key_spelt, h, key_spelt]

end Key

section Gather

variable {sourceName : List UInt8} {entries : List DirEntry} {candidates candidates' : List Candidate}
  {scheme scheme' : VolumeScheme}

theorem gatherCandidates_filter (entries : List DirEntry) (candidates : List Candidate) (scheme : VolumeScheme) :
    gatherCandidates sourceName entries candidates scheme =
      gatherCandidates sourceName (entries.filter (·.fileName ≠ sourceName)) candidates scheme := by
  induction entries generalizing candidates scheme with
  | nil => rfl
  | cons entry rest ih =>
    by_cases hsource : entry.fileName = sourceName
    · rw [List.filter_cons_of_neg (by simpa using hsource), gatherCandidates, if_pos hsource]
      exact ih candidates scheme
    · rw [List.filter_cons_of_pos (by simpa using hsource), gatherCandidates, gatherCandidates, if_neg hsource, if_neg hsource]
      simp only [ih]

theorem openRegularFileNoFollow_eq_ok {node : Node} {identity : PhysicalFileIdentity} :
    openRegularFileNoFollow node = .ok identity ↔ node = .regular identity := by
  cases node with
  | regular found => simp [openRegularFileNoFollow]
  | other => simp [openRegularFileNoFollow, corrupt, raise]

/-- What a loop that has come to its end has found: every entry fits, and in the end there are the candidates that the
entries are, and the paddings in which all of them are spelt. -/
structure Gathered (scheme : VolumeScheme) (entries : List DirEntry) (candidates candidates' : List Candidate)
    (scheme' : VolumeScheme) : Prop where
  fits : ∀ entry ∈ entries, scheme.Fits entry
  perm : candidates'.Perm (candidates ++ entries.filterMap scheme.candidateOf)
  ordered : Ordered candidates'
  key : scheme'.key = scheme.key
  sublist : scheme'.paddings.Sublist scheme.paddings
  paddings : ∀ padding, padding ∈ scheme'.paddings ↔ padding ∈ scheme.paddings ∧ scheme.AllSpelt entries padding

theorem gathered_of_gatherCandidates (hsource : ∀ entry ∈ entries, entry.fileName ≠ sourceName)
    (hordered : Ordered candidates)
    (h : gatherCandidates sourceName entries candidates scheme = .ok (candidates', scheme')) :
    Gathered scheme entries candidates candidates' scheme' := by
  induction entries generalizing candidates scheme with
  | nil =>
    cases h
    refine ⟨List.forall_mem_nil _, ?_, hordered, rfl, List.Sublist.refl _, fun padding => ?_⟩
    · rw [List.filterMap_nil, List.append_nil]
    · exact ⟨fun hmem => ⟨hmem, List.forall_mem_nil _⟩, And.left⟩
  | cons entry rest ih =>
    have hrest : ∀ entry ∈ rest, entry.fileName ≠ sourceName := fun e he => hsource e (List.mem_cons_of_mem entry he)
    rw [gatherCandidates, if_neg (hsource entry List.mem_cons_self)] at h
    obtain ⟨place, hplace, h⟩ := bind_eq_ok.1 h
    rcases memberIndex_eq_ok hplace with ⟨rfl, hstranger⟩ | ⟨index, narrowed, rfl, hnarrowed⟩
    · have hnone := hstranger.indexOf_eq_none
      obtain ⟨hfits, hperm, hordered', hkey, hsublist, hpaddings⟩ := ih hrest hordered h
      refine ⟨List.forall_mem_cons.2 ⟨.inl hstranger, hfits⟩, ?_, hordered', hkey, hsublist, fun padding => ?_⟩
      · rw [List.filterMap_cons_none (by rw [candidateOf, hnone])]
        exact hperm
      · rw [hpaddings, AllSpelt, AllSpelt, List.forall_mem_cons]
        refine and_congr_right fun _ => ⟨fun hall => ⟨fun index hindex => ?_, hall⟩, And.right⟩
        rw [hnone] at hindex
        cases hindex
    · dsimp only at h
      obtain ⟨⟨⟩, hlt, h⟩ := bind_eq_ok.1 h
      obtain ⟨identity, hnode, h⟩ := bind_eq_ok.1 h
      rw [openRegularFileNoFollow_eq_ok] at hnode
      rw [ensureVolumeIndex_eq_ok] at hlt
      split at h
      · cases h
      · rename_i hnew
        split at h
        · cases h
        · obtain ⟨hfits, hperm, hordered', hkey, hsublist, hpaddings⟩ := ih hrest (hordered.insert hnew) h
          have hcandidate : scheme.candidateOf entry = some ⟨index, entry.fileName, false, identity⟩ := by
            rw [candidateOf, hnarrowed.index, hnode]
          rw [fits_of_key hnarrowed.key] at hfits
          rw [candidateOf_of_key hnarrowed.key] at hperm
          refine ⟨List.forall_mem_cons.2 ⟨.inr ⟨index, identity, hnarrowed.index, hlt, hnode⟩, hfits⟩, ?_, hordered',
            hkey.trans hnarrowed.key, hsublist.trans hnarrowed.sublist, fun padding => ?_⟩
          · rw [List.filterMap_cons_some hcandidate]
            exact hperm.trans (((insertCandidate_perm _ _).append_right _).trans List.perm_middle.symm)
          · rw [hpaddings, hnarrowed.paddings, allSpelt_of_key hnarrowed.key, and_assoc]
            refine and_congr_right fun _ => ?_
            rw [AllSpelt, AllSpelt, List.forall_mem_cons]
            exact and_congr_left fun _ => ⟨fun hspelt _ _ => hspelt, fun hall => hall index hnarrowed.index⟩

/-- Where every entry fits, no index comes twice and some padding is left, the loop comes to its end. -/
theorem gatherCandidates_of_fits (hsource : ∀ entry ∈ entries, entry.fileName ≠ sourceName)
    (hordered : Ordered candidates) (hfits : ∀ entry ∈ entries, scheme.Fits entry)
    (hdistinct : ((candidates ++ entries.filterMap scheme.candidateOf).map Candidate.index).Nodup)
    (hlt : ∀ candidate ∈ candidates, candidate.index < maxRarVolumeCount) {padding : ModernPadding}
    (hpadding : padding ∈ scheme.paddings) (hspelt : scheme.AllSpelt entries padding) :
    ∃ candidates' scheme', gatherCandidates sourceName entries candidates scheme = .ok (candidates', scheme') := by
  induction entries generalizing candidates scheme with
  | nil => exact ⟨candidates, scheme, rfl⟩
  | cons entry rest ih =>
    have hrest : ∀ entry ∈ rest, entry.fileName ≠ sourceName := fun e he => hsource e (List.mem_cons_of_mem entry he)
    have hspeltRest : scheme.AllSpelt rest padding := fun e he => hspelt e (List.mem_cons_of_mem entry he)
    rw [gatherCandidates, if_neg (hsource entry List.mem_cons_self)]
    obtain ⟨hfit, hfitsRest⟩ := List.forall_mem_cons.1 hfits
    rcases hfit with hstranger | ⟨index, identity, hindex, hindexLt, hnode⟩
    · rw [memberIndex_of_stranger hstranger, ok_bind]
      rw [List.filterMap_cons_none (by rw [candidateOf, hstranger.indexOf_eq_none])] at hdistinct
      exact ih hrest hordered hfitsRest hdistinct hlt hpadding hspeltRest
    · have hentry := hspelt entry List.mem_cons_self index hindex
      have hcandidate : scheme.candidateOf entry = some ⟨index, entry.fileName, false, identity⟩ := by
        rw [candidateOf, hindex, hnode]
      obtain ⟨narrowed, hplace⟩ := memberIndex_of_indexOf hindex hpadding hentry
      rcases memberIndex_eq_ok hplace with ⟨hnone, -⟩ | ⟨_, _, hsome, hnarrowed⟩
      · cases hnone
      · cases hsome
        rw [List.filterMap_cons_some hcandidate] at hdistinct
        have hperm := (insertCandidate_perm ⟨index, entry.fileName, false, identity⟩ candidates)
        have hmiddle := (hperm.append_right (rest.filterMap scheme.candidateOf)).trans List.perm_middle.symm
        have hdistinct' := (hmiddle.map Candidate.index).nodup_iff.2 hdistinct
        have hordered' : Ordered (insertCandidate ⟨index, entry.fileName, false, identity⟩ candidates) := by
          refine hordered.insert fun hmem => ?_
          rw [List.map_append, List.map_cons, List.nodup_append] at hdistinct
          exact hdistinct.2.2 index hmem index List.mem_cons_self rfl
        have hlt' : ∀ candidate ∈ insertCandidate ⟨index, entry.fileName, false, identity⟩ candidates,
            candidate.index < maxRarVolumeCount := by
          intro candidate hmem
          rcases List.mem_cons.1 (hperm.mem_iff.1 hmem) with rfl | hmem
          · exact hindexLt
          · exact hlt candidate hmem
        have hlength := length_le_of_nodup hordered'.distinct fun number hnumber => by
          obtain ⟨candidate, hmem, rfl⟩ := List.mem_map.1 hnumber
          exact hlt' candidate hmem
        rw [hplace, ok_bind]
        dsimp only
        rw [ensureVolumeIndex_eq_ok.2 hindexLt, ok_bind, openRegularFileNoFollow_eq_ok.2 hnode, ok_bind, if_neg, if_neg]
        · refine ih hrest hordered' (fits_of_key hnarrowed.key ▸ hfitsRest)
            (candidateOf_of_key hnarrowed.key ▸ hdistinct') hlt' ((hnarrowed.paddings padding).2 ⟨hpadding, hentry⟩)
            (allSpelt_of_key hnarrowed.key ▸ hspeltRest)
        · rw [List.length_map] at hlength
          omega
        · intro hmem
          rw [List.map_append, List.map_cons, List.nodup_append] at hdistinct
          exact hdistinct.2.2 index hmem index List.mem_cons_self rfl

end Gather

end Squallz.Rar
