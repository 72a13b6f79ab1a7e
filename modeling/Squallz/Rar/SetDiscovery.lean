/-
What a directory makes of a scheme: the set that is discovered is the same from each of its members, however the directory
is listed.
-/
import Squallz.Rar.SetMembers

namespace Squallz.Rar

open Squallz.Api Squallz.Destination Squallz.Text VolumeScheme

/-! ## The scheme of a name -/

/-- The scheme that a name is the first to give. -/
def ownScheme (fileName : List UInt8) : Option VolumeScheme :=
  match parseModernNameShape fileName with
  | some shape => (checkedModernName shape).toOption.map fun name =>
      .modern ⟨name.base, name.paddingCandidates, name.partPrefix, name.rarExtension⟩
  | none => (parseLegacyName fileName).map fun name => .legacy ⟨name.base, name.rarExtension, name.rPrefix⟩

/-- A padding among those that a scheme begins with. -/
def VolumeScheme.Plain : VolumeScheme → ModernPadding → Prop
  | .modern _, padding => padding.Canonical
  | .legacy _, padding => padding = .unpadded

/-- A scheme takes the name that it comes from, and begins with the paddings in which this name is spelt. -/
structure Own (scheme : VolumeScheme) (fileName : List UInt8) (index : Nat) : Prop where
  index : scheme.indexOf fileName = some index
  nodup : scheme.paddings.Nodup
  paddings : ∀ padding, padding ∈ scheme.paddings ↔ scheme.Plain padding ∧ scheme.Spelt fileName padding

theorem ownScheme_modern {fileName : List UInt8} {shape : ModernNameShape} {name : ModernName}
    (hshape : parseModernNameShape fileName = some shape) (hname : checkedModernName shape = .ok name) :
    ownScheme fileName = some (.modern ⟨name.base, name.paddingCandidates, name.partPrefix, name.rarExtension⟩) := by
  rw [ownScheme, hshape]
  dsimp only
  rw [hname]
  rfl

theorem ownScheme_legacy {fileName : List UInt8} {name : LegacyName} (hshape : parseModernNameShape fileName = none)
    (hname : parseLegacyName fileName = some name) :
    ownScheme fileName = some (.legacy ⟨name.base, name.rarExtension, name.rPrefix⟩) := by
  rw [ownScheme, hshape]
  dsimp only
  rw [hname]
  rfl

theorem own_modern {fileName : List UInt8} {shape : ModernNameShape} {name : ModernName}
    (hshape : parseModernNameShape fileName = some shape) (hname : checkedModernName shape = .ok name) :
    Own (.modern ⟨name.base, name.paddingCandidates, name.partPrefix, name.rarExtension⟩) fileName name.index := by
  have hparse : parseModernName fileName = some name := parseModernName_eq_some.2 ⟨shape, hshape, hname⟩
  obtain ⟨hne, hall⟩ := digits_of_shape hshape
  obtain ⟨heq, -, hvalue⟩ := checkedModernName_eq_ok hall hname
  refine ⟨?_, nodup_paddingCandidates name, fun padding => ?_⟩
  · simp [indexOf, hparse]
  · rw [← heq] at hne hall
    refine (mem_paddingCandidates hne hall hvalue).trans (and_congr_right fun _ => ?_)
    simp only [Spelt, hparse, Option.some.injEq]
    exact ⟨fun hformat found hfound => hfound ▸ hformat, fun hspelt => hspelt name rfl⟩

theorem own_legacy {fileName : List UInt8} {name : LegacyName} (hname : parseLegacyName fileName = some name) :
    Own (.legacy ⟨name.base, name.rarExtension, name.rPrefix⟩) fileName name.index := by
  refine ⟨?_, List.nodup_singleton _, fun padding => ?_⟩
  · simp [indexOf, hname]
  · simp [paddings, VolumeScheme.Plain, Spelt]

/-! ## The set of a scheme -/

/-- A candidate apart from its being selected. -/
def Candidate.plain (candidate : Candidate) : Candidate := { candidate with selected := false }

theorem firstGap_eq_none {expected : Nat} {indices : List Nat} :
    firstGap expected indices = none ↔ indices = List.range' expected indices.length := by
  induction indices generalizing expected with
  | nil => exact ⟨fun _ => rfl, fun _ => rfl⟩
  | cons index rest ih =>
    rw [firstGap, List.length_cons, List.range'_succ, List.cons_eq_cons]
    by_cases hindex : index = expected
    · rw [if_neg (not_not.2 hindex), ih]
      exact ⟨fun h => ⟨hindex, h⟩, And.right⟩
    · rw [if_pos hindex]
      exact ⟨fun h => (by cases h), fun h => absurd h.1 hindex⟩

theorem candidateOf_eq_some {scheme : VolumeScheme} {entry : DirEntry} {candidate : Candidate}
    (h : scheme.candidateOf entry = some candidate) : scheme.indexOf entry.fileName = some candidate.index ∧
      entry = ⟨candidate.fileName, .regular candidate.identity⟩ ∧ candidate.selected = false := by
  unfold candidateOf at h
  split at h
  · rename_i hindex hnode
    cases h
    obtain ⟨fileName, node⟩ := entry
    cases hnode
    exact ⟨hindex, rfl, rfl⟩
  · cases h

theorem plain_filterMap_candidateOf (scheme : VolumeScheme) (entries : List DirEntry) :
    (entries.filterMap scheme.candidateOf).map Candidate.plain = entries.filterMap scheme.candidateOf := by
  refine (List.map_congr_left fun candidate hmem => ?_).trans (List.map_id _)
  obtain ⟨entry, -, hcandidate⟩ := List.mem_filterMap.1 hmem
  obtain ⟨index, fileName, selected, identity⟩ := candidate
  obtain ⟨-, -, hselected⟩ := candidateOf_eq_some hcandidate
  cases hselected
  rfl

section Directory

variable {dir : Directory} {fileName : List UInt8} {node : Node}

theorem Directory.mem_of_node (h : dir.node fileName = some node) : ⟨fileName, node⟩ ∈ dir.entries := by
  obtain ⟨entry, hfind, rfl⟩ := Option.map_eq_some_iff.1 h
  have hname : entry.fileName = fileName := by simpa using List.find?_some hfind
  rw [← hname]
  exact List.mem_of_find?_eq_some hfind

theorem Directory.node_of_mem (h : ⟨fileName, node⟩ ∈ dir.entries) : dir.node fileName = some node := by
  cases hfind : dir.entries.find? (·.fileName = fileName) with
  | none =>
    have := List.find?_eq_none.1 hfind _ h
    simp at this
  | some entry =>
    have hname : entry.fileName = fileName := by simpa using List.find?_some hfind
    have heq := List.inj_on_of_nodup_map dir.distinct (List.mem_of_find?_eq_some hfind) h hname
    rw [Directory.node, hfind, heq]
    rfl

/-- A listing is the selected entry and the others. -/
theorem Directory.perm_cons_filter {listing : List DirEntry} (hlisting : listing.Perm dir.entries)
    (h : dir.node fileName = some node) :
    dir.entries.Perm (⟨fileName, node⟩ :: listing.filter (·.fileName ≠ fileName)) := by
  have hnodup : (listing.map DirEntry.fileName).Nodup := (hlisting.map _).nodup_iff.2 dir.distinct
  have hmem : ⟨fileName, node⟩ ∈ listing := hlisting.mem_iff.2 (Directory.mem_of_node h)
  refine hlisting.symm.trans ((List.perm_cons_erase hmem).trans (List.Perm.of_eq ?_))
  rw [List.Nodup.erase_eq_filter (List.Nodup.of_map _ hnodup)]
  congr 1
  refine List.filter_congr fun entry hentry => ?_
  by_cases hname : entry.fileName = fileName
  · have heq := List.inj_on_of_nodup_map hnodup hentry hmem hname
    simp [heq]
  · have hne : entry ≠ ⟨fileName, node⟩ := fun heq => hname (heq ▸ rfl)
    simp [hne, hname]

end Directory

/-- The set of a scheme in a directory: every entry fits, the candidates are the members in their order with the indices
from 0 on, and one padding is left. -/
structure Complete (dir : Directory) (scheme : VolumeScheme) (candidates : List Candidate) : Prop where
  fits : ∀ entry ∈ dir.entries, scheme.Fits entry
  perm : (candidates.map Candidate.plain).Perm (dir.entries.filterMap scheme.candidateOf)
  ordered : Ordered candidates
  indices : candidates.map Candidate.index = List.range candidates.length
  padding : ∃ padding, ∀ other, scheme.Plain other ∧ scheme.AllSpelt dir.entries other ↔ other = padding

section Complete

variable {dir : Directory} {scheme scheme' : VolumeScheme} {candidates candidates' : List Candidate}

/-- Candidates in their order are known from what they are. -/
theorem Ordered.plain_unique (h : Ordered candidates) (h' : Ordered candidates')
    (hperm : (candidates.map Candidate.plain).Perm (candidates'.map Candidate.plain)) :
    candidates.map Candidate.plain = candidates'.map Candidate.plain := by
  have hsorted : ∀ {candidates : List Candidate}, Ordered candidates →
      (candidates.map Candidate.plain).Pairwise fun left right => left.index ≤ right.index :=
    fun hordered => List.pairwise_map.2 hordered.sorted
  have hdistinct : ((candidates.map Candidate.plain).map Candidate.index).Nodup := by
    rw [List.map_map]
    exact h.distinct
  refine List.Perm.eq_of_pairwise (fun a b ha hb hab hba => ?_) (hsorted h) (hsorted h') hperm
  exact List.inj_on_of_nodup_map hdistinct ha (hperm.mem_iff.2 hb) (Nat.le_antisymm hab hba)

/-- The set of a scheme does not depend on which member was selected. -/
theorem Complete.unique (h : Complete dir scheme candidates) (h' : Complete dir scheme candidates') :
    candidates.map Candidate.plain = candidates'.map Candidate.plain :=
  h.ordered.plain_unique h'.ordered (h.perm.trans h'.perm.symm)

theorem map_index_plain (candidates : List Candidate) :
    (candidates.map Candidate.plain).map Candidate.index = candidates.map Candidate.index := by
  rw [List.map_map]
  rfl

theorem plain_of_key (h : scheme'.key = scheme.key) : scheme'.Plain = scheme.Plain := by
  cases scheme <;> cases scheme' <;> first | rfl | cases h

theorem Complete.of_key (h : Complete dir scheme candidates) (hkey : scheme'.key = scheme.key) :
    Complete dir scheme' candidates := by
  obtain ⟨hfits, hperm, hordered, hindices, hpadding⟩ := h
  refine ⟨fits_of_key hkey ▸ hfits, candidateOf_of_key hkey ▸ hperm, hordered, hindices, ?_⟩
  rw [plain_of_key hkey, allSpelt_of_key hkey]
  exact hpadding

variable {listing : List DirEntry} {sourceName : List UInt8} {identity : PhysicalFileIdentity} {selectedIndex : Nat}

theorem selectedIndex_eq (h : scheme.indexOf sourceName = some selectedIndex) :
    scheme.selectedIndex sourceName = some selectedIndex := by
  cases scheme with
  | modern scheme =>
    simp only [indexOf, Option.map_eq_some_iff, Option.filter_eq_some_iff] at h
    obtain ⟨name, ⟨hname, -⟩, rfl⟩ := h
    simp [VolumeScheme.selectedIndex, hname]
  | legacy scheme =>
    simp only [indexOf, Option.map_eq_some_iff, Option.filter_eq_some_iff] at h
    obtain ⟨name, ⟨hname, -⟩, rfl⟩ := h
    simp [VolumeScheme.selectedIndex, hname]

/-- The loop of the discovery from a member, over what remains of the directory. -/
theorem gathered_complete (hown : Own scheme sourceName selectedIndex) (hlt : selectedIndex < maxRarVolumeCount)
    (hnode : dir.node sourceName = some (.regular identity)) (hlisting : listing.Perm dir.entries)
    (h : gatherCandidates sourceName listing [⟨selectedIndex, sourceName, true, identity⟩] scheme =
      .ok (candidates, scheme')) :
    (∀ entry ∈ dir.entries, scheme.Fits entry) ∧
      (candidates.map Candidate.plain).Perm (dir.entries.filterMap scheme.candidateOf) ∧ Ordered candidates ∧
      (∀ candidate ∈ candidates, candidate.selected = true → candidate.identity = identity) ∧
      scheme'.key = scheme.key ∧ scheme'.paddings.Nodup ∧
      ∀ padding, padding ∈ scheme'.paddings ↔ scheme.Plain padding ∧ scheme.AllSpelt dir.entries padding := by
  rw [gatherCandidates_filter] at h
  have hfilter : ∀ entry ∈ listing.filter (·.fileName ≠ sourceName), entry.fileName ≠ sourceName := by
    intro entry hentry
    simpa using (List.mem_filter.1 hentry).2
  have hone : Ordered [(⟨selectedIndex, sourceName, true, identity⟩ : Candidate)] :=
    ⟨List.pairwise_singleton _ _, List.nodup_singleton _⟩
  have hgathered := gathered_of_gatherCandidates hfilter hone h
  have hentries := Directory.perm_cons_filter hlisting hnode
  have hsource : scheme.candidateOf ⟨sourceName, .regular identity⟩ = some ⟨selectedIndex, sourceName, false, identity⟩ := by
    rw [candidateOf, hown.index]
  refine ⟨fun entry hentry => ?_, ?_, hgathered.ordered, fun candidate hmem hselected => ?_, hgathered.key,
    hown.nodup.sublist hgathered.sublist, fun padding => ?_⟩
  · rcases List.mem_cons.1 (hentries.mem_iff.1 hentry) with rfl | hmem
    · exact .inr ⟨selectedIndex, identity, hown.index, hlt, rfl⟩
    · exact hgathered.fits entry hmem
  · refine (hgathered.perm.map Candidate.plain).trans ?_
    rw [List.map_append, plain_filterMap_candidateOf]
    have hmembers := hentries.filterMap scheme.candidateOf
    rw [List.filterMap_cons_some hsource] at hmembers
    exact hmembers.symm
  · rcases List.mem_append.1 (hgathered.perm.mem_iff.1 hmem) with hmem | hmem
    · rw [List.mem_singleton.1 hmem]
    · obtain ⟨entry, -, hcandidate⟩ := List.mem_filterMap.1 hmem
      rw [(candidateOf_eq_some hcandidate).2.2] at hselected
      cases hselected
  · rw [hgathered.paddings, hown.paddings, and_assoc]
    refine and_congr_right fun _ => ⟨fun hspelt entry hentry index hindex => ?_, fun hall => ⟨?_, fun entry hentry => ?_⟩⟩
    · rcases List.mem_cons.1 (hentries.mem_iff.1 hentry) with rfl | hmem
      · exact hspelt.1
      · exact hspelt.2 entry hmem index hindex
    · exact hall _ (Directory.mem_of_node hnode) selectedIndex hown.index
    · exact hall entry (hentries.mem_iff.2 (List.mem_cons_of_mem _ hentry))

theorem eq_singleton_of_nodup {α : Type} {l : List α} {a : α} (hnodup : l.Nodup) (h : ∀ b, b ∈ l ↔ b = a) : l = [a] := by
  refine List.perm_singleton.1 ((List.perm_ext_iff_of_nodup hnodup (List.nodup_singleton a)).2 fun b => ?_)
  rw [h, List.mem_singleton]

theorem resolvedPadding_eq_ok {modern : ModernScheme} {padding : ModernPadding} :
    modern.resolvedPadding = .ok padding ↔ modern.paddingCandidates = [padding] := by
  unfold ModernScheme.resolvedPadding
  split
  · rename_i found h
    rw [h, List.singleton_inj, Except.ok.injEq]
  · rename_i h
    rw [h]
    exact ⟨fun hok => (by cases hok), fun hnil => (by cases hnil)⟩
  · rename_i hsingle _
    exact ⟨fun hok => (by cases hok), fun h => absurd h (hsingle padding)⟩

/-- A discovery that succeeds has gathered candidates without a gap, and one padding is left of them. -/
theorem discoverCandidates_eq_ok (h : discoverCandidates dir listing sourceName identity scheme = .ok (candidates, scheme')) :
    ∃ selectedIndex padding, scheme.selectedIndex sourceName = some selectedIndex ∧
      gatherCandidates sourceName listing [⟨selectedIndex, sourceName, true, identity⟩] scheme = .ok (candidates, scheme') ∧
      candidates.map Candidate.index = List.range candidates.length ∧ scheme'.paddings = [padding] := by
  rw [discoverCandidates] at h
  split at h
  · cases h
  · rename_i selectedIndex hselected
    obtain ⟨⟨gathered, narrowed⟩, hgather, h⟩ := bind_eq_ok.1 h
    dsimp only at h
    split at h
    · exfalso
      split at h
      · obtain ⟨_, -, h⟩ := bind_eq_ok.1 h
        cases h
      · obtain ⟨_, -, h⟩ := bind_eq_ok.1 h
        cases h
    · rename_i hgap
      rw [firstGap_eq_none, List.length_map, ← List.range_eq_range'] at hgap
      split at h
      · obtain ⟨padding, hresolved, h⟩ := bind_eq_ok.1 h
        cases h
        exact ⟨selectedIndex, padding, hselected, hgather, hgap, resolvedPadding_eq_ok.1 hresolved⟩
      · cases h
        exact ⟨selectedIndex, .unpadded, hselected, hgather, hgap, rfl⟩

/-- The set that is discovered from a member is the set of its scheme. -/
theorem complete_of_discoverCandidates (hown : Own scheme sourceName selectedIndex) (hlt : selectedIndex < maxRarVolumeCount)
    (hnode : dir.node sourceName = some (.regular identity)) (hlisting : listing.Perm dir.entries)
    (h : discoverCandidates dir listing sourceName identity scheme = .ok (candidates, scheme')) :
    Complete dir scheme candidates ∧
      ∀ candidate ∈ candidates, candidate.selected = true → candidate.identity = identity := by
  obtain ⟨index, padding, hindex, hgather, hindices, hsingle⟩ := discoverCandidates_eq_ok h
  rw [selectedIndex_eq hown.index] at hindex
  cases hindex
  obtain ⟨hfits, hperm, hordered, hselected, -, -, hpaddings⟩ := gathered_complete hown hlt hnode hlisting hgather
  refine ⟨⟨hfits, hperm, hordered, hindices, padding, fun other => ?_⟩, hselected⟩
  rw [← hpaddings, hsingle, List.mem_singleton]

/-- From every member of the set of a scheme, its set is discovered. -/
theorem discoverCandidates_of_complete (hown : Own scheme sourceName selectedIndex)
    (hnode : dir.node sourceName = some (.regular identity)) (hlisting : listing.Perm dir.entries)
    (h : Complete dir scheme candidates) :
    ∃ candidates' scheme', discoverCandidates dir listing sourceName identity scheme = .ok (candidates', scheme') := by
  obtain ⟨hfits, hperm, hordered, hindices, padding, hpadding⟩ := h
  obtain ⟨hplain, hspelt⟩ := (hpadding padding).2 rfl
  have hsource : scheme.candidateOf ⟨sourceName, .regular identity⟩ = some ⟨selectedIndex, sourceName, false, identity⟩ := by
    rw [candidateOf, hown.index]
  have hlt : selectedIndex < maxRarVolumeCount := by
    rcases hfits _ (Directory.mem_of_node hnode) with hstranger | ⟨index, _, hindex, hlt, -⟩
    · have hnone := hstranger.indexOf_eq_none
      rw [hown.index] at hnone
      cases hnone
    · rw [hown.index] at hindex
      cases hindex
      exact hlt
  have hentries := Directory.perm_cons_filter hlisting hnode
  have hone : Ordered [(⟨selectedIndex, sourceName, true, identity⟩ : Candidate)] :=
    ⟨List.pairwise_singleton _ _, List.nodup_singleton _⟩
  have hmembers := (hentries.filterMap scheme.candidateOf).symm.trans hperm.symm
  rw [List.filterMap_cons_some hsource] at hmembers
  have hdistinct : (((⟨selectedIndex, sourceName, true, identity⟩ : Candidate) ::
      (listing.filter (·.fileName ≠ sourceName)).filterMap scheme.candidateOf).map Candidate.index).Nodup := by
    have hnodup : ((candidates.map Candidate.plain).map Candidate.index).Nodup := by
      rw [List.map_map]
      exact hordered.distinct
    exact (hmembers.map Candidate.index).nodup_iff.2 hnodup
  have hpaddingMem : padding ∈ scheme.paddings :=
    (hown.paddings padding).2 ⟨hplain, hspelt _ (Directory.mem_of_node hnode) selectedIndex hown.index⟩
  have hothers : ∀ entry ∈ listing.filter (·.fileName ≠ sourceName), entry.fileName ≠ sourceName :=
    fun entry hentry => by simpa using (List.mem_filter.1 hentry).2
  obtain ⟨gathered, narrowed, hgather⟩ := gatherCandidates_of_fits hothers hone
    (fun entry hentry => hfits entry (hentries.mem_iff.2 (List.mem_cons_of_mem _ hentry))) hdistinct
    (fun candidate hmem => by rw [List.mem_singleton.1 hmem]; exact hlt) hpaddingMem
    fun entry hentry => hspelt entry (hentries.mem_iff.2 (List.mem_cons_of_mem _ hentry))
  rw [← gatherCandidates_filter] at hgather
  obtain ⟨-, hperm', hordered', -, -, hnodup', hpaddings'⟩ := gathered_complete hown hlt hnode hlisting hgather
  have hindices' : firstGap 0 (gathered.map Candidate.index) = none := by
    have hplain := hordered'.plain_unique hordered (hperm'.trans hperm.symm)
    have hlength := congrArg List.length hplain
    rw [List.length_map, List.length_map] at hlength
    rw [firstGap_eq_none, List.length_map, ← map_index_plain, hplain, map_index_plain, hindices, List.range_eq_range', hlength]
  have hsingle : narrowed.paddings = [padding] :=
    eq_singleton_of_nodup hnodup' fun other => (hpaddings' other).trans (hpadding other)
  rw [discoverCandidates, selectedIndex_eq hown.index]
  dsimp only
  rw [hgather, ok_bind]
  dsimp only
  rw [hindices']
  cases narrowed with
  | modern modern =>
    refine ⟨gathered, .modern modern, ?_⟩
    dsimp only
    rw [resolvedPadding_eq_ok.2 hsingle]
    rfl
  | legacy legacy => exact ⟨gathered, .legacy legacy, rfl⟩

end Complete

end Squallz.Rar
