/-
When the discovery from one member of a RAR set and the discovery from another find the same set.
-/
import Squallz.Rar.FromAnyMember
import Squallz.Rar.Inspection

namespace Squallz.Rar

open Squallz.Api Squallz.Destination Squallz.Text VolumeScheme

variable {inspect : List UInt8 → Res RarVolumeMetadata} {dir : Directory} {listings : Listings dir}
  {selected other : List UInt8} {set : DiscoveredRarSet}

/-! ## A set with public headers -/

/-- What a set with public headers says: the scheme of the selected name has it, the headers of its files are in order, and
the selected file is among them. -/
structure PublicSet (inspect : List UInt8 → Res RarVolumeMetadata) (dir : Directory) (selected : List UInt8)
    (scheme : VolumeScheme) (candidates : List Candidate) (metadata : RarVolumeMetadata) : Prop where
  named : ownScheme selected = some scheme
  complete : Complete dir scheme candidates
  headers : ∃ lastIndex last, candidateHeaders inspect dir metadata (candidates.map Candidate.plain) none =
    .ok (some (lastIndex, last)) ∧ last.hasNext ≠ some true
  member : ∃ index, Own scheme selected index
  later : ∀ legacy, scheme = .legacy legacy → ∀ index, scheme.indexOf selected = some index → metadata.version = .rar5 →
    index = 0 → LaterSibling dir.entries legacy.base
  opened : ∃ identity, dir.node selected = some (.regular identity) ∧ inspect (dir.contents identity) = .ok metadata ∧
    metadata.headersEncrypted = false

theorem index_lt_of_validateNamedIndex {index : Nat} {metadata : RarVolumeMetadata}
    (h : validateNamedIndex index metadata = .ok ()) : index < maxRarVolumeCount := by
  obtain ⟨⟨⟩, hindex, -⟩ := bind_eq_ok.1 h
  exact ensureVolumeIndex_eq_ok.1 hindex

theorem publicSet_of_found {identity : PhysicalFileIdentity} {found : Option RarVolumeMetadata} {scheme : VolumeScheme}
    (h : Found inspect dir listings selected set identity found scheme) (hpublic : set.evidence = .publicHeaders) :
    ∃ metadata, PublicSet inspect dir selected scheme set.candidates metadata := by
  have hevidence := h.evidence
  rw [hpublic] at hevidence
  obtain ⟨metadata, rfl, hinspect, hencrypted⟩ := selectedEvidence_public hevidence
  obtain ⟨-, hscheme, index, hown, hvalid, hlater⟩ := nativeScheme_eq_some.1 h.started
  obtain ⟨hcomplete, hselected⟩ := complete_of_discoverCandidates hown (index_lt_of_validateNamedIndex hvalid) h.node
    listings.members_perm h.candidates
  have hvalidated := h.validated
  rw [hpublic] at hvalidated
  obtain ⟨lastIndex, last, hlast, hnext⟩ := validateCandidateHeaders_eq_ok.1 hvalidated
  rw [candidateHeaders_plain (fun candidate hmem hsel => by rw [hselected candidate hmem hsel]; exact hinspect) metadata] at hlast
  refine ⟨metadata, hscheme, hcomplete, ⟨lastIndex, last, hlast, hnext⟩, ⟨index, hown⟩, ?_,
    identity, h.node, hinspect, hencrypted⟩
  intro legacy hlegacy other hother hversion hzero
  rw [hown.index, Option.some.injEq] at hother
  subst hother
  exact (hlater legacy hlegacy hversion hzero).perm listings.siblings_perm

section Members

variable {scheme : VolumeScheme} {candidates : List Candidate} {metadata : RarVolumeMetadata}

/-- A member of a set is an entry with an index. -/
theorem Complete.entry (h : Complete dir scheme candidates) {candidate : Candidate} (hmem : candidate ∈ candidates) :
    dir.node candidate.fileName = some (.regular candidate.identity) ∧
      scheme.indexOf candidate.fileName = some candidate.index := by
  obtain ⟨entry, hentry, hcandidate⟩ := List.mem_filterMap.1 (h.perm.mem_iff.1 (List.mem_map_of_mem hmem))
  obtain ⟨hindex, rfl, -⟩ := candidateOf_eq_some hcandidate
  exact ⟨Directory.node_of_mem hentry, hindex⟩

/-- The regular files that a scheme takes are members. -/
theorem Complete.mem_of_indexOf (h : Complete dir scheme candidates) {fileName : List UInt8} {index : Nat}
    {identity : PhysicalFileIdentity} (hnode : dir.node fileName = some (.regular identity))
    (hindex : scheme.indexOf fileName = some index) : fileName ∈ candidates.map Candidate.fileName := by
  have hcandidate : scheme.candidateOf ⟨fileName, .regular identity⟩ = some ⟨index, fileName, false, identity⟩ := by
    rw [candidateOf, hindex]
  have hmem := h.perm.mem_iff.2 (List.mem_filterMap.2 ⟨_, Directory.mem_of_node hnode, hcandidate⟩)
  obtain ⟨candidate, hmem, hplain⟩ := List.mem_map.1 hmem
  exact List.mem_map.2 ⟨candidate, hmem, congrArg Candidate.fileName hplain⟩

theorem Complete.eq_of_index (h : Complete dir scheme candidates) {first second : Candidate} (hfirst : first ∈ candidates)
    (hsecond : second ∈ candidates) (hindex : first.index = second.index) : first = second :=
  List.inj_on_of_nodup_map h.ordered.distinct hfirst hsecond hindex

/-- The selected file is a member. -/
theorem PublicSet.selected_mem (h : PublicSet inspect dir selected scheme candidates metadata) :
    ∃ candidate ∈ candidates, candidate.fileName = selected := by
  obtain ⟨index, hown⟩ := h.member
  obtain ⟨identity, hnode, -⟩ := h.opened
  exact List.mem_map.1 (h.complete.mem_of_indexOf hnode hown.index)

/-- The headers of a member are those of a volume with its index. -/
theorem PublicSet.inspected (h : PublicSet inspect dir selected scheme candidates metadata) {candidate : Candidate}
    (hmem : candidate ∈ candidates) : ∃ found, inspect (dir.contents candidate.identity) = .ok found ∧
      found.isVolume = true ∧ validateNamedIndex candidate.index found = .ok () := by
  obtain ⟨lastIndex, last, hlast, -⟩ := h.headers
  obtain ⟨found, hfound, hvalid⟩ := inspected_of_candidateHeaders hlast candidate hmem
  rw [validateVolumeMetadata] at hvalid
  cases hvolume : found.isVolume with
  | false =>
    rw [hvolume] at hvalid
    cases hvalid
  | true =>
    rw [hvolume] at hvalid
    exact ⟨found, hfound, hvolume, hvalid⟩

end Members

/-! ## The condition -/

/-- When the discovery from one member of a public set finds the set that was found from the selected one: the file has at
most one other name in the directory, its headers are not encrypted, and unless the set is named in the modern way or the
member is the selected one, it is not itself named in the modern way and the selected first volume has a regular extension. -/
structure Agrees (inspect : List UInt8 → Res RarVolumeMetadata) (dir : Directory) (selected other : List UInt8) : Prop where
  otherNames : ∀ identity, dir.node other = some (.regular identity) → (dir.otherNames other identity).length ≤ 1
  headers : ∀ identity metadata, dir.node other = some (.regular identity) →
    inspect (dir.contents identity) = .ok metadata → metadata.headersEncrypted = false
  names : other = selected ∨ (parseModernNameShape selected).isSome = true ∨ (parseModernNameShape other = none ∧
    ∀ name, parseLegacyName selected = some name → name.index = 0 → Regular name.rarExtension)

theorem legacy_of_ownScheme {fileName : List UInt8} {legacy : LegacyScheme} (h : ownScheme fileName = some (.legacy legacy)) :
    parseModernNameShape fileName = none ∧ ∃ name, parseLegacyName fileName = some name ∧
      legacy = ⟨name.base, name.rarExtension, name.rPrefix⟩ := by
  unfold ownScheme at h
  split at h
  · obtain ⟨name, -, h⟩ := Option.map_eq_some_iff.1 h
    cases h
  · rename_i hshape
    obtain ⟨name, hname, h⟩ := Option.map_eq_some_iff.1 h
    cases h
    exact ⟨hshape, name, hname, rfl⟩

/-- The name of a member leads to the scheme that has taken it. -/
theorem ownScheme_of_member {scheme : VolumeScheme} {index : Nat} (hscheme : ownScheme selected = some scheme)
    (hown : ∃ index, Own scheme selected index) (hindex : scheme.indexOf other = some index)
    (hnames : other = selected ∨ (parseModernNameShape selected).isSome = true ∨ (parseModernNameShape other = none ∧
      ∀ name, parseLegacyName selected = some name → name.index = 0 → Regular name.rarExtension)) :
    ∃ scheme', ownScheme other = some scheme' ∧ scheme'.key = scheme.key ∧ Own scheme' other index := by
  by_cases hsame : other = selected
  · subst hsame
    obtain ⟨own, hown⟩ := hown
    have heq := hown.index
    rw [hindex, Option.some.injEq] at heq
    exact ⟨scheme, hscheme, rfl, heq ▸ hown⟩
  · cases scheme with
    | modern modern =>
      simp only [indexOf, Option.map_eq_some_iff, Option.filter_eq_some_iff, decide_eq_true_eq] at hindex
      obtain ⟨name, ⟨hparse, hbase, hletters, hext⟩, rfl⟩ := hindex
      obtain ⟨shape, hshape, hname⟩ := parseModernName_eq_some.1 hparse
      refine ⟨_, ownScheme_modern hshape hname, ?_, own_modern hshape hname⟩
      rw [key, key, hbase, hletters, hext]
    | legacy legacy =>
      obtain ⟨hshape, name, hname, rfl⟩ := legacy_of_ownScheme hscheme
      simp only [indexOf, Option.map_eq_some_iff, Option.filter_eq_some_iff, decide_eq_true_eq] at hindex
      obtain ⟨name', ⟨hparse', hbase, hcasing⟩, rfl⟩ := hindex
      rcases hnames with hsame' | hmodern | ⟨hshape', hregular⟩
      · exact absurd hsame' hsame
      · rw [hshape] at hmodern
        cases hmodern
      · refine ⟨_, ownScheme_legacy hshape' hparse', ?_, own_legacy hparse'⟩
        rw [key, key, legacy_eq_of_casing hname hparse' hbase hcasing (hregular name hname)]

section Agreement

variable {scheme : VolumeScheme} {candidates : List Candidate} {metadata : RarVolumeMetadata}

theorem members_of_plain {candidates candidates' : List Candidate}
    (h : candidates.map Candidate.plain = candidates'.map Candidate.plain) :
    candidates.map Candidate.fileName = candidates'.map Candidate.fileName := by
  have hnames := congrArg (List.map Candidate.fileName) h
  rwa [List.map_map, List.map_map] at hnames

/-- The first RAR 5 volume of a set with legacy names has a later volume beside it, whichever member was selected. -/
theorem PublicSet.laterSibling {scheme' : VolumeScheme} {candidate : Candidate} {found : RarVolumeMetadata}
    {legacy : LegacyScheme} (h : PublicSet inspect dir selected scheme candidates metadata) (hcandidate : candidate ∈ candidates)
    (hfound : inspect (dir.contents candidate.identity) = .ok found) (hkey : scheme'.key = scheme.key)
    (hlegacy : scheme' = .legacy legacy) (hversion : found.version = .rar5) (hzero : candidate.index = 0) :
    LaterSibling dir.entries legacy.base := by
  subst hlegacy
  cases scheme with
  | modern modern => cases hkey
  | legacy legacy' =>
    cases hkey
    obtain ⟨identity, hnode, hinspect, -⟩ := h.opened
    obtain ⟨first, hfirst, hname⟩ := h.selected_mem
    obtain ⟨hnodeFirst, hindexFirst⟩ := h.complete.entry hfirst
    obtain ⟨hnodeCandidate, -⟩ := h.complete.entry hcandidate
    rw [hname] at hnodeFirst hindexFirst
    by_cases hindex : first.index = 0
    · obtain rfl := h.complete.eq_of_index hfirst hcandidate (hindex.trans hzero.symm)
      rw [hnode, Option.some.injEq, Node.regular.injEq] at hnodeFirst
      subst hnodeFirst
      rw [hinspect, Except.ok.injEq] at hfound
      subst hfound
      exact h.later legacy rfl first.index hindexFirst hversion hindex
    · obtain ⟨-, name, hparse, rfl⟩ := legacy_of_ownScheme h.named
      have heq := (own_legacy hparse).index
      rw [hindexFirst, Option.some.injEq] at heq
      exact ⟨_, Directory.mem_of_node hnode, name, hparse, rfl, by omega⟩

/-- Where the condition holds, the set is found from the other member, in every order of listing. -/
theorem discoverFrom_of_agrees (h : PublicSet inspect dir selected scheme candidates metadata)
    (hmem : other ∈ candidates.map Candidate.fileName) (hagrees : Agrees inspect dir selected other)
    (listings : Listings dir) : ∃ set, discoverFrom inspect dir listings other = .ok (some set) ∧
      set.members = candidates.map Candidate.fileName := by
  obtain ⟨candidate, hcandidate, rfl⟩ := List.mem_map.1 hmem
  obtain ⟨hnode, hindex⟩ := h.complete.entry hcandidate
  obtain ⟨found, hfound, hvolume, hvalid⟩ := h.inspected hcandidate
  have hpublic := hagrees.headers _ _ hnode hfound
  obtain ⟨scheme', hscheme', hkey, hown'⟩ := ownScheme_of_member h.named h.member hindex hagrees.names
  have hcomplete' := h.complete.of_key hkey
  have hlater : ∀ legacy, scheme' = .legacy legacy → found.version = .rar5 → candidate.index = 0 →
      LaterSibling listings.siblings legacy.base := fun legacy hlegacy hversion hzero =>
    (h.laterSibling hcandidate hfound hkey hlegacy hversion hzero).perm listings.siblings_perm.symm
  have hnative := nativeScheme_eq_some.2 ⟨hvolume, hscheme', candidate.index, hown', hvalid, hlater⟩
  obtain ⟨candidates', narrowed, hdiscovered⟩ := discoverCandidates_of_complete hown' hnode listings.members_perm hcomplete'
  obtain ⟨hset', hselected'⟩ := complete_of_discoverCandidates hown' (index_lt_of_validateNamedIndex hvalid) hnode
    listings.members_perm hdiscovered
  have hplain := hset'.unique hcomplete'
  have hevidence : selectedEvidence inspect (parseModernNameShape candidate.fileName).isSome
      ((parseLegacyName candidate.fileName).map (·.index)) (dir.contents candidate.identity) =
        .ok (some (some found, .publicHeaders)) := by
    rw [selectedEvidence_of_ok hfound hvolume, hpublic]
    rfl
  have hheaders : validateCandidateHeaders inspect dir candidates' found narrowed = .ok () := by
    obtain ⟨lastIndex, last, hlast, hnext⟩ := h.headers
    refine validateCandidateHeaders_eq_ok.2 ⟨lastIndex, last, ?_, hnext⟩
    rw [candidateHeaders_plain (fun c hmem hsel => by rw [hselected' c hmem hsel]; exact hfound) metadata, hplain]
    exact hlast
  have hresolved := (resolveFrom_all_iff hnode).2 (hagrees.otherNames _ hnode) _ listings.resolving_perm
  have hother : Found inspect dir listings candidate.fileName ⟨narrowed, candidates', dir.path, .publicHeaders⟩
      candidate.identity (some found) scheme' := ⟨hnode, hevidence, hresolved, hnative, hdiscovered, hheaders⟩
  exact ⟨_, discoverFrom_of_found hother ⟨scheme', hscheme'⟩, members_of_plain hplain⟩

/-- A listing that begins with the entries of one order wherever the directory is listed. -/
def Listings.resolvingAs (listing : List DirEntry) (h : listing.Perm dir.entries) : Listings dir :=
  ⟨listing, dir.entries, dir.entries, h, List.Perm.refl _, List.Perm.refl _⟩

/-- Where the other member finds the set in every order of listing, the condition holds. -/
theorem agrees_of_discoverFrom (h : PublicSet inspect dir selected scheme candidates metadata)
    (hmem : other ∈ candidates.map Candidate.fileName)
    (hall : ∀ listings : Listings dir, ∃ set, discoverFrom inspect dir listings other = .ok (some set) ∧
      set.members = candidates.map Candidate.fileName) : Agrees inspect dir selected other := by
  obtain ⟨candidate, hcandidate, rfl⟩ := List.mem_map.1 hmem
  obtain ⟨hnode, hindex⟩ := h.complete.entry hcandidate
  obtain ⟨found, hfound, hvolume, hvalid⟩ := h.inspected hcandidate
  obtain ⟨first, hfirst, hname⟩ := h.selected_mem
  obtain ⟨identity, hnodeFirst, hinspect, hpublic⟩ := h.opened
  obtain ⟨set, hset, hmembers⟩ := hall (.resolvingAs dir.entries (List.Perm.refl _))
  obtain ⟨identity', metadata', scheme', hother⟩ := found_of_discoverFrom hset
  have hidentity := hother.node
  rw [hnode, Option.some.injEq, Node.regular.injEq] at hidentity
  subst hidentity
  have hevidence := hother.evidence
  rw [selectedEvidence_of_ok hfound hvolume, Except.ok.injEq, Option.some.injEq, Prod.mk.injEq] at hevidence
  obtain ⟨rfl, hevidence⟩ := hevidence
  obtain ⟨-, hscheme', index', hown', hvalid', -⟩ := nativeScheme_eq_some.1 hother.started
  obtain ⟨hcomplete', hselected'⟩ := complete_of_discoverCandidates hown' (index_lt_of_validateNamedIndex hvalid') hnode
    (Listings.members_perm _) hother.candidates
  -- The selected file is a member of the other set as well.
  have hselectedMem : selected ∈ set.members := by
    rw [hmembers]
    exact List.mem_map.2 ⟨first, hfirst, hname⟩
  obtain ⟨again, hagain, hnameAgain⟩ := List.mem_map.1 hselectedMem
  obtain ⟨hnodeAgain, hindexAgain⟩ := hcomplete'.entry hagain
  rw [hnameAgain] at hnodeAgain hindexAgain
  rw [hnodeFirst, Option.some.injEq, Node.regular.injEq] at hnodeAgain
  subst hnodeAgain
  refine ⟨fun identity' hidentity => ?_, fun identity' metadata' hidentity hmetadata => ?_, ?_⟩
  · refine (resolveFrom_all_iff hidentity).1 fun listing hlisting => ?_
    obtain ⟨set, hset, -⟩ := hall (.resolvingAs listing hlisting)
    obtain ⟨identity'', _, _, hfoundAgain⟩ := found_of_discoverFrom hset
    have heq := hfoundAgain.node
    rw [hidentity, Option.some.injEq, Node.regular.injEq] at heq
    subst heq
    exact hfoundAgain.resolved
  · rw [hnode, Option.some.injEq, Node.regular.injEq] at hidentity
    subst hidentity
    rw [hfound, Except.ok.injEq] at hmetadata
    subst hmetadata
    by_contra hencrypted
    rw [Bool.not_eq_false] at hencrypted
    rw [if_pos hencrypted] at hevidence
    have hvalidated := hother.validated
    rw [← hevidence] at hvalidated
    have hheader := of_forM_eq_ok hvalidated again hagain
    cases hsel : again.selected with
    | true =>
      have heq := hselected' again hagain hsel
      rw [heq] at hinspect
      rw [hinspect, Except.ok.injEq] at hfound
      rw [← hfound, hpublic] at hencrypted
      cases hencrypted
    | false =>
      rw [hsel] at hheader
      exact validateEncryptedRarHeader_ne_ok hinspect hpublic _ _ hheader
  · by_cases hsame : candidate.fileName = selected
    · exact .inl hsame
    · refine .inr ?_
      cases hshape : parseModernNameShape selected with
      | some shape => exact .inl rfl
      | none =>
        refine .inr ?_
        cases scheme' with
        | modern modern =>
          simp only [indexOf, Option.map_eq_some_iff, Option.filter_eq_some_iff] at hindexAgain
          obtain ⟨name, ⟨hparse, -⟩, -⟩ := hindexAgain
          obtain ⟨shape, hshape', -⟩ := parseModernName_eq_some.1 hparse
          rw [hshape] at hshape'
          cases hshape'
        | legacy legacy =>
          obtain ⟨hshape', name', hparse', rfl⟩ := legacy_of_ownScheme hscheme'
          refine ⟨hshape', fun name hparse hzero => ?_⟩
          simp only [indexOf, hparse, Option.map_eq_some_iff, Option.filter_eq_some_iff, decide_eq_true_eq,
            Option.some.injEq] at hindexAgain
          obtain ⟨_, ⟨rfl, -, hcasing⟩, hindexAgain⟩ := hindexAgain
          rw [if_pos hzero] at hcasing
          rw [hcasing]
          refine (legacyName_cases hparse').2.resolve_left fun hzero' => hsame ?_
          obtain ⟨own, hownMem, hnameOwn⟩ := List.mem_map.1 (hcomplete'.mem_of_indexOf hnode hown'.index)
          obtain ⟨-, hindexOwn⟩ := hcomplete'.entry hownMem
          rw [hnameOwn, (own_legacy hparse').index, Option.some.injEq] at hindexOwn
          obtain rfl := hcomplete'.eq_of_index hownMem hagain (by omega)
          exact hnameOwn.symm.trans hnameAgain

end Agreement

/-! ## Sets and their members -/

/-- A set that is discovered has the indices from 0 on, each once. One with public headers is found alike from each of its
members, in every order of listing, just where the condition holds. -/
theorem discovery_agrees_iff (h : discoverFrom inspect dir listings selected = .ok (some set)) :
    set.candidates.map Candidate.index = List.range set.candidates.length ∧
      (set.evidence = .publicHeaders → ∀ other ∈ set.members,
        ((∀ listings' : Listings dir, ∃ set', discoverFrom inspect dir listings' other = .ok (some set') ∧
          set'.members = set.members) ↔ Agrees inspect dir selected other)) := by
  obtain ⟨identity, metadata, scheme, hfound⟩ := found_of_discoverFrom h
  constructor
  · obtain ⟨_, _, -, -, hindices, -⟩ := discoverCandidates_eq_ok hfound.candidates
    exact hindices
  · intro hpublic other hmem
    obtain ⟨metadata, hset⟩ := publicSet_of_found hfound hpublic
    exact ⟨agrees_of_discoverFrom hset hmem, discoverFrom_of_agrees hset hmem⟩

/-- The last volume of two. -/
def secondVolume : List UInt8 := rar5Magic ++ [237, 85, 52, 215, 4, 1, 0, 3, 1, 25, 178, 58, 53, 3, 5, 0, 0]

def entryOf (name : String) (inode : Nat) : DirEntry := ⟨osStr name.toList, .regular ⟨0, inode⟩⟩

def pairContents (identity : PhysicalFileIdentity) : List UInt8 := if identity.inode = 0 then firstVolume else secondVolume

def Listings.inOrder (dir : Directory) : Listings dir := .resolvingAs dir.entries (List.Perm.refl _)

def modernPair : Directory :=
  ⟨[], [entryOf "x.part1.rar" 0, entryOf "x.part2.rar" 1], pairContents, by decide +kernel, by decide +kernel⟩

def modernPairSet : DiscoveredRarSet where
  scheme := .modern ⟨osStr ['x'], [.unpadded], "part".toList, "rar".toList⟩
  candidates := [⟨0, osStr "x.part1.rar".toList, true, ⟨0, 0⟩⟩, ⟨1, osStr "x.part2.rar".toList, false, ⟨0, 1⟩⟩]
  sourceParent := []
  evidence := .publicHeaders

theorem discovery_agrees_iff_pair : modernPairSet.candidates.map Candidate.index = [0, 1] ∧
    ((∀ listings' : Listings modernPair, ∃ set', discoverFrom inspectFile modernPair listings' (osStr "x.part2.rar".toList) =
      .ok (some set') ∧ set'.members = modernPairSet.members) ↔
      Agrees inspectFile modernPair (osStr "x.part1.rar".toList) (osStr "x.part2.rar".toList)) := by
  have hset : discoverFrom inspectFile modernPair (.inOrder modernPair) (osStr "x.part1.rar".toList) =
      .ok (some modernPairSet) := by decide +kernel
  obtain ⟨hindices, hagrees⟩ := discovery_agrees_iff hset
  exact ⟨hindices, hagrees rfl _ (by decide +kernel)⟩

/-- The extension of the first volume is spelt in a way that the other name does not tell. -/
def casedPair : Directory := ⟨[], [entryOf "x.Rar" 0, entryOf "x.R00" 1], pairContents, by decide +kernel, by decide +kernel⟩

def casedPairSet : DiscoveredRarSet where
  scheme := .legacy ⟨osStr ['x'], "Rar".toList, ['R']⟩
  candidates := [⟨0, osStr "x.Rar".toList, true, ⟨0, 0⟩⟩, ⟨1, osStr "x.R00".toList, false, ⟨0, 1⟩⟩]
  sourceParent := []
  evidence := .publicHeaders

/-- The first volume has two more names. -/
def linkedPair : Directory :=
  ⟨[], [entryOf "x.part1.rar" 0, entryOf "x.part2.rar" 1, entryOf "a" 0, entryOf "b" 0], pairContents, by decide +kernel,
    by decide +kernel⟩

/-- The other names come first. -/
def linkedListings : Listings linkedPair :=
  .resolvingAs [entryOf "a" 0, entryOf "b" 0, entryOf "x.part1.rar" 0, entryOf "x.part2.rar" 1] (by decide +kernel)

/-- The name of the first volume is that of a part. -/
def partPair : Directory :=
  ⟨[], [entryOf "x.part1.rar" 0, entryOf "x.part1.r00" 1], pairContents, by decide +kernel, by decide +kernel⟩

def partPairSet : DiscoveredRarSet where
  scheme := .legacy ⟨osStr "x.part1".toList, "rar".toList, ['r']⟩
  candidates := [⟨0, osStr "x.part1.rar".toList, false, ⟨0, 0⟩⟩, ⟨1, osStr "x.part1.r00".toList, true, ⟨0, 1⟩⟩]
  sourceParent := []
  evidence := .publicHeaders

/-- Whatever member a public set of a directory is asked for from, and in whatever order the directory is listed, it is the
same. -/
def Independent (inspect : List UInt8 → Res RarVolumeMetadata) (dir : Directory) : Prop :=
  ∀ (listings : Listings dir) (selected : List UInt8) (set : DiscoveredRarSet),
    discoverFrom inspect dir listings selected = .ok (some set) → set.evidence = .publicHeaders → ∀ other ∈ set.members,
      ∀ listings' : Listings dir, ∃ set', discoverFrom inspect dir listings' other = .ok (some set') ∧
        set'.members = set.members

/-- What is found from one member is refused from another: for its spelling, for the order in which the names of its file are
listed, or because its name is a part's. -/
theorem discovery_depends_on_member : ¬ Independent inspectFile casedPair ∧ ¬ Independent inspectFile linkedPair ∧
    ¬ Independent inspectFile partPair := by
  refine ⟨fun h => ?_, fun h => ?_, fun h => ?_⟩
  · obtain ⟨set', hset', -⟩ := h (.inOrder _) (osStr "x.Rar".toList) casedPairSet (by decide +kernel) rfl
      (osStr "x.R00".toList) (by decide +kernel) (.inOrder _)
    have herror : discoverFrom inspectFile casedPair (.inOrder _) (osStr "x.R00".toList) =
        corrupt "RAR volume set mixes legacy extension casing" := by decide +kernel
    rw [herror] at hset'
    cases hset'
  · obtain ⟨set', hset', -⟩ := h (.inOrder _) (osStr "x.part1.rar".toList) modernPairSet (by decide +kernel) rfl
      (osStr "x.part1.rar".toList) (by decide +kernel) linkedListings
    have herror : discoverFrom inspectFile linkedPair linkedListings (osStr "x.part1.rar".toList) =
        corrupt "selected RAR volume has more than one directory entry" := by decide +kernel
    rw [herror] at hset'
    cases hset'
  · obtain ⟨set', hset', -⟩ := h (.inOrder _) (osStr "x.part1.r00".toList) partPairSet (by decide +kernel) rfl
      (osStr "x.part1.rar".toList) (by decide +kernel) (.inOrder _)
    have herror : discoverFrom inspectFile partPair (.inOrder _) (osStr "x.part1.rar".toList) =
        corrupt "missing volume: x.part2.rar" := by decide +kernel
    rw [herror] at hset'
    cases hset'

end Squallz.Rar
