/-
A RAR set with public headers is discovered from each of its members alike: unless the other member has encrypted headers,
its name leads to another scheme, or its file has further names in the directory.
-/
import Squallz.Rar.SetDiscovery

namespace Squallz.Rar

open Squallz.Api Squallz.Destination Squallz.Text VolumeScheme

/-! ## The selected file among the entries -/

/-- The other names of the file behind a name. -/
def Directory.otherNames (dir : Directory) (fileName : List UInt8) (identity : PhysicalFileIdentity) : List DirEntry :=
  dir.entries.filter fun entry => entry.node = .regular identity ∧ entry.fileName ≠ fileName

section Resolve

variable {dir : Directory} {sourceName path : List UInt8} {identity : PhysicalFileIdentity} {listing : List DirEntry}

theorem eq_of_resolveFrom {identityMatch : Option (List UInt8)} (hmem : ⟨sourceName, .regular identity⟩ ∈ listing)
    (h : resolveFrom sourceName identity listing identityMatch = .ok path) : path = sourceName := by
  induction listing generalizing identityMatch with
  | nil => cases hmem
  | cons entry rest ih =>
    rw [resolveFrom] at h
    split at h
    · rename_i hother
      rcases List.mem_cons.1 hmem with rfl | hmem
      · exact absurd rfl hother
      · exact ih hmem h
    · split at h
      · rename_i hname
        cases h
        exact hname
      · rename_i hname
        split at h
        · cases h
        · rcases List.mem_cons.1 hmem with rfl | hmem
          · exact absurd rfl hname
          · exact ih hmem h

theorem resolveFrom_of_le {identityMatch : Option (List UInt8)} (hmem : ⟨sourceName, .regular identity⟩ ∈ listing)
    (hle : (listing.filter fun entry => entry.node = .regular identity ∧ entry.fileName ≠ sourceName).length +
      (if identityMatch.isSome then 1 else 0) ≤ 1) :
    resolveFrom sourceName identity listing identityMatch = .ok sourceName := by
  induction listing generalizing identityMatch with
  | nil => cases hmem
  | cons entry rest ih =>
    rw [resolveFrom]
    by_cases hnode : entry.node = .regular identity
    · rw [if_neg (not_not.2 hnode)]
      by_cases hname : entry.fileName = sourceName
      · rw [if_pos hname, hname]
      · have hrest : ⟨sourceName, .regular identity⟩ ∈ rest := by
          rcases List.mem_cons.1 hmem with rfl | hmem
          · exact absurd rfl hname
          · exact hmem
        rw [List.filter_cons_of_pos (by simp [hnode, hname]), List.length_cons] at hle
        have hnone : identityMatch = none := by
          cases identityMatch with
          | none => rfl
          | some _ =>
            rw [Option.isSome_some, if_pos rfl] at hle
            omega
        subst hnone
        rw [if_neg hname, if_neg (by simp)]
        refine ih hrest ?_
        rw [Option.isSome_some, if_pos rfl]
        simpa using hle
    · have hrest : ⟨sourceName, .regular identity⟩ ∈ rest := by
        rcases List.mem_cons.1 hmem with rfl | hmem
        · exact absurd rfl hnode
        · exact hmem
      rw [List.filter_cons_of_neg (by simp [hnode])] at hle
      rw [if_pos hnode]
      exact ih hrest hle

/-- The selected file is found in every order of listing just where its file has at most one other name. -/
theorem resolveFrom_all_iff (hnode : dir.node sourceName = some (.regular identity)) :
    (∀ listing : List DirEntry, listing.Perm dir.entries →
      resolveFrom sourceName identity listing none = .ok sourceName) ↔
      (dir.otherNames sourceName identity).length ≤ 1 := by
  constructor
  · intro hall
    by_contra hmany
    obtain ⟨first, second, rest, hothers⟩ : ∃ first second rest,
        dir.otherNames sourceName identity = first :: second :: rest := by
      match hothers : dir.otherNames sourceName identity with
      | [] => exact absurd (by rw [hothers]; decide) hmany
      | [_] => exact absurd (by rw [hothers, List.length_singleton]) hmany
      | first :: second :: rest => exact ⟨first, second, rest, rfl⟩
    have hother : ∀ entry ∈ first :: second :: rest, entry.node = .regular identity ∧ entry.fileName ≠ sourceName := by
      intro entry hmem
      rw [← hothers] at hmem
      simpa using (List.mem_filter.1 hmem).2
    have hfirst := hother first List.mem_cons_self
    have hsecond := hother second (List.mem_cons_of_mem _ List.mem_cons_self)
    have hlisting := List.filter_append_perm (fun entry : DirEntry =>
      decide (entry.node = .regular identity ∧ entry.fileName ≠ sourceName)) dir.entries
    have hresolved := hall _ hlisting
    rw [Directory.otherNames] at hothers
    rw [hothers, List.cons_append, List.cons_append, resolveFrom, if_neg (not_not.2 hfirst.1), if_neg hfirst.2,
      if_neg (by simp), resolveFrom, if_neg (not_not.2 hsecond.1), if_neg hsecond.2,
      if_pos (Option.isSome_some (a := first.fileName))] at hresolved
    cases hresolved
  · intro hle listing hlisting
    refine resolveFrom_of_le (hlisting.mem_iff.2 (Directory.mem_of_node hnode)) ?_
    rw [(hlisting.filter _).length_eq]
    exact hle

end Resolve

/-! ## Headers -/

section Headers

variable {inspect : List UInt8 → Res RarVolumeMetadata} {dir : Directory} {candidates : List Candidate}
  {metadata : RarVolumeMetadata} {scheme : VolumeScheme}

/-- Where the selected candidate has the metadata that its file has, the headers are those of the files. -/
theorem candidateHeaders_plain (hselected : ∀ candidate ∈ candidates, candidate.selected = true →
      inspect (dir.contents candidate.identity) = .ok metadata)
    (any : RarVolumeMetadata) (previous : Option (Nat × RarVolumeMetadata)) :
    candidateHeaders inspect dir metadata candidates previous =
      candidateHeaders inspect dir any (candidates.map Candidate.plain) previous := by
  induction candidates generalizing previous with
  | nil => rfl
  | cons candidate rest ih =>
    obtain ⟨hfirst, hrest⟩ := List.forall_mem_cons.1 hselected
    rw [List.map_cons, candidateHeaders, candidateHeaders]
    have hmetadata : candidateMetadata inspect dir metadata candidate = candidateMetadata inspect dir any candidate.plain := by
      unfold candidateMetadata
      cases hsel : candidate.selected with
      | false => rfl
      | true => exact (hfirst hsel).symm
    rw [hmetadata]
    simp only [ih hrest]
    rfl

theorem inspected_of_candidateHeaders {previous last : Option (Nat × RarVolumeMetadata)}
    (h : candidateHeaders inspect dir metadata (candidates.map Candidate.plain) previous = .ok last) :
    ∀ candidate ∈ candidates, ∃ found, inspect (dir.contents candidate.identity) = .ok found ∧
      validateVolumeMetadata candidate.index found = .ok () := by
  induction candidates generalizing previous with
  | nil =>
    intro candidate hmem
    cases hmem
  | cons candidate rest ih =>
    rw [List.map_cons, candidateHeaders] at h
    obtain ⟨found, hfound, h⟩ := bind_eq_ok.1 h
    obtain ⟨⟨⟩, hvalid, h⟩ := bind_eq_ok.1 h
    obtain ⟨⟨⟩, -, h⟩ := bind_eq_ok.1 h
    exact List.forall_mem_cons.2 ⟨⟨found, hfound, hvalid⟩, ih h⟩

theorem validateCandidateHeaders_eq_ok : validateCandidateHeaders inspect dir candidates metadata scheme = .ok () ↔
    ∃ lastIndex last, candidateHeaders inspect dir metadata candidates none = .ok (some (lastIndex, last)) ∧
      last.hasNext ≠ some true := by
  rw [validateCandidateHeaders, bind_eq_ok]
  constructor
  · rintro ⟨found, hfound, h⟩
    match found with
    | none => cases h
    | some (lastIndex, last) =>
      refine ⟨lastIndex, last, hfound, fun hnext => ?_⟩
      dsimp only at h
      rw [if_pos hnext] at h
      split at h
      · cases h
      · obtain ⟨_, -, h⟩ := bind_eq_ok.1 h
        cases h
  · rintro ⟨lastIndex, last, hlast, hnext⟩
    refine ⟨some (lastIndex, last), hlast, ?_⟩
    dsimp only
    rw [if_neg hnext]
    rfl

/-- Public headers are no headers of an encrypted set. -/
theorem validateEncryptedRarHeader_ne_ok {content : List UInt8} (h : inspect content = .ok metadata)
    (hpublic : metadata.headersEncrypted = false) (version : RarVersion) (index : Nat) :
    validateEncryptedRarHeader inspect content version index ≠ .ok () := by
  rw [validateEncryptedRarHeader.eq_def, h]
  cases version with
  | rar4 =>
    dsimp only
    rw [if_neg fun hboth => by rw [hpublic] at hboth; cases hboth.2]
    exact fun hok => by cases hok
  | rar5 => exact fun hok => by cases hok

end Headers

/-! ## Legacy names -/

section Legacy

theorem toLower_eq_r {c : Char} (h : c.toLower = 'r') : c = 'r' ∨ c = 'R' := by
  rcases toLower_cases h with heq | ⟨-, -, hval⟩
  · exact .inl heq
  · have hr : 'r'.val.toNat = 114 := rfl
    have hcode : c.val.toNat = 'R'.val.toNat := show c.val.toNat = 82 by omega
    exact .inr (Char.ext (UInt32.toNat_inj.1 hcode))

/-- The extension of the first volume that the spellings of the other volumes stand for. -/
def Regular (rarExtension : List Char) : Prop := rarExtension = "rar".toList ∨ rarExtension = "RAR".toList

variable {fileName : List UInt8} {name name' : LegacyName}

/-- The first volume has the letter of its extension; every other volume is taken for the sibling of a regular one. -/
theorem legacyName_cases (h : parseLegacyName fileName = some name) :
    name.rPrefix = name.rarExtension.take 1 ∧ (name.index = 0 ∨ Regular name.rarExtension) := by
  simp only [parseLegacyName, Option.bind_eq_bind, Option.bind_eq_some_iff] at h
  obtain ⟨extension, -, ⟨index, rarExtension, rPrefix⟩, hlegacy, h⟩ := h
  dsimp only at h
  split at h
  · cases h
  · cases h
    simp only [legacyExtension] at hlegacy
    split at hlegacy
    · cases hlegacy
      exact ⟨rfl, .inl rfl⟩
    · split at hlegacy
      · rename_i letter tens ones _
        split at hlegacy
        · rename_i hdigits
          obtain ⟨number, -, hlegacy⟩ := Option.bind_eq_some_iff.1 hlegacy
          obtain ⟨index, -, hlegacy⟩ := Option.bind_eq_some_iff.1 hlegacy
          cases hlegacy
          have hletter : letter.toLower = 'r' := by simpa [eqIgnoreAsciiCase] using hdigits.1
          rcases toLower_eq_r hletter with rfl | rfl
          · exact ⟨rfl, .inr (.inl rfl)⟩
          · exact ⟨rfl, .inr (.inr rfl)⟩
        · cases hlegacy
      · cases hlegacy

/-- Regular extensions with one letter are the same. -/
theorem Regular.eq_of_letter {first second : List Char} (h : Regular first) (h' : Regular second)
    (hletter : first.take 1 = second.take 1) : first = second := by
  rcases h with rfl | rfl <;> rcases h' with rfl | rfl <;> first | rfl | (revert hletter; decide)

/-- The name of a member gives the scheme that has taken it, where the extension of the first volume is regular. -/
theorem legacy_eq_of_casing {fileName' : List UInt8} (h : parseLegacyName fileName = some name)
    (h' : parseLegacyName fileName' = some name') (hbase : name'.base = name.base)
    (hcasing : if name'.index = 0 then name'.rarExtension = name.rarExtension else name'.rPrefix = name.rPrefix)
    (hregular : name.index = 0 → Regular name.rarExtension) :
    LegacyScheme.mk name'.base name'.rarExtension name'.rPrefix = ⟨name.base, name.rarExtension, name.rPrefix⟩ := by
  obtain ⟨hletters, hkind⟩ := legacyName_cases h
  obtain ⟨hletters', hkind'⟩ := legacyName_cases h'
  have hext : name'.rarExtension = name.rarExtension := by
    by_cases hzero : name'.index = 0
    · rwa [if_pos hzero] at hcasing
    · rw [if_neg hzero, hletters, hletters'] at hcasing
      have hreg : Regular name.rarExtension := hkind.elim hregular id
      exact (hkind'.resolve_left hzero).eq_of_letter hreg hcasing
  rw [hbase, hletters', hext, ← hletters]

end Legacy

/-! ## The scheme of a volume -/

section Native

variable {siblings : List DirEntry} {fileName : List UInt8} {metadata : RarVolumeMetadata} {scheme : VolumeScheme}

/-- A legacy name beside which there is a later volume of its base. -/
def LaterSibling (entries : List DirEntry) (base : List UInt8) : Prop :=
  ∃ entry ∈ entries, ∃ name, parseLegacyName entry.fileName = some name ∧ name.base = base ∧ 0 < name.index

theorem hasLegacySibling_iff {base : List UInt8} :
    (siblings.filterMap fun entry => parseLegacyName entry.fileName).any
      (fun candidate => candidate.base = base ∧ 0 < candidate.index) = true ↔ LaterSibling siblings base := by
  rw [List.any_eq_true]
  constructor
  · rintro ⟨name, hmem, hname⟩
    obtain ⟨entry, hentry, hparse⟩ := List.mem_filterMap.1 hmem
    rw [decide_eq_true_eq] at hname
    exact ⟨entry, hentry, name, hparse, hname⟩
  · rintro ⟨entry, hentry, name, hparse, hname⟩
    exact ⟨name, List.mem_filterMap.2 ⟨entry, hentry, hparse⟩, decide_eq_true hname⟩

theorem LaterSibling.perm {entries : List DirEntry} {base : List UInt8} (h : LaterSibling siblings base)
    (hperm : siblings.Perm entries) : LaterSibling entries base := by
  obtain ⟨entry, hentry, hname⟩ := h
  exact ⟨entry, hperm.mem_iff.1 hentry, hname⟩

/-- A volume has the scheme of its name, where its header does not contradict its index; the first of the RAR 5 volumes with
legacy names needs a later one beside it. -/
theorem nativeScheme_eq_some : nativeScheme siblings fileName metadata = .ok (some scheme) ↔
    metadata.isVolume = true ∧ ownScheme fileName = some scheme ∧ ∃ index, Own scheme fileName index ∧
      validateNamedIndex index metadata = .ok () ∧
      ∀ legacy, scheme = .legacy legacy → metadata.version = .rar5 → index = 0 → LaterSibling siblings legacy.base := by
  rw [nativeScheme]
  cases hvolume : metadata.isVolume with
  | false => simp
  | true =>
    rw [if_neg (by simp)]
    cases hshape : parseModernNameShape fileName with
    | some shape =>
      dsimp only
      rw [bind_eq_ok]
      constructor
      · rintro ⟨name, hname, h⟩
        obtain ⟨⟨⟩, hvalid, h⟩ := bind_eq_ok.1 h
        cases h
        exact ⟨rfl, ownScheme_modern hshape hname, name.index, own_modern hshape hname, hvalid, fun _ h => by cases h⟩
      · rintro ⟨-, hown, index, hindex, hvalid, -⟩
        rw [ownScheme, hshape] at hown
        obtain ⟨name, hname, rfl⟩ := Option.map_eq_some_iff.1 hown
        have hchecked : checkedModernName shape = .ok name := by
          cases hres : checkedModernName shape with
          | error fault =>
            rw [hres] at hname
            cases hname
          | ok found =>
            rw [hres] at hname
            cases hname
            rfl
        have heq := (own_modern hshape hchecked).index
        rw [hindex.index, Option.some.injEq] at heq
        subst heq
        refine ⟨name, hchecked, ?_⟩
        rw [hvalid]
        rfl
    | none =>
      dsimp only
      cases hparse : parseLegacyName fileName with
      | none =>
        constructor
        · intro h
          cases h
        · rintro ⟨-, hown, -⟩
          rw [ownScheme, hshape] at hown
          dsimp only at hown
          rw [hparse] at hown
          cases hown
      | some name =>
        dsimp only
        rw [bind_eq_ok]
        constructor
        · rintro ⟨⟨⟩, hvalid, h⟩
          split at h
          · cases h
          · rename_i hsibling
            cases h
            refine ⟨rfl, ownScheme_legacy hshape hparse, name.index, own_legacy hparse, hvalid, ?_⟩
            rintro legacy ⟨⟩ hversion hzero
            by_contra hlater
            exact hsibling ⟨hversion, hzero, by simpa using mt hasLegacySibling_iff.1 hlater⟩
        · rintro ⟨-, hown, index, hindex, hvalid, hlater⟩
          rw [ownScheme_legacy hshape hparse, Option.some.injEq] at hown
          subst hown
          have heq := (own_legacy hparse).index
          rw [hindex.index, Option.some.injEq] at heq
          subst heq
          refine ⟨(), hvalid, ?_⟩
          rw [if_neg]
          · rfl
          · rintro ⟨hversion, hzero, hnone⟩
            rw [hasLegacySibling_iff.2 (hlater _ rfl hversion hzero)] at hnone
            cases hnone

end Native

/-! ## Discoveries -/

variable {inspect : List UInt8 → Res RarVolumeMetadata} {dir : Directory} {listings : Listings dir}
  {sourceName : List UInt8} {set : DiscoveredRarSet}

/-- How a set has been found. -/
structure Found (inspect : List UInt8 → Res RarVolumeMetadata) (dir : Directory) (listings : Listings dir)
    (sourceName : List UInt8) (set : DiscoveredRarSet) (identity : PhysicalFileIdentity)
    (metadata : Option RarVolumeMetadata) (scheme : VolumeScheme) : Prop where
  node : dir.node sourceName = some (.regular identity)
  evidence : selectedEvidence inspect (parseModernNameShape sourceName).isSome ((parseLegacyName sourceName).map (·.index))
    (dir.contents identity) = .ok (some (metadata, set.evidence))
  resolved : resolveFrom sourceName identity listings.resolving none = .ok sourceName
  started : selectedScheme listings.siblings sourceName metadata = .ok (some scheme)
  candidates : discoverCandidates dir listings.members sourceName identity scheme = .ok (set.candidates, set.scheme)
  validated : validateCandidates inspect dir set.candidates set.scheme metadata set.evidence = .ok ()

theorem resolveSelectedRegularPath_eq {identity : PhysicalFileIdentity}
    (hnode : dir.node sourceName = some (.regular identity)) (listing : List DirEntry) :
    resolveSelectedRegularPath dir listing sourceName identity =
      (resolveFrom sourceName identity listing none >>= fun path => pure (path, identity)) := by
  rw [resolveSelectedRegularPath, hnode]
  dsimp only
  rw [if_neg (not_not.2 rfl)]

theorem found_of_discoverFrom (h : discoverFrom inspect dir listings sourceName = .ok (some set)) :
    ∃ identity metadata scheme, Found inspect dir listings sourceName set identity metadata scheme := by
  rw [discoverFrom] at h
  cases hnode : dir.node sourceName with
  | none =>
    rw [hnode] at h
    cases h
  | some node =>
    rw [hnode] at h
    obtain ⟨identity, hopen, hbound⟩ := bind_eq_ok.1 h
    rw [openRegularFileNoFollow_eq_ok] at hopen
    subst hopen
    unfold discoverBoundSet at hbound
    dsimp only at hbound
    split at hbound
    · cases hbound
    · obtain ⟨found, hevidence, hjudged⟩ := bind_eq_ok.1 hbound
      match found with
      | none => cases hjudged
      | some (metadata, evidence) =>
        obtain ⟨⟨path, identity'⟩, hresolve, hselected⟩ := bind_eq_ok.1 hjudged
        rw [resolveSelectedRegularPath_eq hnode] at hresolve
        obtain ⟨path', hpath, hpair⟩ := bind_eq_ok.1 hresolve
        cases hpair
        obtain rfl := eq_of_resolveFrom (listings.resolving_perm.mem_iff.2 (Directory.mem_of_node hnode)) hpath
        obtain ⟨scheme, hscheme, hstarted⟩ := bind_eq_ok.1 hselected
        match scheme with
        | none => cases hstarted
        | some scheme =>
          obtain ⟨⟨candidates, narrowed⟩, hcandidates, hgathered⟩ := bind_eq_ok.1 hstarted
          obtain ⟨⟨⟩, hvalidated, hset⟩ := bind_eq_ok.1 hgathered
          cases hset
          exact ⟨identity, metadata, scheme, hnode, hevidence, hpath, hscheme, hcandidates, hvalidated⟩

theorem discoverFrom_of_found {identity : PhysicalFileIdentity} {metadata : Option RarVolumeMetadata} {scheme : VolumeScheme}
    (h : Found inspect dir listings sourceName set identity metadata scheme)
    (hnamed : ∃ scheme, ownScheme sourceName = some scheme) :
    discoverFrom inspect dir listings sourceName = .ok (some { set with sourceParent := dir.path }) := by
  have hname : ¬ ((!(parseModernNameShape sourceName).isSome) = true ∧
      (parseLegacyName sourceName).map (·.index) = none) := by
    rintro ⟨hmodern, hlegacy⟩
    obtain ⟨own, hown⟩ := hnamed
    cases hshape : parseModernNameShape sourceName with
    | some shape =>
      rw [hshape] at hmodern
      cases hmodern
    | none =>
      rw [Option.map_eq_none_iff] at hlegacy
      rw [ownScheme, hshape] at hown
      dsimp only at hown
      rw [hlegacy] at hown
      cases hown
  rw [discoverFrom, h.node]
  dsimp only
  rw [openRegularFileNoFollow_eq_ok.2 rfl, ok_bind]
  unfold discoverBoundSet
  dsimp only
  rw [if_neg hname, h.evidence, ok_bind]
  dsimp only
  rw [resolveSelectedRegularPath_eq h.node, h.resolved, ok_bind, pure_eq_ok, ok_bind]
  dsimp only
  rw [h.started, ok_bind]
  dsimp only
  rw [h.candidates, ok_bind]
  dsimp only
  rw [h.validated]
  rfl

theorem selectedEvidence_of_ok {modernName : Bool} {legacyIndex : Option Nat} {content : List UInt8}
    {metadata : RarVolumeMetadata} (h : inspect content = .ok metadata) (hvolume : metadata.isVolume = true) :
    selectedEvidence inspect modernName legacyIndex content = .ok (some (some metadata,
      if metadata.headersEncrypted then .encryptedHeaders metadata.version else .publicHeaders)) := by
  rw [selectedEvidence, h]
  simp [hvolume]

theorem selectedEvidence_public {modernName : Bool} {legacyIndex : Option Nat} {content : List UInt8}
    {found : Option RarVolumeMetadata}
    (h : selectedEvidence inspect modernName legacyIndex content = .ok (some (found, .publicHeaders))) :
    ∃ metadata, found = some metadata ∧ inspect content = .ok metadata ∧ metadata.headersEncrypted = false := by
  rw [selectedEvidence] at h
  split at h
  · rename_i metadata hinspect
    split at h
    · cases h
    · cases hencrypted : metadata.headersEncrypted with
      | false =>
        rw [hencrypted] at h
        cases h
        exact ⟨metadata, rfl, hinspect, hencrypted⟩
      | true =>
        rw [hencrypted] at h
        cases h
  · cases h
  · split at h
    · cases h
    · split at h
      · cases h
      · cases h

end Squallz.Rar
