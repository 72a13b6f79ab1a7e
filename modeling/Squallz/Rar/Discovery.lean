/-
The volumes of a RAR set are found in a directory, from the file that was opened: by their names, and then by their
headers. Nothing in the directory changes meanwhile, so that the checks whether a path still leads to the same file are
left out; the order in which the directory is listed may be another one each time.
-/
import Squallz.Rar.Headers
import Squallz.Rar.VolumeNames
import Squallz.Volumes.Discovery

namespace Squallz.Rar

open Squallz.Api Squallz.Destination Squallz.Text
open Squallz.Volumes (missingVolume raiseIo)

/-! ## The directory -/

structure PhysicalFileIdentity where
  device : Nat
  inode : Nat
deriving DecidableEq

/-- What stands behind a name: a regular file, or anything else. -/
inductive Node
  | regular (identity : PhysicalFileIdentity)
  | other
deriving DecidableEq

structure DirEntry where
  fileName : List UInt8
  node : Node
deriving DecidableEq

/-- A directory, and the contents of the files that its entries lead to. -/
structure Directory where
  path : Path
  entries : List DirEntry
  contents : PhysicalFileIdentity → List UInt8
  named : ∀ entry ∈ entries, entry.fileName ≠ [] ∧ 0x2F ∉ entry.fileName ∧ entry.fileName ≠ [dot] ∧
    entry.fileName ≠ [dot, dot]
  distinct : (entries.map DirEntry.fileName).Nodup

def Directory.node (dir : Directory) (fileName : List UInt8) : Option Node :=
  (dir.entries.find? (·.fileName = fileName)).map DirEntry.node

/-- What `read_dir` lists in the course of one discovery: every time all entries, each time in an order of its own. -/
structure Listings (dir : Directory) where
  resolving : List DirEntry
  siblings : List DirEntry
  members : List DirEntry
  resolving_perm : resolving.Perm dir.entries
  siblings_perm : siblings.Perm dir.entries
  members_perm : members.Perm dir.entries

/-- `open_regular_file_no_follow`, with the identity of the file. -/
def openRegularFileNoFollow : Node → Res PhysicalFileIdentity
  | .regular identity => .ok identity
  | .other => corrupt "RAR volume is not a regular file"

/-- The loop of `resolve_selected_regular_path` over the entries that lead to the opened file. -/
def resolveFrom (sourceName : List UInt8) (identity : PhysicalFileIdentity) :
    List DirEntry → Option (List UInt8) → Res (List UInt8)
  | [], none => corrupt "selected RAR volume changed before its sibling set was discovered"
  | [], some path => .ok path
  | entry :: rest, identityMatch =>
    if entry.node ≠ .regular identity then resolveFrom sourceName identity rest identityMatch
    else if entry.fileName = sourceName then .ok entry.fileName
    else if identityMatch.isSome then corrupt "selected RAR volume has more than one directory entry"
    else resolveFrom sourceName identity rest (some entry.fileName)

def resolveSelectedRegularPath (dir : Directory) (listing : List DirEntry) (sourceName : List UInt8)
    (expectedIdentity : PhysicalFileIdentity) : Res (List UInt8 × PhysicalFileIdentity) :=
  match dir.node sourceName with
  | none => raiseIo .notFound "No such file or directory"
  | some .other => corrupt "selected RAR volume is not a regular file"
  | some (.regular identity) =>
    if identity ≠ expectedIdentity then corrupt "selected RAR volume path changed after it was opened"
    else do
      let path ← resolveFrom sourceName identity listing none
      pure (path, identity)

/-! ## Schemes -/

structure ModernScheme where
  base : List UInt8
  paddingCandidates : List ModernPadding
  partPrefix : List Char
  rarExtension : List Char
deriving DecidableEq

structure LegacyScheme where
  base : List UInt8
  rarExtension : List Char
  rPrefix : List Char
deriving DecidableEq

inductive VolumeScheme
  | modern (scheme : ModernScheme)
  | legacy (scheme : LegacyScheme)
deriving DecidableEq

namespace ModernScheme

def nameWithPadding (scheme : ModernScheme) (index : Nat) (canonical : Bool) (padding : ModernPadding) :
    Res (List UInt8) := do
  ensureVolumeIndex index
  match checkedAddU64 index 1 with
  | none => raise volumeLimitError
  | some number =>
    let base := if canonical then osStr "archive".toList else scheme.base
    let partPrefix := if canonical then "part".toList else scheme.partPrefix
    let rarExtension := if canonical then "rar".toList else scheme.rarExtension
    pure (base ++ osStr ('.' :: partPrefix ++ formatVolumeNumber number padding ++ '.' :: rarExtension))

def resolveCandidatePadding (scheme : ModernScheme) (digits : List Char) (index : Nat) : Res ModernScheme :=
  match checkedAddU64 index 1 with
  | none => raise volumeLimitError
  | some number =>
    let paddingCandidates := scheme.paddingCandidates.filter fun padding => formatVolumeNumber number padding = digits
    if paddingCandidates = [] then corrupt "RAR volume set mixes numbering widths"
    else .ok { scheme with paddingCandidates := paddingCandidates }

def unambiguousSourceName (scheme : ModernScheme) (index : Nat) : Res (List UInt8) :=
  match scheme.paddingCandidates with
  | [] => corrupt "RAR volume numbering has no valid width"
  | padding :: rest => do
    let first ← scheme.nameWithPadding index false padding
    rest.forM fun padding => do
      let name ← scheme.nameWithPadding index false padding
      if name ≠ first then corrupt "RAR volume numbering width cannot be determined from the available members"
      else pure ()
    pure first

def resolvedPadding (scheme : ModernScheme) : Res ModernPadding :=
  match scheme.paddingCandidates with
  | [padding] => .ok padding
  | [] => corrupt "RAR volume numbering has no valid width"
  | _ => corrupt "RAR volume numbering width cannot be determined from the available members"

end ModernScheme

def LegacyScheme.name (scheme : LegacyScheme) (index : Nat) (canonical : Bool) : Res (List UInt8) := do
  ensureVolumeIndex index
  if 100 < index then unsupported "legacy RAR volume names after .r99 are not supported"
  else
    let base := if canonical then osStr "archive".toList else scheme.base
    if index = 0 then pure (base ++ osStr ('.' :: if canonical then "rar".toList else scheme.rarExtension))
    else
      let rPrefix := if canonical then ['r'] else scheme.rPrefix
      pure (base ++ osStr ('.' :: rPrefix ++ Squallz.Volumes.padded 2 (index - 1)))

def VolumeScheme.sourceName : VolumeScheme → Nat → Res (List UInt8)
  | .modern scheme, index => do
    let padding ← scheme.resolvedPadding
    scheme.nameWithPadding index false padding
  | .legacy scheme, index => scheme.name index false

/-! ## Metadata -/

def validateNamedIndex (namedIndex : Nat) (metadata : RarVolumeMetadata) : Res Unit := do
  ensureVolumeIndex namedIndex
  if metadata.firstVolume.any (· ≠ decide (namedIndex = 0)) then
    corrupt s!"RAR first-volume flag does not match file index {namedIndex + 1}"
  else
    match metadata.index with
    | none => pure ()
    | some headerIndex => do
      ensureVolumeIndex headerIndex
      if headerIndex ≠ namedIndex then
        corrupt s!"RAR volume header index {headerIndex + 1} does not match file index {namedIndex + 1}"
      else pure ()

def validateVolumeMetadata (namedIndex : Nat) (metadata : RarVolumeMetadata) : Res Unit :=
  if !metadata.isVolume then corrupt s!"RAR file at volume index {namedIndex + 1} is not marked as a volume"
  else validateNamedIndex namedIndex metadata

def validateSequenceMember (previous : Option (Nat × RarVolumeMetadata)) (metadata : RarVolumeMetadata) : Res Unit :=
  match previous with
  | none => .ok ()
  | some (previousIndex, previous) =>
    if previous.version ≠ metadata.version then corrupt "RAR volume set mixes archive versions"
    else if previous.hasNext = some false then
      corrupt s!"RAR volume {previousIndex + 1} is marked as the last member but another volume follows"
    else .ok ()

/-- The scheme of a volume from its name and its header. -/
def nativeScheme (siblings : List DirEntry) (fileName : List UInt8) (metadata : RarVolumeMetadata) :
    Res (Option VolumeScheme) :=
  if !metadata.isVolume then .ok none
  else
    match parseModernNameShape fileName with
    | some shape => do
      let name ← checkedModernName shape
      validateNamedIndex name.index metadata
      pure (some (.modern ⟨name.base, name.paddingCandidates, name.partPrefix, name.rarExtension⟩))
    | none =>
      match parseLegacyName fileName with
      | none => unsupported "RAR volume uses an unsupported file naming scheme"
      | some name => do
        validateNamedIndex name.index metadata
        let hasLegacySibling := (siblings.filterMap fun entry => parseLegacyName entry.fileName).any fun candidate =>
          candidate.base = name.base ∧ 0 < candidate.index
        if metadata.version = .rar5 ∧ name.index = 0 ∧ !hasLegacySibling then pure none
        else pure (some (.legacy ⟨name.base, name.rarExtension, name.rPrefix⟩))

def encryptedModernScheme (fileName : List UInt8) : Res VolumeScheme :=
  match parseModernNameShape fileName with
  | none => unsupported "header-encrypted RAR volumes require partN.rar naming"
  | some shape => do
    let name ← checkedModernName shape
    ensureVolumeIndex name.index
    pure (.modern ⟨name.base, name.paddingCandidates, name.partPrefix, name.rarExtension⟩)

/-! ## Candidates -/

structure Candidate where
  index : Nat
  fileName : List UInt8
  selected : Bool
  identity : PhysicalFileIdentity
deriving DecidableEq

/-- `insert` into the candidates, which are kept in the order of their indices. -/
def insertCandidate (candidate : Candidate) (candidates : List Candidate) : List Candidate :=
  candidates.orderedInsert (fun left right => left.index ≤ right.index) candidate

/-- What a name says about its place in the set of a scheme: the index, and the scheme with the paddings that are left. -/
def VolumeScheme.memberIndex : VolumeScheme → List UInt8 → Res (Option (Nat × VolumeScheme))
  | .modern scheme, fileName =>
    match parseModernNameShape fileName with
    | none => .ok none
    | some shape =>
      if shape.base ≠ scheme.base then .ok none
      else do
        let parsed ← checkedModernName shape
        if parsed.partPrefix ≠ scheme.partPrefix ∨ parsed.rarExtension ≠ scheme.rarExtension then
          corrupt "RAR volume set mixes extension casing"
        else
          let narrowed ← scheme.resolveCandidatePadding parsed.digits parsed.index
          pure (some (parsed.index, .modern narrowed))
  | .legacy scheme, fileName =>
    match parseLegacyName fileName with
    | none => .ok none
    | some parsed =>
      if parsed.base ≠ scheme.base then .ok none
      else
        let casingMatches :=
          if parsed.index = 0 then decide (parsed.rarExtension = scheme.rarExtension)
          else decide (parsed.rPrefix = scheme.rPrefix)
        if !casingMatches then corrupt "RAR volume set mixes legacy extension casing"
        else .ok (some (parsed.index, .legacy scheme))

/-- The loop of `discover_candidates` over the entries of the directory. -/
def gatherCandidates (sourceName : List UInt8) : List DirEntry → List Candidate → VolumeScheme →
    Res (List Candidate × VolumeScheme)
  | [], candidates, scheme => .ok (candidates, scheme)
  | entry :: rest, candidates, scheme =>
    if entry.fileName = sourceName then gatherCandidates sourceName rest candidates scheme
    else do
      match ← scheme.memberIndex entry.fileName with
      | none => gatherCandidates sourceName rest candidates scheme
      | some (index, scheme) =>
        ensureVolumeIndex index
        let identity ← openRegularFileNoFollow entry.node
        if index ∈ candidates.map Candidate.index then corrupt s!"RAR volume index {index + 1} appears more than once"
        else
          let candidates := insertCandidate ⟨index, entry.fileName, false, identity⟩ candidates
          if maxRarVolumeCount < candidates.length then raise volumeLimitError
          else gatherCandidates sourceName rest candidates scheme

/-- The first index that the indices of a set leave out, when they go on behind it. -/
def firstGap : Nat → List Nat → Option Nat
  | _, [] => none
  | expected, index :: rest => if index ≠ expected then some expected else firstGap (expected + 1) rest

/-- The index that a scheme gives to the name of the selected file. -/
def VolumeScheme.selectedIndex : VolumeScheme → List UInt8 → Option Nat
  | .modern _, sourceName => (parseModernName sourceName).map (·.index)
  | .legacy _, sourceName => (parseLegacyName sourceName).map (·.index)

def discoverCandidates (dir : Directory) (listing : List DirEntry) (sourceName : List UInt8)
    (selectedIdentity : PhysicalFileIdentity) (scheme : VolumeScheme) : Res (List Candidate × VolumeScheme) :=
  match scheme.selectedIndex sourceName with
  | none => corrupt "RAR volume name is invalid"
  | some selectedIndex => do
    let (candidates, scheme) ←
      gatherCandidates sourceName listing [⟨selectedIndex, sourceName, true, selectedIdentity⟩] scheme
    match firstGap 0 (candidates.map Candidate.index) with
    | some expected => do
      let missingName ← match scheme with
        | .modern modern => modern.unambiguousSourceName expected
        | .legacy _ => scheme.sourceName expected
      missingVolume (dir.path ++ [missingName])
    | none =>
      match scheme with
      | .modern modern => do
        let _padding ← modern.resolvedPadding
        pure (candidates, scheme)
      | .legacy _ => pure (candidates, scheme)

/-! ## Headers of the candidates -/

section Inspect

variable (inspect : List UInt8 → Res RarVolumeMetadata) (dir : Directory)

/-- The metadata of a candidate: that of the selected one is known. -/
def candidateMetadata (selectedMetadata : RarVolumeMetadata) (candidate : Candidate) : Res RarVolumeMetadata :=
  if candidate.selected then .ok selectedMetadata else inspect (dir.contents candidate.identity)

/-- The loop of `validate_candidate_headers`: the last candidate with its metadata. -/
def candidateHeaders (selectedMetadata : RarVolumeMetadata) :
    List Candidate → Option (Nat × RarVolumeMetadata) → Res (Option (Nat × RarVolumeMetadata))
  | [], previous => .ok previous
  | candidate :: rest, previous => do
    let metadata ← candidateMetadata inspect dir selectedMetadata candidate
    validateVolumeMetadata candidate.index metadata
    validateSequenceMember previous metadata
    candidateHeaders selectedMetadata rest (some (candidate.index, metadata))

def validateCandidateHeaders (candidates : List Candidate) (selectedMetadata : RarVolumeMetadata)
    (scheme : VolumeScheme) : Res Unit := do
  match ← candidateHeaders inspect dir selectedMetadata candidates none with
  | none => corrupt "RAR volume set is empty"
  | some (lastIndex, metadata) =>
    if metadata.hasNext = some true then do
      match checkedAddU64 lastIndex 1 with
      | none => raise volumeLimitError
      | some missingIndex =>
        let missingName ← scheme.sourceName missingIndex
        missingVolume (dir.path ++ [missingName])
    else pure ()

def validateEncryptedRarHeader (content : List UInt8) (version : RarVersion) (namedIndex : Nat) : Res Unit :=
  match version, inspect content with
  | .rar5, .error (.raised .passwordRequired) => .ok ()
  | .rar4, .ok metadata =>
    if metadata.version = .rar4 ∧ metadata.headersEncrypted then validateVolumeMetadata namedIndex metadata
    else corrupt "RAR volume does not use the expected encrypted header format"
  | _, .ok _ => corrupt "RAR volume does not use the expected encrypted header format"
  | _, .error fault => .error fault

def validateEncryptedCandidateHeaders (candidates : List Candidate) (version : RarVersion) : Res Unit :=
  candidates.forM fun candidate =>
    if candidate.selected then pure ()
    else validateEncryptedRarHeader inspect (dir.contents candidate.identity) version candidate.index

/-! ## Discovery -/

inductive RarSetEvidence
  | publicHeaders
  | encryptedHeaders (version : RarVersion)
deriving DecidableEq

structure DiscoveredRarSet where
  scheme : VolumeScheme
  candidates : List Candidate
  sourceParent : Path
  evidence : RarSetEvidence
deriving DecidableEq

/-- The members in the order of their indices. -/
def DiscoveredRarSet.members (set : DiscoveredRarSet) : List (List UInt8) := set.candidates.map Candidate.fileName

/-- What the inspection of the selected file leads to: its metadata where it has any, and what the set is judged by;
nothing where the file is no volume of a set. -/
def selectedEvidence (modernName : Bool) (legacyIndex : Option Nat) (content : List UInt8) :
    Res (Option (Option RarVolumeMetadata × RarSetEvidence)) :=
  match inspect content with
  | .ok metadata =>
    if !metadata.isVolume then .ok none
    else .ok (some (some metadata, if metadata.headersEncrypted then .encryptedHeaders metadata.version else .publicHeaders))
  | .error (.panicked message) => .error (.panicked message)
  | .error (.raised error) =>
    if error = .passwordRequired ∧ modernName then .ok (some (none, .encryptedHeaders .rar5))
    else if !modernName ∧ legacyIndex = some 0 then .ok none
    else raise error

/-- The scheme that the selected file begins with. -/
def selectedScheme (siblings : List DirEntry) (selectedPath : List UInt8) :
    Option RarVolumeMetadata → Res (Option VolumeScheme)
  | some metadata => nativeScheme siblings selectedPath metadata
  | none => do
    let scheme ← encryptedModernScheme selectedPath
    pure (some scheme)

/-- The validation that the evidence asks for. -/
def validateCandidates (candidates : List Candidate) (scheme : VolumeScheme) :
    Option RarVolumeMetadata → RarSetEvidence → Res Unit
  | some metadata, .publicHeaders => validateCandidateHeaders inspect dir candidates metadata scheme
  | _, .encryptedHeaders version => validateEncryptedCandidateHeaders inspect dir candidates version
  | none, .publicHeaders => corrupt "RAR volume evidence is inconsistent"

def discoverBoundSet (listings : Listings dir) (sourceName : List UInt8) (sourceIdentity : Option PhysicalFileIdentity)
    (src : List UInt8) : Res (Option DiscoveredRarSet) :=
  let modernName := (parseModernNameShape sourceName).isSome
  let legacyIndex := (parseLegacyName sourceName).map (·.index)
  if !modernName ∧ legacyIndex = none then .ok none
  else do
    match ← selectedEvidence inspect modernName legacyIndex src with
    | none => pure none
    | some (selectedMetadata, evidence) =>
      match sourceIdentity with
      | none => unsupported "native RAR volume discovery requires an opened-file identity"
      | some expectedIdentity => do
        let (selectedPath, selectedIdentity) ←
          resolveSelectedRegularPath dir listings.resolving sourceName expectedIdentity
        match ← selectedScheme listings.siblings selectedPath selectedMetadata with
        | none => pure none
        | some scheme => do
          let (candidates, scheme) ← discoverCandidates dir listings.members selectedPath selectedIdentity scheme
          validateCandidates inspect dir candidates scheme selectedMetadata evidence
          pure (some ⟨scheme, candidates, dir.path, evidence⟩)

/-- Discovery from a regular file of the directory that has been opened. -/
def discoverFrom (listings : Listings dir) (sourceName : List UInt8) : Res (Option DiscoveredRarSet) :=
  match dir.node sourceName with
  | none => raiseIo .notFound "No such file or directory"
  | some node => do
    let identity ← openRegularFileNoFollow node
    discoverBoundSet inspect dir listings sourceName (some identity) (dir.contents identity)

end Inspect

/-- `inspect_rar` of a whole file. -/
def inspectFile (content : List UInt8) : Res RarVolumeMetadata :=
  match inspectRar ⟨content, 0⟩ (content.length + 1) with
  | some (result, _) => result
  | none => Api.panic "out of rounds"

end Squallz.Rar
