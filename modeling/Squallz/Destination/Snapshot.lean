/-
Automatic numbering of a create destination: the conflicts of a name with one directory snapshot, and the first
number that no entry is read back as.
-/
import Squallz.Destination.Names
import Squallz.Inputs.Items

namespace Squallz.Destination

open Squallz.Api Squallz.Inputs Squallz.Text

/-! ## Snapshots -/

inductive CreateArtifactKind
  | archive | splitArchive | sfxSingleFile | sfxMacosApp
deriving DecidableEq, Repr

/-- `MAX_DIRECTORY_SNAPSHOT_ENTRIES`. -/
def maxDirectorySnapshotEntries : Nat := 200000

structure DirectorySnapshot where
  entries : List Path
  bounded : entries.length ≤ maxDirectorySnapshotEntries

/-- The loop of `from_paths`, with the entries read so far. -/
def readPaths (entries : List Path) (bounded : entries.length ≤ maxDirectorySnapshotEntries) :
    List (Res Path) → Res DirectorySnapshot
  | [] => pure ⟨entries, bounded⟩
  | path :: rest =>
    if h : maxDirectorySnapshotEntries ≤ entries.length then
      raise (.resourceLimitExceeded
        s!"destination directory snapshot exceeds {maxDirectorySnapshotEntries} entries")
    else
      match path with
      | .ok path => readPaths (entries ++ [path]) (by rw [List.length_append, List.length_singleton]; omega) rest
      | .error fault => .error fault

def DirectorySnapshot.fromPaths (paths : List (Res Path)) : Res DirectorySnapshot :=
  readPaths [] (Nat.zero_le _) paths

def entryNamesMayAlias (a b : List UInt8) : Bool :=
  if a = b then true
  else
    match toStr a, toStr b with
    | some a, some b =>
      if a.all (·.val < 128) && b.all (·.val < 128) then eqIgnoreAsciiCase a b else true
    | _, _ => true

/-- Whether an entry is the expected path, on a file system with these identities. -/
def snapshotEntryMatches (pathIdentity : Path → Option PathIdentity) (expected observed : Path) : Bool :=
  if expected = observed then true
  else
    match fileName expected, fileName observed with
    | some expectedName, some observedName =>
      entryNamesMayAlias expectedName observedName && (pathIdentity expected).isSome &&
        pathIdentity expected = pathIdentity observed
    | _, _ => false

/-! ## Conflicts -/

def normalizedDestination (destination : Path) (kind : CreateArtifactKind) : Res Path :=
  if kind ≠ .splitArchive then pure destination
  else
    match (fileName destination).bind toStr with
    | none => raise (.unsupported "invalid split output file name")
    | some name =>
      match splitVolumeName name with
      | some (base, _) => pure (withFileName destination (osStr base))
      | none => pure destination

section Matching

variable (entriesMatch : Path → Path → Bool)

/-- Whether an entry is a member of the split family of a base. -/
def matchesMember (base : Path) (includeRecovery : Bool) (entry : Path) : Bool :=
  ((((fileName entry).bind toStr).bind fun name => expectedManagedSplitOutputPath base name includeRecovery).any
    (entriesMatch · entry))

def DirectorySnapshot.hasConflictWith (snapshot : DirectorySnapshot) (destination : Path) (kind : CreateArtifactKind) :
    Res Bool := do
  let destination ← normalizedDestination destination kind
  if kind ≠ .splitArchive then pure (snapshot.entries.any (entriesMatch destination ·))
  else
    let includeRecovery := isSqzBase destination
    pure (snapshot.entries.any fun entry =>
      entriesMatch destination entry || matchesMember entriesMatch destination includeRecovery entry)

def canonicalNumberedCandidate (parent numberingBase : Path) (number : Nat) : Res Path :=
  match fileName (numberedCreateDestination numberingBase number) with
  | some name => pure (parent ++ [name])
  | none => raise (.unsupported "create destination candidate has no file name")

/-- The base of the split family that a name looks like a member of. -/
def managedBaseName (name : List Char) (includeRecovery : Bool) : Option (List Char) :=
  match splitVolumeName name with
  | some (base, _) => some base
  | none =>
    if includeRecovery then
      (sqzRecoverySuffix name).bind fun suffix =>
        if suffix.1 <:+ name then some (name.take (name.length - suffix.1.length)) else none
    else none

/-- The number of an entry that stands at the path of a numbered name. -/
def ownNumbers (parent numberingBase : Path) (name : List Char) (entry : Path) : Res (List Nat) :=
  match numberedCreateDestinationIndex name with
  | none => pure []
  | some number => do
    let candidate ← canonicalNumberedCandidate parent numberingBase number
    pure (if entriesMatch candidate entry then [number] else [])

/-- The number of an entry that is a member of the split family of a numbered name. -/
def memberNumbers (parent numberingBase : Path) (includeRecovery : Bool) (name : List Char) (entry : Path) :
    Res (List Nat) :=
  match (managedBaseName name includeRecovery).bind numberedCreateDestinationIndex with
  | none => pure []
  | some number => do
    let candidate ← canonicalNumberedCandidate parent numberingBase number
    match expectedManagedSplitOutputPath candidate name includeRecovery with
    | none => pure []
    | some expectedMember => pure (if entriesMatch expectedMember entry then [number] else [])

/-- The numbers that one entry is read back as. -/
def entryNumbers (parent numberingBase : Path) (kind : CreateArtifactKind) (includeRecovery : Bool) (entry : Path) :
    Res (List Nat) :=
  match (fileName entry).bind toStr with
  | none => pure []
  | some name => do
    let own ← ownNumbers entriesMatch parent numberingBase name entry
    if kind ≠ .splitArchive then pure own
    else do
      let members ← memberNumbers entriesMatch parent numberingBase includeRecovery name entry
      pure (own ++ members)

/-- The numbers that the entries are read back as. -/
def DirectorySnapshot.numberedConflictsWith (snapshot : DirectorySnapshot) (parent numberingBase : Path)
    (kind : CreateArtifactKind) : Res (List Nat) := do
  let includeRecovery := isSqzBase numberingBase
  let numbers ← snapshot.entries.mapM (entryNumbers entriesMatch parent numberingBase kind includeRecovery)
  pure numbers.flatten

/-- The search for the first number that is not occupied, up to the largest one. -/
def freeNumber (occupied : List Nat) : Nat → Nat → Res Nat
  | 0, _ => raise (.resourceLimitExceeded "create destination suffix space is exhausted")
  | left + 1, number => if number ∈ occupied then freeNumber occupied left (number + 1) else pure number

def findAvailableCreateDestination (canonicalize : Path → Res Path) (readSnapshot : Path → Res DirectorySnapshot)
    (destination : Path) (kind : CreateArtifactKind) : Res Path := do
  let requestedName ← match (fileName destination).filter (· ≠ []) with
    | some name => pure name
    | none => raise (.unsupported "destination path has no file name")
  let numberingBase ← normalizedDestination destination kind
  let canonicalParent ← canonicalize (parent destination)
  let snapshot ← readSnapshot canonicalParent
  let conflict ← snapshot.hasConflictWith entriesMatch (canonicalParent ++ [requestedName]) kind
  if !conflict then pure destination
  else do
    let occupiedNumbers ← snapshot.numberedConflictsWith entriesMatch canonicalParent numberingBase kind
    let number ← freeNumber occupiedNumbers (2 ^ 64 - 2) 2
    pure (numberedCreateDestination numberingBase number)

end Matching

end Squallz.Destination
