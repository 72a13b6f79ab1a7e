/-
The digest of the state of a destination: the tree below it, the budget of entries, and the pass over the tree that feeds the
hash.
-/
import Mathlib.Data.List.Sort
import Squallz.Api.Times
import Squallz.Inputs.Items
import Squallz.System.Program

namespace Squallz.Destination

open Squallz.Api Squallz.Bytes Squallz.Inputs Squallz.System

def maxTreeDepth : Nat := 64
def maxTreeEntries : Nat := 200000

/-- `usize::MAX`. -/
def usizeMax : Nat := 2 ^ 64 - 1

/-! ## Trees -/

/-- The name of a directory entry. -/
structure OsName where
  bytes : List UInt8
  nonempty : bytes ≠ []
  noSlash : 47 ∉ bytes
  sized : bytes.length < 2 ^ 63
deriving DecidableEq

theorem OsName.ext {a b : OsName} (h : a.bytes = b.bytes) : a = b := by
  cases a
  cases b
  cases h
  rfl

/-- What is hashed of the metadata of an entry. -/
structure HashedMetadata where
  len : UInt64
  readonly : Bool
  modified : Option SystemTime
  mode : UInt32
deriving DecidableEq

structure Metadata where
  hashed : HashedMetadata
  /-- The time of the last change, which only tells whether the entry was left alone. -/
  changed : Int × Int
deriving DecidableEq

/-- A tree that nobody changes: a regular file is as long as its metadata say. -/
inductive Node
  | file (identity : PathIdentity) (metadata : Metadata) (content : List UInt8)
      (sized : metadata.hashed.len.toNat = content.length)
  | directory (identity : PathIdentity) (metadata : Metadata) (names : List OsName) (distinct : names.Nodup)
      (child : OsName → Node)
  | symlink (identity : PathIdentity) (metadata : Metadata) (target : List UInt8) (sized : target.length < 2 ^ 63)
  | other (identity : PathIdentity) (metadata : Metadata)

/-- The order in which `read_dir` lists a directory, which may be another one the second time. -/
structure Enumeration where
  list : (path : List OsName) → (again : Bool) → List OsName → List OsName
  perm : ∀ path again names, (list path again names).Perm names

inductive DirectoryMemberType
  | file | directory | symlink | other
deriving DecidableEq

structure DirectoryMemberState where
  name : OsName
  identity : PathIdentity
  entryType : DirectoryMemberType
  metadata : Metadata
  symlinkTarget : Option (List UInt8)
deriving DecidableEq

def directoryMemberState (name : OsName) : Node → DirectoryMemberState
  | .file identity metadata _ _ => ⟨name, identity, .file, metadata, none⟩
  | .directory identity metadata _ _ _ => ⟨name, identity, .directory, metadata, none⟩
  | .symlink identity metadata target _ => ⟨name, identity, .symlink, metadata, some target⟩
  | .other identity metadata => ⟨name, identity, .other, metadata, none⟩

/-! ## Fields -/

def identityField (identity : PathIdentity) : List UInt8 :=
  leBytes 8 identity.filesystem.toNat ++ leBytes 8 identity.entry.toNat

/-- `hash_stable_metadata`. -/
def stableMetadataField (metadata : HashedMetadata) : List UInt8 :=
  leBytes 8 metadata.len.toNat ++ ([if metadata.readonly then 1 else 0] ++
    (systemTimeField metadata.modified ++ leBytes 4 metadata.mode.toNat))

/-- `append_relative`: no string is longer than `isize::MAX`. -/
def appendRelative (parent : List UInt8) (name : OsName) : Res (List UInt8) :=
  if parent = [] then .ok name.bytes
  else
    let path := (if parent.getLast? = some 47 then parent else parent ++ [47]) ++ name.bytes
    if path.length < 2 ^ 63 then .ok path else Api.panic "capacity overflow"

/-! ## The budget -/

structure TreeDigestBudget where
  visitedEntries : Nat
  pendingEntries : Nat
  maxEntries : Nat

namespace TreeDigestBudget

def new (maxEntries : Nat) : TreeDigestBudget := ⟨0, 0, maxEntries⟩

def limitError (budget : TreeDigestBudget) : FormatError :=
  .resourceLimitExceeded s!"destination tree exceeds {budget.maxEntries} entries"

def enter (budget : TreeDigestBudget) : TreeDigestBudget × Res Unit :=
  let budget := { budget with visitedEntries := min (budget.visitedEntries + 1) usizeMax }
  (budget, if budget.maxEntries < budget.visitedEntries then raise budget.limitError else .ok ())

def remainingCollectionCapacity (budget : TreeDigestBudget) : Nat :=
  min (budget.maxEntries - budget.visitedEntries) (budget.maxEntries - budget.pendingEntries)

def reservePending (budget : TreeDigestBudget) (entries : Nat) : TreeDigestBudget × Res Unit :=
  if usizeMax < budget.pendingEntries + entries then
    (budget, raise (.resourceLimitExceeded "destination tree pending-entry budget overflowed"))
  else
    let budget := { budget with pendingEntries := budget.pendingEntries + entries }
    (budget, if budget.maxEntries < budget.pendingEntries then raise budget.limitError else .ok ())

def releasePending (budget : TreeDigestBudget) (entries : Nat) : TreeDigestBudget :=
  { budget with pendingEntries := budget.pendingEntries - entries }

end TreeDigestBudget

/-! ## The pass -/

/-- A digest at work: what the hash was fed with, the budget and the bytes read for `DigestProgress`; and, kept apart from the
budget, how many entries were let in and how many are held in the lists of the directories at work. -/
structure Hashing where
  stream : List UInt8
  budget : TreeDigestBudget
  bytesRead : Nat
  visits : Nat
  held : Nat

def Hashing.new (maxEntries : Nat) : Hashing := ⟨[], .new maxEntries, 0, 0, 0⟩

abbrev Hash (α : Type) := Prog Hashing Fault α

/-- A call of the budget. -/
def onBudget (f : TreeDigestBudget → TreeDigestBudget × Res Unit) : Hash Unit :=
  .step (fun s => { s with budget := (f s.budget).1 }) fun s => .ofExcept (f s.budget).2

def feed (bytes : List UInt8) : Hash Unit := .update fun s => { s with stream := s.stream ++ bytes }

/-- `DigestProgress::advance`. -/
def advance (bytes : Nat) : Hash Unit :=
  .step (fun s => { s with bytesRead := if s.bytesRead + bytes < 2 ^ 64 then s.bytesRead + bytes else s.bytesRead }) fun s =>
    if s.bytesRead + bytes < 2 ^ 64 then pure ()
    else .fail (.raised (.resourceLimitExceeded "destination contents exceed the supported progress range"))

/-- What is done first at every entry. -/
def enterEntry (relative : List UInt8) (depth : Nat) : Hash Unit :=
  if maxTreeDepth < depth then
    .fail (.raised (.resourceLimitExceeded s!"destination tree exceeds {maxTreeDepth} levels"))
  else do
    onBudget TreeDigestBudget.enter
    .update fun s => { s with visits := s.visits + 1 }
    feed (bytesField relative)

/-- The first listing of a directory, with the names collected so far. -/
def collectChildren (capacity : Nat) (children : List OsName) : List OsName → Hash (List OsName)
  | [] => pure children
  | name :: rest =>
    if capacity ≤ children.length then
      .step (fun s => { s with held := s.held - children.length }) fun s => .fail (.raised s.budget.limitError)
    else do
      .update fun s => { s with held := s.held + 1 }
      collectChildren capacity (children ++ [name]) rest

def destinationChanged {α : Type} : Res α := raise (.io ⟨.other, "destination changed"⟩)

/-- One entry of the second listing, with the members that were seen in it. -/
def observeMember (members : List DirectoryMemberState) (seen : List Bool) (observed : DirectoryMemberState) :
    Res (List Bool) :=
  match members.findIdx? fun expected => expected.name = observed.name with
  | none => destinationChanged
  | some index =>
    if seen[index]? = some true ∨ members[index]? ≠ some observed then destinationChanged
    else .ok (seen.set index true)

/-- The second listing of a directory. -/
def observeMembers (members : List DirectoryMemberState) (observed : List DirectoryMemberState) : Res Unit := do
  let seen ← observed.foldlM (observeMember members) (List.replicate members.length false)
  if seen.any (!·) then destinationChanged else pure ()

def sortNames (names : List OsName) : List OsName :=
  names.insertionSort fun left right => left.bytes ≤ right.bytes

/-- `release_pending`, with which the children of a directory are no longer held. -/
def releaseChildren (entries : Nat) : Hash Unit :=
  .update fun s => { s with budget := s.budget.releasePending entries, held := s.held - entries }

/-- `hash_entry`, in a tree that nobody changes. -/
def hashEntry (listing : Enumeration) : Node → List OsName → List UInt8 → Nat → Hash Unit
  | .file identity metadata content _, _, relative, depth => do
    enterEntry relative depth
    feed [1]
    feed (identityField identity)
    feed (stableMetadataField metadata.hashed)
    feed content
    advance content.length
  | .symlink identity metadata target _, _, relative, depth => do
    enterEntry relative depth
    feed [3]
    feed (identityField identity)
    feed (stableMetadataField metadata.hashed)
    feed (bytesField target)
  | .other _ _, _, relative, depth => do
    enterEntry relative depth
    .fail (.raised (.unsupported "destination contains an unsupported filesystem entry"))
  | .directory identity metadata names _ child, path, relative, depth => do
    enterEntry relative depth
    feed [2]
    feed (identityField identity)
    feed (stableMetadataField metadata.hashed)
    let capacity ← .observe fun s => .ok s.budget.remainingCollectionCapacity
    let children ← collectChildren capacity [] (listing.list path false names)
    onBudget (·.reservePending children.length)
    let sorted := sortNames children
    let result ← Prog.attempt do
      feed (leBytes 8 sorted.length)
      sorted.forM fun name => do
        let childRelative ← .ofExcept (appendRelative relative name)
        hashEntry listing (child name) (path ++ [name]) childRelative (depth + 1)
      .ofExcept (observeMembers (sorted.map fun name => directoryMemberState name (child name))
        ((listing.list path true names).map fun name => directoryMemberState name (child name)))
    releaseChildren children.length
    .ofExcept result

/-- The bytes behind a state digest. -/
def hashTree (listing : Enumeration) (maxEntries : Nat) (root : Node) : Except Fault Unit × Hashing :=
  (hashEntry listing root [] [] 0).run (.new maxEntries)

/-! ## Split families -/

/-- A member of a split family with its digest. -/
structure FamilyMember where
  name : OsName
  digest : List UInt8
  digest_length : digest.length = 32

/-- No more members than a vector holds. -/
structure SplitFamily where
  members : List FamilyMember
  sized : members.length < 2 ^ 63

def SplitFamily.ordered (family : SplitFamily) : List FamilyMember :=
  family.members.insertionSort fun left right => left.name.bytes ≤ right.name.bytes

def familyMemberField (member : FamilyMember) : List UInt8 := bytesField member.name.bytes ++ member.digest

/-- The bytes that `split_family_state_digest_from_paths_with_progress` hashes. -/
def splitFamilyStream (family : SplitFamily) : List UInt8 :=
  utf8Bytes "squallz-destination-split-family-v1" ++
    (0 :: (leBytes 8 family.ordered.length ++ family.ordered.flatMap familyMemberField))

end Squallz.Destination
