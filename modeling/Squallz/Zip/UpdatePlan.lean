/-
Planning an update of a ZIP: directory operations are resolved against the original archive, and the
resulting namespace is checked before any entry is written.
-/
import Squallz.Zip.Selection

namespace Squallz.Zip

open Squallz.Api

/-! ## Namespaces -/

/-- The keys of files and of directories, those above an entry among them, and the keys of the entries
themselves. -/
structure Namespace where
  files : List (List UInt8)
  directories : List (List UInt8)
  entries : List (List UInt8)

namespace Namespace

def empty : Namespace := ⟨[], [], []⟩

def insert (ns : Namespace) (key : List UInt8) (directory : Bool) : Namespace :=
  { files := if directory then ns.files else key :: ns.files
    directories := parents key ++ if directory then key :: ns.directories else ns.directories
    entries := key :: ns.entries }

def contains (ns : Namespace) (key : List UInt8) : Bool := ns.files.contains key || ns.directories.contains key

def blocks (ns : Namespace) (key : List UInt8) (directory : Bool) : Bool :=
  ns.files.contains key || (!directory && ns.directories.contains key) ||
    (parents key).any fun parent => ns.files.contains parent

end Namespace

/-! ## The plan -/

structure ArchiveName where
  path : EntryPath
  key : List UInt8
  directory : Bool
  deleted : Bool

def safeTarget (path : String) : Res String := do
  let relative ← sanitizeEntryPath (.fromUtf8 path)
  pure (joinPath relative)

def validateTarget (target : String) (directory : Bool) (retained produced : Namespace) : Res Namespace := do
  let key ← safeTarget target
  let key := utf8Bytes key
  if retained.contains key || retained.blocks key directory then
    raise (.other s!"update target already exists in archive: {target}")
  else if produced.entries.contains key || produced.blocks key directory then
    raise (.other s!"duplicate update target in archive: {target}")
  else pure (produced.insert key directory)

section

variable {Encoding Glob : Type} (crates : Crates Encoding Glob)

structure Rename (Encoding : Type) where
  target : String
  directory : Bool
  encoding : Option Encoding

structure UpdatePlan (Encoding : Type) where
  deletes : Deletions
  renames : List (List UInt8 × String)
  encoding : Option Encoding

def isUtf8Label (encoding : String) : Bool := toAsciiLowercase encoding == "utf-8"

/-- The renames that have been requested so far by their source keys, and their targets. -/
structure Requested (Encoding : Type) where
  renames : List (List UInt8 × Rename Encoding)
  destinations : List String

/-- One rename of the loop over the operations. -/
def requestRename (lookup : NameLookup) (original : Namespace) (fallback : Option Encoding)
    (requested : Requested Encoding) (selection : EntrySelection) (target : EntryPath) :
    Res (Requested Encoding) := do
  let selected ← lookup.resolve selection true
  let source := selected.path
  let key := pathKey source.raw
  let directory := original.directories.contains key
  if (selected.directory || directory) && source.display.toList.contains '\\' then
    raise (.unsupported "directory renaming requires forward-slash path separators")
  else if !original.contains key || (source.raw.getLast? == some slash && !directory) then
    raise (.other s!"rename source not found in archive: {source.display}")
  else if directory && original.files.contains key && !selected.directory then
    raise (.other s!"ambiguous rename source: {source.display}")
  else do
    let safe ← safeTarget target.display
    let sourceDisplay := trimEndSlashes (source.normalizedDisplay directory)
    if key = utf8Bytes safe ∨ sourceDisplay = safe ∨
        (directory ∧ ((sourceDisplay ++ "/").toList.isPrefixOf safe.toList ∨
          (key ++ [slash]).isPrefixOf (utf8Bytes safe))) then
      raise (.other s!"rename target must be outside the source: {source.display} -> {target.display}")
    else if !directory && endsWithSlash target.display then
      raise (.other s!"file rename target is a directory: {target.display}")
    else if requested.destinations.contains safe then
      raise (.other s!"duplicate update target in archive: {target.display}")
    else if (requested.renames.lookup key).isSome then
      raise (.other s!"duplicate rename source: {source.display}")
    else
      let encoding := if isUtf8Label source.encoding then fallback else (crates.forLabel source.encoding).or fallback
      pure ⟨requested.renames ++ [(key, ⟨safe, directory, encoding⟩)], safe :: requested.destinations⟩

/-- The loop over the operations. -/
def requestRenames (lookup : NameLookup) (original : Namespace) (fallback : Option Encoding) :
    List UpdateOp → Requested Encoding → Res (Requested Encoding)
  | [], requested => pure requested
  | .rename source target :: ops, requested => do
    let requested ← requestRename crates lookup original fallback requested source target
    requestRenames lookup original fallback ops requested
  | _ :: ops, requested => requestRenames lookup original fallback ops requested

/-- A requested source below a requested directory. -/
def overlapping (requested : List (List UInt8 × Rename Encoding)) : Option (List UInt8) :=
  (requested.map (·.1)).find? fun source =>
    (parents source).any fun parent => (requested.lookup parent).any (·.directory)

/-- The request that moves an entry: its own, or that of a directory above it. -/
def requestOf (requested : List (List UInt8 × Rename Encoding)) (name : ArchiveName) :
    Option (List UInt8 × Rename Encoding) :=
  let own := (requested.lookup name.key).filter fun item => item.directory == name.directory
  match own with
  | some item => some (name.key, item)
  | none => (parents name.key).findSome? fun parent =>
      ((requested.lookup parent).filter (·.directory)).map fun item => (parent, item)

def unambiguousEncodingNeeded : String :=
  "renaming this directory requires an unambiguous entry-name encoding"

/-- The new name of an entry that a request moves. -/
def renamedTo (name : ArchiveName) (source : List UInt8) (request : Rename Encoding) : Res String := do
  let suffix := name.key.drop source.length
  let suffix ← match fromUtf8 suffix, isUtf8Label name.path.encoding with
    | some suffix, true => pure suffix
    | _, _ =>
      match request.encoding with
      | none => unsupported unambiguousEncodingNeeded
      | some encoding =>
        match crates.decodeWithoutBomHandling encoding suffix with
        | (_, true) => unsupported unambiguousEncodingNeeded
        | (suffix, false) => pure suffix
  let target ← safeTarget (request.target ++ suffix)
  pure (target ++ if name.directory then "/" else "")

/-- The keys under which a kept entry is recorded. -/
def retain (retained : Namespace) (name : ArchiveName) : Namespace :=
  let display := name.path.display
  let retained := retained.insert name.key name.directory
  let retained := if utf8Bytes display ≠ name.path.raw then
      retained.insert (pathKey (utf8Bytes display)) name.directory
    else retained
  let normalized := name.path.normalizedDisplay name.directory
  if normalized ≠ display then retained.insert (pathKey (utf8Bytes normalized)) name.directory else retained

/-- The loop that renames or keeps every entry that is not deleted. -/
def splitNames (requested : List (List UInt8 × Rename Encoding)) :
    List ArchiveName → List (List UInt8 × String) × Namespace → Res (List (List UInt8 × String) × Namespace)
  | [], acc => pure acc
  | name :: names, (renames, retained) =>
    if name.deleted then splitNames requested names (renames, retained)
    else
      match requestOf requested name with
      | some (source, request) => do
        let target ← renamedTo crates name source request
        splitNames requested names ((name.path.raw, target) :: renames, retained)
      | none => splitNames requested names (renames, retain retained name)

/-- `validate_target` over the renamed entries of the archive. -/
def validateRenames (renames : List (List UInt8 × String)) (retained : Namespace) :
    List ArchiveName → Namespace → Res Namespace
  | [], produced => pure produced
  | name :: names, produced =>
    match renames.lookup name.path.raw with
    | some target => do
      let produced ← validateTarget target name.directory retained produced
      validateRenames renames retained names produced
    | none => validateRenames renames retained names produced

/-- `validate_target` over the additions. -/
def validateAdditions (retained : Namespace) : List EntryMeta → Namespace → Res Namespace
  | [], produced => pure produced
  | entry :: entries, produced => do
    let produced ← validateTarget entry.path.display (entry.entryType == .dir) retained produced
    validateAdditions retained entries produced

/-- The names of the archive before any operation. -/
def archiveNames (rawNames : List (List UInt8 × Bool)) (fallback : Option Encoding) : List ArchiveName :=
  rawNames.map fun name => ⟨decodeEntryName crates name.1 fallback, pathKey name.1, name.2, false⟩

/-- `prepare` over the raw names and directory marks of the archive. -/
def prepare (rawNames : List (List UInt8 × Bool)) (ops : List UpdateOp) (additions : List EntryMeta)
    (encoding : Option String) : Res (UpdatePlan Encoding) := do
  let fallback := resolveFallbackEncoding crates (rawNames.map (·.1)) encoding
  let names := archiveNames crates rawNames fallback
  let lookup := NameLookup.new crates (names.map fun name => (name.path, name.directory))
  let deletes ← Deletions.new crates ops lookup
  let deletes := names.foldl (fun deletes name => deletes.observe name.path.raw) deletes
  let names := names.map fun name => { name with deleted := deletes.matches name.path }
  let original := names.foldl (fun original name => original.insert name.key name.directory) .empty
  deletes.validate
  let requested ← requestRenames crates lookup original fallback ops ⟨[], []⟩
  match overlapping requested.renames with
  | some source => raise (.other s!"overlapping rename sources: {(decodeEntryName crates source fallback).display}")
  | none => do
    let (renames, retained) ← splitNames crates requested.renames names ([], .empty)
    match requested.renames.find? fun item => item.2.directory && retained.contains (utf8Bytes item.2.target) with
    | some item => raise (.other s!"update target already exists in archive: {item.2.target}")
    | none => do
      let produced ← validateRenames renames retained names .empty
      let _ ← validateAdditions retained additions produced
      pure ⟨deletes, renames, fallback⟩

/-! ## The rewrite -/

/-- An entry of the rewritten archive: an original entry under its raw name or its rename target, or an
addition. -/
inductive Emitted
  | original (index : Nat) (raw : List UInt8) (directory : Bool) (rename : Option String)
  | addition (index : Nat) (entry : EntryMeta)
deriving DecidableEq, Repr

/-- The loop of `rewrite` over the original entries: deleted ones are dropped, and the others are copied raw. -/
def copyEntries (plan : UpdatePlan Encoding) : List (List UInt8 × Bool) → Nat → List Emitted
  | [], _ => []
  | (raw, directory) :: rest, index =>
    if plan.deletes.matches (decodeEntryName crates raw plan.encoding) then copyEntries plan rest (index + 1)
    else .original index raw directory (plan.renames.lookup raw) :: copyEntries plan rest (index + 1)

/-- The loop of `rewrite` over the additions. -/
def addEntries : List EntryMeta → Nat → List Emitted
  | [], _ => []
  | entry :: rest, index => .addition index entry :: addEntries rest (index + 1)

/-- `rewrite`: the entries that are written, in order. -/
def rewrite (plan : UpdatePlan Encoding) (rawNames : List (List UInt8 × Bool)) (additions : List EntryMeta) :
    List Emitted := copyEntries crates plan rawNames 0 ++ addEntries additions 0

end

end Squallz.Zip
