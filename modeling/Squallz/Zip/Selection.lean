/-
Which entries of a ZIP an update names: decoded entry names, the lookup of displayed names, and the
deletions by pattern and by literal entry.
-/
import Squallz.Api.Names

namespace Squallz.Zip

open Squallz.Api

/-! ## Update operations -/

inductive EntrySelection
  | raw (path : EntryPath)
  | display (display : String)
deriving DecidableEq, Repr

inductive UpdateOp
  | add (dest : EntryPath)
  | addDir (path : EntryPath)
  | delete (pattern : String)
  | deleteEntry (path : EntrySelection)
  | rename (source : EntrySelection) (target : EntryPath)
deriving DecidableEq, Repr

/-! ## Text encodings and globs -/

/-- The functions of the text codecs, the encoding detector and the glob matcher. -/
structure Crates (Encoding Glob : Type) where
  forLabel : String → Option Encoding
  encodingName : Encoding → String
  utf8 : Encoding
  decode : Encoding → List UInt8 → String
  decodeWithoutBomHandling : Encoding → List UInt8 → String × Bool
  guess : List (List UInt8) → Encoding
  buildGlob : String → Except String Glob
  buildGlobSet : List Glob → Except String (String → Bool)

/-- Codecs for archives whose names are all UTF-8, and globs that match themselves. -/
def plainCrates : Crates Unit String where
  forLabel _ := some ()
  encodingName _ := "UTF-8"
  utf8 := ()
  decode _ := fromUtf8Lossy
  decodeWithoutBomHandling _ raw := (fromUtf8Lossy raw, (fromUtf8 raw).isNone)
  guess _ := ()
  buildGlob := .ok
  buildGlobSet globs := .ok globs.contains

section

variable {Encoding Glob : Type} (crates : Crates Encoding Glob)

/-- `resolve_fallback_encoding`. -/
def resolveFallbackEncoding (rawNames : List (List UInt8)) (overrideLabel : Option String) : Option Encoding :=
  match overrideLabel.bind crates.forLabel with
  | some encoding => some encoding
  | none =>
    match rawNames.filter fun name => (fromUtf8 name).isNone with
    | [] => none
    | fed => some (crates.guess fed)

def decodeEntryName (raw : List UInt8) (fallback : Option Encoding) : EntryPath :=
  match fromUtf8 raw with
  | some s => ⟨raw, s, "utf-8"⟩
  | none =>
    match fallback with
    | some enc => ⟨raw, crates.decode enc raw, crates.encodingName enc⟩
    | none => ⟨raw, fromUtf8Lossy raw, "utf-8"⟩

theorem decodeEntryName_raw (raw : List UInt8) (fallback : Option Encoding) :
    (decodeEntryName crates raw fallback).raw = raw := by
  unfold decodeEntryName
  split
  · rfl
  · split
    · rfl
    · rfl

/-! ## Displayed names -/

structure Candidate where
  path : EntryPath
  directory : Bool
  ambiguous : Bool
deriving DecidableEq, Repr

structure SelectedName where
  path : EntryPath
  directory : Bool
deriving DecidableEq, Repr

structure NameLookup where
  names : List (String × Candidate)
  ambiguous : List String

namespace NameLookup

/-- One name of `insert`: the first entry keeps it, and another one under it makes it ambiguous. -/
def insertName (lookup : NameLookup) (path : EntryPath) (directory : Bool) (name : String) : NameLookup :=
  match lookup.names.lookup name with
  | some existing =>
    if !existing.ambiguous && (existing.path.raw != path.raw || existing.directory != directory) then
      { names := lookup.names.map fun entry =>
          if entry.1 = name then (name, { entry.2 with ambiguous := true }) else entry
        ambiguous := lookup.ambiguous ++ [name] }
    else lookup
  | none => { lookup with names := lookup.names ++ [(name, ⟨path, directory, false⟩)] }

def insert (lookup : NameLookup) (path : EntryPath) (directory : Bool) : NameLookup :=
  let original := if directory && !endsWithSeparator path.display then path.display ++ "/" else path.display
  (lookup.insertName path directory original).insertName path directory (path.normalizedDisplay directory)

/-- The directories that the separators inside a raw name imply. -/
def insertParents (lookup : NameLookup) (path : EntryPath) : NameLookup :=
  let encoding := (crates.forLabel path.encoding).getD crates.utf8
  (List.range path.raw.length).foldl (fun lookup index =>
    if (path.raw[index]? = some slash ∨ path.raw[index]? = some backslash) ∧ index + 1 < path.raw.length then
      let raw := path.raw.take (index + 1)
      let display := (crates.decodeWithoutBomHandling encoding raw).1
      if endsWithSeparator display then lookup.insert ⟨raw, display, path.encoding⟩ true else lookup
    else lookup) lookup

def new (entries : List (EntryPath × Bool)) : NameLookup :=
  entries.foldl (fun lookup entry => (lookup.insert entry.1 entry.2).insertParents crates entry.1) ⟨[], []⟩

def ambiguousError {α : Type} (path : String) : Res α :=
  raise (.other s!"ambiguous selected entry in archive: {path}")

def resolve (lookup : NameLookup) (selection : EntrySelection) (allowDirectoryWithoutSlash : Bool) :
    Res SelectedName :=
  match selection with
  | .raw path => pure ⟨path, path.raw.getLast? == some slash⟩
  | .display display =>
    if display.isEmpty then raise (.other "selected entry path cannot be empty")
    else
      let exact := lookup.names.lookup display
      let directory :=
        if allowDirectoryWithoutSlash && !endsWithSlash display then lookup.names.lookup (display ++ "/") else none
      if exact.any fun left => directory.any fun right => left.path.raw != right.path.raw then
        ambiguousError display
      else
        match exact.or directory with
        | none => raise (.other s!"selected entry not found in archive: {display}")
        | some candidate =>
          if candidate.ambiguous then ambiguousError display
          else
            let shadowing := if candidate.directory then
                lookup.ambiguous.find? fun name =>
                  (candidate.path.normalizedDisplay true).toList.isPrefixOf name.toList
              else none
            match shadowing with
            | some name => ambiguousError name
            | none => pure ⟨candidate.path, candidate.directory⟩

end NameLookup

/-! ## Deletions -/

structure LiteralSelection where
  display : String
  directory : Bool
  found : Bool
deriving DecidableEq, Repr

structure Deletions where
  patterns : Option (String → Bool)
  entries : List (List UInt8 × LiteralSelection)

namespace Deletions

/-- The paths with their separator that a raw name goes through. -/
def directories (raw : List UInt8) : List (List UInt8) :=
  (List.range raw.length).filterMap fun index =>
    if raw[index]? = some slash ∨ raw[index]? = some backslash then some (raw.take (index + 1)) else none

/-- The globs that one pattern stands for: bare names match at any depth, and directories include their
subtree. -/
def patternVariants (pattern : String) : List String :=
  let path := trimEndSlashes pattern
  [path, path ++ "/**"] ++ if path.toList.contains '/' then [] else ["**/" ++ path, "**/" ++ path ++ "/**"]

def buildPattern (pattern : String) : Res (List Glob) :=
  (patternVariants pattern).mapM fun variant =>
    match crates.buildGlob variant with
    | .ok glob => pure glob
    | .error error => raise (.other s!"invalid glob pattern '{pattern}': {error}")

/-- The loop of `new` over the operations: the globs, whether there are any, and the literal entries. -/
def collect (lookup : NameLookup) :
    List UpdateOp → List Glob × Bool × List (List UInt8 × LiteralSelection) →
      Res (List Glob × Bool × List (List UInt8 × LiteralSelection))
  | [], acc => pure acc
  | .delete pattern :: ops, (globs, _, entries) => do
    let built ← buildPattern crates pattern
    collect lookup ops (globs ++ built, true, entries)
  | .deleteEntry path :: ops, (globs, hasPatterns, entries) => do
    let selected ← lookup.resolve path false
    if selected.path.raw = [] then raise (.other "delete entry path cannot be empty")
    else
      collect lookup ops (globs, hasPatterns,
        (selected.path.raw, ⟨selected.path.display, selected.directory, false⟩) ::
          entries.filter (·.1 ≠ selected.path.raw))
  | _ :: ops, acc => collect lookup ops acc

def new (ops : List UpdateOp) (lookup : NameLookup) : Res Deletions := do
  let (globs, hasPatterns, entries) ← collect crates lookup ops ([], false, [])
  if hasPatterns then
    match crates.buildGlobSet globs with
    | .ok patterns => pure ⟨some patterns, entries⟩
    | .error error => raise (.other s!"invalid glob pattern set: {error}")
  else pure ⟨none, entries⟩

def «matches» (deletes : Deletions) (path : EntryPath) : Bool :=
  (deletes.entries != [] &&
    ((deletes.entries.lookup path.raw).isSome ||
      (directories path.raw).any fun parent => (deletes.entries.lookup parent).any (·.directory))) ||
  deletes.patterns.any fun patterns => patterns (trimEndSlashes path.display)

/-- `observe`: the literal entries that an entry of the archive answers are marked. -/
def observe (deletes : Deletions) (raw : List UInt8) : Deletions :=
  { deletes with
    entries := deletes.entries.map fun entry =>
      if entry.1 = raw ∨ ((directories raw).contains entry.1 ∧ entry.2.directory) then
        (entry.1, { entry.2 with found := true })
      else entry }

def validate (deletes : Deletions) : Res Unit :=
  match deletes.entries.find? fun entry => !entry.2.found with
  | some entry => raise (.other s!"delete entry not found in archive: {entry.2.display}")
  | none => pure ()

end Deletions

end

end Squallz.Zip
