/-
The read side of TAR: entries as the decoder gives them, their metadata, the listing, and the totals of an extraction.
-/
import Squallz.Api.Checked
import Squallz.Api.Names

namespace Squallz.Tar

open Squallz.Api

/-- The kinds of headers that the reader tells apart. -/
inductive HeaderType
  | regular | continuous | gnuSparse | link | symlink | directory | other
deriving DecidableEq, Repr

/-- An entry of the decoder: its names with their extensions applied, and the fields of its header, where a time or a mode
that cannot be read is none. -/
structure TarEntry where
  pathBytes : List UInt8
  linkNameBytes : Option (List UInt8)
  headerType : HeaderType
  size : UInt64
  mtime : Option UInt64
  mode : Option UInt32
deriving DecidableEq, Repr

/-- The entries of a pass over an archive, up to its end or an error of the decoder. -/
abbrev Archive := Except FormatError (List (Except FormatError TarEntry))

def linkTarget (entry : TarEntry) (kind : String) : Res (List UInt8) :=
  match entry.linkNameBytes with
  | none => corrupt s!"tar {kind} entry missing target: {fromUtf8Lossy entry.pathBytes}"
  | some target => .ok target

def entryTypeOf (entry : TarEntry) : Res EntryType :=
  match entry.headerType with
  | .directory => .ok .dir
  | .symlink => EntryType.symlink <$> linkTarget entry "symlink"
  | .link => EntryType.hardlink <$> linkTarget entry "hardlink"
  | .regular | .continuous | .gnuSparse => .ok .file
  | .other => .ok .other

def modifiedOf (entry : TarEntry) : Res (Option SystemTime) :=
  match entry.mtime with
  | none => .ok none
  | some secs => some <$> SystemTime.ofUnixSecs secs.toNat

/-- `meta_of`. -/
def metaOf (entry : TarEntry) : Res EntryMeta := do
  let entryType ← entryTypeOf entry
  let modified ← modifiedOf entry
  pure
    { path := ⟨entry.pathBytes, fromUtf8Lossy entry.pathBytes, "utf-8"⟩
      entryType
      size := entry.size
      compressedSize := none
      modified
      unixMode := entry.mode
      crc32 := none
      encrypted := false }

/-- `.` and `./`. -/
def rootNames : List (List UInt8) := [[0x2E], [0x2E, 0x2F]]

def isTarRootDirectory (entry : EntryMeta) : Bool := entry.entryType = .dir && rootNames.contains entry.path.raw

/-! ## Listing -/

def listedItem (item : Except FormatError TarEntry) : Option (Res EntryMeta) :=
  match item with
  | .error error => some (raise error)
  | .ok entry =>
    match metaOf entry with
    | .ok listed => if isTarRootDirectory listed then none else some (.ok listed)
    | .error fault => some (.error fault)

/-- `entries`: what a pass over the archive yields one after the other. -/
def entries (archive : Archive) : List (Res EntryMeta) :=
  match archive with
  | .error error => [raise error]
  | .ok items => items.filterMap listedItem

/-! ## Totals -/

/-- A file that a selection by paths asks for. -/
def isWantedFile (wanted : Option (List (List UInt8))) (entry : EntryMeta) : Bool :=
  entry.entryType = .file && wanted.all fun paths => paths.contains entry.path.raw

/-- The loop of `total_file_bytes`. -/
def totalFileBytesFrom (wanted : Option (List (List UInt8))) : Nat → List (Res EntryMeta) → Res Nat
  | total, [] => .ok total
  | total, item :: rest => do
    let entry ← item
    let total ← if isWantedFile wanted entry then addU64 total entry.size.toNat else pure total
    totalFileBytesFrom wanted total rest

def totalFileBytes (archive : Archive) (wanted : Option (List (List UInt8))) : Res Nat :=
  totalFileBytesFrom wanted 0 (entries archive)

/-- The total that `extract` reports its progress against: none where nothing is selected, and zero where the source would
have to be decoded once more. -/
def extractTotal (archive : Archive) (seekable : Bool) (selection : Option (List EntryPath)) : Res (Option Nat) :=
  if selection = some [] then .ok none
  else if seekable then some <$> totalFileBytes archive (selection.map fun paths => paths.map (·.raw))
  else .ok (some 0)

end Squallz.Tar
