/-
Link targets inside an archive: byte paths are normalised by their components, and the resolver follows a chain of links
until it comes to a file.
-/
import Squallz.Api.Names
import Squallz.Text.Separators

namespace Squallz.Extract

open Squallz.Api Squallz.Text

/-! ## Normalised paths -/

def isSeparatorByte (b : UInt8) : Bool := b == slash || b == backslash

def dotByte : UInt8 := 0x2E

/-- One component of the loop of `normalize_raw`. -/
def pushComponent (parts : List (List UInt8)) (component : List UInt8) : Option (List (List UInt8)) :=
  if component = [] ∨ component = [dotByte] then some parts
  else if component = [dotByte, dotByte] then
    if parts = [] then none else some parts.dropLast
  else some (parts ++ [component])

/-- Components joined by slashes. -/
def joinRaw : List (List UInt8) → List UInt8
  | [] => []
  | [part] => part
  | part :: rest => part ++ slash :: joinRaw rest

def normalizeRaw (path : List UInt8) : Option (List UInt8) :=
  if path.head?.any isSeparatorByte then none
  else ((path.splitOnP isSeparatorByte).foldlM pushComponent []).map joinRaw

def normalizeArchivePathRaw (target : List UInt8) : Option (List UInt8) :=
  if target = [] then none else (normalizeRaw target).filter (· ≠ [])

def resolveTargetPathRaw (linkPath target : List UInt8) : Option (List UInt8) :=
  if target = [] ∨ target.head?.any isSeparatorByte then none
  else
    match normalizeRaw linkPath with
    | none => none
    | some normalizedLink =>
      let parent := ((rsplitOnce slash normalizedLink).map (·.1)).getD []
      let joined := if parent = [] then parent else parent ++ [slash]
      (normalizeRaw (joined ++ target)).filter (· ≠ [])

/-! ## The resolver -/

/-- Upper bound on the hops of a chain of links. -/
def maxLinkDepth : Nat := 40

/-- `by_path`: of the entries with one normalised path the last one counts. -/
def byPath (metas : List EntryMeta) (path : List UInt8) : Option EntryMeta :=
  metas.reverse.find? fun entry => normalizeArchivePathRaw entry.path.raw = some path

/-- Where a link leads to. -/
def linkTarget (path : List UInt8) : EntryType → Option (List UInt8)
  | .symlink target => resolveTargetPathRaw path target
  | .hardlink target => normalizeArchivePathRaw target
  | _ => none

/-- The loop of `resolve_to_file`. -/
def followLinks (metas : List EntryMeta) :
    Nat → List (List UInt8) → List UInt8 → EntryType → Option EntryMeta
  | 0, _, _, _ => none
  | hops + 1, visited, path, current =>
    if path ∈ visited then none
    else
      match linkTarget path current with
      | none => none
      | some next =>
        match byPath metas next with
        | none => none
        | some entry =>
          match entry.entryType with
          | .file => some entry
          | .symlink target => followLinks metas hops (path :: visited) next (.symlink target)
          | .hardlink target => followLinks metas hops (path :: visited) next (.hardlink target)
          | _ => none

/-- `LinkResolver::resolve_to_file`. -/
def resolveToFile (metas : List EntryMeta) (link : EntryMeta) : Option EntryMeta :=
  match normalizeArchivePathRaw link.path.raw with
  | none => none
  | some path => followLinks metas maxLinkDepth [] path link.entryType

end Squallz.Extract
