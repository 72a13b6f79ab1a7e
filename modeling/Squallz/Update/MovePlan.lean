/-
Planning moves inside an archive against an index of its displayed paths: which entries move, where to, what is
in the way, and the copy name that keeps both.
-/
import Squallz.Api.Names
import Squallz.Text.Numbering
import Squallz.Text.Separators

namespace Squallz.Update

open Squallz.Api Squallz.Text

/-! ## Targets -/

/-- `starts_with`. -/
def startsWith (path front : String) : Bool := front.toList.isPrefixOf path.toList

def validateTarget (path : String) : Res Unit := do
  let relative ← sanitizeEntryPath (.fromUtf8 path)
  let canonical := joinPath relative
  if canonical ≠ trimEndSlashes path ∨ canonical = "" then raise (.unsafeFileName path) else pure ()

section

variable (existsAt : String → Bool)

def occupied (key : String) : Bool := existsAt key || existsAt (key ++ "/")

/-- The first path above the target that is a file. -/
def blockedParent (target : String) : Option String :=
  ((beforeSeparators '/' (trimEndSlashes target).toList).map String.ofList).find? existsAt

end

/-! ## Plans -/

inductive ArchiveMoveConflict
  | existingTarget
  | duplicateTarget
deriving DecidableEq, Repr

structure ArchiveMoveItem where
  fromPath : String
  toPath : String
  conflict : Option ArchiveMoveConflict
  keepBothTo : Option String
deriving DecidableEq, Repr

structure ArchiveMovePlan where
  items : List ArchiveMoveItem
  missingSources : List String
  blockedParent : Option String
deriving DecidableEq, Repr

/-- A selected path that lies below another selected directory. -/
def belowSelected (selected : List String) (path : String) : Bool :=
  (beforeSeparators '/' path.toList).any fun front =>
    front.length + 1 < path.toList.length && selected.contains (.ofList (front ++ ['/']))

/-- The last component of a path. -/
def lastComponent (path : String) : List Char := path.toList.rtakeWhile (· != '/')

/-- The item of a selected path that exists. -/
def moveItem (targetDir path : String) : Res ArchiveMoveItem := do
  let directory := endsWithSlash path
  let name := lastComponent (trimEndSlashes path)
  let toPath := targetDir ++ .ofList name ++ if directory then "/" else ""
  validateTarget toPath
  if toPath = path ∨ (directory ∧ startsWith targetDir path) then raise (.other "move target must be outside the source")
  else pure ⟨path, toPath, none, none⟩

/-- The loop over the selected paths: the items, and the paths that are missing. -/
def collectItems (selected : List String) (targetDir : String) (existsAt : String → Bool) :
    List String → List String → Res (List ArchiveMoveItem × List String)
  | [], _ => pure ([], [])
  | path :: rest, seen =>
    if path ∈ seen ∨ belowSelected selected path then collectItems selected targetDir existsAt rest (path :: seen)
    else if !existsAt path then do
      let (items, missing) ← collectItems selected targetDir existsAt rest (path :: seen)
      pure (items, path :: missing)
    else do
      let item ← moveItem targetDir path
      let (items, missing) ← collectItems selected targetDir existsAt rest (path :: seen)
      pure (item :: items, missing)

/-! ## Copy names -/

/-- The largest `usize`. -/
def usizeMax : Nat := 2 ^ 64 - 1

/-- `rfind` of a character. -/
def rfind (c : Char) (text : List Char) : Option Nat :=
  (text.reverse.findIdx? (· == c)).map fun index => text.length - 1 - index

/-- The key of a target before and from its extension on; a directory has none. -/
def splitExtension (directory : Bool) (key : List Char) : List Char × List Char :=
  let base := key.rtakeWhile (· != '/')
  let baseStart := key.length - base.length
  if directory then (key, [])
  else
    match rfind '.' base with
    | some index => if 0 < index then (key.take (baseStart + index), key.drop (baseStart + index)) else (key, [])
    | none => (key, [])

def copySuffix (copy : Nat) : List Char :=
  if copy = 1 then " copy".toList else " copy ".toList ++ decimal copy

def copyName (stem ext : List Char) (copy : Nat) : String := .ofList (stem ++ copySuffix copy ++ ext)

/-- The loop over the copy numbers that are left: the first name that is not taken, and the number after its own. -/
def freeCopy (taken : String → Bool) (name : Nat → String) : Nat → Nat → Res (String × Nat)
  | 0, _ => raise (.resourceLimitExceeded "move copy names exhausted")
  | left + 1, copy => if taken (name copy) then freeCopy taken name left (copy + 1) else pure (name copy, copy + 1)

/-- The loop over the items: conflicts, and the names that keep both. -/
def resolveItems (counts : String → Nat) (existsAt : String → Bool) :
    List ArchiveMoveItem → List String → (String → Nat) → Res (List ArchiveMoveItem)
  | [], _, _ => pure []
  | item :: rest, reserved, nextCopy =>
    let key := trimEndSlashes item.toPath
    let conflict :=
      if occupied existsAt key then some ArchiveMoveConflict.existingTarget
      else if 1 < counts key then some .duplicateTarget
      else none
    match conflict with
    | none => do
      let rest ← resolveItems counts existsAt rest reserved nextCopy
      pure ({ item with conflict := none } :: rest)
    | some conflict => do
      let directory := endsWithSlash item.toPath
      let (stem, ext) := splitExtension directory key.toList
      let (candidate, copy) ← freeCopy (fun name => reserved.contains name || occupied existsAt name)
        (copyName stem ext) (usizeMax - nextCopy key) (nextCopy key)
      let keepBothTo := candidate ++ if directory then "/" else ""
      let rest ← resolveItems counts existsAt rest (candidate :: reserved)
        fun other => if other = key then copy else nextCopy other
      pure ({ item with conflict := some conflict, keepBothTo := some keepBothTo } :: rest)

def checkTargetDir (targetDir : String) : Res Unit :=
  if targetDir = "" then pure ()
  else do
    validateTarget targetDir
    if !endsWithSlash targetDir then raise (.unsafeFileName targetDir) else pure ()

/-- The path above the target directory, or the directory's own, that is a file. -/
def blockedTargetDir (targetDir : String) (existsAt : String → Bool) : Option String :=
  match blockedParent existsAt targetDir with
  | some parent => some parent
  | none =>
    let directoryKey := trimEndSlashes targetDir
    if directoryKey ≠ "" ∧ existsAt directoryKey then some directoryKey else none

def planArchiveMoves (paths : List String) (targetDir : String) (existsAt : String → Bool) : Res ArchiveMovePlan := do
  checkTargetDir targetDir
  let (items, missing) ← collectItems paths targetDir existsAt paths []
  let blocked := blockedTargetDir targetDir existsAt
  if missing ≠ [] ∨ blocked.isSome then pure ⟨[], missing, blocked⟩
  else do
    let keys := items.map fun item => trimEndSlashes item.toPath
    let items ← resolveItems keys.count existsAt items keys fun _ => 1
    pure ⟨items, missing, blocked⟩

end Squallz.Update
