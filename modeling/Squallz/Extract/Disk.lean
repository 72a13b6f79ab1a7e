/-
A disk on which any call may be refused: the entries of its paths, the contents of its files, and the refusals to come.
-/
import Squallz.Extract.Entries

namespace Squallz.Extract

open Squallz.Api

/-- What a path leads to; a file by its inode. -/
inductive Node
  | file (inode : Nat)
  | symlink (target : String)
  | dir
deriving DecidableEq

/-- An error, and how much of a write has been done before it. -/
structure Refusal where
  error : IoError
  written : Nat

structure Disk where
  entries : DestPath → Option Node
  contents : Nat → List UInt8
  /-- The next inode. -/
  next : Nat
  lt_next : ∀ path inode, entries path = some (.file inode) → inode < next
  calls : Nat
  /-- The calls that are refused, for whatever reason. -/
  refusals : Nat → Option Refusal
  /-- The checkpoints that stop the run. -/
  stops : Nat → Option Fault
  /-- The paths whose removal has been refused. -/
  stuck : List DestPath

namespace Disk

/-- A call that is not refused. -/
def attempt {α : Type} (change : Disk → Except IoError (α × Disk)) : Call Disk IoError α := fun disk =>
  let called := { disk with calls := disk.calls + 1 }
  match disk.refusals disk.calls with
  | some refusal => (.error refusal.error, called)
  | none =>
    match change called with
    | .ok (a, changed) => (.ok a, changed)
    | .error error => (.error error, called)

def notFound : IoError := ⟨.notFound, "No such file or directory"⟩

def alreadyExists : IoError := ⟨.alreadyExists, "File exists"⟩

def isADirectory : IoError := ⟨.other, "Is a directory"⟩

def setEntry (disk : Disk) (path : DestPath) (node : Option Node)
    (h : ∀ inode, node = some (.file inode) → inode < disk.next) : Disk :=
  { disk with
    entries := Function.update disk.entries path node
    lt_next := by
      intro other inode hother
      rcases eq_or_ne other path with rfl | hne
      · rw [Function.update_self] at hother
        exact h inode hother
      · rw [Function.update_of_ne hne] at hother
        exact disk.lt_next other inode hother }

/-- A new inode without content. -/
def addInode (disk : Disk) : Disk :=
  { disk with
    contents := Function.update disk.contents disk.next []
    next := disk.next + 1
    lt_next := fun path inode h => Nat.lt_succ_of_lt (disk.lt_next path inode h) }

/-- `create_new`. -/
def createNew (path : DestPath) : Call Disk IoError Nat := attempt fun disk =>
  match disk.entries path with
  | some _ => .error alreadyExists
  | none => .ok (disk.next, disk.addInode.setEntry path (some (.file disk.next)) fun inode h => by
      cases h
      exact Nat.lt_succ_self _)

def append (disk : Disk) (inode : Nat) (bytes : List UInt8) : Disk :=
  { disk with contents := Function.update disk.contents inode (disk.contents inode ++ bytes) }

/-- `write_all` through the handle of a file. -/
def writeAll (inode : Nat) (bytes : List UInt8) : Call Disk IoError Unit := fun disk =>
  let called := { disk with calls := disk.calls + 1 }
  match disk.refusals disk.calls with
  | some refusal => (.error refusal.error, called.append inode (bytes.take refusal.written))
  | none => (.ok (), called.append inode bytes)

/-- `hard_link`. -/
def hardLink (source target : DestPath) : Call Disk IoError Unit := attempt fun disk =>
  match hsource : disk.entries source with
  | none => .error notFound
  | some node =>
    match disk.entries target with
    | some _ => .error alreadyExists
    | none => .ok ((), disk.setEntry target (some node) fun inode h => by
        cases h
        exact disk.lt_next source inode hsource)

/-- `rename` of a file or a symbolic link. Two names of one file stay as they are. -/
def rename (source target : DestPath) : Call Disk IoError Unit := attempt fun disk =>
  match hsource : disk.entries source with
  | none => .error notFound
  | some node =>
    if disk.entries target = some .dir then .error isADirectory
    else if disk.entries target = some node then .ok ((), disk)
    else .ok ((), (disk.setEntry target (some node) fun inode h => by
        cases h
        exact disk.lt_next source inode hsource).setEntry source none fun inode h => by cases h)

/-- `remove_file`. -/
def removeFile (path : DestPath) : Call Disk IoError Unit := fun disk =>
  let called := { disk with calls := disk.calls + 1 }
  match disk.refusals disk.calls with
  | some refusal => (.error refusal.error, { called with stuck := path :: disk.stuck })
  | none =>
    match disk.entries path with
    | none => (.error notFound, called)
    | some .dir => (.error isADirectory, called)
    | some _ => (.ok (), called.setEntry path none fun inode h => by cases h)

/-- A call that changes no entry and no content. -/
def quiet : Call Disk IoError Unit := attempt fun disk => .ok ((), disk)

def checkpoint : Call Disk Fault Unit := fun disk =>
  let called := { disk with calls := disk.calls + 1 }
  match disk.stops disk.calls with
  | some fault => (.error fault, called)
  | none => (.ok (), called)

end Disk

/-- An environment whose files are on a disk. -/
def onDisk {I : Type} (rest : Environment Disk Nat I) : Environment Disk Nat I :=
  { rest with
    checkpoint := Disk.checkpoint
    createNew := Disk.createNew
    writeAll := Disk.writeAll
    setModified := fun _ _ => Disk.quiet
    setPermissions := fun _ _ => Disk.quiet
    hardLink := Disk.hardLink
    rename := Disk.rename
    removeFile := Disk.removeFile }

end Squallz.Extract
