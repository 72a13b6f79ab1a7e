/-
Work on files: programs over a file system that fail with a `FormatError`, the states of regular files
that the journals record, and the names they store.
-/
import Squallz.Api.Error
import Squallz.System.FileSystem
import Squallz.System.Program

namespace Squallz.Core

open Squallz.Api Squallz.System

abbrev Files := Prog FileSystem FormatError

/-! ## Errors -/

def errnoError : Errno → IoError
  | .notFound => ⟨.notFound, "No such file or directory (os error 2)"⟩
  | .alreadyExists => ⟨.alreadyExists, "File exists (os error 17)"⟩
  | .notADirectory => ⟨.other, "Not a directory (os error 20)"⟩
  | .isADirectory => ⟨.other, "Is a directory (os error 21)"⟩
  | .directoryNotEmpty => ⟨.other, "Directory not empty (os error 39)"⟩
  | .invalid => ⟨.invalidInput, "Invalid argument (os error 22)"⟩

/-- `?` on the result of an operation of the file system. -/
def ofErrno {α : Type} : Except Errno α → Except FormatError α
  | .ok a => .ok a
  | .error e => .error (.ofIo (errnoError e))

/-- `io::Error::other`. -/
def ioOther (message : String) : FormatError := .io ⟨.other, message⟩

/-- Fails with the error that stands for an operation's own. -/
def orFailWith {α : Type} (error : Errno → FormatError) (r : Except Errno α) : Files α :=
  .ofExcept (r.mapError error)

@[simp] theorem orFailWith_ok {α : Type} (error : Errno → FormatError) (a : α) :
    orFailWith error (.ok a) = .ret a := rfl

/-- `?` inside a program. -/
def orFail {α : Type} : Except Errno α → Files α := orFailWith fun e => .ofIo (errnoError e)

@[simp] theorem orFail_ok {α : Type} (a : α) : orFail (.ok a) = .ret a := rfl

/-- A check that raises its error where the condition holds. -/
def refuseIf (c : Bool) (error : FormatError) : Except FormatError Unit := if c then .error error else .ok ()

@[simp] theorem refuseIf_false (error : FormatError) : refuseIf false error = .ok () := rfl

theorem refuseIf_eq_ok {c : Bool} {error : FormatError} {u : Unit} : refuseIf c error = .ok u ↔ c = false := by
  unfold refuseIf
  cases c <;> simp

@[simp] theorem ofErrno_ok {α : Type} (a : α) : ofErrno (.ok a) = .ok a := rfl

theorem ofErrno_eq_ok {α : Type} {r : Except Errno α} {a : α} (h : ofErrno r = .ok a) : r = .ok a := by
  cases r with
  | error e => cases h
  | ok b =>
    cases h
    rfl

/-! ## Calls that fail with an I/O error -/

/-- `?` on an operation in a function with I/O results. -/
def ioResult {α : Type} (r : Except Errno α) : Except IoError α := r.mapError errnoError

theorem ioResult_eq_ok {α : Type} {r : Except Errno α} {a : α} : ioResult r = .ok a ↔ r = .ok a := by
  unfold ioResult
  cases r <;> simp [Except.mapError]

/-- A check that raises its error where the condition does not hold. -/
def ensure (c : Bool) (error : IoError) : Except IoError Unit := if c then .ok () else .error error

theorem ensure_eq_ok {c : Bool} {error : IoError} {u : Unit} : ensure c error = .ok u ↔ c = true := by
  unfold ensure
  cases c <;> simp

/-- `open_regular_file_no_follow`. -/
def openRegularFileNoFollow (s : FileSystem) (path : Path) : Except IoError Identity := do
  let i ← ioResult (s.identity path)
  ensure (s.inodes i).isFile ⟨.invalidInput, "path is not a real regular file"⟩
  .ok i

theorem openRegularFileNoFollow_eq_ok {s : FileSystem} {path : Path} {i : Identity} :
    openRegularFileNoFollow s path = .ok i ↔ s.identity path = .ok i ∧ (s.inodes i).isFile = true := by
  unfold openRegularFileNoFollow
  constructor
  · intro h
    obtain ⟨j, hj, h⟩ := bind_eq_ok.1 h
    obtain ⟨_, hfile, h⟩ := bind_eq_ok.1 h
    cases h
    exact ⟨ioResult_eq_ok.1 hj, ensure_eq_ok.1 hfile⟩
  · rintro ⟨hi, hfile⟩
    rw [ioResult_eq_ok.2 hi, ok_bind, hfile]
    rfl

/-- `open_directory_no_follow`. -/
def openDirectoryNoFollow (s : FileSystem) (path : Path) : Except IoError Identity := do
  let i ← ioResult (s.identity path)
  ensure (s.inodes i).isDir ⟨.invalidInput, "path is not a real directory"⟩
  .ok i

theorem openDirectoryNoFollow_eq_ok {s : FileSystem} {path : Path} {i : Identity} :
    openDirectoryNoFollow s path = .ok i ↔ s.identity path = .ok i ∧ (s.inodes i).isDir = true := by
  unfold openDirectoryNoFollow
  constructor
  · intro h
    obtain ⟨j, hj, h⟩ := bind_eq_ok.1 h
    obtain ⟨_, hdir, h⟩ := bind_eq_ok.1 h
    cases h
    exact ⟨ioResult_eq_ok.1 hj, ensure_eq_ok.1 hdir⟩
  · rintro ⟨hi, hdir⟩
    rw [ioResult_eq_ok.2 hi, ok_bind, hdir]
    rfl

/-! ## The identity of an entry, and none where there is no entry -/

def observedIdentity (s : FileSystem) (p : Path) : Except FormatError (Option Identity) :=
  match s.identity p with
  | .ok i => .ok (some i)
  | .error .notFound => .ok none
  | .error e => .error (.ofIo (errnoError e))

theorem observedIdentity_of_ok {s : FileSystem} {p : Path} {i : Identity} (h : s.identity p = .ok i) :
    observedIdentity s p = .ok (some i) := by
  unfold observedIdentity
  rw [h]

theorem observedIdentity_of_notFound {s : FileSystem} {p : Path} (h : s.identity p = .error .notFound) :
    observedIdentity s p = .ok none := by
  unfold observedIdentity
  rw [h]

theorem identity_of_observed {s : FileSystem} {p : Path} {i : Identity} (h : observedIdentity s p = .ok (some i)) :
    s.identity p = .ok i := by
  unfold observedIdentity at h
  split at h
  · rename_i j hj
    cases h
    exact hj
  · cases h
  · cases h

theorem notFound_of_observed {s : FileSystem} {p : Path} (h : observedIdentity s p = .ok none) :
    s.identity p = .error .notFound := by
  unfold observedIdentity at h
  split at h
  · cases h
  · rename_i he
    exact he
  · cases h

/-! ## States of regular files -/

structure RegularFileState where
  bytes : Nat
  modified : Option Int
  changed : Int × Int
deriving DecidableEq, Repr

namespace RegularFileState

def fromMetadata (metadata : Inode) : RegularFileState := ⟨metadata.len, metadata.modified, metadata.changed⟩

def «matches» (state : RegularFileState) (metadata : Inode) : Bool :=
  metadata.isFile && metadata.len == state.bytes && metadata.modified == state.modified &&
    metadata.changed == state.changed

def equivalentAfterRename (state other : RegularFileState) : Bool :=
  state.bytes == other.bytes && state.modified == other.modified

theorem matches_iff {state : RegularFileState} {metadata : Inode} :
    state.matches metadata = true ↔ metadata.isFile = true ∧ state = fromMetadata metadata := by
  obtain ⟨bytes, modified, changed⟩ := state
  simp only [«matches», fromMetadata, Bool.and_eq_true, beq_iff_eq, mk.injEq]
  constructor
  · rintro ⟨⟨⟨hfile, hlen⟩, hmod⟩, hchg⟩
    exact ⟨hfile, hlen.symm, hmod.symm, hchg.symm⟩
  · rintro ⟨hfile, hlen, hmod, hchg⟩
    exact ⟨⟨⟨hfile, hlen.symm⟩, hmod.symm⟩, hchg.symm⟩

/-- What is recorded of a file stands for every inode that differs from it in its last change of status
only. -/
theorem equivalentAfterRename_of_sameFile {i j : Inode} (h : i.SameFile j) :
    (fromMetadata i).equivalentAfterRename (fromMetadata j) = true := by
  simp [equivalentAfterRename, fromMetadata, Inode.len, Inode.bytes, h.1, h.2.2]

end RegularFileState

/-! ## Names -/

/-- An `OsString` as a journal stores it. -/
inductive StoredOsString
  | unix (bytes : List UInt8)
  | windows (units : List UInt16)
  | utf8 (text : String)
deriving DecidableEq

namespace StoredOsString

def fromOsString (value : Name) : Except FormatError StoredOsString :=
  if value.contains 0 then .error (.unsupported "stored path contains a null byte") else .ok (unix value)

def toOsString : StoredOsString → Except FormatError Name
  | unix bytes => if bytes.contains 0 then .error (.unsupported "stored path contains a null byte") else .ok bytes
  | _ => .error (.unsupported "stored path belongs to another platform")

theorem toOsString_of_fromOsString {value : Name} {stored : StoredOsString} (h : fromOsString value = .ok stored) :
    stored = unix value ∧ stored.toOsString = .ok value := by
  unfold fromOsString at h
  split at h
  · cases h
  · rename_i hnull
    cases h
    exact ⟨rfl, if_neg hnull⟩

end StoredOsString

/-- Whether a name is a single normal component. -/
def isSingleComponent (name : Name) : Bool :=
  name != [] && !name.contains 47 && name != [46] && name != [46, 46]

def checkedPathComponent (name : Option Name) (role : String) : Except FormatError Name :=
  match name with
  | none => .error (.unsupported s!"{role} has no file name")
  | some name =>
    if isSingleComponent name then .ok name
    else .error (.unsupported s!"{role} must be a single file name")

theorem checkedPathComponent_eq_ok {name : Option Name} {role : String} {n : Name} :
    checkedPathComponent name role = .ok n ↔ name = some n ∧ isSingleComponent n = true := by
  unfold checkedPathComponent
  cases name with
  | none => simp
  | some m =>
    by_cases h : isSingleComponent m = true
    · simp only [if_pos h, Except.ok.injEq, Option.some.injEq]
      exact ⟨fun he => ⟨he, he ▸ h⟩, fun he => he.1⟩
    · simp only [if_neg h, reduceCtorEq, Option.some.injEq, false_iff]
      rintro ⟨rfl, hs⟩
      exact h hs

end Squallz.Core
