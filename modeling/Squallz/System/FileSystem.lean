/-
A file system as its entries: a directory and a name lead to an identity, and an identity to its inode.
The operations change one entry at a time and leave the file system as it is where they fail.
-/
import Mathlib.Data.List.AList

namespace Squallz.System

/-- The name of an entry of a directory. -/
abbrev Name := List UInt8

/-- The device and the inode number of an entry. -/
structure Identity where
  filesystem : Nat
  entry : Nat
deriving DecidableEq, Repr

/-- What an inode holds. A symbolic link counts by the directory it leads to, if it leads to one. -/
inductive Content
  | regular (bytes : List UInt8)
  | directory
  | symlink (target : Option Identity)
  | special
deriving DecidableEq

structure Inode where
  content : Content
  mode : Nat
  modified : Option Int
  changed : Int × Int
deriving DecidableEq

namespace Inode

def isFile (i : Inode) : Bool := match i.content with | .regular _ => true | _ => false

def isDir (i : Inode) : Bool := i.content == .directory

def bytes (i : Inode) : List UInt8 := match i.content with | .regular bytes => bytes | _ => []

def len (i : Inode) : Nat := i.bytes.length

/-- Two inodes that differ at most in the time of their last change of status. -/
def SameFile (i j : Inode) : Prop := i.content = j.content ∧ i.mode = j.mode ∧ i.modified = j.modified

theorem SameFile.refl (i : Inode) : i.SameFile i := ⟨rfl, rfl, rfl⟩

theorem SameFile.trans {i j k : Inode} (h : i.SameFile j) (h' : j.SameFile k) : i.SameFile k :=
  ⟨h.1.trans h'.1, h.2.1.trans h'.2.1, h.2.2.trans h'.2.2⟩

theorem SameFile.symm {i j : Inode} (h : i.SameFile j) : j.SameFile i := ⟨h.1.symm, h.2.1.symm, h.2.2.symm⟩

end Inode

/-- The errors of the operations. -/
inductive Errno
  | notFound | alreadyExists | notADirectory | isADirectory | directoryNotEmpty | invalid
deriving DecidableEq, Repr

/-- The entries, the inodes and the readings of the clock to come. -/
structure FileSystem where
  links : AList (fun _ : Identity × Name => Identity)
  inodes : Identity → Inode
  clock : Nat → Int × Int

/-- A path: the names that lead from a directory to an entry. -/
structure Path where
  base : Identity
  names : List Name
deriving DecidableEq, Repr

def Path.join (p : Path) (name : Name) : Path := ⟨p.base, p.names ++ [name]⟩

namespace FileSystem

/-! ## Finding entries -/

/-- The entry of a directory under a name. -/
def find (s : FileSystem) (d : Identity) (name : Name) : Option Identity := s.links.lookup (d, name)

/-- The directory an inner component of a path leads to. -/
def enter (s : FileSystem) (i : Identity) : Except Errno Identity :=
  match (s.inodes i).content with
  | .directory => .ok i
  | .symlink (some d) => .ok d
  | .symlink none => .error .notFound
  | _ => .error .notADirectory

/-- The directory and the name that a path ends in. -/
def locate (s : FileSystem) : Identity → List Name → Except Errno (Identity × Name)
  | _, [] => .error .invalid
  | d, [name] => .ok (d, name)
  | d, name :: rest => match s.find d name with
    | none => .error .notFound
    | some i => match s.enter i with
      | .error e => .error e
      | .ok d => s.locate d rest

def found : Option Identity → Except Errno Identity
  | none => .error .notFound
  | some i => .ok i

@[simp] theorem found_none : found none = .error .notFound := rfl
@[simp] theorem found_some (i : Identity) : found (some i) = .ok i := rfl

/-- The identity of the entry a path leads to; the last component is not followed. -/
def identity (s : FileSystem) (p : Path) : Except Errno Identity :=
  if p.names = [] then .ok p.base else match s.locate p.base p.names with
    | .error e => .error e
    | .ok (d, name) => found (s.find d name)

def metadata (s : FileSystem) (p : Path) : Except Errno Inode := (s.identity p).map s.inodes

/-- The names in a directory. -/
def children (s : FileSystem) (d : Identity) : List Name :=
  s.links.keys.filterMap fun k => if k.1 = d then some k.2 else none

/-- The names in the directory a path leads to, symbolic links followed. -/
def readDir (s : FileSystem) (p : Path) : Except Errno (List Name) :=
  match s.identity p with
  | .error e => .error e
  | .ok i => match s.enter i with
    | .error e => .error e
    | .ok d => .ok (s.children d)

/-! ## Changing entries -/

def link (s : FileSystem) (d : Identity) (name : Name) (i : Identity) : FileSystem :=
  { s with links := s.links.insert (d, name) i }

def unlink (s : FileSystem) (d : Identity) (name : Name) : FileSystem :=
  { s with links := s.links.erase (d, name) }

def setInode (s : FileSystem) (i : Identity) (node : Inode) : FileSystem :=
  { s with inodes := Function.update s.inodes i node }

/-- A change of an inode's status: it gets the next reading of the clock. -/
def touch (s : FileSystem) (i : Identity) : FileSystem :=
  { s.setInode i { s.inodes i with changed := s.clock 0 } with clock := fun n => s.clock (n + 1) }

/-- An identity on the device of a directory that neither the directory nor any entry has. -/
def fresh (s : FileSystem) (d : Identity) : Identity :=
  ⟨d.filesystem, (s.links.entries.map fun e => max e.1.1.entry e.2.entry).foldr max d.entry + 1⟩

/-- `renameat2` with `RENAME_NOREPLACE`. -/
def renameNoReplace (s : FileSystem) (src dest : Path) : Except Errno (Unit × FileSystem) := do
  let (d, name) ← s.locate src.base src.names
  match s.find d name with
  | none => .error .notFound
  | some i =>
    let (d', name') ← s.locate dest.base dest.names
    match s.find d' name' with
    | some _ => .error .alreadyExists
    | none => .ok ((), (((s.unlink d name).link d' name' i).touch i))

/-- `rename` of a file over another one, or to a vacant name. -/
def renameReplace (s : FileSystem) (src dest : Path) : Except Errno (Unit × FileSystem) := do
  let (d, name) ← s.locate src.base src.names
  match s.find d name with
  | none => .error .notFound
  | some i =>
    let (d', name') ← s.locate dest.base dest.names
    match s.find d' name' with
    | some j =>
      if j = i then .ok ((), s)
      else if (s.inodes j).isDir then .error .isADirectory
      else if (s.inodes i).isDir then .error .notADirectory
      else .ok ((), ((s.unlink d name).link d' name' i).touch i)
    | none => .ok ((), ((s.unlink d name).link d' name' i).touch i)

/-- `unlink`. -/
def removeFile (s : FileSystem) (p : Path) : Except Errno (Unit × FileSystem) := do
  let (d, name) ← s.locate p.base p.names
  match s.find d name with
  | none => .error .notFound
  | some i => if (s.inodes i).isDir then .error .isADirectory else .ok ((), (s.unlink d name).touch i)

/-- `rmdir`. -/
def removeDir (s : FileSystem) (p : Path) : Except Errno (Unit × FileSystem) := do
  let (d, name) ← s.locate p.base p.names
  match s.find d name with
  | none => .error .notFound
  | some i =>
    if (s.inodes i).isDir then
      if s.children i = [] then .ok ((), s.unlink d name) else .error .directoryNotEmpty
    else .error .notADirectory

/-- A new entry with a new inode. -/
def create (s : FileSystem) (p : Path) (node : Inode) : Except Errno (Identity × FileSystem) := do
  let (d, name) ← s.locate p.base p.names
  match s.find d name with
  | some _ => .error .alreadyExists
  | none =>
    let i := s.fresh d
    .ok (i, ((s.setInode i node).link d name i).touch i)

/-- Writes all of a new file's bytes through its handle. -/
def write (s : FileSystem) (i : Identity) (bytes : List UInt8) : FileSystem :=
  (s.setInode i { s.inodes i with content := .regular bytes }).touch i

/-! ## What an operation that succeeds has found and done -/

section Inversion

variable {s t : FileSystem}

theorem renameNoReplace_eq_ok {src dest : Path} : s.renameNoReplace src dest = .ok ((), t) ↔
    ∃ d name i d' name', s.locate src.base src.names = .ok (d, name) ∧ s.find d name = some i ∧
      s.locate dest.base dest.names = .ok (d', name') ∧ s.find d' name' = none ∧
      t = ((s.unlink d name).link d' name' i).touch i := by
  unfold renameNoReplace
  constructor
  · intro h
    cases hsrc : s.locate src.base src.names with
    | error e =>
      rw [hsrc] at h
      cases h
    | ok k =>
      obtain ⟨d, name⟩ := k
      rw [hsrc] at h
      cases hi : s.find d name with
      | none =>
        simp [bind, Except.bind, hi] at h
      | some i =>
        cases hdest : s.locate dest.base dest.names with
        | error e =>
          simp [bind, Except.bind, hi, hdest] at h
        | ok k =>
          obtain ⟨d', name'⟩ := k
          cases hv : s.find d' name' with
          | some j => simp [bind, Except.bind, hi, hdest, hv] at h
          | none =>
            simp only [bind, Except.bind, hi, hdest, hv, Except.ok.injEq, Prod.mk.injEq, true_and] at h
            exact ⟨d, name, i, d', name', rfl, hi, rfl, hv, h.symm⟩
  · rintro ⟨d, name, i, d', name', hsrc, hi, hdest, hv, rfl⟩
    simp only [hsrc, bind, Except.bind, hi, hdest, hv]

theorem removeFile_eq_ok {path : Path} : s.removeFile path = .ok ((), t) ↔
    ∃ d name i, s.locate path.base path.names = .ok (d, name) ∧ s.find d name = some i ∧
      (s.inodes i).isDir = false ∧ t = (s.unlink d name).touch i := by
  unfold removeFile
  constructor
  · intro h
    cases hloc : s.locate path.base path.names with
    | error e =>
      rw [hloc] at h
      cases h
    | ok k =>
      obtain ⟨d, name⟩ := k
      rw [hloc] at h
      cases hi : s.find d name with
      | none => simp [bind, Except.bind, hi] at h
      | some i =>
        cases hdir : (s.inodes i).isDir with
        | true => simp [bind, Except.bind, hi, hdir] at h
        | false =>
          simp only [bind, Except.bind, hi, hdir, Bool.false_eq_true, if_false, Except.ok.injEq, Prod.mk.injEq,
            true_and] at h
          exact ⟨d, name, i, rfl, hi, hdir, h.symm⟩
  · rintro ⟨d, name, i, hloc, hi, hdir, rfl⟩
    simp only [hloc, bind, Except.bind, hi, hdir, Bool.false_eq_true, if_false]

theorem removeDir_eq_ok {path : Path} : s.removeDir path = .ok ((), t) ↔
    ∃ d name i, s.locate path.base path.names = .ok (d, name) ∧ s.find d name = some i ∧
      (s.inodes i).isDir = true ∧ s.children i = [] ∧ t = s.unlink d name := by
  unfold removeDir
  constructor
  · intro h
    cases hloc : s.locate path.base path.names with
    | error e =>
      rw [hloc] at h
      cases h
    | ok k =>
      obtain ⟨d, name⟩ := k
      rw [hloc] at h
      cases hi : s.find d name with
      | none => simp [bind, Except.bind, hi] at h
      | some i =>
        cases hdir : (s.inodes i).isDir with
        | false => simp [bind, Except.bind, hi, hdir] at h
        | true =>
          by_cases hempty : s.children i = []
          · simp only [bind, Except.bind, hi, hdir, if_true, hempty, Except.ok.injEq, Prod.mk.injEq, true_and] at h
            exact ⟨d, name, i, rfl, hi, hdir, hempty, h.symm⟩
          · simp [bind, Except.bind, hi, hdir, hempty] at h
  · rintro ⟨d, name, i, hloc, hi, hdir, hempty, rfl⟩
    simp only [hloc, bind, Except.bind, hi, hdir, hempty, if_true]

theorem create_eq_ok {path : Path} {node : Inode} {i : Identity} : s.create path node = .ok (i, t) ↔
    ∃ d name, s.locate path.base path.names = .ok (d, name) ∧ s.find d name = none ∧
      i = s.fresh d ∧ t = ((s.setInode i node).link d name i).touch i := by
  unfold create
  constructor
  · intro h
    cases hloc : s.locate path.base path.names with
    | error e =>
      rw [hloc] at h
      cases h
    | ok k =>
      obtain ⟨d, name⟩ := k
      rw [hloc] at h
      cases hi : s.find d name with
      | some j => simp [bind, Except.bind, hi] at h
      | none =>
        simp only [bind, Except.bind, hi, Except.ok.injEq, Prod.mk.injEq] at h
        obtain ⟨rfl, rfl⟩ := h
        exact ⟨d, name, rfl, hi, rfl, rfl⟩
  · rintro ⟨d, name, hloc, hi, rfl, rfl⟩
    simp only [hloc, bind, Except.bind, hi]

end Inversion

/-! ## What the changes do -/

section Changes

variable (s : FileSystem) (d d' : Identity) (name name' : Name) (i j : Identity) (node : Inode)

theorem find_link : (s.link d name i).find d' name' = if d' = d ∧ name' = name then some i else s.find d' name' := by
  unfold find link
  by_cases h : d' = d ∧ name' = name
  · rw [if_pos h, h.1, h.2]
    exact AList.lookup_insert _
  · rw [if_neg h]
    exact AList.lookup_insert_ne fun heq => h (by rwa [Prod.mk.injEq] at heq)

theorem find_unlink : (s.unlink d name).find d' name' = if d' = d ∧ name' = name then none else s.find d' name' := by
  unfold find unlink
  by_cases h : d' = d ∧ name' = name
  · rw [if_pos h, h.1, h.2]
    exact AList.lookup_erase _ _
  · rw [if_neg h]
    exact AList.lookup_erase_ne fun heq => h (by rwa [Prod.mk.injEq] at heq)

@[simp] theorem find_setInode : (s.setInode i node).find d name = s.find d name := rfl
@[simp] theorem find_touch : (s.touch i).find d name = s.find d name := rfl
@[simp] theorem inodes_link : (s.link d name i).inodes = s.inodes := rfl
@[simp] theorem inodes_unlink : (s.unlink d name).inodes = s.inodes := rfl
@[simp] theorem links_touch : (s.touch i).links = s.links := rfl

theorem inodes_touch_ne (h : j ≠ i) : (s.touch i).inodes j = s.inodes j := Function.update_of_ne h _ _

theorem inodes_setInode_self : (s.setInode i node).inodes i = node := Function.update_self _ _ _

theorem inodes_setInode_ne (h : j ≠ i) : (s.setInode i node).inodes j = s.inodes j := Function.update_of_ne h _ _

theorem sameFile_touch : ((s.touch i).inodes j).SameFile (s.inodes j) := by
  by_cases h : j = i
  · subst h
    rw [touch, setInode]
    simp only [Function.update_self]
    exact ⟨rfl, rfl, rfl⟩
  · rw [inodes_touch_ne s i j h]
    exact .refl _

@[simp] theorem find_write (bytes : List UInt8) : (s.write i bytes).find d name = s.find d name := rfl

theorem content_write (bytes : List UInt8) : ((s.write i bytes).inodes i).content = .regular bytes := by
  rw [write, (sameFile_touch _ _ _).1, inodes_setInode_self]

theorem inodes_write_ne (bytes : List UInt8) (h : j ≠ i) : (s.write i bytes).inodes j = s.inodes j := by
  rw [write, inodes_touch_ne _ _ _ h, inodes_setInode_ne _ _ _ _ h]

theorem mem_children : name ∈ s.children d ↔ ∃ i, s.find d name = some i := by
  unfold children find
  rw [List.mem_filterMap]
  constructor
  · rintro ⟨⟨d'', name''⟩, hk, heq⟩
    split at heq
    · rename_i hd
      cases heq
      have hmem : ((d, name'') : Identity × Name) ∈ s.links := by
        rw [← show d'' = d from hd]
        exact hk
      exact Option.isSome_iff_exists.1 (AList.lookup_isSome.2 hmem)
    · cases heq
  · rintro ⟨i, hi⟩
    refine ⟨(d, name), ?_, if_pos rfl⟩
    exact AList.lookup_isSome.1 (Option.isSome_iff_exists.2 ⟨i, hi⟩)

theorem children_eq_nil : s.children d = [] ↔ ∀ name, s.find d name = none := by
  rw [List.eq_nil_iff_forall_not_mem]
  refine forall_congr' fun name => ?_
  rw [mem_children, ← Option.isSome_iff_exists, Bool.not_eq_true, Option.isSome_eq_false_iff, Option.isNone_iff_eq_none]

end Changes

private theorem le_foldr_max {l : List Nat} {n m : Nat} (h : n ∈ l) : n ≤ l.foldr max m := by
  induction l with
  | nil => cases h
  | cons k l ih =>
    rcases List.mem_cons.1 h with rfl | h
    · exact le_max_left _ _
    · exact le_trans (ih h) (le_max_right _ _)

private theorem le_foldr_max_start (l : List Nat) (m : Nat) : m ≤ l.foldr max m := by
  induction l with
  | nil => exact le_rfl
  | cons k l ih => exact le_trans ih (le_max_right _ _)

/-- A fresh identity has no entry and no entries. -/
theorem fresh_not_linked {s : FileSystem} {d i : Identity} {name : Name} (h : s.find d name = some i)
    (d' : Identity) : i ≠ s.fresh d' ∧ d ≠ s.fresh d' := by
  have hmem : (⟨(d, name), i⟩ : Sigma fun _ : Identity × Name => Identity) ∈ s.links.entries :=
    AList.mem_lookup_iff.1 h
  have hle : max d.entry i.entry ≤ (s.links.entries.map fun e => max e.1.1.entry e.2.entry).foldr max d'.entry :=
    le_foldr_max (List.mem_map.2 ⟨_, hmem, rfl⟩)
  constructor
  · intro heq
    have hentry := congrArg Identity.entry heq
    rw [fresh] at hentry
    simp only at hentry
    omega
  · intro heq
    have hentry := congrArg Identity.entry heq
    rw [fresh] at hentry
    simp only at hentry
    omega

theorem fresh_ne (s : FileSystem) (d : Identity) : s.fresh d ≠ d := by
  intro heq
  have hentry := congrArg Identity.entry heq
  have hle := le_foldr_max_start (s.links.entries.map fun e => max e.1.1.entry e.2.entry) d.entry
  rw [fresh] at hentry
  simp only at hentry
  omega

/-! ## What a path depends on -/

theorem locate_cons_cons (s : FileSystem) (d : Identity) (first second : Name) (rest : List Name) :
    s.locate d (first :: second :: rest) = match s.find d first with
      | none => .error .notFound
      | some i => match s.enter i with
        | .error e => .error e
        | .ok d => s.locate d (second :: rest) := rfl

theorem locate_last {s : FileSystem} : ∀ {names : List Name} {d d' : Identity} {name : Name},
    s.locate d names = .ok (d', name) → names.getLast? = some name
  | [], _, _, _, h => by cases h
  | [_], _, _, _, h => by
    cases h
    rfl
  | first :: second :: rest, d, d', name, h => by
    rw [locate_cons_cons] at h
    split at h
    · cases h
    · split at h
      · cases h
      · rw [List.getLast?_cons_cons]
        exact locate_last h

theorem enter_congr {s t : FileSystem} (i : Identity) (h : (s.inodes i).content = (t.inodes i).content) :
    s.enter i = t.enter i := by
  unfold enter
  rw [h]

theorem locate_congr {s t : FileSystem} (hinodes : ∀ i, (s.inodes i).content = (t.inodes i).content) :
    ∀ {names : List Name} {d : Identity}, (∀ d, ∀ name ∈ names, s.find d name = t.find d name) →
    s.locate d names = t.locate d names
  | [], _, _ => rfl
  | [_], _, _ => rfl
  | first :: second :: rest, d, h => by
    rw [locate_cons_cons, locate_cons_cons, h d first List.mem_cons_self]
    cases t.find d first with
    | none => rfl
    | some i =>
      dsimp only
      rw [enter_congr i (hinodes i)]
      cases t.enter i with
      | error e => rfl
      | ok d' => exact locate_congr hinodes fun d name hn => h d name (List.mem_cons_of_mem _ hn)

/-- A path leads where it led as long as the entries under its names and the kinds of the inodes are the
same. -/
theorem identity_congr {s t : FileSystem} (hinodes : ∀ i, (s.inodes i).content = (t.inodes i).content) {path : Path}
    (h : ∀ d, ∀ name ∈ path.names, s.find d name = t.find d name) : s.identity path = t.identity path := by
  unfold identity
  split
  · rfl
  · rw [locate_congr hinodes h]
    cases hloc : t.locate path.base path.names with
    | error e => rfl
    | ok k =>
      have hmem := List.mem_of_getLast? (locate_last (show t.locate path.base path.names = .ok (k.1, k.2) from hloc))
      exact congrArg found (h _ _ hmem)

/-- A move under one name changes no entry under another name. -/
theorem renameNoReplace_other {s t : FileSystem} {src dest : Path} {name : Name}
    (h : s.renameNoReplace src dest = .ok ((), t)) (hsrc : src.names.getLast? = some name)
    (hdest : dest.names.getLast? = some name) {d : Identity} {name' : Name} (hne : name' ≠ name) :
    t.find d name' = s.find d name' := by
  obtain ⟨d', n, i, d'', n', hloc, -, hloc', -, rfl⟩ := renameNoReplace_eq_ok.1 h
  have hn : n = name := Option.some.inj ((locate_last hloc).symm.trans hsrc)
  have hn' : n' = name := Option.some.inj ((locate_last hloc').symm.trans hdest)
  subst hn hn'
  rw [find_touch, find_link, if_neg fun heq => hne heq.2, find_unlink, if_neg fun heq => hne heq.2]

theorem renameNoReplace_sameFile {s t : FileSystem} {src dest : Path} (h : s.renameNoReplace src dest = .ok ((), t))
    (j : Identity) : (t.inodes j).SameFile (s.inodes j) := by
  obtain ⟨d', n, i, d'', n', -, -, -, -, rfl⟩ := renameNoReplace_eq_ok.1 h
  exact sameFile_touch _ _ _

/-! ## Paths of one and of two names -/

section Paths

variable (s : FileSystem) (d i : Identity) (name inner : Name)

@[simp] theorem locate_one : s.locate d [name] = .ok (d, name) := rfl

theorem locate_two : s.locate d [name, inner] = match s.find d name with
    | none => .error .notFound
    | some i => match s.enter i with
      | .error e => .error e
      | .ok d => .ok (d, inner) := rfl

theorem identity_one : s.identity ⟨d, [name]⟩ = found (s.find d name) := rfl

variable {s d i name inner}

theorem identity_one_of_find (h : s.find d name = some i) : s.identity ⟨d, [name]⟩ = .ok i := by
  rw [identity_one, h, found_some]

theorem identity_one_of_none (h : s.find d name = none) : s.identity ⟨d, [name]⟩ = .error .notFound := by
  rw [identity_one, h, found_none]

theorem enter_of_directory (h : (s.inodes i).content = .directory) : s.enter i = .ok i := by
  unfold enter
  rw [h]

theorem locate_two_of_directory (h : s.find d name = some i) (hi : (s.inodes i).content = .directory) :
    s.locate d [name, inner] = .ok (i, inner) := by
  rw [locate_two, h]
  simp only [enter_of_directory hi]

theorem identity_two_of_directory (h : s.find d name = some i) (hi : (s.inodes i).content = .directory) :
    s.identity ⟨d, [name, inner]⟩ = found (s.find i inner) := by
  unfold identity
  rw [if_neg (List.cons_ne_nil _ _)]
  simp only [locate_two_of_directory h hi]

theorem identity_two_of_none (h : s.find d name = none) :
    s.identity ⟨d, [name, inner]⟩ = .error .notFound := by
  unfold identity
  rw [if_neg (List.cons_ne_nil _ _)]
  simp only [locate_two, h]

end Paths

end FileSystem

end Squallz.System
