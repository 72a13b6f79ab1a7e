/-
What the actions of a source cleanup and of its recovery do to the file system, what others may do in between, and
what both keep: the journal's record, and the one place of the source.
-/
import Squallz.SourceCleanup.Journal
import Squallz.System.Frame

namespace Squallz.SourceCleanup

open Squallz.Api Squallz.Core Squallz.Recovery Squallz.System Squallz.System.FileSystem

/-! ## The paths of a cleanup -/

def preservedName (name : Name) (attempt : Nat) : Name :=
  name ++ utf8Bytes ".squallz-preserved" ++
    if 1 < attempt then utf8Bytes (.ofList ('-' :: Text.decimal attempt)) else []

def journalName : Name := utf8Bytes "source-cleanup.json"

/-- A source in its directory, the holder that has been created for it, and the directory of the journal. -/
structure Source where
  directory : Identity
  name : Name
  holderName : Name
  attempt : Nat
  identity : Identity
  holder : Identity
  config : Identity

namespace Source

variable (source : Source)

def journal : Path := ⟨source.config, [journalName]⟩
def original : Path := ⟨source.directory, [source.name]⟩
def staged : Path := ⟨source.directory, [source.holderName, source.name]⟩
def holderPath : Path := ⟨source.directory, [source.holderName]⟩
def preserved : Path := ⟨source.directory, [preservedName source.name source.attempt]⟩

def record : SourceCleanupRecord :=
  ⟨source.original, source.staged, source.holderPath, source.preserved, source.identity⟩

def document : JournalDocument :=
  ⟨journalVersion, source.original, source.staged, source.holderPath, source.preserved, source.identity⟩

/-- The places of the source: its own, the one in the holder, and the one it is preserved at. -/
def places : List (Identity × Name) :=
  [(source.directory, source.name), (source.holder, source.name),
    (source.directory, preservedName source.name source.attempt)]

/-! ## What others do -/

/-- New entries of others: they replace none, are not the source at one of its places, and no journal. -/
structure Foreign (s t : FileSystem) : Prop where
  kept : ∀ d name i, s.find d name = some i → t.find d name = some i
  places : ∀ place ∈ source.places, s.find place.1 place.2 = none → t.find place.1 place.2 ≠ some source.identity
  journal : t.find source.config journalName = s.find source.config journalName
  content : ∀ d name i, s.find d name = some i → (t.inodes i).content = (s.inodes i).content

theorem Foreign.refl (s : FileSystem) : source.Foreign s s where
  kept _ _ _ h := h
  places _ _ h h' := by rw [h] at h'; cases h'
  journal := rfl
  content _ _ _ _ := rfl

variable {source} in
theorem Foreign.trans {s t u : FileSystem} (h : source.Foreign s t) (h' : source.Foreign t u) : source.Foreign s u where
  kept d name i hi := h'.kept d name i (h.kept d name i hi)
  places place hplace hs := by
    cases ht : t.find place.1 place.2 with
    | none => exact h'.places place hplace ht
    | some i =>
      rw [h'.kept _ _ _ ht]
      rintro heq
      exact h.places place hplace hs (ht.trans heq)
  journal := h'.journal.trans h.journal
  content d name i hi := (h'.content d name i (h.kept d name i hi)).trans (h.content d name i hi)

/-! ## What the programs do -/

/-- The holder that has been created stands at its path. -/
structure HolderIn (s : FileSystem) : Prop where
  find : s.find source.directory source.holderName = some source.holder
  directory : (s.inodes source.holder).content = .directory

/-- An action of a recovery. If the staged path, once vacant, stays so, the record is cleared only when it is. -/
inductive RecoveryStep (keepsVacant : Prop) (s t : FileSystem) : Prop
  | same (h : t = s)
  | locked (i : Identity) (h : s.create (lockPath source.journal) ⟨.regular [], 0o600, none, (0, 0)⟩ = .ok (i, t))
  | restored (hpending : s.find source.config journalName ≠ none) (hholder : source.HolderIn s)
    (hvacant : s.find source.directory source.name = none)
    (h : s.renameNoReplace source.staged source.original = .ok ((), t))
  | preserved (hpending : s.find source.config journalName ≠ none) (hholder : source.HolderIn s)
    (hoccupied : s.find source.directory source.name ≠ none)
    (h : s.renameNoReplace source.staged source.preserved = .ok ((), t))
  | cleared (h : s.removeFile source.journal = .ok ((), t))
    (hvacant : keepsVacant → s.find source.holder source.name = none)
  | holderRemoved (hcleared : s.find source.config journalName = none) (hholder : source.HolderIn s)
    (h : s.removeDir source.holderPath = .ok ((), t))

/-- An action of the trash adapter on the staged path. -/
def Adapts (moveToTrash : Path → Io Unit) (s t : FileSystem) : Prop :=
  ∃ v, source.HolderIn v ∧ (moveToTrash source.staged).Acts source.Foreign v s t

/-- An action of a cleanup: one of a recovery, or of the beginning of the journal, the staging, or the trash. -/
inductive CleanupStep (formats : Formats) (moveToTrash : Path → Io Unit) (keepsVacant : Prop) (s t : FileSystem) : Prop
  | recovery (h : source.RecoveryStep keepsVacant s t)
  | tempCreated (name : Name) (i : Identity) (hname : name ≠ journalName)
    (h : s.create ⟨source.config, [name]⟩ ⟨.regular [], 0o600, none, (0, 0)⟩ = .ok (i, t))
  | tempWritten (i : Identity) (bytes : List UInt8) (hvacant : s.find source.config journalName = none)
    (hi : i ≠ source.identity) (h : t = s.write i bytes)
  | tempRemoved (name : Name) (i : Identity) (htemp : s.find source.config name = some i) (hi : i ≠ source.identity)
    (hvacant : s.find source.config journalName = none) (h : s.removeFile ⟨source.config, [name]⟩ = .ok ((), t))
  | begun (name : Name) (i : Identity) (htemp : s.find source.config name = some i) (hi : i ≠ source.identity)
    (hcontent : (s.inodes i).content = .regular (formats.toVec source.document)) (hholder : source.HolderIn s)
    (h : s.renameNoReplace ⟨source.config, [name]⟩ source.journal = .ok ((), t))
  | staged (hpresent : s.find source.directory source.name = some source.identity) (hholder : source.HolderIn s)
    (h : s.renameNoReplace source.original source.staged = .ok ((), t))
  | handedOver (h : source.Adapts moveToTrash s t)

/-- The source is taken from the holder, and is at none of its places then. -/
def Took (s t : FileSystem) : Prop :=
  s.find source.holder source.name = some source.identity ∧
    ∀ place ∈ source.places, t.find place.1 place.2 ≠ some source.identity

/-- What the trash adapter does where the journal and the places of the source are: it may take what stands at the
staged path. -/
structure Trashing (s t : FileSystem) : Prop where
  arrives : ∀ place ∈ source.places, t.find place.1 place.2 = some source.identity →
    s.find place.1 place.2 = some source.identity
  leaves : ∀ place ∈ source.places, s.find place.1 place.2 = some source.identity →
    t.find place.1 place.2 = some source.identity ∨ place = (source.holder, source.name)
  holder : source.HolderIn s → source.HolderIn t
  journal : t.find source.config journalName = s.find source.config journalName
  content : ∀ i, s.find source.config journalName = some i → (t.inodes i).content = (s.inodes i).content

/-! ## What is kept -/

/-- The journal, where there is one, holds the record, and then the holder stands at its path. -/
structure Recorded (formats : Formats) (s : FileSystem) : Prop where
  content : ∀ i, s.find source.config journalName = some i →
    (s.inodes i).content = .regular (formats.toVec source.document)
  identity : s.find source.config journalName ≠ some source.identity
  holder : s.find source.config journalName ≠ none → source.HolderIn s

/-- The source is at exactly one of its places. -/
def Sole (s : FileSystem) : Prop :=
  ∃ place ∈ source.places, ∀ other ∈ source.places, s.find other.1 other.2 = some source.identity ↔ other = place

/-- What becomes of an entry in a step of a recovery. -/
inductive Fate (s t : FileSystem) (d : Identity) (name : Name) (i : Identity) : Prop
  | stays (h : t.find d name = some i)
  | moved (hstaged : (d, name) = (source.holder, source.name)) (place : Identity × Name)
    (hplace : place = (source.directory, source.name) ∧ s.find source.directory source.name = none ∨
      place = (source.directory, preservedName source.name source.attempt) ∧
        s.find source.directory source.name ≠ none)
    (hvacant : s.find place.1 place.2 = none) (h : t.find place.1 place.2 = some i)
  | record (hjournal : (d, name) = (source.config, journalName))
  | emptyHolder (hholder : (d, name) = (source.directory, source.holderName)) (hempty : ∀ inner, s.find i inner = none)

/-- The holder was made for the source: it is not the source, and neither its directory nor that of the journal. -/
structure Apart : Prop where
  identity : source.holder ≠ source.identity
  directory : source.holder ≠ source.directory
  config : source.holder ≠ source.config

variable {source} {s t : FileSystem} {formats : Formats} {keepsVacant : Prop}

theorem HolderIn.of_keeps (hs : source.HolderIn s) (h : s.Keeps t source.directory source.holderName) :
    source.HolderIn t := ⟨h.find.trans hs.find, (h.sameFile _ hs.find).1.trans hs.directory⟩

theorem HolderIn.locate_staged (hs : source.HolderIn s) :
    s.locate source.staged.base source.staged.names = .ok (source.holder, source.name) :=
  locate_two_of_directory hs.find hs.directory

theorem HolderIn.identity_staged (hs : source.HolderIn s) :
    s.identity source.staged = found (s.find source.holder source.name) :=
  identity_two_of_directory hs.find hs.directory

theorem Recorded.of_vacant (h : t.find source.config journalName = none) : source.Recorded formats t where
  content i hi := by
    rw [h] at hi
    cases hi
  identity hi := by
    rw [h] at hi
    cases hi
  holder hne := absurd h hne

theorem Recorded.of_keeps (hs : source.Recorded formats s) (hjournal : s.Keeps t source.config journalName)
    (hholder : source.HolderIn s → source.HolderIn t) : source.Recorded formats t where
  content i hi := by
    rw [hjournal.find] at hi
    rw [(hjournal.sameFile i hi).1]
    exact hs.content i hi
  identity := by
    rw [hjournal.find]
    exact hs.identity
  holder hne := by
    rw [hjournal.find] at hne
    exact hholder (hs.holder hne)

theorem Sole.of_iff (hs : source.Sole s)
    (h : ∀ d name, t.find d name = some source.identity ↔ s.find d name = some source.identity) : source.Sole t := by
  obtain ⟨place, hplace, hiff⟩ := hs
  exact ⟨place, hplace, fun other hother => (h _ _).trans (hiff other hother)⟩

theorem Sole.linked (hs : source.Sole s) : ∃ d name, s.find d name = some source.identity := by
  obtain ⟨place, hplace, hiff⟩ := hs
  exact ⟨place.1, place.2, (hiff place hplace).2 rfl⟩

/-! ## What others keep -/

theorem Foreign.holderIn (h : source.Foreign s t) (hs : source.HolderIn s) : source.HolderIn t :=
  ⟨h.kept _ _ _ hs.find, (h.content _ _ _ hs.find).trans hs.directory⟩

/-- A new entry of others. -/
theorem Foreign.link {d i : Identity} {name : Name} (hvacant : s.find d name = none)
    (hjournal : (d, name) ≠ (source.config, journalName)) (hi : i ≠ source.identity) :
    source.Foreign s (s.link d name i) where
  kept d' name' j hj := by
    rw [find_link, if_neg]
    · exact hj
    · rintro ⟨rfl, rfl⟩
      rw [hvacant] at hj
      cases hj
  places place _ hplace hfound := by
    rw [find_link] at hfound
    split at hfound
    · exact hi (Option.some.inj hfound)
    · rw [hplace] at hfound
      cases hfound
  journal := by
    rw [find_link, if_neg]
    rintro ⟨hd, hname⟩
    exact hjournal (by rw [hd, hname])
  content _ _ _ _ := rfl

theorem Foreign.recorded (h : source.Foreign s t) (hs : source.Recorded formats s) : source.Recorded formats t where
  content i hi := by
    rw [h.journal] at hi
    rw [h.content _ _ _ hi]
    exact hs.content i hi
  identity := by
    rw [h.journal]
    exact hs.identity
  holder hne := by
    rw [h.journal] at hne
    exact h.holderIn (hs.holder hne)

theorem Foreign.sole (h : source.Foreign s t) (hs : source.Sole s) : source.Sole t := by
  obtain ⟨place, hplace, hiff⟩ := hs
  refine ⟨place, hplace, fun other hother => ?_⟩
  rw [← hiff other hother]
  constructor
  · intro ht
    cases hfind : s.find other.1 other.2 with
    | none => exact absurd ht (h.places other hother hfind)
    | some i => rw [← h.kept _ _ _ hfind, ht]
  · exact h.kept _ _ _

theorem Trashing.recorded (h : source.Trashing s t) (hs : source.Recorded formats s) : source.Recorded formats t where
  content i hi := by
    rw [h.journal] at hi
    rw [h.content _ hi]
    exact hs.content i hi
  identity := by
    rw [h.journal]
    exact hs.identity
  holder hne := by
    rw [h.journal] at hne
    exact h.holder (hs.holder hne)

/-- The adapter leaves the source at its one place, or takes it. -/
theorem Trashing.sole (h : source.Trashing s t) (htook : ¬ source.Took s t) (hs : source.Sole s) : source.Sole t := by
  obtain ⟨place, hplace, hiff⟩ := hs
  have hat : t.find place.1 place.2 = some source.identity := by
    have hfind := (hiff place hplace).2 rfl
    rcases h.leaves place hplace hfind with hstays | rfl
    · exact hstays
    · -- it is at a place still, which is the one it was at
      by_contra hgone
      refine htook ⟨hfind, fun other hother hfound => hgone ?_⟩
      rw [← (hiff other hother).1 (h.arrives other hother hfound)]
      exact hfound
  refine ⟨place, hplace, fun other hother => ⟨fun hfound => ?_, fun heq => heq ▸ hat⟩⟩
  exact (hiff other hother).1 (h.arrives other hother hfound)

theorem HolderIn.of_relocated (hapart : source.Apart) {k' : Identity × Name} {i : Identity}
    (hs : source.HolderIn s)
    (h : s.Relocated (source.holder, source.name) k' i t) : source.HolderIn t := by
  refine hs.of_keeps (h.keeps (fun heq => hapart.directory (Prod.mk.inj heq).1.symm) ?_)
  rintro rfl
  have hvacant := h.vacant
  rw [hs.find] at hvacant
  cases hvacant

theorem Trashing.refl (s : FileSystem) : source.Trashing s s where
  arrives _ _ h := h
  leaves _ _ h := .inl h
  holder h := h
  journal := rfl
  content _ _ := rfl

/-- What stands at the staged path is moved out of the way. -/
theorem Trashing.relocated (hapart : source.Apart) {k : Identity × Name} {i : Identity}
    (h : s.Relocated (source.holder, source.name) k i t) (hk : k ∉ source.places)
    (hjournal : k ≠ (source.config, journalName)) : source.Trashing s t where
  arrives place hplace hfound := by
    by_cases hstaged : place = (source.holder, source.name)
    · subst hstaged
      rw [h.gone] at hfound
      cases hfound
    · rwa [h.others _ _ hstaged fun heq => hk (heq ▸ hplace)] at hfound
  leaves place hplace hfound := by
    by_cases hstaged : place = (source.holder, source.name)
    · exact .inr hstaged
    · exact .inl ((h.others _ _ hstaged fun heq => hk (heq ▸ hplace)).trans hfound)
  holder hs := hs.of_relocated hapart h
  journal := h.others _ _ (fun heq => hapart.config (Prod.mk.inj heq).1.symm) hjournal.symm
  content j _ := (h.sameFile j).1

/-! ## What one action keeps -/

section Entries

variable {d i : Identity} {name : Name} {k k' : Identity × Name}

/-- A new entry is not the source, which has one. -/
theorem found_iff_of_created {node : Inode} (h : s.Created d name node i t)
    (hlinked : ∃ d name, s.find d name = some source.identity) (d' : Identity) (name' : Name) :
    t.find d' name' = some source.identity ↔ s.find d' name' = some source.identity := by
  by_cases hk : (d', name') = (d, name)
  · cases hk
    rw [h.target, h.vacant]
    obtain ⟨d', name', hfind⟩ := hlinked
    constructor
    · rintro heq
      cases heq
      exact absurd hfind (h.fresh d' name')
    · rintro heq
      cases heq
  · rw [h.others d' name' hk]

theorem found_iff_of_removed (h : s.Removed d name t) (hne : s.find d name ≠ some source.identity) (d' : Identity)
    (name' : Name) : t.find d' name' = some source.identity ↔ s.find d' name' = some source.identity := by
  by_cases hk : (d', name') = (d, name)
  · cases hk
    rw [h.gone]
    exact ⟨fun heq => absurd heq nofun, fun heq => absurd heq hne⟩
  · rw [h.others d' name' hk]

theorem found_iff_of_relocated (h : s.Relocated k k' i t) (hi : i ≠ source.identity) (d' : Identity) (name' : Name) :
    t.find d' name' = some source.identity ↔ s.find d' name' = some source.identity := by
  by_cases hk' : (d', name') = k'
  · subst hk'
    rw [h.target, h.vacant]
    exact ⟨fun heq => absurd (Option.some.inj heq) hi, nofun⟩
  · by_cases hk : (d', name') = k
    · subst hk
      rw [h.gone, h.source]
      exact ⟨nofun, fun heq => absurd (Option.some.inj heq) hi⟩
    · rw [h.others d' name' hk hk']

/-- A move between two places of the source leaves it at one. -/
theorem Sole.relocated (hs : source.Sole s) (h : s.Relocated k k' i t) (hk : k ∈ source.places)
    (hk' : k' ∈ source.places) : source.Sole t := by
  by_cases hi : i = source.identity
  · subst hi
    obtain ⟨place, -, hiff⟩ := hs
    have hplace : k = place := (hiff k hk).1 h.source
    subst hplace
    refine ⟨k', hk', fun other hother => ?_⟩
    by_cases hok' : other = k'
    · subst hok'
      exact ⟨fun _ => rfl, fun _ => h.target⟩
    · by_cases hok : other = k
      · subst hok
        rw [h.gone]
        exact ⟨nofun, fun heq => absurd heq hok'⟩
      · rw [h.others other.1 other.2 hok hok', hiff other hother]
        exact ⟨fun heq => absurd heq hok, fun heq => absurd heq hok'⟩
  · exact hs.of_iff (found_iff_of_relocated h hi)

end Entries

/-! ## What a recovery keeps -/

theorem lockPath_journal : lockPath source.journal = ⟨source.config, [utf8Bytes "source-cleanup.lock"]⟩ := rfl

theorem lock_ne_journal : utf8Bytes "source-cleanup.lock" ≠ journalName := by decide +kernel

/-- A recovery moves what is in the holder only: to the original path, or to the one of the preserved source. -/
theorem RecoveryStep.cases (h : source.RecoveryStep keepsVacant s t) :
    t = s ∨ (∃ i, s.Created source.config (utf8Bytes "source-cleanup.lock") ⟨.regular [], 0o600, none, (0, 0)⟩ i t) ∨
    (s.find source.config journalName ≠ none ∧ source.HolderIn s ∧ ∃ place i,
      (place = (source.directory, source.name) ∧ s.find source.directory source.name = none ∨
        place = (source.directory, preservedName source.name source.attempt) ∧
          s.find source.directory source.name ≠ none) ∧
      s.Relocated (source.holder, source.name) place i t) ∨
    (s.Removed source.config journalName t ∧ ∀ i, s.find source.config journalName = some i →
      (s.inodes i).isDir = false) ∨
    (s.find source.config journalName = none ∧ source.HolderIn s ∧ (∀ name, s.find source.holder name = none) ∧
      s.Removed source.directory source.holderName t) := by
  cases h with
  | same h => exact .inl h
  | locked i h =>
    rw [lockPath_journal] at h
    exact .inr (.inl ⟨i, create_created h⟩)
  | restored hpending hholder hvacant h =>
    obtain ⟨i, hi⟩ := renameNoReplace_relocated h hholder.locate_staged (locate_one s source.directory source.name)
    exact .inr (.inr (.inl ⟨hpending, hholder, _, i, .inl ⟨rfl, hvacant⟩, hi⟩))
  | preserved hpending hholder hoccupied h =>
    obtain ⟨i, hi⟩ := renameNoReplace_relocated h hholder.locate_staged (locate_one s source.directory _)
    exact .inr (.inr (.inl ⟨hpending, hholder, _, i, .inr ⟨rfl, hoccupied⟩, hi⟩))
  | cleared h _ =>
    refine .inr (.inr (.inr (.inl ⟨removeFile_removed h, fun i hi => ?_⟩)))
    obtain ⟨d, name, j, hloc, hj, hdir, -⟩ := removeFile_eq_ok.1 h
    cases hloc
    cases hi.symm.trans hj
    exact hdir
  | holderRemoved hcleared hholder h =>
    refine .inr (.inr (.inr (.inr ⟨hcleared, hholder, ?_, removeDir_removed h⟩)))
    obtain ⟨d, name, i, hloc, hi, -, hempty, -⟩ := removeDir_eq_ok.1 h
    cases hloc
    cases hholder.find.symm.trans hi
    exact (children_eq_nil s source.holder).1 hempty

theorem RecoveryStep.vacant (h : source.RecoveryStep keepsVacant s t) (hs : s.find source.config journalName = none) :
    t.find source.config journalName = none := by
  rcases h.cases with rfl | ⟨i, hi⟩ | ⟨hpending, -⟩ | ⟨hremoved, -⟩ | ⟨-, -, -, hremoved⟩
  · exact hs
  · exact (hi.others _ _ fun heq => lock_ne_journal (Prod.mk.inj heq).2.symm).trans hs
  · exact absurd hs hpending
  · exact hremoved.gone
  · by_cases hk : (source.config, journalName) = (source.directory, source.holderName)
    · rw [(Prod.mk.inj hk).1, (Prod.mk.inj hk).2]
      exact hremoved.gone
    · exact (hremoved.others _ _ hk).trans hs

theorem RecoveryStep.recorded (hapart : source.Apart) (h : source.RecoveryStep keepsVacant s t)
    (hs : source.Recorded formats s) : source.Recorded formats t := by
  rcases h.cases with rfl | ⟨i, hi⟩ | ⟨hpending, hholder, place, i, -, hi⟩ | ⟨hremoved, -⟩ | ⟨hcleared, -⟩
  · exact hs
  · refine hs.of_keeps (hi.keeps fun heq => lock_ne_journal (Prod.mk.inj heq).2.symm) fun hholder =>
      hholder.of_keeps (hi.keeps fun heq => ?_)
    have hvacant := hi.vacant
    rw [← (Prod.mk.inj heq).1, ← (Prod.mk.inj heq).2, hholder.find] at hvacant
    cases hvacant
  · refine hs.of_keeps (hi.keeps (fun heq => hapart.config (Prod.mk.inj heq).1.symm) ?_) fun _ =>
      hholder.of_relocated hapart hi
    rintro rfl
    exact hpending hi.vacant
  · exact .of_vacant hremoved.gone
  · exact .of_vacant (h.vacant hcleared)

theorem RecoveryStep.sole (hapart : source.Apart) (h : source.RecoveryStep keepsVacant s t)
    (hrecorded : source.Recorded formats s) (hs : source.Sole s) : source.Sole t := by
  rcases h.cases with rfl | ⟨i, hi⟩ | ⟨-, -, place, i, hplace, hi⟩ | ⟨hremoved, -⟩ | ⟨-, hholder, -, hremoved⟩
  · exact hs
  · exact hs.of_iff (found_iff_of_created hi hs.linked)
  · refine hs.relocated hi (by simp [places]) ?_
    rcases hplace with ⟨rfl, -⟩ | ⟨rfl, -⟩ <;> simp [places]
  · exact hs.of_iff (found_iff_of_removed hremoved hrecorded.identity)
  · refine hs.of_iff (found_iff_of_removed hremoved ?_)
    rw [hholder.find]
    exact fun heq => hapart.identity (Option.some.inj heq)

/-- Nothing is deleted or overwritten: an entry stays, or it is moved to a vacant place, or it is the record, or the
empty holder. -/
theorem RecoveryStep.fate (h : source.RecoveryStep keepsVacant s t) {d i : Identity} {name : Name}
    (hfind : s.find d name = some i) : source.Fate s t d name i := by
  have hothers : ∀ d' name', s.Removed d' name' t → (d, name) ≠ (d', name') → t.find d name = some i :=
    fun d' name' hremoved hk => (hremoved.others d name hk).trans hfind
  rcases h.cases with rfl | ⟨j, hj⟩ | ⟨-, -, place, j, hplace, hj⟩ | ⟨hremoved, -⟩ | ⟨-, hholder, hempty, hremoved⟩
  · exact .stays hfind
  · refine .stays ((hj.others d name ?_).trans hfind)
    rintro heq
    cases heq
    rw [hj.vacant] at hfind
    cases hfind
  · by_cases hk : (d, name) = (source.holder, source.name)
    · have hi := hj.source
      rw [← hk, hfind] at hi
      cases hi
      exact .moved hk place hplace hj.vacant hj.target
    · refine .stays ((hj.others d name hk ?_).trans hfind)
      rintro rfl
      rw [hj.vacant] at hfind
      cases hfind
  · by_cases hk : (d, name) = (source.config, journalName)
    · exact .record hk
    · exact .stays (hothers _ _ hremoved hk)
  · by_cases hk : (d, name) = (source.directory, source.holderName)
    · cases hk
      rw [hholder.find] at hfind
      cases hfind
      exact .emptyHolder rfl hempty
    · exact .stays (hothers _ _ hremoved hk)

/-- No file is written. -/
theorem RecoveryStep.sameFile (h : source.RecoveryStep keepsVacant s t) {d i : Identity} {name : Name}
    (hfind : s.find d name = some i) : (t.inodes i).SameFile (s.inodes i) := by
  rcases h.cases with rfl | ⟨j, hj⟩ | ⟨-, -, place, j, -, hj⟩ | ⟨hremoved, -⟩ | ⟨-, -, -, hremoved⟩
  · exact .refl _
  · rw [hj.inodes i fun heq => hj.fresh d name (heq ▸ hfind)]
    exact .refl _
  · exact hj.sameFile i
  · exact hremoved.sameFile i
  · exact hremoved.sameFile i

/-! ## What a cleanup keeps -/

variable {moveToTrash : Path → Io Unit}

/-- An action of a cleanup is one of a recovery, or of the beginning or the staging, or of the adapter. -/
theorem CleanupStep.recorded (hapart : source.Apart)
    (hadapter : ∀ s t, source.Adapts moveToTrash s t → source.Trashing s t)
    (h : source.CleanupStep formats moveToTrash keepsVacant s t) (hs : source.Recorded formats s) :
    source.Recorded formats t := by
  cases h with
  | recovery h => exact h.recorded hapart hs
  | tempCreated name i hname h =>
    have hi := create_created h
    refine hs.of_keeps (hi.keeps fun heq => hname (Prod.mk.inj heq).2.symm) fun hholder =>
      hholder.of_keeps (hi.keeps fun heq => ?_)
    have hvacant := hi.vacant
    rw [← (Prod.mk.inj heq).1, ← (Prod.mk.inj heq).2, hholder.find] at hvacant
    cases hvacant
  | tempWritten i bytes hvacant hi h =>
    subst h
    exact .of_vacant hvacant
  | tempRemoved name i htemp hi hvacant h =>
    have hremoved := removeFile_removed h
    by_cases hk : (source.config, journalName) = (source.config, name)
    · rw [Prod.mk.injEq] at hk
      refine .of_vacant ?_
      rw [hk.2]
      exact hremoved.gone
    · exact .of_vacant ((hremoved.others _ _ hk).trans hvacant)
  | begun name i htemp hi hcontent hholder h =>
    obtain ⟨j, hj⟩ := renameNoReplace_relocated h (locate_one s source.config name) (locate_one s source.config _)
    have hji := hj.source
    rw [htemp] at hji
    cases hji
    have hne : i ≠ source.holder := by
      rintro rfl
      rw [hholder.directory] at hcontent
      cases hcontent
    have htarget : t.find source.config journalName = some i := hj.target
    refine ⟨fun k hk => ?_, ?_, fun _ => ?_⟩
    · rw [htarget] at hk
      cases hk
      rw [(hj.sameFile i).1]
      exact hcontent
    · rw [htarget]
      exact fun heq => hi (Option.some.inj heq)
    · refine hholder.of_keeps (hj.keeps (fun heq => hne ?_) fun heq => ?_)
      · rw [Prod.mk.injEq] at heq
        rw [← heq.1, ← heq.2, hholder.find] at htemp
        exact (Option.some.inj htemp).symm
      · have hvacant := hj.vacant
        rw [← (Prod.mk.inj heq).1, ← (Prod.mk.inj heq).2, hholder.find] at hvacant
        cases hvacant
  | staged hpresent hholder h =>
    obtain ⟨i, hi⟩ := renameNoReplace_relocated h (locate_one s source.directory source.name) hholder.locate_staged
    have hsource := hi.source
    rw [hpresent] at hsource
    cases hsource
    refine hs.of_keeps (hi.keeps (fun heq => hs.identity ?_) fun heq => hapart.config (Prod.mk.inj heq).1.symm)
      fun _ => hholder.of_keeps (hi.keeps (fun heq => hapart.identity ?_) fun heq => ?_)
    · rw [Prod.mk.injEq] at heq
      rw [heq.1, heq.2]
      exact hpresent
    · rw [← (Prod.mk.inj heq).2, hholder.find] at hpresent
      exact Option.some.inj hpresent
    · exact hapart.directory (Prod.mk.inj heq).1.symm
  | handedOver h => exact (hadapter s t h).recorded hs

/-- Only the adapter can take the source from its place. -/
theorem CleanupStep.sole (hapart : source.Apart) (h : source.CleanupStep formats moveToTrash keepsVacant s t)
    (hrecorded : source.Recorded formats s) (hs : source.Sole s) : source.Sole t ∨ source.Adapts moveToTrash s t := by
  cases h with
  | recovery h => exact .inl (h.sole hapart hrecorded hs)
  | tempCreated name i _ h => exact .inl (hs.of_iff (found_iff_of_created (create_created h) hs.linked))
  | tempWritten i bytes _ _ h =>
    subst h
    exact .inl (hs.of_iff fun _ _ => Iff.rfl)
  | tempRemoved name i htemp hi _ h =>
    refine .inl (hs.of_iff (found_iff_of_removed (removeFile_removed h) ?_))
    rw [htemp]
    exact fun heq => hi (Option.some.inj heq)
  | begun name i htemp hi _ _ h =>
    obtain ⟨j, hj⟩ := renameNoReplace_relocated h (locate_one s source.config name) (locate_one s source.config _)
    have hji := hj.source
    rw [htemp] at hji
    cases hji
    exact .inl (hs.of_iff (found_iff_of_relocated hj hi))
  | staged _ hholder h =>
    obtain ⟨i, hi⟩ := renameNoReplace_relocated h (locate_one s source.directory source.name) hholder.locate_staged
    exact .inl (hs.relocated hi (by simp [places]) (by simp [places]))
  | handedOver h => exact .inr h

end Source

end Squallz.SourceCleanup
