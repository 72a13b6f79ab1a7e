/-
How far a publication has come: the members installed so far, the staging directory, the journal; and
what each check of the code finds there.
-/
import Squallz.OutputSet.Publication

namespace Squallz.OutputSet

open Squallz.Api Squallz.Core Squallz.System

/-! ## A prepared publication -/

/-- What preparation fixes of a publication apart from the state of the files. -/
structure PreparedFileSetPublication.WellFormed (p : PreparedFileSetPublication) : Prop where
  primary : p.primary = ⟨p.parentIdentity, [p.primaryName]⟩
  parent : p.parent = ⟨p.parentIdentity, []⟩
  parentFile : p.parentFile = p.parentIdentity
  holder : p.holder = ⟨p.parentIdentity, [p.holderName]⟩
  holderFile : p.holderFile = p.holderIdentity
  staged : ∀ m ∈ p.members, m.staged = ⟨p.parentIdentity, [p.holderName, m.name]⟩
  finalPath : ∀ m ∈ p.members, m.finalPath = ⟨p.parentIdentity, [m.name]⟩
  file : ∀ m ∈ p.members, m.file = m.identity
  nodup : (p.members.map (·.name)).Nodup
  last : (p.members.map (·.name)).getLast? = some p.primaryName
  count : p.members.length ≤ maxOutputSetMembers
  primaryComponent : isSingleComponent p.primaryName = true
  holderComponent : isSingleComponent p.holderName = true
  components : ∀ m ∈ p.members, isSingleComponent m.name = true

/-- The members are recorded as the files they were when they were prepared. -/
def PreparedFileSetPublication.Recorded (formats : Formats) (origin : FileSystem) (p : PreparedFileSetPublication) :
    Prop :=
  ∀ m ∈ p.members, (origin.inodes m.identity).isFile = true ∧
    m.state = .fromMetadata (origin.inodes m.identity) ∧ m.digest = formats.hash (origin.inodes m.identity).bytes

/-- The name of the journal. -/
def PreparedFileSetPublication.journalName (p : PreparedFileSetPublication) : Name :=
  utf8Bytes "." ++ p.primaryName ++ utf8Bytes ".squallz-output-set.json"

/-- A publication whose journal has become durable, and whose members can be told from the journal and from
each other. -/
structure Issued (formats : Formats) (origin : FileSystem) extends PreparedFileSetPublication where
  start : FileSystem
  record : JournalRecord
  journal : Identity
  node : Inode
  wellFormed : toPreparedFileSetPublication.WellFormed
  recorded : toPreparedFileSetPublication.Recorded formats origin
  issued : toPreparedFileSetPublication.journalRecord = .ok record
  stored : node.content = .regular (formats.toVec record)
  readable : formats.fromSlice (formats.toVec record) = some record
  small : (formats.toVec record).length ≤ journalMaxBytes
  holder_ne_parent : holderIdentity ≠ parentIdentity
  holder_not_member : holderName ∉ members.map (·.name)
  holder_ne_journal : toPreparedFileSetPublication.journalName ≠ holderName
  journal_not_member : toPreparedFileSetPublication.journalName ∉ members.map (·.name)
  journal_ne_member : journal ∉ members.map (·.identity)
  distinct : (members.map (·.identity)).Nodup
  vacant : ∀ m ∈ members, start.find parentIdentity m.name = none

variable {formats : Formats} {origin : FileSystem}

namespace Issued

variable (tx : Issued formats origin)

/-- The journal as it is opened. -/
def openJournal : OpenJournal :=
  ⟨journalPath tx.primary tx.primaryName, tx.journal, tx.journal, .fromMetadata tx.node,
    formats.hash (formats.toVec tx.record), tx.record⟩

theorem openJournal_path : tx.openJournal.path = ⟨tx.parentIdentity, [tx.journalName]⟩ := by
  show journalPath tx.primary tx.primaryName = _
  rw [journalPath, tx.wellFormed.primary]
  rfl

/-! ## Stages -/

/-- What holds from the durable journal on, whatever else happens. -/
structure Kept (s : FileSystem) : Prop where
  directory : (s.inodes tx.parentIdentity).content = .directory
  files : ∀ m ∈ tx.members, (s.inodes m.identity).SameFile (origin.inodes m.identity)
  others : ∀ name i, tx.start.find tx.parentIdentity name = some i → name ≠ tx.journalName → name ≠ tx.holderName →
    s.find tx.parentIdentity name = some i

structure Journaled (s : FileSystem) : Prop extends tx.Kept s where
  journalAt : s.find tx.parentIdentity tx.journalName = some tx.journal
  journalNode : s.inodes tx.journal = tx.node

/-- The first members are installed and the others are staged. -/
structure Progress (done rest : List PreparedMember) (s : FileSystem) : Prop extends tx.Journaled s where
  holderAt : s.find tx.parentIdentity tx.holderName = some tx.holderIdentity
  holderDirectory : (s.inodes tx.holderIdentity).content = .directory
  installed : ∀ m ∈ done, s.find tx.parentIdentity m.name = some m.identity
  staged : ∀ m ∈ rest, s.find tx.holderIdentity m.name = some m.identity ∧
    s.find tx.parentIdentity m.name = none ∧ s.inodes m.identity = origin.inodes m.identity
  inventory : ∀ name i, s.find tx.holderIdentity name = some i → name ∈ rest.map (·.name)

/-- All members are installed and the staging directory is gone. -/
structure Emptied (s : FileSystem) : Prop extends tx.Journaled s where
  holderGone : s.find tx.parentIdentity tx.holderName = none
  installed : ∀ m ∈ tx.members, s.find tx.parentIdentity m.name = some m.identity

/-- The journal is gone too. -/
structure Cleared (s : FileSystem) : Prop extends tx.Kept s where
  journalGone : s.find tx.parentIdentity tx.journalName = none
  holderGone : s.find tx.parentIdentity tx.holderName = none
  installed : ∀ m ∈ tx.members, s.find tx.parentIdentity m.name = some m.identity

/-- The states between the durable journal and the end of the publication. -/
inductive Reached (s : FileSystem) : Prop
  | progress (done rest : List PreparedMember) (split : tx.members = done ++ rest) (h : tx.Progress done rest s)
  | emptied (h : tx.Emptied s)
  | cleared (h : tx.Cleared s)

variable {tx} {s : FileSystem}

theorem Reached.kept (h : tx.Reached s) : tx.Kept s := by
  cases h with
  | progress done rest _ h => exact h.toKept
  | emptied h => exact h.toKept
  | cleared h => exact h.toKept

/-! ## Where the paths of the members lead -/

theorem identity_final {m : PreparedMember} (hm : m ∈ tx.members) :
    s.identity m.finalPath = FileSystem.found (s.find tx.parentIdentity m.name) := by
  rw [tx.wellFormed.finalPath m hm, FileSystem.identity_one]

theorem identity_final_of_find {m : PreparedMember} (hm : m ∈ tx.members)
    (h : s.find tx.parentIdentity m.name = some m.identity) : s.identity m.finalPath = .ok m.identity := by
  rw [identity_final hm, h, FileSystem.found_some]

theorem identity_final_of_none {m : PreparedMember} (hm : m ∈ tx.members)
    (h : s.find tx.parentIdentity m.name = none) : s.identity m.finalPath = .error .notFound := by
  rw [identity_final hm, h, FileSystem.found_none]

theorem identity_staged_of_gone {m : PreparedMember} (hm : m ∈ tx.members)
    (h : s.find tx.parentIdentity tx.holderName = none) : s.identity m.staged = .error .notFound := by
  rw [tx.wellFormed.staged m hm, FileSystem.identity_two_of_none h]

namespace Progress

variable {done rest : List PreparedMember} {m : PreparedMember}

theorem identity_staged (h : tx.Progress done rest s) (hm : m ∈ tx.members) :
    s.identity m.staged = FileSystem.found (s.find tx.holderIdentity m.name) := by
  rw [tx.wellFormed.staged m hm, FileSystem.identity_two_of_directory h.holderAt h.holderDirectory]

theorem staged_gone (h : tx.Progress done rest s) (split : tx.members = done ++ rest) (hm : m ∈ done) :
    s.identity m.staged = .error .notFound := by
  have hmem : m ∈ tx.members := by
    rw [split]
    exact List.mem_append_left _ hm
  rw [h.identity_staged hmem]
  cases hf : s.find tx.holderIdentity m.name with
  | none => rfl
  | some i =>
    have hnodup := tx.wellFormed.nodup
    rw [split, List.map_append] at hnodup
    exact absurd (h.inventory m.name i hf) fun hr =>
      (List.nodup_append.1 hnodup).2.2 m.name (List.mem_map_of_mem hm) m.name hr rfl

theorem staged_at (h : tx.Progress done rest s) (split : tx.members = done ++ rest) (hm : m ∈ rest) :
    s.identity m.staged = .ok m.identity := by
  have hmem : m ∈ tx.members := by
    rw [split]
    exact List.mem_append_right _ hm
  rw [h.identity_staged hmem, (h.staged m hm).1, FileSystem.found_some]

/-- The next member moves to its final path. -/
theorem install (h : tx.Progress done (m :: rest) s) (split : tx.members = done ++ m :: rest) :
    ∃ t, s.renameNoReplace m.staged m.finalPath = .ok ((), t) ∧ tx.Progress (done ++ [m]) rest t := by
  have hmem : m ∈ tx.members := by
    rw [split]
    exact List.mem_append_right _ List.mem_cons_self
  obtain ⟨hstaged, hvacant, -⟩ := h.staged m List.mem_cons_self
  have hnodup := tx.wellFormed.nodup
  have hdistinct := tx.distinct
  rw [split, List.map_append, List.map_cons] at hnodup hdistinct
  have hrest : ∀ m' ∈ rest, m'.name ≠ m.name ∧ m'.identity ≠ m.identity := by
    intro m' hm'
    constructor
    · intro heq
      exact (List.nodup_cons.1 (List.nodup_append.1 hnodup).2.1).1 (heq ▸ List.mem_map_of_mem hm')
    · intro heq
      exact (List.nodup_cons.1 (List.nodup_append.1 hdistinct).2.1).1
        (heq ▸ List.mem_map_of_mem (f := fun m : PreparedMember => m.identity) hm')
  have hdone : ∀ m' ∈ done, m'.name ≠ m.name := fun m' hm' heq =>
    (List.nodup_append.1 hnodup).2.2 m'.name (List.mem_map_of_mem hm') m.name List.mem_cons_self heq
  have hholder : tx.holderName ≠ m.name := fun heq =>
    tx.holder_not_member (heq ▸ List.mem_map_of_mem hmem)
  have hjournal : tx.journalName ≠ m.name := fun heq =>
    tx.journal_not_member (heq ▸ List.mem_map_of_mem hmem)
  have hnode : tx.journal ≠ m.identity := fun heq =>
    tx.journal_ne_member (heq ▸ List.mem_map_of_mem (f := fun m : PreparedMember => m.identity) hmem)
  refine ⟨((s.unlink tx.holderIdentity m.name).link tx.parentIdentity m.name m.identity).touch m.identity, ?_, ?_⟩
  · rw [FileSystem.renameNoReplace, tx.wellFormed.staged m hmem, tx.wellFormed.finalPath m hmem]
    simp only [FileSystem.locate_two_of_directory h.holderAt h.holderDirectory, ok_bind, hstaged,
      FileSystem.locate_one, hvacant]
  · -- entries under other names stay as they are
    have hother : ∀ d name, name ≠ m.name →
        (((s.unlink tx.holderIdentity m.name).link tx.parentIdentity m.name m.identity).touch m.identity).find d name =
          s.find d name := by
      intro d name hne
      rw [FileSystem.find_touch, FileSystem.find_link, if_neg fun heq => hne heq.2, FileSystem.find_unlink,
        if_neg fun heq => hne heq.2]
    have hsame : ∀ i, ((((s.unlink tx.holderIdentity m.name).link tx.parentIdentity m.name m.identity).touch
        m.identity).inodes i).SameFile (s.inodes i) := fun i => FileSystem.sameFile_touch _ _ _
    refine ⟨⟨⟨?_, ?_, ?_⟩, ?_, ?_⟩, ?_, ?_, ?_, ?_, ?_⟩
    · rw [(hsame _).1, h.directory]
    · exact fun m' hm' => (hsame _).trans (h.files m' hm')
    · intro name i hi hj hh
      rw [hother _ _ fun heq => ?_]
      · exact h.others name i hi hj hh
      · rw [heq, tx.vacant m hmem] at hi
        cases hi
    · rw [hother _ _ hjournal, h.journalAt]
    · rw [FileSystem.inodes_touch_ne _ _ _ hnode]
      exact h.journalNode
    · rw [hother _ _ hholder, h.holderAt]
    · rw [(hsame _).1, h.holderDirectory]
    · intro m' hm'
      rcases List.mem_append.1 hm' with hm' | hm'
      · rw [hother _ _ (hdone m' hm')]
        exact h.installed m' hm'
      · cases List.mem_singleton.1 hm'
        rw [FileSystem.find_touch, FileSystem.find_link, if_pos ⟨rfl, rfl⟩]
    · intro m' hm'
      obtain ⟨hne, hid⟩ := hrest m' hm'
      obtain ⟨hst, hvac, hin⟩ := h.staged m' (List.mem_cons_of_mem _ hm')
      rw [hother _ _ hne, hother _ _ hne, FileSystem.inodes_touch_ne _ _ _ hid]
      exact ⟨hst, hvac, hin⟩
    · intro name i hi
      by_cases hne : name = m.name
      · subst hne
        rw [FileSystem.find_touch, FileSystem.find_link, if_neg fun heq => tx.holder_ne_parent heq.1,
          FileSystem.find_unlink, if_pos ⟨rfl, rfl⟩] at hi
        cases hi
      · rw [hother _ _ hne] at hi
        exact List.mem_of_ne_of_mem hne (h.inventory name i hi)

/-- The empty staging directory goes. -/
theorem removeHolder (h : tx.Progress tx.members [] s) :
    ∃ t, s.removeDir tx.holder = .ok ((), t) ∧ tx.Emptied t := by
  have hempty : s.children tx.holderIdentity = [] := by
    rw [FileSystem.children_eq_nil]
    intro name
    cases hf : s.find tx.holderIdentity name with
    | none => rfl
    | some i => cases h.inventory name i hf
  have hdir : (s.inodes tx.holderIdentity).isDir = true := by
    rw [Inode.isDir, h.holderDirectory]
    rfl
  refine ⟨s.unlink tx.parentIdentity tx.holderName, ?_, ?_⟩
  · rw [FileSystem.removeDir, tx.wellFormed.holder]
    simp only [FileSystem.locate_one, ok_bind, h.holderAt, hdir, if_true, hempty]
  · have hother : ∀ name, name ≠ tx.holderName →
        (s.unlink tx.parentIdentity tx.holderName).find tx.parentIdentity name = s.find tx.parentIdentity name := by
      intro name hne
      rw [FileSystem.find_unlink, if_neg fun heq => hne heq.2]
    refine ⟨⟨⟨h.directory, h.files, ?_⟩, ?_, h.journalNode⟩, ?_, ?_⟩
    · intro name i hi hj hh
      rw [hother _ hh]
      exact h.others name i hi hj hh
    · rw [hother _ tx.holder_ne_journal, h.journalAt]
    · rw [FileSystem.find_unlink, if_pos ⟨rfl, rfl⟩]
    · intro m hm
      rw [hother _ fun heq => tx.holder_not_member (heq ▸ List.mem_map_of_mem hm)]
      exact h.installed m hm

end Progress

/-- The journal goes. -/
theorem Emptied.clear (h : tx.Emptied s) :
    ∃ t, s.removeFile tx.openJournal.path = .ok ((), t) ∧ tx.Cleared t := by
  have hfile : (s.inodes tx.journal).isDir = false := by
    rw [h.journalNode, Inode.isDir, tx.stored]
    rfl
  refine ⟨(s.unlink tx.parentIdentity tx.journalName).touch tx.journal, ?_, ?_⟩
  · rw [FileSystem.removeFile, tx.openJournal_path]
    simp only [FileSystem.locate_one, ok_bind, h.journalAt, hfile, Bool.false_eq_true, if_false]
  · have hother : ∀ name, name ≠ tx.journalName →
        ((s.unlink tx.parentIdentity tx.journalName).touch tx.journal).find tx.parentIdentity name =
          s.find tx.parentIdentity name := by
      intro name hne
      rw [FileSystem.find_touch, FileSystem.find_unlink, if_neg fun heq => hne heq.2]
    have hsame : ∀ i, (((s.unlink tx.parentIdentity tx.journalName).touch tx.journal).inodes i).SameFile
        (s.inodes i) := fun i => FileSystem.sameFile_touch _ _ _
    refine ⟨⟨?_, ?_, ?_⟩, ?_, ?_, ?_⟩
    · rw [(hsame _).1, h.directory]
    · exact fun m hm => (hsame _).trans (h.files m hm)
    · intro name i hi hj hh
      rw [hother _ hj]
      exact h.others name i hi hj hh
    · rw [FileSystem.find_touch, FileSystem.find_unlink, if_pos ⟨rfl, rfl⟩]
    · rw [hother _ fun heq => tx.holder_ne_journal heq.symm, h.holderGone]
    · intro m hm
      rw [hother _ fun heq => tx.journal_not_member (heq ▸ List.mem_map_of_mem hm)]
      exact h.installed m hm

end Issued

end Squallz.OutputSet
