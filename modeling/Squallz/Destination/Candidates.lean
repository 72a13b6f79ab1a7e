/-
The paths of numbered names, the numbers that a snapshot takes, and the numbers that its entries are read back as.
-/
import Squallz.Destination.Snapshot

namespace Squallz.Destination

open Squallz.Api Squallz.Text

/-! ## Texts and bytes -/

@[simp] theorem toStr_osStr (text : List Char) : toStr (osStr text) = some text := by
  unfold toStr osStr
  rw [fromUtf8_utf8Bytes, Option.map_some, String.toList_ofList]

theorem osStr_of_toStr {name : List UInt8} {text : List Char} (h : toStr name = some text) : name = osStr text := by
  unfold toStr at h
  rw [Option.map_eq_some_iff] at h
  obtain ⟨s, hs, rfl⟩ := h
  unfold osStr
  rw [String.ofList_toList]
  exact (utf8Bytes_of_fromUtf8 hs).symm

theorem osStr_injective {a b : List Char} (h : osStr a = osStr b) : a = b := by
  have := congrArg toStr h
  rwa [toStr_osStr, toStr_osStr, Option.some.injEq] at this

theorem osStr_append (a b : List Char) : osStr (a ++ b) = osStr a ++ osStr b := by
  unfold osStr
  rw [utf8Bytes_ofList, utf8Bytes_ofList, utf8Bytes_ofList, List.flatMap_append]

/-! ## Numbered paths -/

/-- A name with a parenthesis in it is no special component. -/
theorem osStr_ne {text : List Char} (h : '(' ∈ text) : osStr text ≠ [] ∧ osStr text ≠ [dot] ∧ osStr text ≠ [dot, dot] := by
  refine ⟨fun heq => ?_, fun heq => ?_, fun heq => ?_⟩
  · rw [osStr_injective (heq.trans (show [] = osStr [] from rfl))] at h
    cases h
  · rw [osStr_injective (heq.trans (show [dot] = osStr ['.'] from rfl))] at h
    revert h
    decide
  · rw [osStr_injective (heq.trans (show [dot, dot] = osStr ['.', '.'] from rfl))] at h
    revert h
    decide

theorem joinName_osStr (path : Path) {text : List Char} (h : '(' ∈ text) :
    joinName path (osStr text) = path ++ [osStr text] := by
  obtain ⟨hnil, hdot, -⟩ := osStr_ne h
  exact if_neg (not_or.2 ⟨hnil, hdot⟩)

theorem fileName_osStr (path : Path) {text : List Char} (h : '(' ∈ text) :
    fileName (path ++ [osStr text]) = some (osStr text) := by
  unfold fileName
  rw [List.getLast?_concat]
  exact if_neg (osStr_ne h).2.2

theorem mem_numberedName (base : Path) (number : Nat) : '(' ∈ numberedName base number := by
  simp [numberedName]

/-- The path of a numbered name in a directory. -/
def candidate (parent base : Path) (number : Nat) : Path := parent ++ [osStr (numberedName base number)]

theorem fileName_candidate (parent base : Path) (number : Nat) :
    fileName (candidate parent base number) = some (osStr (numberedName base number)) :=
  fileName_osStr parent (mem_numberedName base number)

theorem numberedCreateDestination_eq (base : Path) (number : Nat) :
    numberedCreateDestination base number = candidate (parent base) base number :=
  joinName_osStr (parent base) (mem_numberedName base number)

theorem canonicalNumberedCandidate_eq (parent base : Path) (number : Nat) :
    canonicalNumberedCandidate parent base number = .ok (candidate parent base number) := by
  unfold canonicalNumberedCandidate
  rw [numberedCreateDestination_eq, fileName_candidate]
  rfl

/-- Different numbers give different names. -/
theorem numberedName_injective (base : Path) : Function.Injective (numberedName base) := by
  intro a b h
  unfold numberedName at h
  simp only [List.append_assoc] at h
  have hdigits := List.append_cancel_left (List.append_cancel_left h)
  exact decimal_injective (List.append_cancel_right hdigits)

/-! ## Taken numbers and numbers read back -/

section Matching

variable (entriesMatch : Path → Path → Bool) (snapshot : DirectorySnapshot) (parent base : Path)
  (kind : CreateArtifactKind)

/-- A number whose name conflicts with the snapshot. -/
def Taken (number : Nat) : Prop :=
  snapshot.hasConflictWith entriesMatch (candidate parent base number) kind = .ok true

/-- The name of an entry, or of the base of its split family, is read back as a number, and the entry is what the
number gives. -/
def ReadsAs (entry : Path) (number : Nat) : Prop :=
  ∃ name, (fileName entry).bind toStr = some name ∧
    (numberedCreateDestinationIndex name = some number ∧ entriesMatch (candidate parent base number) entry = true ∨
      kind = .splitArchive ∧
        (managedBaseName name (isSqzBase base)).bind numberedCreateDestinationIndex = some number ∧
        matchesMember entriesMatch (candidate parent base number) (isSqzBase base) entry = true)

/-- A number that some entry is read back as. -/
def ReadBack (number : Nat) : Prop := ∃ entry ∈ snapshot.entries, ReadsAs entriesMatch parent base kind entry number

/-- A path that does not conflict with the snapshot: the requested one, or that of the lowest free number. -/
structure LowestFree (destination path : Path) : Prop where
  free : ∃ name, fileName path = some name ∧
    snapshot.hasConflictWith entriesMatch (parent ++ [name]) kind = .ok false
  lowest : path = destination ∨ ∃ number, 2 ≤ number ∧ path = numberedCreateDestination base number ∧
    ∀ below, 2 ≤ below → below < number → Taken entriesMatch snapshot parent base kind below

/-- Up to the lowest free number, the numbers that are taken are those that are read back. -/
def ReadsTaken : Prop :=
  ∀ number, 2 ≤ number → number < 2 ^ 64 →
    (∀ below, 2 ≤ below → below < number → Taken entriesMatch snapshot parent base kind below) →
    (Taken entriesMatch snapshot parent base kind number ↔ ReadBack entriesMatch snapshot parent base kind number)

variable {entriesMatch snapshot parent base kind}

/-- The conflicts of a destination are those of its family. -/
theorem hasConflictWith_eq {destination normal : Path} (h : normalizedDestination destination kind = .ok normal) :
    snapshot.hasConflictWith entriesMatch destination kind = .ok (if kind ≠ .splitArchive then
      snapshot.entries.any (entriesMatch normal ·)
    else snapshot.entries.any fun entry =>
      entriesMatch normal entry || matchesMember entriesMatch normal (isSqzBase normal) entry) := by
  unfold DirectorySnapshot.hasConflictWith
  rw [h, ok_bind]
  dsimp only
  split
  · rfl
  · rfl

/-- A path with a name that is text is normalised. -/
theorem normalizedDestination_of_text {path : Path} (h : kind = .splitArchive → ((fileName path).bind toStr).isSome) :
    ∃ normal, normalizedDestination path kind = .ok normal := by
  unfold normalizedDestination
  by_cases hkind : kind = .splitArchive
  · rw [if_neg (not_not.2 hkind)]
    obtain ⟨name, hname⟩ := Option.isSome_iff_exists.1 (h hkind)
    rw [hname]
    simp only
    split
    · exact ⟨_, rfl⟩
    · exact ⟨_, rfl⟩
  · exact ⟨path, if_pos hkind⟩

theorem text_of_normalizedDestination {path normal : Path} (h : normalizedDestination path kind = .ok normal)
    (hkind : kind = .splitArchive) : ((fileName path).bind toStr).isSome := by
  unfold normalizedDestination at h
  rw [if_neg (not_not.2 hkind)] at h
  split at h
  · cases h
  · rename_i name hname
    rw [hname]
    rfl

theorem text_candidate (number : Nat) :
    (fileName (candidate parent base number)).bind toStr = some (numberedName base number) := by
  rw [fileName_candidate, Option.bind_some, toStr_osStr]

theorem hasConflictWith_isOk (number : Nat) :
    ∃ conflict, snapshot.hasConflictWith entriesMatch (candidate parent base number) kind = .ok conflict := by
  obtain ⟨normal, hnormal⟩ := @normalizedDestination_of_text kind (candidate parent base number)
    fun _ => by rw [text_candidate]; rfl
  exact ⟨_, hasConflictWith_eq hnormal⟩

theorem not_taken_iff {number : Nat} : ¬ Taken entriesMatch snapshot parent base kind number ↔
    snapshot.hasConflictWith entriesMatch (candidate parent base number) kind = .ok false := by
  obtain ⟨conflict, hconflict⟩ := @hasConflictWith_isOk entriesMatch snapshot parent base kind number
  unfold Taken
  rw [hconflict]
  cases conflict <;> simp

end Matching

end Squallz.Destination
