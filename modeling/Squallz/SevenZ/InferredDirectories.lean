/-
Directories that a listing of the 7-Zip program does not name as such: an entry is one when another name lies below its own.
-/
import Mathlib.Data.List.Sort
import Squallz.Api.Entry
import Squallz.Api.Names
import Squallz.Bytes.PartitionPoint

namespace Squallz.SevenZ

open Squallz.Api Squallz.Bytes

/-- The bytes of the name at an index. -/
def displayAt (entries : List EntryMeta) (i : Nat) : List UInt8 :=
  (entries[i]?.map fun entry => utf8Bytes entry.path.display).getD []

/-- The indices of the entries, sorted by their names. -/
def pathIndices (entries : List EntryMeta) : List Nat :=
  (List.range entries.length).mergeSort fun left right => decide (displayAt entries left ≤ displayAt entries right)

/-- What names below an entry begin with. -/
def childPrefix (entry : EntryMeta) : List UInt8 := utf8Bytes (trimEndSlashes entry.path.display ++ "/")

def markDirectory (entry : EntryMeta) : EntryMeta :=
  { entry with entryType := .dir, size := 0, compressedSize := none }

/-- The loop of `infer_directory_entries` at one entry. -/
def inferDirectory (order : List Nat) (entries : List EntryMeta) (index : Nat) : List EntryMeta :=
  match entries[index]? with
  | none => entries
  | some entry =>
    if entry.entryType = .dir then entries
    else
      let position := partitionPoint (fun i => decide (displayAt entries i < childPrefix entry)) order
      if order[position]?.any fun i => (childPrefix entry).isPrefixOf (displayAt entries i) then
        entries.set index (markDirectory entry)
      else entries

def inferDirectoryEntries (entries : List EntryMeta) : List EntryMeta :=
  (List.range entries.length).foldl (inferDirectory (pathIndices entries)) entries

/-! ## Every entry against every other one -/

/-- Some name lies below that of an entry. -/
def HasChild (entries : List EntryMeta) (entry : EntryMeta) : Prop :=
  ∃ other ∈ entries, childPrefix entry <+: utf8Bytes other.path.display

instance (entries : List EntryMeta) (entry : EntryMeta) : Decidable (HasChild entries entry) :=
  inferInstanceAs (Decidable (∃ other ∈ entries, childPrefix entry <+: utf8Bytes other.path.display))

/-- What becomes of an entry when it is held against all names. -/
def inferAgainst (entries : List EntryMeta) (entry : EntryMeta) : EntryMeta :=
  if entry.entryType ≠ .dir ∧ HasChild entries entry then markDirectory entry else entry

theorem display_inferAgainst (entries : List EntryMeta) (entry : EntryMeta) :
    (inferAgainst entries entry).path.display = entry.path.display := by
  unfold inferAgainst
  split
  · rfl
  · rfl

/-! ## The sorted names -/

theorem mem_pathIndices {entries : List EntryMeta} {i : Nat} : i ∈ pathIndices entries ↔ i < entries.length := by
  rw [pathIndices, List.mem_mergeSort, List.mem_range]

theorem pathIndices_sorted (entries : List EntryMeta) :
    ((pathIndices entries).map (displayAt entries)).Pairwise (· ≤ ·) := by
  rw [List.pairwise_map]
  refine (List.pairwise_mergeSort (fun a b c hab hbc => ?_) (fun a b => ?_) _).imp fun h => of_decide_eq_true h
  · exact decide_eq_true (List.le_trans (of_decide_eq_true hab) (of_decide_eq_true hbc))
  · rw [Bool.or_eq_true, decide_eq_true_eq, decide_eq_true_eq]
    exact List.le_total _ _

/-- The search finds a name below an entry exactly when there is one. -/
theorem any_pathIndices (entries : List EntryMeta) (entry : EntryMeta) :
    (pathIndices entries)[partitionPoint (fun i => decide (displayAt entries i < childPrefix entry))
      (pathIndices entries)]?.any (fun i => (childPrefix entry).isPrefixOf (displayAt entries i)) = true ↔
      HasChild entries entry := by
  rw [any_partitionPoint (pathIndices_sorted entries)]
  constructor
  · rintro ⟨i, hi, hbelow⟩
    rw [mem_pathIndices] at hi
    unfold displayAt at hbelow
    rw [List.getElem?_eq_getElem hi] at hbelow
    exact ⟨entries[i], List.getElem_mem hi, hbelow⟩
  · rintro ⟨other, hmem, hbelow⟩
    obtain ⟨i, hi, rfl⟩ := List.getElem_of_mem hmem
    refine ⟨i, mem_pathIndices.2 hi, ?_⟩
    unfold displayAt
    rw [List.getElem?_eq_getElem hi]
    exact hbelow

/-! ## The pass over the entries -/

/-- The entries when the first ones have been visited. -/
def inferredUpTo (entries : List EntryMeta) (k : Nat) : List EntryMeta :=
  (entries.take k).map (inferAgainst entries) ++ entries.drop k

theorem displayAt_inferredUpTo (entries : List EntryMeta) (k : Nat) :
    displayAt (inferredUpTo entries k) = displayAt entries := by
  have hnames : (inferredUpTo entries k).map (fun entry => utf8Bytes entry.path.display) =
      entries.map fun entry => utf8Bytes entry.path.display := by
    unfold inferredUpTo
    rw [List.map_append, List.map_map]
    conv_rhs => rw [← List.take_append_drop k entries, List.map_append]
    congr 1
    exact List.map_congr_left fun entry _ => congrArg utf8Bytes (display_inferAgainst entries entry)
  funext i
  unfold displayAt
  rw [← List.getElem?_map, hnames, List.getElem?_map]

/-- A visit brings an entry to what it is against all names. -/
theorem inferDirectory_step {entries : List EntryMeta} {k : Nat} (hk : k < entries.length) :
    inferDirectory (pathIndices entries) (inferredUpTo entries k) k = inferredUpTo entries (k + 1) := by
  have hlength : ((entries.take k).map (inferAgainst entries)).length = k := by
    rw [List.length_map, List.length_take]
    omega
  have hnow : inferredUpTo entries k =
      (entries.take k).map (inferAgainst entries) ++ entries[k] :: entries.drop (k + 1) := by
    rw [inferredUpTo, List.drop_eq_getElem_cons hk]
  have hnext : inferredUpTo entries (k + 1) =
      (entries.take k).map (inferAgainst entries) ++ inferAgainst entries entries[k] :: entries.drop (k + 1) := by
    rw [inferredUpTo, List.take_succ_eq_append_getElem hk, List.map_append, List.append_assoc]
    rfl
  have hget : (inferredUpTo entries k)[k]? = some entries[k] := by
    rw [hnow, List.getElem?_append_right hlength.le, hlength, Nat.sub_self]
    rfl
  have hset : ∀ entry, (inferredUpTo entries k).set k entry =
      (entries.take k).map (inferAgainst entries) ++ entry :: entries.drop (k + 1) := by
    intro entry
    rw [hnow, List.set_append_right _ _ hlength.le, hlength, Nat.sub_self]
    rfl
  unfold inferDirectory
  rw [hget, displayAt_inferredUpTo]
  dsimp only
  have hany := any_pathIndices entries entries[k]
  by_cases hdir : entries[k].entryType = .dir
  · rw [if_pos hdir, hnext, inferAgainst, if_neg fun h => h.1 hdir, hnow]
  · rw [if_neg hdir]
    by_cases hchild : HasChild entries entries[k]
    · rw [if_pos (hany.2 hchild), hset, hnext, inferAgainst, if_pos ⟨hdir, hchild⟩]
    · rw [if_neg fun h => hchild (hany.1 h), hnext, inferAgainst, if_neg fun h => hchild h.2, hnow]

theorem foldl_inferDirectory (entries : List EntryMeta) {k : Nat} (hk : k ≤ entries.length) :
    (List.range k).foldl (inferDirectory (pathIndices entries)) entries = inferredUpTo entries k := by
  induction k with
  | zero => rfl
  | succ k ih =>
    rw [List.range_succ, List.foldl_append, ih (Nat.le_of_succ_le hk)]
    exact inferDirectory_step hk

/-- The sorted search marks the entries that a comparison of each entry with every name marks, and no others. -/
theorem infer_directory_entries_eq (entries : List EntryMeta) :
    inferDirectoryEntries entries = entries.map (inferAgainst entries) := by
  rw [inferDirectoryEntries, foldl_inferDirectory entries (Nat.le_refl _), inferredUpTo, List.take_length, List.drop_length,
    List.append_nil]

end Squallz.SevenZ
