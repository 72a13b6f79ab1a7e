/-
The items of a compression input manifest, and what merging needs of them: a source path and a comparison of two
items of one source.
-/
import Squallz.Api.Names

namespace Squallz.Inputs

open Squallz.Api

/-! ## Items -/

/-- A path of the file system: the bytes of its components. -/
abbrev SourcePath := List (List UInt8)

structure InputItem where
  src : SourcePath
  name : EntryPath
  entryType : EntryType
  size : UInt64
  unixMode : Option UInt32
  modified : Option SystemTime
  linkTarget : Option (List UInt8)
deriving DecidableEq

structure PathIdentity where
  filesystem : UInt64
  entry : UInt64
deriving DecidableEq

structure RegularFileState where
  bytes : UInt64
  modified : Option SystemTime
  changed : Int × Int
deriving DecidableEq

inductive PreparedSource
  | file (identity : PathIdentity) (state : RegularFileState)
  | directory (identity : PathIdentity)
  | symlink (identity : PathIdentity) (target : List UInt8)
deriving DecidableEq

structure PreparedInputItem where
  item : InputItem
  sourcePath : SourcePath
  source : PreparedSource
deriving DecidableEq

def inputChanged (item : InputItem) : FormatError :=
  .io ⟨.invalidData, s!"input changed after preparation: {item.name.display}"⟩

/-! ## Collected inputs -/

/-- The comparison of two items of one source. -/
def InputItem.matchesSameSource (left right : InputItem) : Bool :=
  left.entryType = right.entryType && left.size = right.size && left.unixMode = right.unixMode &&
    left.modified = right.modified && left.linkTarget = right.linkTarget

def PreparedInputItem.matchesSameSource (left right : PreparedInputItem) : Bool :=
  left.source = right.source && left.item.matchesSameSource right.item

/-- What merging overlapping roots needs of the items, with the laws of the comparison. -/
structure CollectedInput (T : Type) where
  asRef : T → InputItem
  deduplicationPath : T → Res SourcePath
  matchesSameSource : T → T → Bool
  refl : ∀ a, matchesSameSource a a = true
  symm : ∀ {a b}, matchesSameSource a b = true → matchesSameSource b a = true
  trans : ∀ {a b c}, matchesSameSource a b = true → matchesSameSource b c = true → matchesSameSource a c = true
  entryType : ∀ {a b}, matchesSameSource a b = true → (asRef a).entryType = (asRef b).entryType

theorem InputItem.matchesSameSource_iff {a b : InputItem} : a.matchesSameSource b = true ↔
    a.entryType = b.entryType ∧ a.size = b.size ∧ a.unixMode = b.unixMode ∧ a.modified = b.modified ∧
      a.linkTarget = b.linkTarget := by
  simp only [InputItem.matchesSameSource, Bool.and_eq_true, decide_eq_true_eq, and_assoc]

/-- Unprepared items: the source path is resolved when they are merged. -/
def inputItems (normalizedSourcePath : InputItem → Res SourcePath) : CollectedInput InputItem where
  asRef := id
  deduplicationPath := normalizedSourcePath
  matchesSameSource := InputItem.matchesSameSource
  refl a := by simp [InputItem.matchesSameSource_iff]
  symm h := by
    rw [InputItem.matchesSameSource_iff] at h ⊢
    exact ⟨h.1.symm, h.2.1.symm, h.2.2.1.symm, h.2.2.2.1.symm, h.2.2.2.2.symm⟩
  trans h h' := by
    rw [InputItem.matchesSameSource_iff] at h h' ⊢
    exact ⟨h.1.trans h'.1, h.2.1.trans h'.2.1, h.2.2.1.trans h'.2.2.1, h.2.2.2.1.trans h'.2.2.2.1,
      h.2.2.2.2.trans h'.2.2.2.2⟩
  entryType h := (InputItem.matchesSameSource_iff.1 h).1

/-- Prepared items: the source path and the source were bound when they were prepared. -/
def preparedInputItems : CollectedInput PreparedInputItem where
  asRef := PreparedInputItem.item
  deduplicationPath item := .ok item.sourcePath
  matchesSameSource := PreparedInputItem.matchesSameSource
  refl a := by simp [PreparedInputItem.matchesSameSource, InputItem.matchesSameSource_iff]
  symm {a b} h := by
    rw [PreparedInputItem.matchesSameSource, Bool.and_eq_true, decide_eq_true_eq] at h ⊢
    exact ⟨h.1.symm, (inputItems fun item => .ok item.src).symm h.2⟩
  trans {a b c} h h' := by
    rw [PreparedInputItem.matchesSameSource, Bool.and_eq_true, decide_eq_true_eq] at h h' ⊢
    exact ⟨h.1.trans h'.1, (inputItems fun item => .ok item.src).trans h.2 h'.2⟩
  entryType {a b} h := by
    rw [PreparedInputItem.matchesSameSource, Bool.and_eq_true] at h
    exact (InputItem.matchesSameSource_iff.1 h.2).1

end Squallz.Inputs
