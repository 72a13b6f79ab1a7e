/-
The binary search for the end of the elements that come first, and the search for a prefix in byte strings that are sorted.
-/
import Mathlib.Data.List.Infix
import Mathlib.Data.List.TakeWhile

namespace Squallz.Bytes

/-! ## Partition points -/

section Search

variable {α : Type} (p : α → Bool) (l : List α)

/-- The last position of a range at which the elements that come first may still end. -/
def partitionBase (base size : Nat) : Nat :=
  if size ≤ 1 then base
  else
    let half := size / 2
    partitionBase (if l[base + half]?.any p then base + half else base) (size - half)
termination_by size

/-- `partition_point`: how many elements come first, in a list where those that meet the predicate do. -/
def partitionPoint : Nat :=
  if l = [] then 0
  else
    let base := partitionBase p l 0 l.length
    if l[base]?.any p then base + 1 else base

variable {p l}

/-- The elements before a position meet the predicate, and no others do. -/
def Parted (p : α → Bool) (l : List α) (k : Nat) : Prop := ∀ i < l.length, l[i]?.any p = true ↔ i < k

theorem partitionBase_spec {k base size : Nat} (hk : Parted p l k) (hsize : 0 < size) (hend : base + size ≤ l.length)
    (hle : base ≤ k) (hge : k ≤ base + size) :
    let found := partitionBase p l base size
    found < l.length ∧ found ≤ k ∧ k ≤ found + 1 := by
  induction size using Nat.strong_induction_on generalizing base with
  | _ size ih =>
    unfold partitionBase
    split
    · exact ⟨by omega, hle, by omega⟩
    · have hmid := hk (base + size / 2) (by omega)
      dsimp only
      split
      · rename_i hany
        have := hmid.1 hany
        exact ih _ (by omega) (by omega) (by omega) (by omega) (by omega)
      · rename_i hany
        have : ¬ base + size / 2 < k := fun h => hany (hmid.2 h)
        exact ih _ (by omega) (by omega) (by omega) (by omega) (by omega)

theorem partitionPoint_eq {k : Nat} (hk : Parted p l k) (hle : k ≤ l.length) : partitionPoint p l = k := by
  unfold partitionPoint
  split
  · rename_i hnil
    subst hnil
    exact (Nat.le_zero.1 hle).symm
  · rename_i hnil
    have hpos : 0 < l.length := List.length_pos_iff.2 hnil
    obtain ⟨hlt, hlow, hhigh⟩ := partitionBase_spec hk hpos (by omega) (Nat.zero_le _) (by omega)
    have hlast := hk _ hlt
    dsimp only
    split
    · rename_i hany
      have := hlast.1 hany
      omega
    · rename_i hany
      have : ¬ partitionBase p l 0 l.length < k := fun h => hany (hlast.2 h)
      omega

end Search

/-! ## Prefixes in sorted strings -/

/-- What lies between a string and one that begins with it begins with it. -/
theorem prefix_of_between {front : List UInt8} {s t : List UInt8} (hle : front ≤ t) (hts : t ≤ s) (hs : front <+: s) :
    front <+: t := by
  induction front generalizing s t with
  | nil => exact List.nil_prefix
  | cons a front ih =>
    obtain ⟨later, rfl⟩ := hs
    cases t with
    | nil => exact absurd hle (by simp)
    | cons b t =>
      rw [List.cons_append] at hts
      rw [List.cons_le_cons_iff] at hle hts
      rcases hle with hab | ⟨rfl, hle⟩
      · rcases hts with hba | ⟨rfl, -⟩
        · exact absurd hba (UInt8.lt_asymm hab)
        · exact absurd hab (UInt8.lt_irrefl _)
      · rcases hts with haa | ⟨-, hts⟩
        · exact absurd haa (UInt8.lt_irrefl _)
        · rw [List.prefix_cons_inj]
          exact ih hle hts (List.prefix_append _ _)

section Sorted

variable {α : Type} {key : α → List UInt8} {order : List α} {front : List UInt8}

theorem parted_of_sorted (hsorted : (order.map key).Pairwise (· ≤ ·)) (front : List UInt8) :
    Parted (fun a => decide (key a < front)) order (order.takeWhile fun a => decide (key a < front)).length := by
  induction order with
  | nil =>
    intro i hi
    cases hi
  | cons a order ih =>
    rw [List.map_cons, List.pairwise_cons] at hsorted
    obtain ⟨hfirst, hsorted⟩ := hsorted
    intro i hi
    by_cases ha : key a < front
    · rw [List.takeWhile_cons, if_pos (decide_eq_true ha), List.length_cons]
      cases i with
      | zero => simpa using ha
      | succ i =>
        rw [List.getElem?_cons_succ, ih hsorted i (Nat.lt_of_succ_lt_succ hi)]
        omega
    · rw [List.takeWhile_cons, if_neg (by simpa using ha)]
      have hall : ∀ b ∈ a :: order, ¬ key b < front := by
        intro b hb hlt
        rcases List.mem_cons.1 hb with rfl | hb
        · exact ha hlt
        · have hab := hfirst (key b) (List.mem_map_of_mem hb)
          exact absurd (List.lt_of_le_of_lt hab hlt) ha
      rw [List.getElem?_eq_getElem hi]
      simpa using hall _ (List.getElem_mem hi)

/-- Among sorted strings it is enough to look at the first one that does not come before a prefix. -/
theorem any_partitionPoint (hsorted : (order.map key).Pairwise (· ≤ ·)) :
    order[partitionPoint (fun a => decide (key a < front)) order]?.any (fun a => front.isPrefixOf (key a)) = true ↔
      ∃ a ∈ order, front <+: key a := by
  have hparted := parted_of_sorted hsorted front
  have hle : (order.takeWhile fun a => decide (key a < front)).length ≤ order.length :=
    (List.takeWhile_prefix _).length_le
  rw [partitionPoint_eq hparted hle]
  generalize (order.takeWhile fun a => decide (key a < front)).length = k at hparted hle
  constructor
  · intro h
    obtain ⟨a, ha, hfront⟩ := (Option.any_eq_true _ _).1 h
    exact ⟨a, List.mem_of_getElem? ha, List.isPrefixOf_iff_prefix.1 hfront⟩
  · rintro ⟨a, ha, hfront⟩
    obtain ⟨j, hj, rfl⟩ := List.getElem_of_mem ha
    have hkj : k ≤ j := by
      by_contra hlt
      have hbefore := (hparted j hj).2 (by omega)
      rw [List.getElem?_eq_getElem hj] at hbefore
      exact absurd (of_decide_eq_true hbefore) (List.not_lt.2 hfront.le)
    have hk : k < order.length := by omega
    have hfirst : front ≤ key order[k] := by
      have hnot := mt (hparted k hk).1 (Nat.lt_irrefl k)
      rw [List.getElem?_eq_getElem hk] at hnot
      exact List.not_lt.1 fun hlt => hnot (decide_eq_true hlt)
    have hbehind : key order[k] ≤ key order[j] := by
      rcases Nat.eq_or_lt_of_le hkj with rfl | hlt
      · exact List.le_refl _
      · have := List.pairwise_iff_getElem.1 hsorted k j (by simpa using hk) (by simpa using hj) hlt
        simpa using this
    rw [List.getElem?_eq_getElem hk, Option.any_some, List.isPrefixOf_iff_prefix]
    exact prefix_of_between hfirst hbehind hfront

end Sorted

end Squallz.Bytes
