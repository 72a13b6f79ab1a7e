/-
Parity of weighted terms in characteristic two: sums of terms with the weights 1, w and w², and what such sums and the
terms that are left say about the terms that are lost, up to three of them.
-/
import Mathlib.Algebra.BigOperators.Group.List.Basic
import Mathlib.Algebra.CharP.Two
import Mathlib.Tactic.LinearCombination

namespace Squallz.Erasure

variable {ι F : Type} [Field F]

/-! ## Sums -/

/-- The sum of weighted terms. -/
def weightedSum (w x : ι → F) (indexes : List ι) : F := (indexes.map fun i => w i * x i).sum

@[simp] theorem weightedSum_nil (w x : ι → F) : weightedSum w x [] = 0 := rfl

@[simp] theorem weightedSum_cons (w x : ι → F) (i : ι) (indexes : List ι) :
    weightedSum w x (i :: indexes) = w i * x i + weightedSum w x indexes := by
  unfold weightedSum
  rw [List.map_cons, List.sum_cons]

theorem weightedSum_perm (w x : ι → F) {indexes indexes' : List ι} (h : indexes.Perm indexes') :
    weightedSum w x indexes = weightedSum w x indexes' := (h.map fun i => w i * x i).sum_eq

theorem weightedSum_congr {w w' x x' : ι → F} {indexes : List ι} (hw : ∀ i ∈ indexes, w i = w' i) (hx : ∀ i ∈ indexes, x i = x' i) :
    weightedSum w x indexes = weightedSum w' x' indexes := by
  unfold weightedSum
  congr 1
  refine List.map_congr_left fun i hi => ?_
  rw [hw i hi, hx i hi]

/-- One index is put in front of the others. -/
theorem perm_cons_filter [DecidableEq ι] {a : ι} {indexes : List ι} (hnodup : indexes.Nodup) (ha : a ∈ indexes) :
    indexes.Perm (a :: indexes.filter (· ≠ a)) := by
  refine (List.perm_cons_erase ha).trans ?_
  rw [hnodup.erase_eq_filter]
  refine List.Perm.cons a (List.Perm.of_eq (List.filter_congr fun i _ => ?_))
  rw [bne, Bool.beq_eq_decide_eq, decide_not]

theorem weightedSum_one (x : ι → F) (a : ι) : weightedSum (fun _ => 1) x [a] = x a := by
  simp

/-! ## Lost terms -/

variable [CharP F 2]

/-- When the terms that are left are added to a sum, the sum of the lost ones remains. -/
theorem weightedSum_add_left (w x : ι → F) (lost : ι → Prop) [DecidablePred lost] (indexes : List ι) :
    weightedSum w x indexes + weightedSum w x (indexes.filter fun i => ¬ lost i) = weightedSum w x (indexes.filter fun i => lost i) := by
  induction indexes with
  | nil => simp
  | cons i indexes ih =>
    have hi := CharTwo.add_self_eq_zero (w i * x i)
    by_cases h : lost i
    · simp only [h, not_true_eq_false, decide_false, decide_true, List.filter_cons, if_true, Bool.false_eq_true, if_false,
        weightedSum_cons]
      linear_combination ih
    · simp only [h, not_false_eq_true, decide_false, decide_true, List.filter_cons, if_true, Bool.false_eq_true, if_false,
        weightedSum_cons]
      linear_combination ih + hi

/-- Two sums give back the first of two terms. -/
theorem solve_two (w x : ι → F) {a b : ι} (h : w a + w b ≠ 0) :
    (weightedSum w x [a, b] + w b * weightedSum (fun _ => 1) x [a, b]) * (w a + w b)⁻¹ = x a := by
  have hb := CharTwo.add_self_eq_zero (w b * x b)
  rw [← div_eq_mul_inv, div_eq_iff h]
  simp only [weightedSum_cons, weightedSum_nil]
  linear_combination hb

/-- Three sums give back the first of three terms. -/
theorem solve_three (w x : ι → F) {a b c : ι} (h : (w a + w b) * (w a + w c) ≠ 0) :
    (weightedSum (fun i => w i * w i) x [a, b, c] + (w b + w c) * weightedSum w x [a, b, c] +
      w b * w c * weightedSum (fun _ => 1) x [a, b, c]) * ((w a + w b) * (w a + w c))⁻¹ = x a := by
  have hb := CharTwo.add_self_eq_zero (w b * w b * x b + w b * w c * x b)
  have hc := CharTwo.add_self_eq_zero (w c * w c * x c + w b * w c * x c)
  rw [← div_eq_mul_inv, div_eq_iff h]
  simp only [weightedSum_cons, weightedSum_nil]
  linear_combination hb + hc

end Squallz.Erasure
