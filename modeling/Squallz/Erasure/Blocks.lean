/-
Erasure coding over a list cut into blocks: the blocks of a group are padded to shards, and the
parity of the group rebuilds the shards that are gone.
-/
import Mathlib.Data.List.Range
import Squallz.Bytes.Slice
import Squallz.Erasure.Code

namespace Squallz.Erasure

open Squallz.Bytes

variable {α : Type}

/-! ## Shards of a list -/

/-- Block `i` padded to a full shard. -/
def shard (fill : α) (size : Nat) (l : List α) (i : Nat) : List α := padTo fill size (block size l i)

/-- The shards of `count` blocks from block `start`. -/
def shards (fill : α) (size : Nat) (l : List α) (start count : Nat) : List (List α) :=
  (List.range count).map fun j => shard fill size l (start + j)

@[simp] theorem length_shards (fill : α) (size : Nat) (l : List α) (start count : Nat) :
    (shards fill size l start count).length = count := by simp [shards]

@[simp] theorem length_shard (fill : α) (size : Nat) (l : List α) (i : Nat) :
    (shard fill size l i).length = size :=
  length_padTo (by rw [length_block]; omega)

theorem width_shards {fill : α} {size start count : Nat} {l s : List α}
    (h : s ∈ shards fill size l start count) : s.length = size := by
  simp only [shards, List.mem_map] at h
  obtain ⟨j, -, rfl⟩ := h
  exact length_shard _ _ _ _

theorem shards_succ (fill : α) (size : Nat) (l : List α) (start count : Nat) :
    shards fill size l start (count + 1) =
      shards fill size l start count ++ [shard fill size l (start + count)] := by
  simp [shards, List.range_succ]

/-- Appending to a list keeps the shards of its full blocks. -/
theorem shards_append_left {fill : α} {size start count : Nat} {a b : List α}
    (h : (start + count) * size ≤ a.length) :
    shards fill size (a ++ b) start count = shards fill size a start count := by
  apply List.map_congr_left
  intro j hj
  rw [List.mem_range] at hj
  have : (start + j + 1) * size ≤ (start + count) * size := Nat.mul_le_mul_right _ (by omega)
  rw [shard, block_append_left (by omega), shard]

/-- Past the end of the list the shards hold only padding. -/
theorem shards_eq_append_replicate {fill : α} {size start count m : Nat} {l : List α} (hm : m ≤ count)
    (hl : m = count ∨ l.length ≤ (start + m) * size) :
    shards fill size l start count =
      shards fill size l start m ++ List.replicate (count - m) (List.replicate size fill) := by
  induction count, hm using Nat.le_induction with
  | base => simp
  | succ count hle ih =>
    have hend : l.length ≤ (start + m) * size := by
      rcases hl with h | h
      · omega
      · exact h
    have hlast : shard fill size l (start + count) = List.replicate size fill := by
      have : (start + m) * size ≤ (start + count) * size := Nat.mul_le_mul_right _ (by omega)
      have : block size l (start + count) = [] := by
        rw [← List.length_eq_zero_iff, length_block]
        omega
      rw [shard, this, padTo, List.length_nil, Nat.sub_zero, List.nil_append]
    rw [shards_succ, ih (Or.inr hend), hlast, List.append_assoc, Nat.succ_sub hle, List.replicate_succ']

/-- Mapping over the groups of a range one after another is mapping over the range. -/
theorem flatMap_groups {β : Type} (f : Nat → β) (n d k : Nat) :
    ((List.range k).flatMap fun g => (List.range (min (n - g * d) d)).map fun j => f (g * d + j)) =
      (List.range (min n (k * d))).map f := by
  induction k with
  | zero => simp
  | succ k ih =>
    have hmul : (k + 1) * d = k * d + d := by ring
    have hsplit : min n ((k + 1) * d) = min n (k * d) + min (n - k * d) d := by omega
    rw [List.range_succ, List.flatMap_append, ih, hsplit, List.range_add, List.map_append, List.map_map]
    congr 1
    rw [List.flatMap_singleton]
    apply List.map_congr_left
    intro j hj
    rw [List.mem_range] at hj
    have : min n (k * d) = k * d := by omega
    rw [Function.comp_apply, this]

/-- The block of a shard is the shard without its padding. -/
theorem take_shard {fill : α} {size n i : Nat} {l : List α} (h : n = (block size l i).length) :
    (shard fill size l i).take n = block size l i :=
  take_padTo h

/-! ## Rebuilding a group -/

section Rebuild

variable {c : ErasureCodec α} {d p w : Nat}

/-- A group that has lost no more than `p` shards is rebuilt. -/
theorem ErasureCodec.Mds.rebuilds (h : c.Mds d p) {data : List (List α)}
    {left : List (Option (List α))} (hE : Erased left data) (hlen : data.length = d) (hw : 0 < w)
    (hwidth : ∀ s ∈ data, s.length = w) (hlost : d ≤ present left + p) :
    ∃ out, c.reconstructData d p (left ++ (c.parity d p data).map some) = some out ∧
      out.take d = data.map some := by
  apply h.restores data _ w hlen hw hwidth
  · exact hE.append (erased_some _)
  · rw [present_append, present_map_some, c.length_parity]
    exact hlost

/-- A group that has lost more than `p` shards is given up. -/
theorem ErasureCodec.Mds.gives_up (h : c.Mds d p) {left : List (Option (List α))}
    {parity : List (List α)} (hlen : left.length = d) (hp : parity.length = p)
    (hlost : present left + p < d) : c.reconstructData d p (left ++ parity.map some) = none := by
  apply h.tooFew
  · simp [hlen, hp]
  · rw [present_append, present_map_some, hp]
    exact hlost

end Rebuild

/-! ## Shards kept by a test -/

/-- The shards `f 0, …, f (count - 1)`, gone where `keep` fails. -/
def kept (keep : Nat → Bool) (f : Nat → List α) (count : Nat) : List (Option (List α)) :=
  (List.range count).map fun j => if keep j then some (f j) else none

@[simp] theorem length_kept (keep : Nat → Bool) (f : Nat → List α) (count : Nat) :
    (kept keep f count).length = count := by simp [kept]

theorem erased_kept (keep : Nat → Bool) (f : Nat → List α) (count : Nat) :
    Erased (kept keep f count) ((List.range count).map f) := by
  unfold Erased kept
  rw [List.forall₂_map_left_iff, List.forall₂_map_right_iff, List.forall₂_same]
  intro j _
  split
  · exact Or.inr rfl
  · exact Or.inl rfl

/-- What is present and what is lost make up the group. -/
theorem present_kept_add (keep : Nat → Bool) (f : Nat → List α) (count : Nat) :
    present (kept keep f count) + (List.range count).countP (fun j => !keep j) = count := by
  have e : present (kept keep f count) = (List.range count).countP keep := by
    unfold present kept
    rw [List.countP_map]
    apply List.countP_congr
    intro j _
    cases h : keep j <;> simp [h]
  have := List.length_eq_countP_add_countP keep (l := List.range count)
  rw [List.length_range] at this
  rw [e]
  simpa [Bool.not_eq_true] using this.symm

/-- The positions without a shard are those that fail the test. -/
theorem filter_kept (keep : Nat → Bool) (f : Nat → List α) (count : Nat) :
    (List.range count).filter (fun j => (kept keep f count)[j]?.join.isNone) =
      (List.range count).filter fun j => !keep j := by
  apply List.filter_congr
  intro j hj
  simp only [kept, List.getElem?_map, List.getElem?_range (List.mem_range.1 hj), Option.map_some,
    Option.join_some]
  cases keep j <;> rfl

end Squallz.Erasure
