/-
Erasure codes on shards: a codec appends parity shards to data shards and rebuilds data shards
from what is left of a codeword. The codec is maximum distance separable when any `dataCount`
shards of a codeword determine its data.
-/
import Mathlib.Data.List.Forall2
import Mathlib.Tactic.Linarith

namespace Squallz.Erasure

/-- A systematic erasure codec on shards over `α`. `parity dataCount parityCount data` are the
parity shards; `reconstructData` fills in missing data shards or gives up. -/
structure ErasureCodec (α : Type) where
  parity : (dataCount parityCount : Nat) → List (List α) → List (List α)
  reconstructData : (dataCount parityCount : Nat) → List (Option (List α)) →
    Option (List (Option (List α)))
  length_parity : ∀ d p data, (parity d p data).length = p
  width_parity : ∀ d p data w, 0 < d → data.length = d → (∀ s ∈ data, s.length = w) →
    ∀ s ∈ parity d p data, s.length = w

variable {α : Type}

/-- What is left of a codeword: every shard is intact or missing. -/
def Erased (shards : List (Option (List α))) (codeword : List (List α)) : Prop :=
  List.Forall₂ (fun s c => s = none ∨ s = some c) shards codeword

/-- The number of shards present. -/
def present (shards : List (Option (List α))) : Nat := shards.countP Option.isSome

namespace ErasureCodec

/-- The shards of `data` followed by their parity. -/
def codeword (c : ErasureCodec α) (d p : Nat) (data : List (List α)) : List (List α) :=
  data ++ c.parity d p data

/-- Any `d` shards of a codeword determine its data, and fewer are refused. -/
structure Mds (c : ErasureCodec α) (d p : Nat) : Prop where
  tooFew : ∀ shards, shards.length = d + p → present shards < d → c.reconstructData d p shards = none
  restores : ∀ (data : List (List α)) shards w, data.length = d → 0 < w → (∀ s ∈ data, s.length = w) →
    Erased shards (c.codeword d p data) → d ≤ present shards →
    ∃ out, c.reconstructData d p shards = some out ∧ out.take d = data.map some

end ErasureCodec

/-! ## Erasures -/

theorem Erased.length_eq {shards : List (Option (List α))} {codeword : List (List α)}
    (h : Erased shards codeword) : shards.length = codeword.length :=
  List.Forall₂.length_eq h

theorem Erased.append {s₁ s₂ : List (Option (List α))} {c₁ c₂ : List (List α)}
    (h₁ : Erased s₁ c₁) (h₂ : Erased s₂ c₂) : Erased (s₁ ++ s₂) (c₁ ++ c₂) :=
  List.rel_append h₁ h₂

/-- Shards that are all present are an erasure of themselves. -/
theorem erased_some (codeword : List (List α)) : Erased (codeword.map some) codeword := by
  induction codeword with
  | nil => exact List.Forall₂.nil
  | cons c cs ih => exact List.Forall₂.cons (Or.inr rfl) ih

@[simp] theorem present_append (s₁ s₂ : List (Option (List α))) :
    present (s₁ ++ s₂) = present s₁ + present s₂ := by
  unfold present; rw [List.countP_append]

@[simp] theorem present_map_some (codeword : List (List α)) :
    present (codeword.map some) = codeword.length := by
  unfold present
  rw [List.countP_map]
  exact List.countP_eq_length.2 fun _ _ => rfl

end Squallz.Erasure
