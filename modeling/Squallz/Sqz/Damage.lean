/-
Damage to a byte list cut into blocks: which blocks are altered, how many a group has lost, and
the bookkeeping of the blocks a repair files group by group.
-/
import Squallz.Sqz.Encoder

namespace Squallz.Sqz

open Squallz.Api Squallz.Bytes Squallz.Erasure

/-! ## Damaged blocks -/

/-- Whether block `i` of `l` has been altered in `l'`. -/
def damagedBlock (l l' : List UInt8) (i : Nat) : Bool := block blockSize l' i != block blockSize l i

theorem damagedBlock_iff {l l' : List UInt8} {i : Nat} :
    damagedBlock l l' i = true ↔ block blockSize l' i ≠ block blockSize l i :=
  bne_iff_ne

/-- The number of altered blocks in group `g`. -/
def damagedIn (l l' : List UInt8) (g : Nat) : Nat :=
  (List.range dataShards).countP fun j => damagedBlock l l' (g * dataShards + j)

/-- The positions of the altered blocks in group `g`. -/
def missingIn (l l' : List UInt8) (g : Nat) : List Nat :=
  (List.range dataShards).filter fun j => damagedBlock l l' (g * dataShards + j)

/-- The hash tells every block of `l` from what has become of it in `l'`. -/
def DistinguishesBlocks (P : Primitives) (l l' : List UInt8) : Prop :=
  ∀ i, i < blockCountOf l → P.blake3 (block blockSize l' i) = P.blake3 (block blockSize l i) →
    block blockSize l' i = block blockSize l i

theorem damagedIn_eq_length (l l' : List UInt8) (g : Nat) :
    damagedIn l l' g = (missingIn l l' g).length :=
  List.countP_eq_length_filter

/-- An unaltered list has no altered blocks. -/
theorem missingIn_self (l : List UInt8) (g : Nat) : missingIn l l g = [] := by
  simp [missingIn, damagedBlock]

section Damaged

variable {l l' : List UInt8}

/-- Only blocks of the list can be altered. -/
theorem lt_of_damagedBlock (hl : l'.length = l.length) {i : Nat} (h : damagedBlock l l' i) :
    i < blockCountOf l := by
  by_contra hge
  have hlen : l.length ≤ i * blockSize := by
    rw [blockCountOf, lt_divCeil blockSize_pos] at hge
    omega
  have hnil : ∀ m : List UInt8, m.length = l.length → block blockSize m i = [] := by
    intro m hm
    rw [← List.length_eq_zero_iff, length_block]
    omega
  simp [damagedBlock, hnil l rfl, hnil l' hl] at h

theorem mem_missingIn (g i : Nat) :
    (g * dataShards ≤ i ∧ i - g * dataShards ∈ missingIn l l' g) ↔
      i / dataShards = g ∧ damagedBlock l l' i := by
  have hd : dataShards = 8 := rfl
  unfold missingIn
  rw [List.mem_filter, List.mem_range]
  constructor
  · rintro ⟨hle, hlt, hdam⟩
    rw [Nat.add_sub_cancel' hle] at hdam
    refine ⟨?_, hdam⟩
    rw [hd] at hle hlt ⊢
    omega
  · rintro ⟨rfl, hdam⟩
    have hle := Nat.div_mul_le_self i dataShards
    refine ⟨hle, ?_, by rw [Nat.add_sub_cancel' hle]; exact hdam⟩
    rw [hd] at hle ⊢
    omega

/-- The altered blocks of a group are among the blocks it has. -/
theorem filter_groupLen (hl : l'.length = l.length) (g : Nat) :
    (List.range (groupLen (blockCountOf l) g)).filter (fun j => damagedBlock l l' (g * dataShards + j)) =
      missingIn l l' g := by
  have hle := groupLen_le (blockCountOf l) g
  have hrange : List.range dataShards = List.range (groupLen (blockCountOf l) g) ++
      (List.range (dataShards - groupLen (blockCountOf l) g)).map (groupLen (blockCountOf l) g + ·) := by
    rw [← List.range_add, Nat.add_sub_cancel' hle]
  have hrest : ((List.range (dataShards - groupLen (blockCountOf l) g)).map
      (groupLen (blockCountOf l) g + ·)).filter (fun j => damagedBlock l l' (g * dataShards + j)) = [] := by
    rw [List.filter_eq_nil_iff]
    intro j hj hdam
    obtain ⟨k, hk, rfl⟩ := List.mem_map.1 hj
    have hlt := lt_of_damagedBlock hl hdam
    have := List.mem_range.1 hk
    unfold groupLen at hlt this
    omega
  rw [missingIn, hrange, List.filter_append, hrest, List.append_nil]

end Damaged

/-! ## Numbered values -/

/-- Looking up a position in a list of numbered values. -/
theorem lookup_numbered {β : Type} (l : List Nat) (start i : Nat) (f : Nat → β) :
    (l.map fun j => (start + j, f (start + j))).lookup i =
      if start ≤ i ∧ i - start ∈ l then some (f i) else none := by
  induction l with
  | nil => simp
  | cons j l ih =>
    rw [List.map_cons, List.lookup_cons, ih]
    by_cases h : i = start + j
    · subst h
      simp
    · have hne : (i == start + j) = false := by simpa using h
      rw [hne]
      simp only [List.mem_cons]
      have : (start ≤ i ∧ (i - start = j ∨ i - start ∈ l)) ↔ (start ≤ i ∧ i - start ∈ l) := by
        constructor
        · rintro ⟨hle, rfl | hm⟩
          · omega
          · exact ⟨hle, hm⟩
        · rintro ⟨hle, hm⟩
          exact ⟨hle, Or.inr hm⟩
      simp only [this]

theorem lookup_append {β : Type} (l₁ l₂ : List (Nat × β)) (i : Nat) :
    (l₁ ++ l₂).lookup i = (l₁.lookup i).or (l₂.lookup i) := by
  induction l₁ with
  | nil => simp
  | cons e l₁ ih =>
    rw [List.cons_append, List.lookup_cons, List.lookup_cons, ih]
    split <;> rfl

/-! ## Blocks filed by a repair -/

/-- The blocks filed once the first `k` groups are repaired. -/
structure Filed (parityShards : Nat) (l l' : List UInt8) (k : Nat)
    (repaired : List (Nat × List UInt8)) (unrepaired : List Nat) : Prop where
  repaired : ∀ i, repaired.lookup i =
    if i / dataShards < k ∧ damagedBlock l l' i ∧
      damagedIn l l' (i / dataShards) ≤ parityShards
    then some (block blockSize l i) else none
  unrepaired : ∀ i, i ∈ unrepaired ↔
    i / dataShards < k ∧ damagedBlock l l' i ∧
      parityShards < damagedIn l l' (i / dataShards)

theorem Filed.step {l l' : List UInt8} {parityShards k : Nat}
    {repaired : List (Nat × List UInt8)} {unrepaired : List Nat}
    (h : Filed parityShards l l' k repaired unrepaired) :
    (damagedIn l l' k ≤ parityShards →
      Filed parityShards l l' (k + 1)
        (((missingIn l l' k).reverse.map fun j =>
          (k * dataShards + j, block blockSize l (k * dataShards + j))) ++ repaired) unrepaired) ∧
    (parityShards < damagedIn l l' k →
      Filed parityShards l l' (k + 1) repaired
        ((missingIn l l' k).map (k * dataShards + ·) ++ unrepaired)) := by
  refine ⟨fun hfit => ⟨fun i => ?_, fun i => ?_⟩, fun hover => ⟨fun i => ?_, fun i => ?_⟩⟩
  · have hnum := lookup_numbered (missingIn l l' k).reverse (k * dataShards) i
      (block blockSize l)
    simp only [List.mem_reverse, mem_missingIn] at hnum
    rw [lookup_append, hnum, h.repaired]
    by_cases hk : i / dataShards = k
    · by_cases hi : damagedBlock l l' i
      · rw [if_pos ⟨hk, hi⟩, Option.some_or, if_pos ⟨by omega, hi, by rw [hk]; exact hfit⟩]
      · rw [if_neg fun hc => hi hc.2, if_neg fun hc => hi hc.2.1, if_neg fun hc => hi hc.2.1]
        rfl
    · rw [if_neg fun hc => hk hc.1, Option.none_or]
      have : i / dataShards < k + 1 ↔ i / dataShards < k := by omega
      simp only [this]
  · rw [h.unrepaired]
    constructor
    · rintro ⟨hlt, hrest⟩
      exact ⟨by omega, hrest⟩
    · rintro ⟨hlt, hdam, hover⟩
      refine ⟨?_, hdam, hover⟩
      by_contra hge
      have : i / dataShards = k := by omega
      rw [this] at hover
      omega
  · rw [h.repaired]
    by_cases hk : i / dataShards = k
    · rw [if_neg fun hc => by omega, if_neg fun hc => by rw [hk] at hc; omega]
    · have : i / dataShards < k + 1 ↔ i / dataShards < k := by omega
      simp only [this]
  · have hmem : i ∈ (missingIn l l' k).map (k * dataShards + ·) ↔
        i / dataShards = k ∧ damagedBlock l l' i := by
      rw [← mem_missingIn, List.mem_map]
      constructor
      · rintro ⟨j, hj, rfl⟩
        exact ⟨Nat.le_add_right _ _, by rw [Nat.add_sub_cancel_left]; exact hj⟩
      · rintro ⟨hle, hj⟩
        exact ⟨_, hj, Nat.add_sub_cancel' hle⟩
    rw [List.mem_append, hmem, h.unrepaired]
    constructor
    · rintro (⟨hk, hdam⟩ | ⟨hlt, hrest⟩)
      · exact ⟨by omega, hdam, by rw [hk]; exact hover⟩
      · exact ⟨by omega, hrest⟩
    · rintro ⟨hlt, hdam, hov⟩
      by_cases hk : i / dataShards = k
      · exact Or.inl ⟨hk, hdam⟩
      · exact Or.inr ⟨by omega, hdam, hov⟩

/-- Nothing is filed of an unaltered list. -/
theorem Filed.unrepaired_nil {l : List UInt8} {parityShards k : Nat} {repaired : List (Nat × List UInt8)}
    {unrepaired : List Nat} (h : Filed parityShards l l k repaired unrepaired) : unrepaired = [] := by
  rw [List.eq_nil_iff_forall_not_mem]
  intro i hi
  have := ((h.unrepaired i).1 hi).2.1
  simp [damagedBlock] at this

theorem Filed.repaired_nil {l : List UInt8} {parityShards k : Nat} {repaired : List (Nat × List UInt8)}
    {unrepaired : List Nat} (h : Filed parityShards l l k repaired unrepaired) : repaired = [] := by
  cases hr : repaired with
  | nil => rfl
  | cons entry rest =>
    have hlook := h.repaired entry.1
    rw [if_neg fun hc => by simp [damagedBlock] at hc, hr, List.lookup_cons, beq_self_eq_true] at hlook
    cases hlook

end Squallz.Sqz
