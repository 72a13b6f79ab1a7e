/-
Reed–Solomon codes by interpolation: the shards of a codeword are the values of the polynomial
through the data, and any `d` of them determine it. The code is maximum distance separable over
every field with enough distinct points.
-/
import Squallz.Erasure.Code
import Squallz.Erasure.Gf256
import Mathlib.LinearAlgebra.Lagrange

namespace Squallz.Erasure

/-! ## Interpolation -/

section Interpolation

variable {F : Type} [Field F] (pt : Nat → F)

/-- The value at `x` of the polynomial that takes the value `v i` at `pt i` for every `i` in `ns`. -/
def interpolateAt (ns : Finset Nat) (v : Nat → F) (x : F) : F :=
  ∑ i ∈ ns, v i * ∏ j ∈ ns.erase i, ((pt i - pt j)⁻¹ * (x - pt j))

theorem interpolateAt_eq (ns : Finset Nat) (v : Nat → F) (x : F) :
    interpolateAt pt ns v x = (Lagrange.interpolate ns pt v).eval x := by
  rw [Lagrange.interpolate_apply, Polynomial.eval_finsetSum]
  simp only [interpolateAt, Lagrange.basis, Lagrange.basisDivisor, Polynomial.eval_mul, Polynomial.eval_C,
    Polynomial.eval_prod, Polynomial.eval_sub, Polynomial.eval_X]

theorem interpolateAt_congr {ns : Finset Nat} {v v' : Nat → F} (h : ∀ i ∈ ns, v i = v' i) (x : F) :
    interpolateAt pt ns v x = interpolateAt pt ns v' x :=
  Finset.sum_congr rfl fun i hi => by rw [h i hi]

variable {pt}

theorem interpolateAt_node {ns : Finset Nat} (hinj : Set.InjOn pt ns) (v : Nat → F) {i : Nat} (hi : i ∈ ns) :
    interpolateAt pt ns v (pt i) = v i := by
  rw [interpolateAt_eq, Lagrange.eval_interpolate_at_node v hinj hi]

/-- The values of a polynomial at as many other points determine it. -/
theorem interpolateAt_values {ns ms : Finset Nat} (hns : Set.InjOn pt ns) (hms : Set.InjOn pt ms)
    (hcard : ns.card = ms.card) (v : Nat → F) (x : F) :
    interpolateAt pt ms (fun i => interpolateAt pt ns v (pt i)) x = interpolateAt pt ns v x := by
  rw [interpolateAt_eq, interpolateAt_eq]
  congr 1
  refine (Lagrange.eq_interpolate_of_eval_eq _ hms ?_ fun i _ => ?_).symm
  · rw [← hcard]
    exact Lagrange.degree_interpolate_lt v hns
  · exact (interpolateAt_eq pt ns v (pt i)).symm

end Interpolation

/-! ## The code -/

section Code

variable {α F : Type} [Field F] (e : α ≃ F) (pt : Nat → F)

/-- Column `k` of a list of shards, by the position of the shard. -/
def column (shards : List (List α)) (k i : Nat) : F := (((shards[i]?.getD [])[k]?).map e).getD 0

/-- Row `x` of the code whose shards at the positions `ns` are those of `shards`. -/
def row (ns : Finset Nat) (shards : List (List α)) (width : Nat) (x : F) : List α :=
  (List.range width).map fun k => e.symm (interpolateAt pt ns (column e shards k) x)

/-- The positions of the shards that are present. -/
def available (shards : List (Option (List α))) : List Nat :=
  (List.range shards.length).filter fun i => (shards[i]?.join).isSome

def rsParity (d p : Nat) (data : List (List α)) : List (List α) :=
  (List.range p).map fun j => row e pt (Finset.range d) data (data.headD []).length (pt (d + j))

def rsReconstructData (d : Nat) (shards : List (Option (List α))) : Option (List (Option (List α))) :=
  if (available shards).length < d then none
  else
    let nodes := (available shards).take d
    let known := shards.map (·.getD [])
    let width := (known[nodes.headD 0]?.getD []).length
    some ((List.range d).map fun i =>
      (shards[i]?.join).or (some (row e pt nodes.toFinset known width (pt i))))

/-- The codec that evaluates at the points `pt 0`, `pt 1`, …. -/
def reedSolomonCodec : ErasureCodec α where
  parity := rsParity e pt
  reconstructData d _ shards := rsReconstructData e pt d shards
  length_parity d p data := by simp [rsParity]
  width_parity d p data w hd hlen hw s hs := by
    obtain ⟨j, -, rfl⟩ := List.mem_map.1 hs
    cases data with
    | nil =>
      rw [List.length_nil] at hlen
      omega
    | cons first rest => simpa [row] using hw first List.mem_cons_self

end Code

/-! ## Any d shards determine the others -/

section Mds

variable {α F : Type} [Field F] {e : α ≃ F} {pt : Nat → F} {d p : Nat}

theorem length_available (shards : List (Option (List α))) : (available shards).length = present shards := by
  have hall : shards = (List.range shards.length).map fun i => shards[i]?.join := by
    apply List.ext_getElem
    · simp
    · intro i h₁ h₂
      simp [h₁]
  conv_rhs => rw [present, hall, List.countP_map]
  rw [available, ← List.countP_eq_length_filter]
  rfl

theorem mem_available {shards : List (Option (List α))} {codeword : List (List α)} (h : Erased shards codeword)
    {i : Nat} (hi : i ∈ available shards) :
    i < codeword.length ∧ (shards.map (·.getD []))[i]?.getD [] = codeword[i]?.getD [] := by
  obtain ⟨hlt, hsome⟩ := List.mem_filter.1 hi
  have hlt' := List.mem_range.1 hlt
  have hlen := h.length_eq
  refine ⟨by omega, ?_⟩
  have hcase := List.Forall₂.get h hlt' (by omega)
  simp only [List.get_eq_getElem] at hcase
  have hget : shards[i]? = some shards[i] := List.getElem?_eq_getElem hlt'
  rw [hget, Option.join_some] at hsome
  rcases hcase with hnone | hcode
  · rw [hnone] at hsome
    cases hsome
  · rw [List.getElem?_map, hget, List.getElem?_eq_getElem (show i < codeword.length by omega), hcode]
    rfl

/-- Every shard of a codeword is a value of the polynomials through its data. -/
theorem column_codeword (hinj : Set.InjOn pt (Set.Iio (d + p))) {data : List (List α)} (hlen : data.length = d)
    {w : Nat} (hw : ∀ s ∈ data, s.length = w) {i k : Nat} (hi : i < d + p) (hk : k < w) (hd : 0 < d) :
    column e ((reedSolomonCodec e pt).codeword d p data) k i =
      interpolateAt pt (Finset.range d) (column e data k) (pt i) := by
  have hrange : Set.InjOn pt (Finset.range d) :=
    hinj.mono fun j hj => by
      have := Finset.mem_range.1 hj
      exact Set.mem_Iio.2 (by omega)
  by_cases h : i < d
  · rw [interpolateAt_node hrange _ (Finset.mem_range.2 h), column, column, ErasureCodec.codeword,
      List.getElem?_append_left (by omega)]
  · have hhead : (data.headD []).length = w := by
      cases data with
      | nil =>
        rw [List.length_nil] at hlen
        omega
      | cons first rest => exact hw first List.mem_cons_self
    have hj : i - data.length < p := by omega
    rw [column, ErasureCodec.codeword, List.getElem?_append_right (by omega)]
    simp only [reedSolomonCodec, rsParity, row, List.getElem?_map, List.getElem?_range hj, Option.map_some,
      Option.getD_some, hhead, List.getElem?_range hk, Equiv.apply_symm_apply]
    rw [show d + (i - data.length) = i by omega]

/-- A column of the data read back as a shard. -/
theorem map_column {shard : List α} {data : List (List α)} {i : Nat} (h : data[i]? = some shard) :
    ((List.range shard.length).map fun k => e.symm (column e data k i)) = shard := by
  apply List.ext_getElem
  · simp
  · intro k h₁ h₂
    simp [column, h, h₂]

/-- The code is maximum distance separable where its points are distinct. -/
theorem reedSolomonCodec_mds (hd : 0 < d) (hinj : Set.InjOn pt (Set.Iio (d + p))) :
    (reedSolomonCodec e pt).Mds d p where
  tooFew shards _ hfew := by
    show rsReconstructData e pt d shards = none
    rw [rsReconstructData, length_available, if_pos hfew]
  restores data shards w hlen _ hw hE henough := by
    set code := (reedSolomonCodec e pt).codeword d p data with hcode
    have hclen : code.length = d + p := by
      rw [hcode, ErasureCodec.codeword, List.length_append, hlen, (reedSolomonCodec e pt).length_parity]
    have hnot : ¬ (available shards).length < d := by rw [length_available]; omega
    set nodes := (available shards).take d with hnodes
    have hnlen : nodes.length = d := by rw [hnodes, List.length_take]; omega
    have hmem : ∀ i ∈ nodes, i ∈ available shards := fun i hi => List.mem_of_mem_take hi
    have hnodup : nodes.Nodup := ((List.nodup_range).filter _).sublist (List.take_sublist _ _)
    have hnlt : ∀ i ∈ nodes, i < d + p := fun i hi => hclen ▸ (mem_available hE (hmem i hi)).1
    have hwcode : ∀ i, i < d + p → (code[i]?.getD []).length = w := by
      intro i hi
      rw [List.getElem?_eq_getElem (by omega), Option.getD_some]
      rcases List.mem_append.1 (List.getElem_mem (show i < code.length by omega)) with h | h
      · exact hw _ h
      · exact (reedSolomonCodec e pt).width_parity d p data w hd hlen hw _ h
    have hwidth : ((shards.map (·.getD []))[nodes.headD 0]?.getD []).length = w := by
      have hhead : nodes.headD 0 ∈ nodes := by
        cases hn : nodes with
        | nil =>
          rw [hn, List.length_nil] at hnlen
          omega
        | cons a rest => exact List.mem_cons_self
      rw [(mem_available hE (hmem _ hhead)).2, hwcode _ (hnlt _ hhead)]
    have hrow : ∀ i, i < d → row e pt nodes.toFinset (shards.map (·.getD [])) w (pt i) = data[i]?.getD [] := by
      intro i hi
      have hin : i < data.length := by omega
      have hshard : data[i]? = some data[i] := List.getElem?_eq_getElem hin
      have hilen : data[i].length = w := hw _ (List.getElem_mem _)
      have hrange : Set.InjOn pt (Finset.range d) :=
        hinj.mono fun j hj => by
          have := Finset.mem_range.1 hj
          exact Set.mem_Iio.2 (by omega)
      rw [hshard, Option.getD_some]
      conv_rhs => rw [← map_column (e := e) hshard, hilen]
      apply List.map_congr_left
      intro k hk
      congr 1
      rw [← interpolateAt_node hrange (column e data k) (Finset.mem_range.2 hi), ← interpolateAt_values hrange
        (show Set.InjOn pt nodes.toFinset from hinj.mono fun j hj => hnlt j (List.mem_toFinset.1 hj))
        (by rw [Finset.card_range, List.toFinset_card_of_nodup hnodup, hnlen])]
      apply interpolateAt_congr
      intro j hj
      have hj' := List.mem_toFinset.1 hj
      rw [← column_codeword hinj hlen hw (hnlt j hj') (List.mem_range.1 hk) hd, ← hcode, column, column,
        (mem_available hE (hmem j hj')).2]
    refine ⟨_, if_neg hnot, ?_⟩
    rw [List.take_of_length_le (by simp)]
    apply List.ext_getElem
    · simp [hlen]
    · intro i h₁ h₂
      have hi : i < d := by simpa using h₁
      simp only [List.getElem_map, List.getElem_range, ← hnodes, hwidth, hrow i hi]
      rw [List.getElem?_eq_getElem (show i < data.length by omega), Option.getD_some]
      cases hs : shards[i]?.join with
      | none => rfl
      | some shard =>
        have hislt : i < shards.length := by
          have := hE.length_eq
          omega
        have hav : i ∈ available shards :=
          List.mem_filter.2 ⟨List.mem_range.2 hislt, by rw [hs]; rfl⟩
        have hval := (mem_available hE hav).2
        have hin : i < data.length := by omega
        have hcodei : code[i]? = some data[i] := by
          rw [hcode, ErasureCodec.codeword, List.getElem?_append_left (by omega), List.getElem?_eq_getElem]
        rw [List.getElem?_map, Option.join_eq_some_iff.1 hs, hcodei] at hval
        rw [Option.some_or]
        exact congrArg some hval

end Mds

/-! ## Bytes -/

/-- The code on byte shards: shard `i` is evaluated at the byte `i`. -/
def galois8 : ErasureCodec UInt8 :=
  reedSolomonCodec ⟨Gf256.mk, Gf256.byte, fun _ => rfl, fun _ => rfl⟩ fun i => ⟨UInt8.ofNat i⟩

theorem galois8_mds {d p : Nat} (hd : 0 < d) (h : d + p ≤ 256) : galois8.Mds d p := by
  apply reedSolomonCodec_mds hd
  intro i hi j hj hij
  have hi' : i < d + p := hi
  have hj' : j < d + p := hj
  have := congrArg (fun a : Gf256 => a.byte.toNat) hij
  simp only [UInt8.toNat_ofNat'] at this
  omega
end Squallz.Erasure
