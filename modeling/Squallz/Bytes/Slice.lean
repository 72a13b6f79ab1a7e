/-
Slices of a list, its cut into blocks of one size (the last one short), zero padding, and the
view of a list with some blocks replaced.
-/
import Mathlib.Data.List.Basic
import Mathlib.Tactic.Ring
import Mathlib.Tactic.Linarith

namespace Squallz.Bytes

variable {α : Type}

/-! ## Slices -/

/-- The `n` elements from `off`, fewer where the list ends. -/
def slice (l : List α) (off n : Nat) : List α := (l.drop off).take n

@[simp] theorem length_slice (l : List α) (off n : Nat) :
    (slice l off n).length = min n (l.length - off) := by
  simp [slice]

theorem length_slice_of_le {l : List α} {off n : Nat} (h : off + n ≤ l.length) :
    (slice l off n).length = n := by
  rw [length_slice]; omega

theorem getElem?_slice (l : List α) (off n i : Nat) :
    (slice l off n)[i]? = if i < n then l[off + i]? else none := by
  rw [slice, List.getElem?_take]
  split
  · rw [List.getElem?_drop]
  · rfl

@[simp] theorem slice_zero (l : List α) (off : Nat) : slice l off 0 = [] := by simp [slice]

theorem slice_full (l : List α) : slice l 0 l.length = l := by simp [slice]

theorem slice_prefix (a b : List α) : slice (a ++ b) 0 a.length = a := by simp [slice]

theorem slice_head {a : List α} (b : List α) {n : Nat} (h : a.length = n) : slice (a ++ b) 0 n = a := by
  rw [← h, slice_prefix]

theorem slice_append_left {a b : List α} {off n : Nat} (h : off + n ≤ a.length) :
    slice (a ++ b) off n = slice a off n := by
  unfold slice
  rw [List.drop_append_of_le_length (by omega), List.take_append_of_le_length (by simp; omega)]

theorem slice_append_right {a b : List α} {off n : Nat} (h : a.length ≤ off) :
    slice (a ++ b) off n = slice b (off - a.length) n := by
  unfold slice
  rw [List.drop_append, List.drop_eq_nil_of_le h, List.nil_append]

/-- The middle of three appended lists is the slice at its place. -/
theorem slice_middle {a x b : List α} {off n : Nat} (ho : off = a.length) (hn : n = x.length) :
    slice (a ++ (x ++ b)) off n = x := by
  subst ho hn
  rw [slice_append_right (Nat.le_refl _), Nat.sub_self, slice_prefix]

theorem slice_suffix {a x : List α} {off n : Nat} (ho : off = a.length) (hn : n = x.length) :
    slice (a ++ x) off n = x := by
  have h := slice_middle (b := []) ho hn
  rwa [List.append_nil] at h

theorem slice_slice {l : List α} {off n i m : Nat} (h : i + m ≤ n) :
    slice (slice l off n) i m = slice l (off + i) m := by
  unfold slice
  rw [List.drop_take, List.take_take, List.drop_drop, Nat.min_eq_left (by omega)]

theorem slice_take {l : List α} {len off n : Nat} (h : off + n ≤ len) :
    slice (l.take len) off n = slice l off n := by
  unfold slice
  rw [List.drop_take, List.take_take, Nat.min_eq_left (by omega)]

theorem slice_add (l : List α) (off m n : Nat) :
    slice l off (m + n) = slice l off m ++ slice l (off + m) n := by
  unfold slice
  rw [List.take_add, List.drop_drop]

/-- Two lists agree on a slice that they agree on position by position. -/
theorem slice_congr {a b : List α} {off n : Nat} (h : ∀ i, off ≤ i → i < off + n → a[i]? = b[i]?) :
    slice a off n = slice b off n := by
  apply List.ext_getElem?
  intro i
  rw [getElem?_slice, getElem?_slice]
  split
  · exact h (off + i) (by omega) (by omega)
  · rfl

/-- Piece `i` of a list made up of pieces of one length. -/
theorem slice_flatten {w : Nat} {ls : List (List α)} (hw : ∀ l ∈ ls, l.length = w) {i : Nat}
    (hi : i < ls.length) : slice ls.flatten (i * w) w = ls[i] := by
  induction ls generalizing i with
  | nil => simp at hi
  | cons l ls ih =>
    have hl := hw l List.mem_cons_self
    have hls := fun l' h' => hw l' (List.mem_cons_of_mem l h')
    rw [List.flatten_cons]
    cases i with
    | zero => rw [Nat.zero_mul, ← hl, slice_prefix, List.getElem_cons_zero]
    | succ i =>
      rw [slice_append_right (by rw [hl, Nat.succ_mul]; omega), hl, Nat.succ_mul, Nat.add_sub_cancel,
        ih hls (by simpa using hi), List.getElem_cons_succ]

theorem length_flatten_of_width {w : Nat} {ls : List (List α)} (hw : ∀ l ∈ ls, l.length = w) :
    ls.flatten.length = ls.length * w := by
  induction ls with
  | nil => simp
  | cons l ls ih =>
    rw [List.flatten_cons, List.length_append, hw l List.mem_cons_self,
      ih fun l' h' => hw l' (List.mem_cons_of_mem l h'), List.length_cons, Nat.succ_mul, Nat.add_comm]

/-- Group `g` of a list made up of groups of `p` pieces of length `w`. -/
theorem slice_groups {w p : Nat} {groups : List (List (List α))}
    (hp : ∀ group ∈ groups, group.length = p) (hw : ∀ group ∈ groups, ∀ l ∈ group, l.length = w)
    {g : Nat} (hg : g < groups.length) :
    slice groups.flatten.flatten (g * p * w) (p * w) = groups[g].flatten := by
  have hwidth : ∀ l ∈ groups.map List.flatten, l.length = p * w := by
    intro l hl
    obtain ⟨group, hgroup, rfl⟩ := List.mem_map.1 hl
    rw [length_flatten_of_width (hw group hgroup), hp group hgroup]
  rw [List.flatten_flatten, Nat.mul_assoc, slice_flatten hwidth (by simpa using hg), List.getElem_map]

/-- Cutting a list of `n` pieces of one length gives the pieces back. -/
theorem map_slice_flatten {w : Nat} {ls : List (List α)} (hw : ∀ l ∈ ls, l.length = w) :
    (List.range ls.length).map (fun i => slice ls.flatten (i * w) w) = ls := by
  apply List.ext_getElem (by simp)
  intro i h₁ h₂
  simp only [List.getElem_map, List.getElem_range]
  exact slice_flatten hw h₂

/-! ## Blocks -/

/-- Division rounding up. -/
def divCeil (a b : Nat) : Nat := a / b + if a % b = 0 then 0 else 1

theorem divCeil_zero (b : Nat) : divCeil 0 b = 0 := by simp [divCeil]

/-- `i` is below the rounded quotient exactly when it starts below the dividend. -/
theorem lt_divCeil {a b i : Nat} (hb : 0 < b) : i < divCeil a b ↔ i * b < a := by
  have hd := Nat.div_add_mod a b
  have hm := Nat.mod_lt a hb
  unfold divCeil
  constructor
  · intro h
    split at h
    · have : (i + 1) * b ≤ (a / b) * b := Nat.mul_le_mul_right b (by omega)
      have : (a / b) * b = b * (a / b) := Nat.mul_comm _ _
      have : (i + 1) * b = i * b + b := by ring
      omega
    · have : i * b ≤ (a / b) * b := Nat.mul_le_mul_right b (by omega)
      have : (a / b) * b = b * (a / b) := Nat.mul_comm _ _
      omega
  · intro h
    have hq : i ≤ a / b := by rw [Nat.le_div_iff_mul_le hb]; omega
    split
    · rename_i h0
      have : i ≠ a / b := by
        rintro rfl
        have : (a / b) * b = b * (a / b) := Nat.mul_comm _ _
        omega
      omega
    · omega

theorem divCeil_mul_le {a b : Nat} (hb : 0 < b) : a ≤ divCeil a b * b := by
  by_contra h
  have := (lt_divCeil (a := a) (i := divCeil a b) hb).2 (by omega)
  omega

theorem divCeil_mul_lt (a : Nat) {b : Nat} (hb : 0 < b) : divCeil a b * b < a + b := by
  have := Nat.div_add_mod' a b
  unfold divCeil
  split
  · rw [Nat.add_zero]
    omega
  · rw [Nat.add_mul, Nat.one_mul]
    omega

theorem divCeil_le_iff {a b n : Nat} (hb : 0 < b) : divCeil a b ≤ n ↔ a ≤ n * b := by
  have h := lt_divCeil (a := a) (i := n) hb
  omega

theorem divCeil_mono {a a' b : Nat} (hb : 0 < b) (h : a ≤ a') : divCeil a b ≤ divCeil a' b :=
  (divCeil_le_iff hb).2 (le_trans h (divCeil_mul_le hb))

/-- Block `i` of a list cut into blocks of `size`. -/
def block (size : Nat) (l : List α) (i : Nat) : List α := slice l (i * size) size

theorem length_block (size : Nat) (l : List α) (i : Nat) :
    (block size l i).length = min size (l.length - i * size) := by
  unfold block; rw [length_slice]

theorem getElem?_block (size : Nat) (l : List α) (i j : Nat) :
    (block size l i)[j]? = if j < size then l[i * size + j]? else none := by
  unfold block; rw [getElem?_slice]

/-- Lists agree at the positions of a block they share. -/
theorem getElem?_of_block {size j : Nat} (hs : 0 < size) {a b : List α}
    (h : block size a (j / size) = block size b (j / size)) : a[j]? = b[j]? := by
  have e := congrArg (fun l => l[j % size]?) h
  simp only [getElem?_block, if_pos (Nat.mod_lt j hs)] at e
  rwa [Nat.mul_comm, Nat.div_add_mod] at e

/-- A block that ends inside the front list is a block of it. -/
theorem block_append_left {size i : Nat} {a b : List α} (h : (i + 1) * size ≤ a.length) :
    block size (a ++ b) i = block size a i := by
  unfold block
  have : (i + 1) * size = i * size + size := by ring
  exact slice_append_left (by omega)

/-- A chunk cut at the end of a prefix is a block of the prefix. -/
theorem slice_chunk (size len : Nat) (l : List α) (i : Nat) :
    slice l (i * size) (min (len - i * size) size) = block size (l.take len) i := by
  rw [block, slice, slice, List.drop_take, List.take_take, Nat.min_comm]

/-- A block of a slice. -/
theorem block_slice (size off len : Nat) (l : List α) (i : Nat) :
    block size (slice l off len) i = slice l (off + i * size) (min (len - i * size) size) := by
  unfold block slice
  rw [List.drop_take, List.take_take, List.drop_drop, Nat.min_comm]

theorem take_succ_mul (size : Nat) (l : List α) (k : Nat) :
    l.take ((k + 1) * size) = l.take (k * size) ++ block size l k := by
  rw [Nat.succ_mul, List.take_add, block, slice]

/-- The blocks of a list make it up. -/
theorem flatten_blocks {size : Nat} (hs : 0 < size) (l : List α) :
    ((List.range (divCeil l.length size)).map (block size l)).flatten = l := by
  have key : ∀ k, ((List.range k).map (block size l)).flatten = l.take (k * size) := by
    intro k
    induction k with
    | zero => simp
    | succ k ih =>
      rw [List.range_succ, List.map_append, List.flatten_append, ih, take_succ_mul]
      simp
  rw [key, List.take_of_length_le (divCeil_mul_le hs)]

/-- Lists of one length with the same blocks are equal. -/
theorem eq_of_blocks {size : Nat} (hs : 0 < size) {a b : List α} (hl : a.length = b.length)
    (h : ∀ i, i < divCeil a.length size → block size a i = block size b i) : a = b := by
  apply List.ext_getElem?
  intro i
  by_cases hi : i < a.length
  · have hb := h (i / size) ((lt_divCeil hs).2 (lt_of_le_of_lt (Nat.div_mul_le_self i size) hi))
    exact getElem?_of_block hs hb
  · rw [List.getElem?_eq_none (by omega), List.getElem?_eq_none (by omega)]

/-- Pads a list to `size` with `fill`. -/
def padTo (fill : α) (size : Nat) (l : List α) : List α := l ++ List.replicate (size - l.length) fill

theorem length_padTo {fill : α} {size : Nat} {l : List α} (h : l.length ≤ size) :
    (padTo fill size l).length = size := by
  simp only [padTo, List.length_append, List.length_replicate]; omega

theorem take_padTo {fill : α} {size n : Nat} {l : List α} (h : n = l.length) :
    (padTo fill size l).take n = l := by
  subst h; simp [padTo]

/-! ## Replaced blocks -/

/-- The list `base` with the blocks that `patch` names replaced, byte by byte as far as each
replacement reaches. -/
def patched (size : Nat) (patch : Nat → Option (List α)) (base : List α) : List α :=
  base.mapIdx fun i b => ((patch (i / size)).bind (·[i % size]?)).getD b

@[simp] theorem length_patched (size : Nat) (patch : Nat → Option (List α)) (base : List α) :
    (patched size patch base).length = base.length := by simp [patched]

theorem getElem?_patched (size : Nat) (patch : Nat → Option (List α)) (base : List α) (i : Nat) :
    (patched size patch base)[i]? =
      base[i]?.map fun b => ((patch (i / size)).bind (·[i % size]?)).getD b := by
  rw [patched, List.getElem?_mapIdx]

/-- Where no block is replaced, the view is the base. -/
theorem getElem?_patched_none {size : Nat} {patch : Nat → Option (List α)} {base : List α} {i : Nat}
    (h : (patch (i / size)).bind (·[i % size]?) = none) : (patched size patch base)[i]? = base[i]? := by
  rw [getElem?_patched, h]
  simp

/-- Inside a replacement, the view is the replacement. -/
theorem getElem?_patched_some {size : Nat} {patch : Nat → Option (List α)} {base p : List α} {i : Nat}
    (hi : i < base.length) (hp : patch (i / size) = some p) (hj : i % size < p.length) :
    (patched size patch base)[i]? = p[i % size]? := by
  rw [getElem?_patched, hp, List.getElem?_eq_getElem hi, Option.bind_some, List.getElem?_eq_getElem hj]
  rfl

theorem patched_none (size : Nat) (base : List α) : patched size (fun _ => none) base = base := by
  apply List.ext_getElem?
  intro i
  exact getElem?_patched_none rfl

/-- A replaced block of full length reads as its replacement. -/
theorem block_patched_some {size : Nat} {patch : Nat → Option (List α)} {base p : List α} {k : Nat}
    (hp : patch k = some p) (hl : p.length = (block size base k).length) :
    block size (patched size patch base) k = p := by
  rw [length_block] at hl
  apply List.ext_getElem?
  intro j
  rw [getElem?_block]
  by_cases hj : j < p.length
  · have hjs : j < size := by omega
    have hdiv : (k * size + j) / size = k := by
      rw [Nat.mul_comm, Nat.mul_add_div (by omega), Nat.div_eq_of_lt hjs, Nat.add_zero]
    have hmod : (k * size + j) % size = j := by
      rw [Nat.mul_comm, Nat.mul_add_mod, Nat.mod_eq_of_lt hjs]
    rw [if_pos hjs, getElem?_patched_some (p := p) (by omega) (by rw [hdiv]; exact hp) (by rw [hmod]; exact hj), hmod]
  · rw [List.getElem?_eq_none (l := p) (by omega)]
    split
    · exact List.getElem?_eq_none (by rw [length_patched]; omega)
    · rfl

/-- A block that is not replaced reads as the base's. -/
theorem block_patched_none {size : Nat} {patch : Nat → Option (List α)} {base : List α} {k : Nat}
    (hp : patch k = none) : block size (patched size patch base) k = block size base k := by
  apply slice_congr
  intro i hlo hhi
  have hdiv : i / size = k := by
    have : size ≠ 0 := by rintro rfl; omega
    rw [Nat.div_eq_iff (by omega)]
    have : (k + 1) * size = k * size + size := by ring
    constructor <;> omega
  exact getElem?_patched_none (by rw [hdiv, hp]; rfl)

/-- Every replacement has the length of the block it replaces. -/
def PatchFits (size : Nat) (patch : Nat → Option (List α)) (base : List α) : Prop :=
  ∀ i p, patch i = some p → p.length = (block size base i).length

/-- Replaced blocks do not reach past the list they belong to. -/
theorem patched_append {size : Nat} {patch : Nat → Option (List α)} {a : List α}
    (h : PatchFits size patch a) (b : List α) :
    patched size patch (a ++ b) = patched size patch a ++ b := by
  apply List.ext_getElem?
  intro i
  by_cases hi : i < a.length
  · rw [List.getElem?_append_left (by rw [length_patched]; exact hi), getElem?_patched, getElem?_patched,
      List.getElem?_append_left hi]
  · rw [List.getElem?_append_right (by rw [length_patched]; omega), length_patched,
      getElem?_patched_none, List.getElem?_append_right (by omega)]
    rcases hp : patch (i / size) with _ | p
    · rfl
    · have hlen := h _ _ hp
      have hdm := Nat.div_add_mod' i size
      rw [length_block] at hlen
      rw [Option.bind_some, List.getElem?_eq_none (by omega)]

end Squallz.Bytes
