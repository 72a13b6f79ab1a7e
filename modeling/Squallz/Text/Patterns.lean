/-
Texts cut at an occurrence of a pattern, the first one or the last one, and where a pattern whose first element stands
nowhere else in it can occur.
-/
import Mathlib.Data.List.Infix

namespace Squallz.Text

variable {α : Type}

theorem drop_of_prefix {pat text : List α} (h : pat <+: text) : text = pat ++ text.drop pat.length := by
  obtain ⟨rest, rfl⟩ := h
  rw [List.drop_left]

section Search

variable [DecidableEq α]

/-! ## The first and the last occurrence -/

/-- `split_once` of a pattern: what stands before and after its first occurrence. -/
def splitOncePattern (pat : List α) : List α → Option (List α × List α)
  | [] => if pat = [] then some ([], []) else none
  | c :: text =>
    if pat <+: c :: text then some ([], (c :: text).drop pat.length)
    else (splitOncePattern pat text).map fun (before, after) => (c :: before, after)

/-- `rsplit_once` of a pattern: what stands before and after its last occurrence. -/
def rsplitOncePattern (pat : List α) : List α → Option (List α × List α)
  | [] => if pat = [] then some ([], []) else none
  | c :: text =>
    match rsplitOncePattern pat text with
    | some (before, after) => some (c :: before, after)
    | none => if pat <+: c :: text then some ([], (c :: text).drop pat.length) else none

section Occurrences

variable {c : α} {pat text before after : List α}

theorem splitOncePattern_eq_some (h : splitOncePattern pat text = some (before, after)) : text = before ++ (pat ++ after) := by
  induction text generalizing before with
  | nil =>
    rw [splitOncePattern] at h
    split at h
    · rename_i hpat
      cases h
      rw [hpat]
      rfl
    · cases h
  | cons c text ih =>
    rw [splitOncePattern] at h
    split at h
    · rename_i hpat
      cases h
      exact drop_of_prefix hpat
    · obtain ⟨⟨front, rest⟩, hrest, heq⟩ := Option.map_eq_some_iff.1 h
      cases heq
      rw [ih hrest]
      rfl

/-- Where the first element of the pattern does not stand before it, it is found. -/
theorem splitOncePattern_append (hbefore : c ∉ before) (after : List α) :
    splitOncePattern (c :: pat) (before ++ (c :: pat ++ after)) = some (before, after) := by
  induction before with
  | nil =>
    rw [List.nil_append, List.cons_append, splitOncePattern,
      if_pos (List.cons_prefix_cons.2 ⟨rfl, List.prefix_append pat after⟩), List.length_cons, List.drop_succ_cons,
      List.drop_left]
  | cons d before ih =>
    rw [List.mem_cons, not_or] at hbefore
    have hpat : ¬ c :: pat <+: d :: (before ++ (c :: pat ++ after)) := fun h => hbefore.1 (List.cons_prefix_cons.1 h).1
    rw [List.cons_append, splitOncePattern, if_neg hpat, ih hbefore.2]
    rfl

theorem rsplitOncePattern_eq_none (h : rsplitOncePattern (c :: pat) text = none) : ¬ c :: pat <:+: text := by
  induction text with
  | nil => exact fun hpat => List.cons_ne_nil c pat (List.infix_nil.1 hpat)
  | cons d text ih =>
    rw [rsplitOncePattern] at h
    split at h
    · cases h
    · rename_i hrest
      split at h
      · cases h
      · rename_i hpat
        exact fun hinfix => (List.infix_cons_iff.1 hinfix).elim hpat (ih hrest)

/-- The text is cut at an occurrence behind which there is no other one. -/
theorem rsplitOncePattern_eq_some (h : rsplitOncePattern (c :: pat) text = some (before, after)) :
    text = before ++ (c :: pat ++ after) ∧ ¬ c :: pat <:+: pat ++ after := by
  induction text generalizing before with
  | nil => cases h
  | cons d text ih =>
    rw [rsplitOncePattern] at h
    split at h
    · rename_i front rest hrest
      cases h
      obtain ⟨rfl, hlast⟩ := ih hrest
      exact ⟨rfl, hlast⟩
    · rename_i hnone
      split at h
      · rename_i hpat
        cases h
        obtain ⟨rest, heq⟩ := hpat
        cases heq
        have hdrop : (c :: (pat.append rest)).drop (c :: pat).length = rest := List.drop_left' rfl
        rw [hdrop]
        exact ⟨rfl, rsplitOncePattern_eq_none hnone⟩
      · cases h

/-- Where no other occurrence begins behind it, the pattern is found. -/
theorem rsplitOncePattern_append (before : List α) (hafter : ¬ c :: pat <:+: pat ++ after) :
    rsplitOncePattern (c :: pat) (before ++ (c :: pat ++ after)) = some (before, after) := by
  induction before with
  | nil =>
    have hnone : rsplitOncePattern (c :: pat) (pat ++ after) = none := by
      cases hcut : rsplitOncePattern (c :: pat) (pat ++ after) with
      | none => rfl
      | some parts =>
        refine absurd ?_ hafter
        rw [(rsplitOncePattern_eq_some hcut).1]
        exact List.infix_append' _ _ _
    rw [List.nil_append, List.cons_append, rsplitOncePattern, hnone]
    dsimp only
    rw [if_pos (List.cons_prefix_cons.2 ⟨rfl, List.prefix_append pat after⟩), List.length_cons, List.drop_succ_cons,
      List.drop_left]
  | cons d before ih =>
    rw [List.cons_append, rsplitOncePattern, ih]

end Occurrences

end Search

/-! ## Where a pattern can occur -/

section Places

variable {c : α} {pat x y : List α}

/-- An occurrence begins with the first element of the pattern. -/
theorem infix_append_of_not_mem (hx : c ∉ x) : c :: pat <:+: x ++ y ↔ c :: pat <:+: y := by
  induction x with
  | nil => exact Iff.rfl
  | cons d x ih =>
    rw [List.mem_cons, not_or] at hx
    rw [List.cons_append, List.infix_cons_iff, ih hx.2]
    refine ⟨fun h => h.resolve_left fun hpat => hx.1 (List.cons_prefix_cons.1 hpat).1, .inr⟩

end Places

/-! ## Borders -/

/-- A text that begins and ends with two texts around two middles, neither of which holds the other behind its beginning,
is cut in one way. -/
theorem border_inj {a b m n : List α} (h : a ++ (m ++ a) = b ++ (n ++ b)) (hm : ¬ m <:+: n.tail) (hn : ¬ n <:+: m.tail) :
    a = b ∧ m = n := by
  have shorter : ∀ {a b m n : List α}, a ++ (m ++ a) = b ++ (n ++ b) → a.length < b.length → n <:+: m.tail := by
    intro a b m n h hlt
    obtain ⟨u, rfl⟩ : a <+: b := List.prefix_of_prefix_length_le (List.prefix_append a (m ++ a))
      (h ▸ List.prefix_append b (n ++ b)) (Nat.le_of_lt hlt)
    rw [List.append_assoc, List.append_cancel_left_eq] at h
    obtain ⟨v, hv⟩ : a <:+ n ++ (a ++ u) := by
      refine List.suffix_of_suffix_length_le (h ▸ List.suffix_append m a) ⟨u, rfl⟩ ?_
      rw [List.length_append, List.length_append]
      omega
    have hu : u ≠ [] := by
      rintro rfl
      rw [List.append_nil] at hlt
      exact Nat.lt_irrefl _ hlt
    obtain ⟨w, hw⟩ : a <:+ a ++ u := by
      refine List.suffix_of_suffix_length_le ⟨v, hv⟩ (List.suffix_append n (a ++ u)) ?_
      rw [List.length_append]
      omega
    have hmiddle : m = u ++ (n ++ w) := by
      rw [← hw, ← List.append_assoc, ← List.append_assoc] at h
      rw [List.append_cancel_right h, List.append_assoc]
    cases u with
    | nil => exact absurd rfl hu
    | cons d u =>
      rw [hmiddle, List.cons_append, List.tail_cons]
      exact List.infix_append' _ _ _
  rcases Nat.lt_trichotomy a.length b.length with hlt | heq | hgt
  · exact absurd (shorter h hlt) hn
  · obtain ⟨rfl, hrest⟩ := List.append_inj h heq
    exact ⟨rfl, List.append_cancel_right hrest⟩
  · exact absurd (shorter h.symm hgt) hm

end Squallz.Text
