/-
Texts cut by a separator: what stands before each of its places, before the last one, and prefixes that end with it.
-/
import Mathlib.Data.List.DropRight

namespace Squallz.Text

variable {α : Type} {sep : α}

/-! ## Prefixes that end with the separator -/

section Prefixes

variable {front dir base : List α}

/-- A prefix that ends with the separator ends before a part without separators. -/
theorem prefix_of_separator (hbase : sep ∉ base) (h : front ++ [sep] <+: dir ++ base) : front ++ [sep] <+: dir := by
  rcases List.prefix_or_prefix_of_prefix h (List.prefix_append dir base) with hle | ⟨rest, hrest⟩
  · exact hle
  · rw [← hrest, List.prefix_append_right_inj] at h
    rcases List.eq_nil_or_concat rest with rfl | ⟨rest, c, rfl⟩
    · exact ⟨[], by rw [List.append_nil, ← hrest, List.append_nil]⟩
    · have hc : c = sep := by
        rw [List.concat_eq_append, ← List.append_assoc] at hrest
        exact List.singleton_inj.1 (List.append_inj' hrest rfl).2
      subst hc
      exact absurd (h.subset (by simp)) hbase

theorem prefix_of_separator_concat (hbase : sep ∉ base) (h : front ++ [sep] <+: dir ++ base ++ [sep]) :
    front ++ [sep] <+: dir ∨ front ++ [sep] = dir ++ base ++ [sep] := by
  rcases List.prefix_concat_iff.1 h with heq | hfront
  · exact .inr heq
  · exact .inl (prefix_of_separator hbase hfront)

/-- The last separator cuts a text in one way. -/
theorem separator_inj {dir' base' : List α} (hbase : sep ∉ base) (hbase' : sep ∉ base')
    (h : dir ++ sep :: base = dir' ++ sep :: base') : dir = dir' ∧ base = base' := by
  have hcut : dir ++ [sep] ++ base = dir' ++ [sep] ++ base' := by simpa using h
  have hle : dir ++ [sep] <+: dir' ++ [sep] :=
    prefix_of_separator hbase' (hcut ▸ List.prefix_append (dir ++ [sep]) base)
  have hge : dir' ++ [sep] <+: dir ++ [sep] :=
    prefix_of_separator hbase (hcut ▸ List.prefix_append (dir' ++ [sep]) base')
  have heq : dir ++ [sep] = dir' ++ [sep] := hle.eq_of_length (Nat.le_antisymm hle.length_le hge.length_le)
  refine ⟨List.append_cancel_right heq, ?_⟩
  rw [heq] at hcut
  exact List.append_cancel_left hcut

end Prefixes

/-! ## Pieces -/

/-- No piece between separators contains one. -/
theorem separator_eq_false_of_mem {separator : α → Bool} {text piece : List α} {c : α}
    (hpiece : piece ∈ text.splitOnP separator) (hc : c ∈ piece) : separator c = false := by
  induction text generalizing piece with
  | nil =>
    rw [List.splitOnP_nil, List.mem_singleton] at hpiece
    subst hpiece
    cases hc
  | cons first rest ih =>
    rw [List.splitOnP_cons_eq_if_modifyHead] at hpiece
    split at hpiece
    · rcases List.mem_cons.1 hpiece with rfl | hpiece
      · cases hc
      · exact ih hpiece hc
    · rename_i hfirst
      cases hsplit : rest.splitOnP separator with
      | nil => exact absurd hsplit (List.splitOnP_ne_nil _ _)
      | cons head tail =>
        rw [hsplit] at hpiece ih
        rcases List.mem_cons.1 hpiece with rfl | hpiece
        · rcases List.mem_cons.1 hc with rfl | hc
          · simpa using hfirst
          · exact ih List.mem_cons_self hc
        · exact ih (List.mem_cons_of_mem _ hpiece) hc

/-! ## Before the separators -/

variable [DecidableEq α]

/-- What stands before each separator of a text. -/
def beforeSeparators (sep : α) (text : List α) : List (List α) :=
  (List.range text.length).filterMap fun index => if text[index]? = some sep then some (text.take index) else none

theorem mem_beforeSeparators {text front : List α} : front ∈ beforeSeparators sep text ↔ front ++ [sep] <+: text := by
  unfold beforeSeparators
  rw [List.mem_filterMap]
  constructor
  · rintro ⟨index, hindex, h⟩
    split at h
    · rename_i hsep
      cases h
      obtain ⟨hlt, hget⟩ := List.getElem?_eq_some_iff.1 hsep
      refine ⟨text.drop (index + 1), ?_⟩
      rw [List.append_assoc, List.singleton_append, ← hget, ← List.drop_eq_getElem_cons hlt,
        List.take_append_drop]
    · cases h
  · rintro ⟨rest, rfl⟩
    refine ⟨front.length, ?_, ?_⟩
    · rw [List.mem_range]
      simp
    · rw [if_pos (by simp)]
      simp

/-- `rsplit_once`: what stands before and after the last separator. -/
def rsplitOnce (sep : α) (text : List α) : Option (List α × List α) :=
  match text.rdropWhile (· != sep) with
  | [] => none
  | before@(_ :: _) => some (before.dropLast, text.rtakeWhile (· != sep))

theorem not_mem_rtakeWhile (text : List α) : sep ∉ text.rtakeWhile (· != sep) := by
  intro h
  have := List.mem_rtakeWhile_imp h
  simp at this

theorem rsplitOnce_eq_some {text before after : List α} (h : rsplitOnce sep text = some (before, after)) :
    text = before ++ sep :: after ∧ sep ∉ after := by
  unfold rsplitOnce at h
  split at h
  · cases h
  · rename_i hfront
    cases h
    rename_i c rest
    have hne : text.rdropWhile (· != sep) ≠ [] := by rw [hfront]; exact List.cons_ne_nil _ _
    have hlast := List.rdropWhile_last_not (· != sep) text hne
    have hsplit : text.rdropWhile (· != sep) ++ text.rtakeWhile (· != sep) = text := List.rdropWhile_append_rtakeWhile
    refine ⟨?_, not_mem_rtakeWhile text⟩
    calc text = text.rdropWhile (· != sep) ++ text.rtakeWhile (· != sep) := hsplit.symm
      _ = ((text.rdropWhile (· != sep)).dropLast ++ [sep]) ++ text.rtakeWhile (· != sep) := by
          have hsep : (text.rdropWhile (· != sep)).getLast hne = sep := by simpa using hlast
          have hback := List.dropLast_append_getLast hne
          rw [hsep] at hback
          rw [hback]
      _ = (c :: rest).dropLast ++ sep :: text.rtakeWhile (· != sep) := by
          rw [hfront, List.append_assoc, List.singleton_append]

theorem rsplitOnce_eq_none {text : List α} (h : rsplitOnce sep text = none) : sep ∉ text := by
  unfold rsplitOnce at h
  split at h
  · rename_i hfront
    intro hmem
    have := List.rdropWhile_eq_nil_iff.1 hfront sep hmem
    simp at this
  · cases h

theorem rsplitOnce_of_not_mem {text : List α} (h : sep ∉ text) : rsplitOnce sep text = none := by
  cases hcut : rsplitOnce sep text with
  | none => rfl
  | some parts => exact absurd (by rw [(rsplitOnce_eq_some hcut).1]; simp) h

/-- Behind the last separator the text is cut there. -/
theorem rsplitOnce_append {before after : List α} (h : sep ∉ after) :
    rsplitOnce sep (before ++ sep :: after) = some (before, after) := by
  have hall : ∀ c ∈ after.reverse, (c != sep) = true := by
    intro c hc
    rw [bne_iff_ne]
    rintro rfl
    exact h (List.mem_reverse.1 hc)
  have hrev : (before ++ sep :: after).reverse = after.reverse ++ sep :: before.reverse := by simp
  have hfront : (before ++ sep :: after).rdropWhile (· != sep) = before ++ [sep] := by
    rw [List.rdropWhile, hrev, List.dropWhile_append_of_pos hall, List.dropWhile_cons_of_neg (by simp)]
    simp
  have hback : (before ++ sep :: after).rtakeWhile (· != sep) = after := by
    rw [List.rtakeWhile, hrev, List.takeWhile_append_of_pos hall, List.takeWhile_cons_of_neg (by simp)]
    simp
  unfold rsplitOnce
  rw [hback]
  split
  · rename_i hnil
    rw [hfront] at hnil
    exact absurd hnil (by simp)
  · rename_i hcut
    rw [← hcut, hfront, List.dropLast_concat]

/-! ## The last occurrence of a pattern -/

/-- `rfind` of a pattern: what stands after its last occurrence. -/
def afterLast (pat : List α) : List α → Option (List α)
  | [] => none
  | c :: rest =>
    match afterLast pat rest with
    | some after => some after
    | none => if pat <+: c :: rest then some ((c :: rest).drop pat.length) else none

/-- A pattern does not occur where its first element does not. -/
theorem afterLast_eq_none {c : α} {pat text : List α} (h : c ∉ text) : afterLast (c :: pat) text = none := by
  induction text with
  | nil => rfl
  | cons d rest ih =>
    rw [List.mem_cons, not_or] at h
    rw [afterLast, ih h.2]
    refine if_neg fun hpat => h.1 ?_
    exact (List.cons_prefix_cons.1 hpat).1

theorem afterLast_append {front text after : List α} {pat : List α} (h : afterLast pat text = some after) :
    afterLast pat (front ++ text) = some after := by
  induction front with
  | nil => exact h
  | cons c front ih => rw [List.cons_append, afterLast, ih]

end Squallz.Text
