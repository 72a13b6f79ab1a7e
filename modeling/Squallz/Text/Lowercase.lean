/-
Texts as UTF-8: how many bytes a text takes, the text before a byte position, and Unicode lowercasing, which may change
how many bytes a text takes.
-/
import Mathlib.Algebra.Ring.Nat
import Mathlib.Data.List.Basic

namespace Squallz.Text

/-! ## Byte positions -/

/-- How many bytes a text takes. -/
def utf8Len (text : List Char) : Nat := (text.map Char.utf8Size).sum

@[simp] theorem utf8Len_nil : utf8Len [] = 0 := rfl

@[simp] theorem utf8Len_cons (c : Char) (text : List Char) : utf8Len (c :: text) = c.utf8Size + utf8Len text :=
  List.sum_cons

@[simp] theorem utf8Len_append (text text' : List Char) : utf8Len (text ++ text') = utf8Len text + utf8Len text' := by
  unfold utf8Len
  rw [List.map_append, List.sum_append]

/-- The text before a byte position, if the position stands between two characters. -/
def takeBytes : List Char → Nat → Option (List Char)
  | _, 0 => some []
  | [], _ + 1 => none
  | c :: rest, n + 1 =>
    if c.utf8Size ≤ n + 1 then (takeBytes rest (n + 1 - c.utf8Size)).map (c :: ·) else none

theorem takeBytes_zero (text : List Char) : takeBytes text 0 = some [] := by cases text <;> rfl

theorem takeBytes_eq_some {text front : List Char} {n : Nat} :
    takeBytes text n = some front ↔ front <+: text ∧ utf8Len front = n := by
  induction text generalizing front n with
  | nil =>
    cases n with
    | zero =>
      rw [takeBytes_zero, Option.some.injEq, List.prefix_nil]
      constructor
      · rintro rfl
        exact ⟨rfl, rfl⟩
      · exact fun h => h.1.symm
    | succ n =>
      constructor
      · rintro ⟨⟩
      · rintro ⟨hfront, hlen⟩
        rw [List.prefix_nil.1 hfront] at hlen
        cases hlen
  | cons c rest ih =>
    have hpos := c.utf8Size_pos
    cases n with
    | zero =>
      rw [takeBytes_zero, Option.some.injEq]
      constructor
      · rintro rfl
        exact ⟨List.nil_prefix, rfl⟩
      · rintro ⟨-, hlen⟩
        cases front with
        | nil => rfl
        | cons c' front =>
          have := c'.utf8Size_pos
          rw [utf8Len_cons] at hlen
          omega
    | succ n =>
      rw [takeBytes]
      constructor
      · intro h
        split at h
        · rename_i hle
          obtain ⟨front', hfront', rfl⟩ := Option.map_eq_some_iff.1 h
          obtain ⟨hpre, hlen⟩ := ih.1 hfront'
          refine ⟨List.cons_prefix_cons.2 ⟨rfl, hpre⟩, ?_⟩
          rw [utf8Len_cons]
          omega
        · cases h
      · rintro ⟨hpre, hlen⟩
        cases front with
        | nil => cases hlen
        | cons c' front =>
          obtain ⟨rfl, htail⟩ := List.cons_prefix_cons.1 hpre
          rw [utf8Len_cons] at hlen
          have hle : c'.utf8Size ≤ n + 1 := by omega
          have hrest : utf8Len front = n + 1 - c'.utf8Size := by omega
          rw [if_pos hle, ih.2 ⟨htail, hrest⟩, Option.map_some]

/-! ## Lowercasing -/

/-- What the Unicode tables give of a character. -/
structure UnicodeData where
  lowercase : Char → List Char
  cased : Char → Bool
  caseIgnorable : Char → Bool

section

variable (unicode : UnicodeData)

/-- Whether a cased character comes first in a text, ignorable ones apart. -/
def caseIgnorableThenCased (text : List Char) : Bool :=
  (text.dropWhile unicode.caseIgnorable).head?.any unicode.cased

/-- A capital sigma becomes a final one at the end of a word. -/
def lowercaseSigma (before after : List Char) : Char :=
  if caseIgnorableThenCased unicode before && !caseIgnorableThenCased unicode after then 'ς' else 'σ'

/-- The lowercased rest of a text; what stands before the rest is given backwards. -/
def lowercaseFrom : List Char → List Char → List Char
  | _, [] => []
  | before, c :: rest =>
    (if c = 'Σ' then [lowercaseSigma unicode before rest] else unicode.lowercase c) ++ lowercaseFrom (c :: before) rest

/-- `str::to_lowercase`. -/
def toLowercase (text : List Char) : List Char := lowercaseFrom unicode [] text

/-- The tables on the characters below 0x80. -/
def UnicodeData.AsciiLower : Prop := ∀ c : Char, c.toNat < 128 → unicode.lowercase c = [c.toLower]

variable {unicode}

theorem lowercaseFrom_ascii (h : unicode.AsciiLower) {text : List Char} (htext : ∀ c ∈ text, c.toNat < 128)
    (before : List Char) : lowercaseFrom unicode before text = text.map Char.toLower := by
  induction text generalizing before with
  | nil => rfl
  | cons c rest ih =>
    have hc := htext c List.mem_cons_self
    have hsigma : c ≠ 'Σ' := by
      rintro rfl
      exact absurd hc (by decide)
    rw [lowercaseFrom, if_neg hsigma, h c hc, ih fun c' hc' => htext c' (List.mem_cons_of_mem _ hc')]
    rfl

/-- Below 0x80 lowercasing is the one of ASCII. -/
theorem toLowercase_ascii (h : unicode.AsciiLower) {text : List Char} (htext : ∀ c ∈ text, c.toNat < 128) :
    toLowercase unicode text = text.map Char.toLower := lowercaseFrom_ascii h htext []

end

theorem utf8Size_ascii {c : Char} (h : c.toNat < 128) : c.utf8Size = 1 := by
  exact Char.utf8Size_eq_one_iff.2 (UInt32.le_iff_toNat_le.2 (Nat.lt_succ_iff.1 h))

theorem toNat_toLower_lt {c : Char} (h : c.toNat < 128) : c.toLower.toNat < 128 := by
  unfold Char.toLower
  split
  · rename_i hupper
    have hle : c.toNat ≤ 90 := UInt32.le_iff_toNat_le.1 hupper.2
    have hadd : (c.val + ('a'.val - 'A'.val)).toNat = (c.toNat + 32) % 2 ^ 32 := UInt32.toNat_add _ _
    show (c.val + ('a'.val - 'A'.val)).toNat < 128
    rw [hadd]
    omega
  · exact h

theorem utf8Len_ascii {text : List Char} (h : ∀ c ∈ text, c.toNat < 128) : utf8Len text = text.length := by
  induction text with
  | nil => rfl
  | cons c text ih =>
    rw [utf8Len_cons, utf8Size_ascii (h c List.mem_cons_self), ih fun c' hc' => h c' (List.mem_cons_of_mem _ hc'),
      List.length_cons, Nat.add_comm]

end Squallz.Text
