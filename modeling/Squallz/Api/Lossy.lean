/-
Lossy decoding leaves text as it is: the encoding of a character is one good sequence.
-/
import Squallz.Api.Names

namespace Squallz.Api

/-! ## Good sequences -/

theorem not_ascii {b : UInt8} (h : 0x80 ≤ b.toNat) : ¬ b < 0x80 := by
  rw [UInt8.lt_iff_toNat_lt]
  exact Nat.not_lt.2 h

theorem within {low high b : UInt8} (hlow : low.toNat ≤ b.toNat) (hhigh : b.toNat ≤ high.toNat) :
    (low ≤ b && b ≤ high) = true := by
  rw [Bool.and_eq_true, decide_eq_true_eq, decide_eq_true_eq, UInt8.le_iff_toNat_le, UInt8.le_iff_toNat_le]
  exact ⟨hlow, hhigh⟩

theorem above {low high b : UInt8} (h : high.toNat < b.toNat) : (low ≤ b && b ≤ high) = false := by
  rw [Bool.and_eq_false_iff, decide_eq_false_iff_not, decide_eq_false_iff_not, UInt8.le_iff_toNat_le,
    UInt8.le_iff_toNat_le]
  exact .inr (Nat.not_le.2 h)

/-- The second byte of a longer sequence, whose range depends on the first one. -/
theorem within_second {b c first last low high : UInt8} (hc : 0x80 ≤ c.toNat) (hc' : c.toNat ≤ 0xBF)
    (hlow : b.toNat = first.toNat → low.toNat ≤ c.toNat) (hhigh : b.toNat = last.toNat → c.toNat ≤ high.toNat) :
    ((if b = first then low else 0x80) ≤ c && c ≤ (if b = last then high else 0xBF)) = true := by
  refine within ?_ ?_
  · split
    · rename_i h
      exact hlow (congrArg UInt8.toNat h)
    · exact hc
  · split
    · rename_i h
      exact hhigh (congrArg UInt8.toNat h)
    · exact hc'

theorem utf8Chunk_one {b : UInt8} (h : b.toNat < 0x80) (rest : List UInt8) : utf8Chunk b rest = (true, 1) := by
  have hb : b < 0x80 := UInt8.lt_iff_toNat_lt.2 h
  unfold utf8Chunk
  simp only [hb, if_true]

theorem utf8Chunk_two {b c : UInt8} (hb : 0xC2 ≤ b.toNat) (hb' : b.toNat ≤ 0xDF) (hc : 0x80 ≤ c.toNat)
    (hc' : c.toNat ≤ 0xBF) (rest : List UInt8) : utf8Chunk b (c :: rest) = (true, 2) := by
  have hone : ¬ b < 0x80 := not_ascii (by omega)
  have htwo : (0xC2 ≤ b && b ≤ 0xDF) = true := within hb hb'
  have hnext : (0x80 ≤ c && c ≤ 0xBF) = true := within hc hc'
  simp only [utf8Chunk, hone, if_false, htwo, if_true, List.getElem?_cons_zero, Option.any_some, hnext]

theorem utf8Chunk_three {b c d : UInt8} (hb : 0xE0 ≤ b.toNat) (hb' : b.toNat ≤ 0xEF) (hc : 0x80 ≤ c.toNat)
    (hc' : c.toNat ≤ 0xBF) (hlow : b.toNat = 0xE0 → 0xA0 ≤ c.toNat) (hhigh : b.toNat = 0xED → c.toNat ≤ 0x9F)
    (hd : 0x80 ≤ d.toNat) (hd' : d.toNat ≤ 0xBF) (rest : List UInt8) :
    utf8Chunk b (c :: d :: rest) = (true, 3) := by
  have hone : ¬ b < 0x80 := not_ascii (by omega)
  have htwo : (0xC2 ≤ b && b ≤ 0xDF) = false := above hb
  have hthree : (0xE0 ≤ b && b ≤ 0xEF) = true := within hb hb'
  have hfirst := @within_second b c 0xE0 0xED 0xA0 0x9F hc hc' hlow hhigh
  have hnext : (0x80 ≤ d && d ≤ 0xBF) = true := within hd hd'
  simp only [utf8Chunk, hone, if_false, htwo, hthree, if_true, List.getElem?_cons_zero, Option.any_some, hnext, hfirst,
    List.getElem?_cons_succ, Bool.not_true, Bool.false_eq_true]

theorem utf8Chunk_four {b c d e : UInt8} (hb : 0xF0 ≤ b.toNat) (hb' : b.toNat ≤ 0xF4) (hc : 0x80 ≤ c.toNat)
    (hc' : c.toNat ≤ 0xBF) (hlow : b.toNat = 0xF0 → 0x90 ≤ c.toNat) (hhigh : b.toNat = 0xF4 → c.toNat ≤ 0x8F)
    (hd : 0x80 ≤ d.toNat) (hd' : d.toNat ≤ 0xBF) (he : 0x80 ≤ e.toNat) (he' : e.toNat ≤ 0xBF) (rest : List UInt8) :
    utf8Chunk b (c :: d :: e :: rest) = (true, 4) := by
  have hone : ¬ b < 0x80 := not_ascii (by omega)
  have htwo : (0xC2 ≤ b && b ≤ 0xDF) = false := above (Nat.lt_of_lt_of_le (by decide) hb)
  have hthree : (0xE0 ≤ b && b ≤ 0xEF) = false := above hb
  have hfour : (0xF0 ≤ b && b ≤ 0xF4) = true := within hb hb'
  have hfirst := @within_second b c 0xF0 0xF4 0x90 0x8F hc hc' hlow hhigh
  have hnext : (0x80 ≤ d && d ≤ 0xBF) = true := within hd hd'
  have hlast : (0x80 ≤ e && e ≤ 0xBF) = true := within he he'
  simp only [utf8Chunk, hone, if_false, htwo, hthree, hfour, if_true, List.getElem?_cons_zero, Option.any_some, hnext,
    hfirst, hlast, List.getElem?_cons_succ, Bool.not_true, Bool.false_eq_true]

/-- The encoding of a character is one good sequence. -/
theorem utf8Chunk_encode (c : Char) (rest : List UInt8) : ∃ first others, String.utf8EncodeChar c = first :: others ∧
    utf8Chunk first (others ++ rest) = (true, others.length + 1) := by
  -- there are no surrogates, so no second byte is out of its range
  have hvalid : c.val.toNat < 0xD800 ∨ 0xDFFF < c.val.toNat ∧ c.val.toNat < 0x110000 := c.valid
  have hbyte : ∀ n : Nat, n < 256 → (UInt8.ofNat n).toNat = n := fun n h => by
    rw [UInt8.toNat_ofNat', Nat.mod_eq_of_lt h]
  unfold String.utf8EncodeChar
  simp only
  generalize c.val.toNat = v at hvalid ⊢
  have hlast := hbyte (v % 64 + 128) (by omega)
  have hmid := hbyte (v / 64 % 64 + 128) (by omega)
  split
  · have hone := hbyte v (by omega)
    exact ⟨_, _, rfl, utf8Chunk_one (by omega) _⟩
  · split
    · have htwo := hbyte (v / 64 % 32 + 192) (by omega)
      exact ⟨_, _, rfl, utf8Chunk_two (by omega) (by omega) (by omega) (by omega) _⟩
    · split
      · have hthree := hbyte (v / 4096 % 16 + 224) (by omega)
        exact ⟨_, _, rfl, utf8Chunk_three (by omega) (by omega) (by omega) (by omega) (by omega) (by omega) (by omega)
          (by omega) _⟩
      · have hfour := hbyte (v / 262144 % 8 + 240) (by omega)
        have hsecond := hbyte (v / 4096 % 64 + 128) (by omega)
        exact ⟨_, _, rfl, utf8Chunk_four (by omega) (by omega) (by omega) (by omega) (by omega) (by omega) (by omega)
          (by omega) (by omega) (by omega) _⟩

/-! ## Text -/

theorem replaceBadSequences_encode (text : List Char) {fuel : Nat}
    (h : (text.flatMap String.utf8EncodeChar).length ≤ fuel) :
    replaceBadSequences fuel (text.flatMap String.utf8EncodeChar) = text.flatMap String.utf8EncodeChar := by
  induction text generalizing fuel with
  | nil => cases fuel <;> rfl
  | cons c text ih =>
    obtain ⟨first, others, hc, hchunk⟩ := utf8Chunk_encode c (text.flatMap String.utf8EncodeChar)
    rw [List.flatMap_cons, hc, List.cons_append] at h ⊢
    cases fuel with
    | zero => cases h
    | succ fuel =>
      rw [List.length_cons, List.length_append] at h
      rw [replaceBadSequences, hchunk]
      simp only [if_true, List.take_succ_cons, List.drop_succ_cons, List.take_left, List.drop_left]
      rw [ih (by omega), List.cons_append]

/-- Text stays as it is. -/
theorem fromUtf8Lossy_utf8Bytes (s : String) : fromUtf8Lossy (utf8Bytes s) = s := by
  have hbytes : replaceBadSequences (utf8Bytes s).length (utf8Bytes s) = utf8Bytes s := by
    rw [← String.ofList_toList (s := s), utf8Bytes_ofList]
    exact replaceBadSequences_encode _ (Nat.le_refl _)
  unfold fromUtf8Lossy
  rw [hbytes, fromUtf8_utf8Bytes, Option.getD_some]

end Squallz.Api
