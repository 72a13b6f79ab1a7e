/-
The byte strings on which parsing an index panics: those with a record, reached by the parser, whose
modification time does not fit the clock's signed seconds.
-/
import Squallz.Sqz.RoundTrip

namespace Squallz.Sqz

open Squallz.Api Squallz.Bytes

/-! ## Panics -/

/-- A call that panics. -/
def Panics {α : Type} (r : Res α) : Prop := ∃ message, r = .error (.panicked message)

section

variable {α β : Type}

@[simp] theorem not_panics_ok (a : α) : ¬ Panics (.ok a : Res α) := by
  rintro ⟨message, h⟩
  cases h

@[simp] theorem not_panics_corrupt (message : String) : ¬ Panics (corrupt message : Res α) := by
  rintro ⟨message, h⟩
  cases h

@[simp] theorem not_panics_unsupported (message : String) : ¬ Panics (unsupported message : Res α) := by
  rintro ⟨message, h⟩
  cases h

/-- A sequence panics in its first part, or in the second one where the first one succeeds. -/
theorem panics_bind {x : Res α} {f : α → Res β} :
    Panics (x >>= f) ↔ Panics x ∨ ∃ a, x = .ok a ∧ Panics (f a) := by
  cases x with
  | error fault => simp [Panics, bind, Except.bind]
  | ok a => simp

/-- A sequence whose first part does not panic panics in the second one. -/
theorem panics_of_bind {x : Res α} {f : α → Res β} (h : Panics (x >>= f)) (hx : ¬ Panics x) :
    ∃ a, x = .ok a ∧ Panics (f a) :=
  (panics_bind.1 h).resolve_left hx

end

/-! ## Reading fields -/

section

variable {buf a rest : List UInt8} {n v : Nat}

theorem readExact_eq_ok : readExact buf n = .ok (a, rest) ↔ a.length = n ∧ buf = a ++ rest := by
  constructor
  · intro h
    unfold readExact at h
    split at h
    · cases h
    · rename_i hlen
      cases h
      refine ⟨?_, (List.take_append_drop n buf).symm⟩
      rw [List.length_take]
      omega
  · rintro ⟨rfl, rfl⟩
    exact readExact_append rfl

theorem not_panics_readExact : ¬ Panics (readExact buf n) := by
  unfold readExact
  split <;> simp

theorem readArray_eq_ok {array : FixedArray n} :
    readArray n buf = .ok (array, rest) ↔ buf = array.val ++ rest := by
  constructor
  · intro h
    obtain ⟨⟨head, tail⟩, hread, h⟩ := bind_eq_ok.1 h
    obtain ⟨fixed, hfixed, h⟩ := bind_eq_ok.1 h
    cases h
    obtain ⟨hlen, rfl⟩ := readExact_eq_ok.1 hread
    unfold fixedArray at hfixed
    rw [dif_pos hlen] at hfixed
    cases hfixed
    rfl
  · rintro rfl
    exact readArray_append array.property

theorem not_panics_readArray : ¬ Panics (readArray n buf) := by
  unfold readArray
  rw [panics_bind]
  rintro (h | ⟨⟨head, tail⟩, hread, h⟩)
  · exact not_panics_readExact h
  · obtain ⟨hlen, -⟩ := readExact_eq_ok.1 hread
    dsimp only at h
    rw [fixedArray, dif_pos hlen] at h
    exact not_panics_ok _ h

theorem readUInt_eq_ok : readUInt n buf = .ok (v, rest) ↔ v < 256 ^ n ∧ buf = leBytes n v ++ rest := by
  constructor
  · intro h
    obtain ⟨⟨array, tail⟩, hread, h⟩ := bind_eq_ok.1 h
    cases h
    refine ⟨?_, ?_⟩
    · have hlt := leNat_lt array.val
      rwa [array.property] at hlt
    · have hbytes := leBytes_leNat array.val
      rw [array.property] at hbytes
      rw [readArray_eq_ok.1 hread, hbytes]
  · rintro ⟨hv, rfl⟩
    rw [readUInt_append, Nat.mod_eq_of_lt hv]

theorem not_panics_readUInt : ¬ Panics (readUInt n buf) := by
  unfold readUInt
  rw [panics_bind]
  rintro (h | ⟨_, -, h⟩)
  · exact not_panics_readArray h
  · exact not_panics_ok _ h

theorem readU8_eq_ok {b : UInt8} : readU8 buf = .ok (b, rest) ↔ buf = b :: rest := by
  constructor
  · intro h
    obtain ⟨⟨head, tail⟩, hread, h⟩ := bind_eq_ok.1 h
    cases h
    obtain ⟨hlen, rfl⟩ := readExact_eq_ok.1 hread
    obtain ⟨b, rfl⟩ := List.length_eq_one_iff.1 hlen
    rfl
  · rintro rfl
    exact readU8_cons b rest

theorem not_panics_readU8 : ¬ Panics (readU8 buf) := by
  unfold readU8
  rw [panics_bind]
  rintro (h | ⟨_, -, h⟩)
  · exact not_panics_readExact h
  · exact not_panics_ok _ h

theorem readDigest_eq_ok {digest : Digest} : readDigest buf = .ok (digest, rest) ↔ buf = digest.bytes ++ rest := by
  constructor
  · intro h
    obtain ⟨⟨array, tail⟩, hread, h⟩ := bind_eq_ok.1 h
    cases h
    exact readArray_eq_ok.1 hread
  · rintro rfl
    exact readDigest_append digest rest

theorem not_panics_readDigest : ¬ Panics (readDigest buf) := by
  unfold readDigest
  rw [panics_bind]
  rintro (h | ⟨_, -, h⟩)
  · exact not_panics_readArray h
  · exact not_panics_ok _ h

theorem readText_eq_ok {context text : String} : readText buf context = .ok text ↔ fromUtf8 buf = some text := by
  unfold readText
  cases fromUtf8 buf with
  | none => simp [corrupt, raise]
  | some t => simp

theorem not_panics_readText {context : String} : ¬ Panics (readText buf context) := by
  unfold readText
  split <;> simp

theorem panics_readModified {secs : Nat} : Panics (readModified secs) ↔ 2 ^ 63 ≤ secs ∧ secs ≠ absentTimestampSecs := by
  unfold readModified
  split
  · rename_i h
    simp [h]
  · rename_i h
    rw [panics_bind]
    unfold SystemTime.ofUnixSecs
    by_cases hlt : secs < 2 ^ 63
    · rw [dif_pos hlt]
      constructor
      · rintro (hp | ⟨time, -, hp⟩)
        · exact absurd hp (not_panics_ok _)
        · exact absurd hp (not_panics_ok _)
      · rintro ⟨hle, -⟩
        omega
    · rw [dif_neg hlt]
      constructor
      · intro _
        exact ⟨Nat.le_of_not_lt hlt, h⟩
      · intro _
        exact .inl ⟨_, rfl⟩

theorem readModified_isOk {secs : Nat} (h : secs < 2 ^ 63 ∨ secs = absentTimestampSecs) :
    ∃ modified, readModified secs = .ok modified := by
  unfold readModified
  by_cases habsent : secs = absentTimestampSecs
  · exact ⟨none, if_pos habsent⟩
  · rcases h with hlt | heq
    · rw [if_neg habsent, SystemTime.ofUnixSecs, dif_pos hlt]
      exact ⟨_, rfl⟩
    · exact absurd heq habsent

theorem not_panics_readEntryType {kind : UInt8} {link : List UInt8} : ¬ Panics (readEntryType kind link) := by
  unfold readEntryType
  split_ifs <;> simp

end

/-! ## Records as they stand in an index -/

/-- The fields of a record in the order of their bytes. -/
structure RawRecord where
  kind : UInt8
  encrypted : UInt8
  reserved : Nat
  dataOffset : Nat
  dataSize : Nat
  secs : Nat
  mode : Nat
  crc32c : Nat
  hash : Digest
  raw : List UInt8
  display : List UInt8
  encoding : List UInt8
  link : List UInt8

namespace RawRecord

variable (r : RawRecord)

/-- The bytes before the modification time. -/
def front : List UInt8 :=
  r.kind :: r.encrypted :: (leBytes 2 r.reserved ++ (leBytes 8 r.dataOffset ++ leBytes 8 r.dataSize))

def bytes : List UInt8 :=
  r.front ++ (leBytes 8 r.secs ++ (leBytes 4 r.mode ++ (leBytes 4 r.crc32c ++ (r.hash.bytes ++
    (leBytes 4 r.raw.length ++ (leBytes 4 r.display.length ++ (leBytes 2 r.encoding.length ++
    (leBytes 4 r.link.length ++ (r.raw ++ (r.display ++ (r.encoding ++ r.link)))))))))))

/-- A record that the parser passes. -/
structure WellFormed (P : Primitives) : Prop where
  reserved : r.reserved < 256 ^ 2
  dataOffset : r.dataOffset < 256 ^ 8
  dataSize : r.dataSize < 256 ^ 8
  secs : r.secs < 2 ^ 63 ∨ r.secs = absentTimestampSecs
  mode : r.mode < 256 ^ 4
  crc32c : r.crc32c < 256 ^ 4
  raw : r.raw.length < 256 ^ 4
  displayLen : r.display.length < 256 ^ 4
  display : (fromUtf8 r.display).isSome
  encodingLen : r.encoding.length < 256 ^ 2
  encoding : (fromUtf8 r.encoding).isSome
  link : r.link.length < 256 ^ 4
  entryType : ∃ t, readEntryType r.kind r.link = .ok t ∧ (t = .file ∨ r.hash = emptyHash P)

end RawRecord

/-- A record whose modification time overflows: what stands before the time, the time, and the rest. -/
def Overflowing (buf : List UInt8) : Prop :=
  ∃ front secs rest, front.length = 20 ∧ 2 ^ 63 ≤ secs ∧ secs < absentTimestampSecs ∧
    buf = front ++ (leBytes 8 secs ++ rest)

/-! ## One record -/

theorem absent_lt : absentTimestampSecs < 256 ^ 8 := by decide

/-- Any twenty bytes are the fields before a modification time. -/
theorem front_eq {front : List UInt8} (h : front.length = 20) :
    ∃ kind encrypted reserved dataOffset dataSize, reserved < 256 ^ 2 ∧ dataOffset < 256 ^ 8 ∧ dataSize < 256 ^ 8 ∧
      front = kind :: encrypted :: (leBytes 2 reserved ++ (leBytes 8 dataOffset ++ leBytes 8 dataSize)) := by
  obtain ⟨kind, front, rfl⟩ := List.exists_cons_of_length_pos (by omega : 0 < front.length)
  obtain ⟨encrypted, front, rfl⟩ := List.exists_cons_of_length_pos (by simp at h; omega : 0 < front.length)
  have hlen : front.length = 18 := by simpa using h
  have hreserved : (front.take 2).length = 2 := by rw [List.length_take]; omega
  have hoffset : ((front.drop 2).take 8).length = 8 := by rw [List.length_take, List.length_drop]; omega
  have hsize : ((front.drop 2).drop 8).length = 8 := by rw [List.length_drop, List.length_drop]; omega
  refine ⟨kind, encrypted, leNat (front.take 2), leNat ((front.drop 2).take 8), leNat ((front.drop 2).drop 8),
    ?_, ?_, ?_, ?_⟩
  · have hlt := leNat_lt (front.take 2)
    rwa [hreserved] at hlt
  · have hlt := leNat_lt ((front.drop 2).take 8)
    rwa [hoffset] at hlt
  · have hlt := leNat_lt ((front.drop 2).drop 8)
    rwa [hsize] at hlt
  · have h₁ := leBytes_leNat (front.take 2)
    have h₂ := leBytes_leNat ((front.drop 2).take 8)
    have h₃ := leBytes_leNat ((front.drop 2).drop 8)
    rw [hreserved] at h₁
    rw [hoffset] at h₂
    rw [hsize] at h₃
    rw [h₁, h₂, h₃, List.take_append_drop, List.take_append_drop]

/-- The parser gets past a record exactly if it is well-formed. -/
theorem parseRecord_eq_ok {P : Primitives} {buf rest : List UInt8} :
    (∃ record, parseRecord P buf = .ok (record, rest)) ↔ ∃ r : RawRecord, r.WellFormed P ∧ buf = r.bytes ++ rest := by
  constructor
  · rintro ⟨record, h⟩
    unfold parseRecord at h
    obtain ⟨⟨kind, buf₁⟩, hkind, h⟩ := bind_eq_ok.1 h
    obtain ⟨⟨encrypted, buf₂⟩, hencrypted, h⟩ := bind_eq_ok.1 h
    obtain ⟨⟨reserved, buf₃⟩, hreserved, h⟩ := bind_eq_ok.1 h
    obtain ⟨⟨dataOffset, buf₄⟩, hoffset, h⟩ := bind_eq_ok.1 h
    obtain ⟨⟨dataSize, buf₅⟩, hsize, h⟩ := bind_eq_ok.1 h
    obtain ⟨⟨secs, buf₆⟩, hsecs, h⟩ := bind_eq_ok.1 h
    obtain ⟨modified, hmodified, h⟩ := bind_eq_ok.1 h
    obtain ⟨⟨mode, buf₇⟩, hmode, h⟩ := bind_eq_ok.1 h
    obtain ⟨⟨crc32c, buf₈⟩, hcrc, h⟩ := bind_eq_ok.1 h
    obtain ⟨⟨hash, buf₉⟩, hhash, h⟩ := bind_eq_ok.1 h
    obtain ⟨⟨rawLen, buf₁₀⟩, hrawLen, h⟩ := bind_eq_ok.1 h
    obtain ⟨⟨displayLen, buf₁₁⟩, hdisplayLen, h⟩ := bind_eq_ok.1 h
    obtain ⟨⟨encodingLen, buf₁₂⟩, hencodingLen, h⟩ := bind_eq_ok.1 h
    obtain ⟨⟨linkLen, buf₁₃⟩, hlinkLen, h⟩ := bind_eq_ok.1 h
    obtain ⟨⟨raw, buf₁₄⟩, hraw, h⟩ := bind_eq_ok.1 h
    obtain ⟨⟨display, buf₁₅⟩, hdisplay, h⟩ := bind_eq_ok.1 h
    obtain ⟨displayText, hdisplayText, h⟩ := bind_eq_ok.1 h
    obtain ⟨⟨encoding, buf₁₆⟩, hencoding, h⟩ := bind_eq_ok.1 h
    obtain ⟨encodingText, hencodingText, h⟩ := bind_eq_ok.1 h
    obtain ⟨⟨link, buf₁₇⟩, hlink, h⟩ := bind_eq_ok.1 h
    obtain ⟨entryType, htype, h⟩ := bind_eq_ok.1 h
    split at h
    · cases h
    rename_i hnonFile
    cases h
    rw [readU8_eq_ok] at hkind hencrypted
    subst hkind hencrypted
    obtain ⟨hreservedLt, rfl⟩ := readUInt_eq_ok.1 hreserved
    obtain ⟨hoffsetLt, rfl⟩ := readUInt_eq_ok.1 hoffset
    obtain ⟨hsizeLt, rfl⟩ := readUInt_eq_ok.1 hsize
    obtain ⟨hsecsLt, rfl⟩ := readUInt_eq_ok.1 hsecs
    obtain ⟨hmodeLt, rfl⟩ := readUInt_eq_ok.1 hmode
    obtain ⟨hcrcLt, rfl⟩ := readUInt_eq_ok.1 hcrc
    rw [readDigest_eq_ok] at hhash
    subst hhash
    obtain ⟨hrawLt, rfl⟩ := readUInt_eq_ok.1 hrawLen
    obtain ⟨hdisplayLt, rfl⟩ := readUInt_eq_ok.1 hdisplayLen
    obtain ⟨hencodingLt, rfl⟩ := readUInt_eq_ok.1 hencodingLen
    obtain ⟨hlinkLt, rfl⟩ := readUInt_eq_ok.1 hlinkLen
    obtain ⟨rfl, rfl⟩ := readExact_eq_ok.1 hraw
    obtain ⟨rfl, rfl⟩ := readExact_eq_ok.1 hdisplay
    obtain ⟨rfl, rfl⟩ := readExact_eq_ok.1 hencoding
    obtain ⟨rfl, rfl⟩ := readExact_eq_ok.1 hlink
    refine ⟨⟨kind, encrypted, reserved, dataOffset, dataSize, secs, mode, crc32c, hash, raw, display, encoding, link⟩,
      ⟨hreservedLt, hoffsetLt, hsizeLt, ?_, hmodeLt, hcrcLt, hrawLt, hdisplayLt, ?_, hencodingLt, ?_, hlinkLt, ?_⟩, ?_⟩
    · by_contra hsecs'
      obtain ⟨hlarge, hpresent⟩ := not_or.1 hsecs'
      have hpanics : Panics (readModified secs) := panics_readModified.2 ⟨Nat.le_of_not_lt hlarge, hpresent⟩
      rw [hmodified] at hpanics
      exact not_panics_ok _ hpanics
    · rw [readText_eq_ok.1 hdisplayText]
      rfl
    · rw [readText_eq_ok.1 hencodingText]
      rfl
    · refine ⟨entryType, htype, ?_⟩
      by_cases hfile : entryType = .file
      · exact .inl hfile
      · refine .inr ?_
        by_contra hhash
        exact hnonFile ⟨hfile, hhash⟩
    · simp only [RawRecord.bytes, RawRecord.front, List.cons_append, List.append_assoc]
  · rintro ⟨r, hr, rfl⟩
    obtain ⟨modified, hmodified⟩ := readModified_isOk hr.secs
    have hsecs : r.secs < 256 ^ 8 := by
      rcases hr.secs with h | h
      · exact lt_trans h (by decide)
      · rw [h]
        exact absent_lt
    obtain ⟨display, hdisplay⟩ := Option.isSome_iff_exists.1 hr.display
    obtain ⟨encoding, hencoding⟩ := Option.isSome_iff_exists.1 hr.encoding
    obtain ⟨entryType, htype, hhash⟩ := hr.entryType
    have hu : ∀ {n v : Nat} {rest : List UInt8}, v < 256 ^ n → readUInt n (leBytes n v ++ rest) = .ok (v, rest) :=
      fun hv => readUInt_eq_ok.2 ⟨hv, rfl⟩
    unfold parseRecord
    simp only [RawRecord.bytes, RawRecord.front, List.cons_append, List.append_assoc, readU8_cons, ok_bind, readU16,
      readU32, readU64, hu hr.reserved, hu hr.dataOffset, hu hr.dataSize, hu hsecs, hmodified, hu hr.mode, hu hr.crc32c,
      readDigest_append, hu hr.raw, hu hr.displayLen, hu hr.encodingLen, hu hr.link, readExact_append rfl,
      readText_eq_ok.2 hdisplay, readText_eq_ok.2 hencoding, htype]
    rw [if_neg fun h => ?_]
    · exact ⟨_, rfl⟩
    · rcases hhash with hfile | hhash
      · exact h.1 hfile
      · exact h.2 hhash

/-- The parser panics in a record exactly if its modification time overflows. -/
theorem panics_parseRecord {P : Primitives} {buf : List UInt8} : Panics (parseRecord P buf) ↔ Overflowing buf := by
  unfold parseRecord
  constructor
  · intro h
    obtain ⟨⟨kind, buf₁⟩, hkind, h⟩ := panics_of_bind h not_panics_readU8
    obtain ⟨⟨encrypted, buf₂⟩, hencrypted, h⟩ := panics_of_bind h not_panics_readU8
    obtain ⟨⟨reserved, buf₃⟩, hreserved, h⟩ := panics_of_bind h not_panics_readUInt
    obtain ⟨⟨dataOffset, buf₄⟩, hoffset, h⟩ := panics_of_bind h not_panics_readUInt
    obtain ⟨⟨dataSize, buf₅⟩, hsize, h⟩ := panics_of_bind h not_panics_readUInt
    obtain ⟨⟨secs, buf₆⟩, hsecs, h⟩ := panics_of_bind h not_panics_readUInt
    rcases panics_bind.1 h with hpanics | ⟨modified, -, h⟩
    · clear h
      rw [readU8_eq_ok] at hkind hencrypted
      subst hkind hencrypted
      obtain ⟨-, rfl⟩ := readUInt_eq_ok.1 hreserved
      obtain ⟨-, rfl⟩ := readUInt_eq_ok.1 hoffset
      obtain ⟨-, rfl⟩ := readUInt_eq_ok.1 hsize
      obtain ⟨hsecsLt, rfl⟩ := readUInt_eq_ok.1 hsecs
      obtain ⟨hlarge, hpresent⟩ := panics_readModified.1 hpanics
      refine ⟨kind :: encrypted :: (leBytes 2 reserved ++ (leBytes 8 dataOffset ++ leBytes 8 dataSize)), secs, buf₆,
        by simp, hlarge, ?_, by simp⟩
      unfold absentTimestampSecs at hpresent ⊢
      omega
    -- past the modification time nothing panics
    obtain ⟨⟨mode, buf₇⟩, -, h⟩ := panics_of_bind h not_panics_readUInt
    obtain ⟨⟨crc32c, buf₈⟩, -, h⟩ := panics_of_bind h not_panics_readUInt
    obtain ⟨⟨hash, buf₉⟩, -, h⟩ := panics_of_bind h not_panics_readDigest
    obtain ⟨⟨rawLen, buf₁₀⟩, -, h⟩ := panics_of_bind h not_panics_readUInt
    obtain ⟨⟨displayLen, buf₁₁⟩, -, h⟩ := panics_of_bind h not_panics_readUInt
    obtain ⟨⟨encodingLen, buf₁₂⟩, -, h⟩ := panics_of_bind h not_panics_readUInt
    obtain ⟨⟨linkLen, buf₁₃⟩, -, h⟩ := panics_of_bind h not_panics_readUInt
    obtain ⟨⟨raw, buf₁₄⟩, -, h⟩ := panics_of_bind h not_panics_readExact
    obtain ⟨⟨display, buf₁₅⟩, -, h⟩ := panics_of_bind h not_panics_readExact
    obtain ⟨displayText, -, h⟩ := panics_of_bind h not_panics_readText
    obtain ⟨⟨encoding, buf₁₆⟩, -, h⟩ := panics_of_bind h not_panics_readExact
    obtain ⟨encodingText, -, h⟩ := panics_of_bind h not_panics_readText
    obtain ⟨⟨link, buf₁₇⟩, -, h⟩ := panics_of_bind h not_panics_readExact
    obtain ⟨entryType, -, h⟩ := panics_of_bind h not_panics_readEntryType
    split at h
    · exact absurd h (not_panics_corrupt _)
    · exact absurd h (not_panics_ok _)
  · rintro ⟨front, secs, rest, hfront, hlarge, hpresent, rfl⟩
    obtain ⟨kind, encrypted, reserved, dataOffset, dataSize, hreserved, hoffset, hsize, rfl⟩ := front_eq hfront
    have hsecs : readModified secs = .error (.panicked "overflow when adding duration to instant") := by
      rw [readModified, if_neg (Nat.ne_of_lt hpresent), SystemTime.ofUnixSecs, dif_neg (Nat.not_lt.2 hlarge)]
      rfl
    simp only [List.cons_append, List.append_assoc, readU8_cons, ok_bind, readU16, readU64,
      readUInt_eq_ok.2 ⟨hreserved, rfl⟩, readUInt_eq_ok.2 ⟨hoffset, rfl⟩, readUInt_eq_ok.2 ⟨hsize, rfl⟩,
      readUInt_eq_ok.2 ⟨lt_trans hpresent absent_lt, rfl⟩, hsecs]
    exact ⟨_, rfl⟩

/-! ## All records -/

/-- The records from some place on: well-formed ones, and then one that overflows among the `count` to be parsed. -/
def OverflowReached (P : Primitives) (count : Nat) (buf : List UInt8) : Prop :=
  ∃ (earlier : List RawRecord) (tail : List UInt8), earlier.length < count ∧ (∀ r ∈ earlier, r.WellFormed P) ∧
    Overflowing tail ∧ buf = earlier.flatMap RawRecord.bytes ++ tail

theorem overflowReached_succ {P : Primitives} {count : Nat} {buf : List UInt8} :
    OverflowReached P (count + 1) buf ↔
      Overflowing buf ∨ ∃ (r : RawRecord) (rest : List UInt8), r.WellFormed P ∧ buf = r.bytes ++ rest ∧
        OverflowReached P count rest := by
  constructor
  · rintro ⟨earlier, tail, hlen, hwell, htail, rfl⟩
    rcases earlier with _ | ⟨r, earlier⟩
    · exact .inl htail
    · refine .inr ⟨r, earlier.flatMap RawRecord.bytes ++ tail, hwell r List.mem_cons_self, ?_, earlier, tail, ?_,
        fun r' hr' => hwell r' (List.mem_cons_of_mem _ hr'), htail, rfl⟩
      · rw [List.flatMap_cons, List.append_assoc]
      · rw [List.length_cons] at hlen
        omega
  · rintro (hover | ⟨r, rest, hr, rfl, earlier, tail, hlen, hwell, htail, rfl⟩)
    · exact ⟨[], buf, Nat.succ_pos count, by simp, hover, rfl⟩
    · refine ⟨r :: earlier, tail, ?_, ?_, htail, ?_⟩
      · rw [List.length_cons]
        omega
      · rw [List.forall_mem_cons]
        exact ⟨hr, hwell⟩
      · rw [List.flatMap_cons, List.append_assoc]

/-- The parser panics among the records exactly if it reaches one whose modification time overflows. -/
theorem panics_parseRecords {P : Primitives} {count : Nat} {buf : List UInt8} :
    Panics (parseRecords P count buf) ↔ OverflowReached P count buf := by
  induction count generalizing buf with
  | zero =>
    constructor
    · intro h
      exact absurd h (not_panics_ok _)
    · rintro ⟨earlier, tail, hlen, -⟩
      exact absurd hlen (Nat.not_lt_zero _)
  | succ count ih =>
    rw [overflowReached_succ, parseRecords, panics_bind, panics_parseRecord]
    refine or_congr_right ?_
    constructor
    · rintro ⟨⟨record, rest⟩, hrecord, h⟩
      obtain ⟨r, hr, rfl⟩ := parseRecord_eq_ok.1 ⟨record, hrecord⟩
      refine ⟨r, rest, hr, rfl, ih.1 ?_⟩
      rcases panics_bind.1 h with hrest | ⟨_, -, hpure⟩
      · exact hrest
      · exact absurd hpure (not_panics_ok _)
    · rintro ⟨r, rest, hr, rfl, hrest⟩
      obtain ⟨record, hrecord⟩ := parseRecord_eq_ok.2 ⟨r, hr, rfl⟩
      exact ⟨(record, rest), hrecord, panics_bind.2 (.inl (ih.2 hrest))⟩

/-! ## The index -/

/-- The bytes of an index up to its records. -/
def indexFront (flags count : Nat) : List UInt8 :=
  indexMagic ++ (leBytes 2 1 ++ (leBytes 2 flags ++ leBytes 8 count))

/-- Parsing an index returns, be it with records or with an error, exactly if the parser reaches no record whose
modification time is past the clock's signed seconds and is not the absent time. -/
theorem parseIndex_returns_iff (P : Primitives) (index : List UInt8) :
    ¬ Panics (parseIndex P index) ↔
      ¬ ∃ flags count records, flags < 2 ^ 16 ∧ count < 2 ^ 64 ∧ index = indexFront flags count ++ records ∧
          OverflowReached P count records := by
  refine not_congr ?_
  unfold parseIndex indexFront
  constructor
  · intro hindex
    obtain ⟨⟨head, buf⟩, hhead, hmagic⟩ := panics_of_bind hindex not_panics_readExact
    obtain ⟨-, rfl⟩ := readExact_eq_ok.1 hhead
    dsimp only at hmagic
    split at hmagic
    · exact absurd hmagic (not_panics_corrupt _)
    rename_i hmagicOk
    rw [ne_eq, not_not] at hmagicOk
    obtain ⟨⟨version, buf₁⟩, hversion, hone⟩ := panics_of_bind hmagic not_panics_readUInt
    obtain ⟨-, rfl⟩ := readUInt_eq_ok.1 hversion
    dsimp only at hone
    split at hone
    · exact absurd hone (not_panics_unsupported _)
    rename_i hversionOk
    rw [ne_eq, not_not] at hversionOk
    obtain ⟨⟨flags, buf₂⟩, hflags, htail⟩ := panics_of_bind hone not_panics_readUInt
    obtain ⟨hflagsLt, rfl⟩ := readUInt_eq_ok.1 hflags
    obtain ⟨⟨count, records⟩, hcount, h⟩ := panics_of_bind htail not_panics_readUInt
    obtain ⟨hcountLt, rfl⟩ := readUInt_eq_ok.1 hcount
    refine ⟨flags, count, records, hflagsLt, hcountLt, ?_, panics_parseRecords.1 ?_⟩
    · rw [hmagicOk, hversionOk]
      simp only [List.append_assoc]
    · rcases panics_bind.1 h with hrecords | ⟨⟨parsed, rest⟩, -, hrest⟩
      · exact hrecords
      · dsimp only at hrest
        split at hrest
        · exact absurd hrest (not_panics_corrupt _)
        · exact absurd hrest (not_panics_ok _)
  · rintro ⟨flags, count, records, hflags, hcount, rfl, hover⟩
    obtain ⟨message, hpanics⟩ := panics_parseRecords.2 hover
    simp only [List.append_assoc, readExact_append (a := indexMagic) (n := 4) rfl, ok_bind, readU16_append,
      readU64_append, Nat.mod_eq_of_lt hflags, Nat.mod_eq_of_lt hcount, hpanics]
    exact ⟨message, rfl⟩

/-- The start of an index whose only record dates its file to the first second past the clock's range. -/
def farFutureIndex : List UInt8 :=
  indexFront 0 1 ++ (leBytes 20 0 ++ leBytes 8 (2 ^ 63))

/-- Parsing it panics. -/
theorem parseIndex_far_future_panics : Panics (parseIndex samplePrimitives farFutureIndex) := by
  refine ⟨"overflow when adding duration to instant", ?_⟩
  unfold farFutureIndex indexFront
  rfl

end Squallz.Sqz
