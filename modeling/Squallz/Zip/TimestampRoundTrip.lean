/-
The round trip of ZIP timestamps: between the first tick after 1601 and the last one of 64 bits a time comes back rounded
down to 100 ns, whatever the order of the extra fields; other times leave only the DOS time.
-/
import Squallz.Zip.Timestamps
import Mathlib.Data.List.Perm.Basic

namespace Squallz.Zip

open Squallz.Api Squallz.Bytes

/-! ## Times and nanoseconds -/

theorem systemTimeFromNanos_eq (nanos : Int) :
    systemTimeFromNanos nanos = checkedTime (nanos / nanosPerSecond) (nanos % nanosPerSecond).toNat := by
  unfold systemTimeFromNanos checkedTime nanosPerSecond
  simp only
  split
  · rename_i hlarge
    rw [dif_neg]
    omega
  · split
    · split
      · rename_i hneg hrest
        have hsecs : -((nanos.natAbs / 1000000000 : Nat) : Int) = nanos / (1000000000 : Nat) := by omega
        have hnanos : (nanos % (1000000000 : Nat)).toNat = 0 := by omega
        simp only [hsecs, hnanos]
      · rename_i hneg hrest
        have hsecs : -((nanos.natAbs / 1000000000 : Nat) : Int) - 1 = nanos / (1000000000 : Nat) := by omega
        have hnanos : (nanos % (1000000000 : Nat)).toNat = 1000000000 - nanos.natAbs % 1000000000 := by omega
        simp only [hsecs, hnanos]
    · have hsecs : ((nanos.natAbs / 1000000000 : Nat) : Int) = nanos / (1000000000 : Nat) := by omega
      have hnanos : (nanos % (1000000000 : Nat)).toNat = nanos.natAbs % 1000000000 := by omega
      simp only [hsecs, hnanos]

/-- A time comes back from its nanoseconds. -/
theorem systemTimeFromNanos_unixNanos (t : SystemTime) : systemTimeFromNanos (unixNanos t) = some t := by
  have hlt := t.nanos_lt
  rw [systemTimeFromNanos_eq]
  unfold unixNanos nanosPerSecond
  have hsecs : (t.secs * (1000000000 : Nat) + t.nanos) / (1000000000 : Nat) = t.secs := by omega
  have hnanos : ((t.secs * (1000000000 : Nat) + t.nanos) % (1000000000 : Nat)).toNat = t.nanos := by omega
  rw [hsecs, hnanos]
  exact dif_pos ⟨t.secs_ge, t.secs_lt, t.nanos_lt⟩

/-- The time rounded down to 100 ns. -/
def floorTicks (t : SystemTime) : SystemTime where
  secs := t.secs
  nanos := t.nanos / 100 * 100
  secs_ge := t.secs_ge
  secs_lt := t.secs_lt
  nanos_lt := by
    have := t.nanos_lt
    omega

theorem unixNanos_floorTicks (t : SystemTime) : unixNanos (floorTicks t) = unixNanos t / 100 * 100 := by
  unfold unixNanos floorTicks nanosPerSecond
  simp only
  omega

/-- Ticks are read back as the time rounded down. -/
theorem systemTimeFromNanos_ntfsTicks (t : SystemTime) :
    systemTimeFromNanos ((ntfsTicks t - ntfsUnixEpochTicks) * 100) = some (floorTicks t) := by
  have hticks : (ntfsTicks t - ntfsUnixEpochTicks) * 100 = unixNanos (floorTicks t) := by
    rw [unixNanos_floorTicks]
    unfold ntfsTicks
    ring
  rw [hticks, systemTimeFromNanos_unixNanos]

/-! ## The bytes of fields -/

theorem readLe_append {width : Nat} {bytes : List UInt8} (h : bytes.length = width) (rest : List UInt8) :
    readLe width (bytes ++ rest) = some (leNat bytes, rest) := by
  subst h
  unfold readLe
  rw [if_neg (by simp), List.take_left, List.drop_left]

theorem readLe_leBytes {width v : Nat} (h : v < 256 ^ width) (rest : List UInt8) :
    readLe width (leBytes width v ++ rest) = some (v, rest) := by
  rw [readLe_append (length_leBytes width v), leNat_leBytes_of_lt h]

/-- An extra field: its tag and its data, both of which fit their headers. -/
structure Field where
  tag : Nat
  data : List UInt8
  tag_lt : tag < 2 ^ 16
  len_lt : data.length < 2 ^ 16

def Field.bytes (field : Field) : List UInt8 := fieldBytes field.tag field.data

theorem Field.length_bytes (field : Field) : field.bytes.length = 4 + field.data.length := by
  unfold Field.bytes fieldBytes
  simp only [List.length_append, length_leBytes]

theorem Field.take_bytes (field : Field) (rest : List UInt8) : (field.bytes ++ rest).take 2 = leBytes 2 field.tag := by
  unfold Field.bytes fieldBytes
  rw [List.append_assoc, List.append_assoc]
  exact List.take_left' (length_leBytes 2 field.tag)

/-- The two fields that are written, and what they say. -/
inductive Stands : Field → ExtraField → Prop
  | unix {seconds : Nat} (h : seconds < 2 ^ 32) {field : Field} (htag : field.tag = 0x5455)
      (hdata : field.data = 1 :: leBytes 4 seconds) : Stands field (.extendedTimestamp (some seconds) none none)
  | ntfs {ticks : Nat} (h : ticks < 2 ^ 64) {field : Field} (htag : field.tag = 0x000a)
      (hdata : field.data = leBytes 4 0 ++ leBytes 2 1 ++ leBytes 2 24 ++ leBytes 8 ticks ++ leBytes 8 0 ++ leBytes 8 0) :
      Stands field (.ntfs ticks 0 0)

theorem readNtfs_ticks {ticks : Nat} (h : ticks < 2 ^ 64) (rest : List UInt8) :
    readNtfs (leBytes 4 0 ++ leBytes 2 1 ++ leBytes 2 24 ++ leBytes 8 ticks ++ leBytes 8 0 ++ leBytes 8 0 ++ rest) 32 =
      some (.ntfs ticks 0 0, rest) := by
  have hticks : ticks < 256 ^ 8 := by omega
  simp only [List.append_assoc]
  unfold readNtfs
  rw [if_neg (by decide), readLe_leBytes (by decide)]
  simp only [Option.bind_eq_bind, Option.bind_some]
  rw [readLe_leBytes (by decide)]
  simp only [Option.bind_some, ne_eq, not_true_eq_false, if_false]
  rw [readLe_leBytes (by decide)]
  simp only [Option.bind_some, not_true_eq_false, if_false]
  rw [readLe_leBytes hticks]
  simp only [Option.bind_some]
  rw [readLe_leBytes (by decide)]
  simp only [Option.bind_some]
  rw [readLe_leBytes (by decide)]
  rfl

theorem readExtendedTimestamp_seconds {seconds : Nat} (h : seconds < 2 ^ 32) (rest : List UInt8) :
    readExtendedTimestamp (1 :: leBytes 4 seconds ++ rest) 5 =
      some (.extendedTimestamp (some seconds) none none, rest) := by
  have hseconds : seconds < 256 ^ 4 := by omega
  have hflags : readLe 1 (1 :: leBytes 4 seconds ++ rest) = some (1, leBytes 4 seconds ++ rest) :=
    @readLe_append 1 [1] rfl _
  unfold readExtendedTimestamp
  rw [if_neg (by decide), hflags]
  simp only [Option.bind_eq_bind, Option.bind_some]
  rw [if_neg (by decide)]
  have hmodified : readTime (Nat.testBit 1 0) 5 (5 - 1) (leBytes 4 seconds ++ rest) = some (some seconds, 0, rest) := by
    unfold readTime
    rw [if_pos (by decide), if_neg (by decide), readLe_leBytes hseconds]
    rfl
  have habsent : ∀ flagged, readTime flagged 5 0 rest = some (none, 0, rest) := by
    intro flagged
    unfold readTime
    rw [if_neg (by cases flagged <;> decide)]
  rw [hmodified]
  simp only [Option.bind_some, habsent]
  rw [if_neg (Nat.not_lt_zero _)]
  rfl

/-! ## Fields that are read back -/

section Fields

variable {field : Field} {time : ExtraField}

theorem leNat_tag (field : Field) : leNat (leBytes 2 field.tag) = field.tag := leNat_leBytes_of_lt field.tag_lt

theorem leNat_len (field : Field) : leNat (leBytes 2 field.data.length) = field.data.length :=
  leNat_leBytes_of_lt field.len_lt

theorem Stands.localField (h : Stands field time) : localField field.tag field.data.length field.data = some time := by
  cases h with
  | unix hseconds htag hdata =>
    have hread := readExtendedTimestamp_seconds hseconds []
    rw [List.append_nil] at hread
    unfold Zip.localField
    rw [htag, hdata, if_neg (by decide), List.length_cons, length_leBytes, List.head?_cons, Option.any_some,
      if_pos ⟨rfl, by decide⟩]
    show (readExtendedTimestamp _ 5).map _ = _
    rw [hread]
    rfl
  | ntfs hticks htag hdata =>
    have hread := readNtfs_ticks hticks []
    rw [List.append_nil] at hread
    unfold Zip.localField
    rw [htag, hdata, if_pos rfl]
    show (readNtfs _ 32).map _ = _
    rw [hread]
    rfl

/-- The library reads a field of its header's length and leaves what stands behind it. -/
theorem Stands.parse (others : OtherFields) (h : Stands field time) (rest : List UInt8) :
    parseSingleExtraField others (field.bytes ++ rest) = some (some time, rest) := by
  have hkind : readLe 2 (field.bytes ++ rest) = some (field.tag, leBytes 2 field.data.length ++ (field.data ++ rest)) := by
    unfold Field.bytes fieldBytes
    rw [List.append_assoc, List.append_assoc, readLe_leBytes field.tag_lt]
  have hlen : readLe 2 (leBytes 2 field.data.length ++ (field.data ++ rest)) =
      some (field.data.length, field.data ++ rest) := readLe_leBytes field.len_lt _
  unfold parseSingleExtraField
  rw [hkind]
  simp only [hlen]
  cases h with
  | unix hseconds htag hdata =>
    rw [htag, hdata, if_neg (by decide), if_pos rfl, List.length_cons, length_leBytes]
    show (readExtendedTimestamp _ 5).map _ = _
    rw [readExtendedTimestamp_seconds hseconds]
    rfl
  | ntfs hticks htag hdata =>
    rw [htag, hdata, if_pos rfl]
    show (readNtfs _ 32).map _ = _
    rw [readNtfs_ticks hticks]
    rfl

/-- The bytes of a local header are read field by field. -/
theorem localFields_bytes (fields : List Field) {fuel : Nat} (h : (fields.flatMap Field.bytes).length ≤ fuel) :
    localFields fuel (fields.flatMap Field.bytes) =
      fields.filterMap fun field => localField field.tag field.data.length field.data := by
  induction fields generalizing fuel with
  | nil =>
    cases fuel with
    | zero => rfl
    | succ fuel => rfl
  | cons field fields ih =>
    have hlength := field.length_bytes
    rw [List.flatMap_cons] at h ⊢
    rw [List.length_append] at h
    cases fuel with
    | zero => omega
    | succ fuel =>
      have htag := field.take_bytes (fields.flatMap Field.bytes)
      have hlen : (((field.bytes ++ fields.flatMap Field.bytes).drop 2).take 2) = leBytes 2 field.data.length := by
        unfold Field.bytes fieldBytes
        rw [List.append_assoc, List.append_assoc, List.drop_left' (length_leBytes 2 field.tag)]
        exact List.take_left' (length_leBytes 2 field.data.length)
      have hdata : (((field.bytes ++ fields.flatMap Field.bytes).drop 4).take field.data.length) = field.data := by
        have hheader : (leBytes 2 field.tag ++ leBytes 2 field.data.length).length = 4 := by
          rw [List.length_append, length_leBytes, length_leBytes]
        unfold Field.bytes fieldBytes
        rw [List.append_assoc, List.drop_left' hheader, List.take_left]
      have hrest : (field.bytes ++ fields.flatMap Field.bytes).drop (4 + field.data.length) =
          fields.flatMap Field.bytes := List.drop_left' hlength
      rw [localFields]
      simp only [htag, hlen, leNat_tag, leNat_len, hdata, hrest]
      rw [if_neg (by rw [List.length_append]; omega), if_neg (by rw [List.length_append]; omega),
        ih (by omega)]
      rw [List.filterMap_cons]
      cases localField field.tag field.data.length field.data with
      | none => rfl
      | some time => rfl

/-- The library reads the fields that are written in their order. -/
theorem centralFields_bytes (others : OtherFields) {fields : List Field} {times : List ExtraField}
    (h : List.Forall₂ Stands fields times) {fuel : Nat} (hfuel : (fields.flatMap Field.bytes).length ≤ fuel) :
    centralFields others fuel (fields.flatMap Field.bytes) = some times := by
  induction h generalizing fuel with
  | nil =>
    cases fuel with
    | zero => rfl
    | succ fuel => rfl
  | @cons field time fields times hfirst _ ih =>
    have hlength := field.length_bytes
    rw [List.flatMap_cons] at hfuel ⊢
    rw [List.length_append] at hfuel
    cases fuel with
    | zero => omega
    | succ fuel =>
      obtain ⟨b, bs, hb⟩ : ∃ b bs, field.bytes ++ fields.flatMap Field.bytes = b :: bs :=
        List.exists_cons_of_ne_nil (List.ne_nil_of_length_pos (by rw [List.length_append]; omega))
      have hparse := hfirst.parse others (fields.flatMap Field.bytes)
      rw [hb] at hparse ⊢
      rw [centralFields, hparse]
      simp only [Option.bind_eq_bind, Option.bind_some]
      rw [ih (by omega)]
      rfl
      exact fun h => by cases h

end Fields

/-! ## Reading in any order -/

section Order

variable {DosTime : Type} (fromZipDatetime : DosTime → Option SystemTime)

/-- Ticks that stand for a time win, whatever stands beside them. -/
theorem modifiedTimeFrom_ntfs {dos : Option DosTime} {ticks : Nat} {time : SystemTime} (hpos : ticks ≠ 0)
    (htime : systemTimeFromNanos ((ticks - ntfsUnixEpochTicks) * 100) = some time) {fields : List ExtraField}
    (hmem : .ntfs ticks 0 0 ∈ fields) (hall : ∀ mtime atime ctime, .ntfs mtime atime ctime ∈ fields → mtime = ticks)
    (unix : Option SystemTime) : modifiedTimeFrom fromZipDatetime dos unix fields = some time := by
  induction fields generalizing unix with
  | nil => cases hmem
  | cons field fields ih =>
    cases field with
    | ntfs mtime atime ctime =>
      cases hall mtime atime ctime List.mem_cons_self
      rw [modifiedTimeFrom, if_pos hpos, htime]
    | extendedTimestamp modified accessed created =>
      rw [modifiedTimeFrom]
      refine ih ?_ (fun mtime atime ctime h => hall mtime atime ctime (List.mem_cons_of_mem _ h)) _
      rcases List.mem_cons.1 hmem with heq | hmem
      · cases heq
      · exact hmem

/-- Without ticks and seconds the DOS time is left. -/
theorem modifiedTimeFrom_zero {dos : Option DosTime} {fields : List ExtraField}
    (h : ∀ field ∈ fields, field = .ntfs 0 0 0) :
    modifiedTimeFrom fromZipDatetime dos none fields = dos.bind fromZipDatetime := by
  induction fields with
  | nil => rfl
  | cons field fields ih =>
    cases h field List.mem_cons_self
    rw [modifiedTimeFrom, if_neg (by decide)]
    exact ih fun other hother => h other (List.mem_cons_of_mem _ hother)

/-- What comes back of a time. -/
def restored (t : SystemTime) (dos : Option DosTime) : Option SystemTime :=
  if 0 < ntfsTicks t ∧ ntfsTicks t < 2 ^ 64 then some (floorTicks t) else dos.bind fromZipDatetime

/-- The fields that stand for a time, by their meaning: seconds come only with ticks. -/
structure Written (t : SystemTime) (times : List ExtraField) : Prop where
  ticks : 0 ≤ ntfsTicks t ∧ ntfsTicks t < 2 ^ 64 → .ntfs (ntfsTicks t).toNat 0 0 ∈ times
  onlyTicks : ∀ mtime atime ctime, .ntfs mtime atime ctime ∈ times →
    mtime = (ntfsTicks t).toNat ∧ atime = 0 ∧ ctime = 0 ∧ 0 ≤ ntfsTicks t ∧ ntfsTicks t < 2 ^ 64
  seconds : ∀ modified accessed created, .extendedTimestamp modified accessed created ∈ times →
    0 < ntfsTicks t ∧ ntfsTicks t < 2 ^ 64

theorem Written.perm {t : SystemTime} {times times' : List ExtraField} (h : Written t times) (hperm : times'.Perm times) :
    Written t times' where
  ticks := fun ht => hperm.mem_iff.2 (h.ticks ht)
  onlyTicks := fun mtime atime ctime hmem => h.onlyTicks mtime atime ctime (hperm.mem_iff.1 hmem)
  seconds := fun modified accessed created hmem => h.seconds modified accessed created (hperm.mem_iff.1 hmem)

theorem Written.modifiedTime {t : SystemTime} {times : List ExtraField} (h : Written t times) (dos : Option DosTime) :
    modifiedTime fromZipDatetime dos times = restored fromZipDatetime t dos := by
  unfold Zip.modifiedTime restored
  by_cases hrange : 0 < ntfsTicks t ∧ ntfsTicks t < 2 ^ 64
  · rw [if_pos hrange]
    have hcast : ((ntfsTicks t).toNat : Int) = ntfsTicks t := Int.toNat_of_nonneg (Int.le_of_lt hrange.1)
    have hmem := h.ticks ⟨Int.le_of_lt hrange.1, hrange.2⟩
    have hpos : (ntfsTicks t).toNat ≠ 0 := by omega
    refine modifiedTimeFrom_ntfs fromZipDatetime hpos ?_ hmem (fun mtime atime ctime h' => (h.onlyTicks _ _ _ h').1) none
    rw [hcast]
    exact systemTimeFromNanos_ntfsTicks t
  · rw [if_neg hrange]
    refine modifiedTimeFrom_zero fromZipDatetime fun field hfield => ?_
    cases field with
    | ntfs mtime atime ctime =>
      obtain ⟨rfl, rfl, rfl, hge, hlt⟩ := h.onlyTicks _ _ _ hfield
      have hzero : ntfsTicks t = 0 := by omega
      rw [hzero]
      rfl
    | extendedTimestamp modified accessed created => exact absurd (h.seconds _ _ _ hfield) hrange

end Order

/-! ## What is written -/

section Writing

variable (others : OtherFields)

/-- Fields that are read back are valid. -/
theorem validateExtraData_bytes {fields : List Field} {times : List ExtraField} (h : List.Forall₂ Stands fields times)
    {fuel : Nat} (hfuel : (fields.flatMap Field.bytes).length ≤ fuel) :
    validateExtraData others fuel (fields.flatMap Field.bytes) = some () := by
  induction h generalizing fuel with
  | nil =>
    cases fuel with
    | zero => rfl
    | succ fuel => rfl
  | @cons field time fields times hfirst _ ih =>
    have hlength := field.length_bytes
    rw [List.flatMap_cons] at hfuel ⊢
    rw [List.length_append] at hfuel
    cases fuel with
    | zero => omega
    | succ fuel =>
      have htag := field.take_bytes (fields.flatMap Field.bytes)
      have hkind : field.tag = 0x000a ∨ field.tag = 0x5455 := by
        cases hfirst with
        | unix _ htag => exact .inr htag
        | ntfs _ htag => exact .inl htag
      have hlong : ¬ (field.bytes ++ fields.flatMap Field.bytes).length < 4 := by
        rw [List.length_append]
        omega
      have hparse := hfirst.parse others (fields.flatMap Field.bytes)
      obtain ⟨b, bs, hb⟩ : ∃ b bs, field.bytes ++ fields.flatMap Field.bytes = b :: bs :=
        List.exists_cons_of_ne_nil (List.ne_nil_of_length_pos (by rw [List.length_append]; omega))
      rw [hb] at hparse hlong htag ⊢
      rw [validateExtraData, if_neg hlong]
      simp only [htag, leNat_tag]
      rw [if_neg (by omega), hparse]
      exact ih (by omega)
      exact fun h => by cases h

/-- Adding a field to fields that are read back. -/
theorem addExtraData_bytes {fields : List Field} {times : List ExtraField} (h : List.Forall₂ Stands fields times)
    {field : Field} {time : ExtraField} (hfield : Stands field time)
    (hsize : (fields.flatMap Field.bytes).length + (field.data.length + 4) ≤ 65535) :
    addExtraData others ⟨fields.flatMap Field.bytes, []⟩ field.tag field.data =
      some ⟨(fields ++ [field]).flatMap Field.bytes, []⟩ := by
  have hall : List.Forall₂ Stands (fields ++ [field]) (times ++ [time]) := List.rel_append h (.cons hfield .nil)
  have hbytes : fields.flatMap Field.bytes ++ fieldBytes field.tag field.data = (fields ++ [field]).flatMap Field.bytes := by
    rw [List.flatMap_append, List.flatMap_singleton]
    rfl
  unfold addExtraData
  simp only [List.length_nil, Nat.add_zero, hbytes]
  rw [if_neg (by omega), validateExtraData_bytes others hall (Nat.le_refl _)]
  rfl

theorem unixSecondsData_eq_some {t : SystemTime} {data : List UInt8} (h : unixSecondsData t = some data) :
    ∃ seconds < 2 ^ 32, data = 1 :: leBytes 4 seconds ∧ 0 < ntfsTicks t ∧ ntfsTicks t < 2 ^ 64 := by
  unfold unixSecondsData at h
  simp only at h
  split at h
  · rename_i hrange
    cases h
    refine ⟨_, ?_, rfl, ?_⟩
    · omega
    · unfold ntfsTicks ntfsUnixEpochTicks
      unfold nanosPerSecond at hrange
      omega
  · cases h

theorem ntfsData_eq_some {t : SystemTime} {data : List UInt8} (h : ntfsData t = some data) :
    (0 ≤ ntfsTicks t ∧ ntfsTicks t < 2 ^ 64) ∧ data =
      leBytes 4 0 ++ leBytes 2 1 ++ leBytes 2 24 ++ leBytes 8 (ntfsTicks t).toNat ++ leBytes 8 0 ++ leBytes 8 0 := by
  unfold ntfsData at h
  split at h
  · rename_i hrange
    cases h
    exact ⟨hrange, rfl⟩
  · cases h

/-- A fresh entry gets fields that stand for its time. -/
theorem addTimestamps_written (t : SystemTime) : ∃ fields times,
    addTimestamps others ⟨[], []⟩ t = some ⟨fields.flatMap Field.bytes, []⟩ ∧
      List.Forall₂ Stands fields times ∧ Written t times := by
  -- the seconds come first
  obtain ⟨fields, times, hadd, hstands, hlength, hseconds⟩ : ∃ fields times,
      addIfSome others 0x5455 ⟨[], []⟩ (unixSecondsData t) = some ⟨fields.flatMap Field.bytes, []⟩ ∧ List.Forall₂ Stands fields times ∧
      (fields.flatMap Field.bytes).length ≤ 9 ∧
      ∀ time ∈ times, (0 < ntfsTicks t ∧ ntfsTicks t < 2 ^ 64) ∧
        ∃ seconds, time = .extendedTimestamp (some seconds) none none := by
    cases hdata : unixSecondsData t with
    | none => exact ⟨[], [], rfl, .nil, Nat.zero_le _, fun time h => absurd h List.not_mem_nil⟩
    | some data =>
      obtain ⟨seconds, hlt, rfl, hrange⟩ := unixSecondsData_eq_some hdata
      have hlen : (1 :: leBytes 4 seconds).length = 5 := by rw [List.length_cons, length_leBytes]
      let field : Field := ⟨0x5455, 1 :: leBytes 4 seconds, by decide, by rw [hlen]; decide⟩
      have hfield : Stands field (.extendedTimestamp (some seconds) none none) := .unix hlt rfl rfl
      have hbytes : ([field].flatMap Field.bytes).length = 9 := by
        rw [List.flatMap_singleton, field.length_bytes]
        show 4 + (1 :: leBytes 4 seconds).length = 9
        rw [hlen]
      refine ⟨[field], [_], addExtraData_bytes others .nil hfield ?_, .cons hfield .nil, Nat.le_of_eq hbytes, ?_⟩
      · show 0 + ((1 :: leBytes 4 seconds).length + 4) ≤ 65535
        rw [hlen]
        decide
      · intro time htime
        cases List.mem_singleton.1 htime
        exact ⟨hrange, seconds, rfl⟩
  have hnoTicks : ∀ mtime atime ctime, ExtraField.ntfs mtime atime ctime ∉ times := by
    intro mtime atime ctime hmem
    obtain ⟨-, seconds, heq⟩ := hseconds _ hmem
    cases heq
  unfold addTimestamps
  rw [hadd, Option.bind_some]
  cases hdata : ntfsData t with
  | none =>
    refine ⟨fields, times, rfl, hstands, ⟨fun hrange => ?_, fun _ _ _ hmem => absurd hmem (hnoTicks _ _ _),
      fun _ _ _ hmem => (hseconds _ hmem).1⟩⟩
    unfold ntfsData at hdata
    rw [if_pos hrange] at hdata
    cases hdata
  | some data =>
    obtain ⟨hrange, hdata⟩ := ntfsData_eq_some hdata
    have hlen : data.length = 32 := by
      rw [hdata]
      simp only [List.length_append, length_leBytes]
    let field : Field := ⟨0x000a, data, by decide, by rw [hlen]; decide⟩
    have hfield : Stands field (.ntfs (ntfsTicks t).toNat 0 0) := .ntfs (by omega) rfl hdata
    have hsize : (fields.flatMap Field.bytes).length + (data.length + 4) ≤ 65535 := by omega
    refine ⟨fields ++ [field], times ++ [.ntfs (ntfsTicks t).toNat 0 0], addExtraData_bytes others hstands hfield hsize,
      List.rel_append hstands (.cons hfield .nil), ⟨fun _ => by simp, ?_, ?_⟩⟩
    · intro mtime atime ctime hmem
      rcases List.mem_append.1 hmem with hmem | hmem
      · exact absurd hmem (hnoTicks _ _ _)
      · cases List.mem_singleton.1 hmem
        exact ⟨rfl, rfl, rfl, hrange⟩
    · intro modified accessed created hmem
      rcases List.mem_append.1 hmem with hmem | hmem
      · exact (hseconds _ hmem).1
      · cases List.mem_singleton.1 hmem

end Writing

/-! ## The round trip -/

/-- For every time: what an update adds to a fresh entry is read back as the time rounded down to 100 ns, or as the DOS
time where the ticks have no value, in whatever order the fields stand, and in a local header among fields of any other
kinds. -/
theorem timestamps_restored {DosTime : Type} (others : OtherFields) (fromZipDatetime : DosTime → Option SystemTime)
    (t : SystemTime) : ∃ fields : List Field,
    addTimestamps others ⟨[], []⟩ t = some ⟨fields.flatMap Field.bytes, []⟩ ∧
    (∀ (dos : Option DosTime) (order : List Field), order.Perm fields → ∃ times,
      centralFields others (order.flatMap Field.bytes).length (order.flatMap Field.bytes) = some times ∧
        modifiedTime fromZipDatetime dos times = restored fromZipDatetime t dos) ∧
    ∀ (dos : Option DosTime) (extras order : List Field), (∀ extra ∈ extras, extra.tag ≠ 0x000a ∧ extra.tag ≠ 0x5455) → order.Perm (fields ++ extras) →
      localModifiedTime fromZipDatetime dos (order.flatMap Field.bytes) = restored fromZipDatetime t dos := by
  obtain ⟨fields, times, hadd, hstands, hwritten⟩ := addTimestamps_written others t
  refine ⟨fields, hadd, fun dos order hperm => ?_, fun dos extras order hextras hperm => ?_⟩
  · obtain ⟨times', hstands', hperm'⟩ := List.perm_comp_forall₂ hperm hstands
    exact ⟨times', centralFields_bytes others hstands' (Nat.le_refl _),
      (hwritten.perm hperm').modifiedTime fromZipDatetime dos⟩
  · have htimes : fields.filterMap (fun field => localField field.tag field.data.length field.data) = times := by
      clear hadd hwritten hperm
      induction hstands with
      | nil => rfl
      | cons hfirst _ ih => rw [List.filterMap_cons, hfirst.localField, ih]
    have hnone : extras.filterMap (fun field => localField field.tag field.data.length field.data) = [] := by
      rw [List.filterMap_eq_nil_iff]
      intro extra hextra
      obtain ⟨hntfs, hunix⟩ := hextras extra hextra
      unfold localField
      rw [if_neg hntfs, if_neg fun h => hunix h.1]
    have hread := hperm.filterMap fun field => localField field.tag field.data.length field.data
    rw [List.filterMap_append, htimes, hnone, List.append_nil] at hread
    unfold localModifiedTime
    rw [localFields_bytes order (Nat.le_refl _)]
    exact (hwritten.perm hread).modifiedTime fromZipDatetime dos

/-- The first instant of 1601 has no ticks, and no seconds of 32 bits. -/
theorem epoch_tick_lost : ¬ ∀ (t : SystemTime) (options : FileOptions),
    addTimestamps ⟨fun _ => true, fun _ => false, fun _ len rest => some (rest.drop len)⟩ ⟨[], []⟩ t = some options →
      localModifiedTime (fun _ : Unit => none) none options.extraData = some (floorTicks t) := by
  intro h
  have hadd : addTimestamps ⟨fun _ => true, fun _ => false, fun _ len rest => some (rest.drop len)⟩ ⟨[], []⟩
      ⟨-11644473600, 0, by decide, by decide, by decide⟩ =
      some ⟨fieldBytes 0x000a (leBytes 4 0 ++ leBytes 2 1 ++ leBytes 2 24 ++ leBytes 24 0), []⟩ := by decide +kernel
  exact absurd (h _ _ hadd) (by decide +kernel)

end Squallz.Zip
