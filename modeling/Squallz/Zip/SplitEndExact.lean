/-
The ZIP64 end record of a split ZIP is read from the volumes as from their concatenation, wherever the volumes cut it, as long as
the bytes from its start to the locator can be counted.

After some volumes the loop holds what `recordRead` tells of the bytes that it has seen; a record that is parsed or refused there
is parsed or refused alike when more bytes follow.
-/
import Squallz.Zip.SplitEnd

namespace Squallz.Zip

open Squallz.Api Squallz.Bytes

/-! ## One file -/

/-- A record at the start of some bytes, which end where the locator starts. -/
def readZip64Record (bytes : List UInt8) (locator : Zip64Locator) (centralDirectoryDisk : Option Nat) :
    Res SplitZipMetadata :=
  if bytes.length < zip64EocdMinLen then corrupt "split ZIP64 end record is truncated across its volume set"
  else do
    let (metadata, declaredLen) ← parseZip64Record (bytes.take zip64EocdMinLen) locator centralDirectoryDisk
    if declaredLen ≤ bytes.length then pure metadata
    else corrupt "split ZIP64 end record length exceeds the bytes before its locator"

/-- Where a place of a volume is in the concatenation of the volumes. -/
def concatenatedOffset (volumes : List (List UInt8)) (disk offset : Nat) : Nat :=
  (volumes.take disk).flatten.length + offset

/-- The bytes of the concatenation from the start of the record to the locator. -/
def recordBytes (volumes : List (List UInt8)) (locator : Zip64Locator) : List UInt8 :=
  (volumes.flatten.take (concatenatedOffset volumes locator.finalDisk locator.locatorOffset)).drop
    (concatenatedOffset volumes locator.recordDisk locator.recordOffset)

/-- The record in the concatenation of the volumes: it starts inside the volume that its offset counts from, and before the
locator. -/
def readZip64RecordFromConcatenation (volumes : List (List UInt8)) (locator : Zip64Locator)
    (centralDirectoryDisk : Option Nat) : Res SplitZipMetadata :=
  let room := if locator.recordDisk = locator.finalDisk then locator.locatorOffset
    else (volumes.getD locator.recordDisk []).length
  if room < locator.recordOffset then corrupt "split ZIP64 end record offset is outside its start volume"
  else readZip64Record (recordBytes volumes locator) locator centralDirectoryDisk

/-! ## The loop -/

section Loop

variable {Identity : Type} [DecidableEq Identity] {openVolume : Nat → Res (OpenVolume Identity)}
  {locator : Zip64Locator} {centralDirectoryDisk : Option Nat}

/-- What the loop knows of the record when it has seen some bytes. -/
def recordRead (locator : Zip64Locator) (centralDirectoryDisk : Option Nat) (seen : List UInt8) : Res RecordRead :=
  if seen.length < zip64EocdMinLen then .ok ⟨seen, seen.length, none⟩
  else do
    let parsed ← parseZip64Record (seen.take zip64EocdMinLen) locator centralDirectoryDisk
    pure ⟨seen.take zip64EocdMinLen, seen.length, some parsed⟩

/-- A volume that opens, is left alone, and holds these bytes of the record. -/
def Holds (openVolume : Nat → Res (OpenVolume Identity)) (locator : Zip64Locator) (disk : Nat) (piece : List UInt8) : Prop :=
  ∃ file start, openVolume disk = .ok file ∧ file.finalIdentity = file.initialIdentity ∧
    recordSpan locator disk file.bytes = .ok (start, piece.length) ∧ start + piece.length ≤ file.bytes.length ∧
      slice file.bytes start piece.length = piece

theorem readArchiveExact_eq {file : List UInt8} {position n : Nat} {field : String} (h : position + n ≤ file.length) :
    readArchiveExact file position n field = .ok (slice file position n) := by
  unfold readArchiveExact
  rw [readExactAt_eq h]

theorem recordRead_short {seen : List UInt8} (h : seen.length < zip64EocdMinLen) :
    recordRead locator centralDirectoryDisk seen = .ok ⟨seen.take zip64EocdMinLen, seen.length, none⟩ := by
  unfold recordRead
  rw [if_pos h, List.take_of_length_le h.le]

theorem recordRead_long {seen : List UInt8} (h : zip64EocdMinLen ≤ seen.length) :
    recordRead locator centralDirectoryDisk seen = (do
      let parsed ← parseZip64Record (seen.take zip64EocdMinLen) locator centralDirectoryDisk
      pure ⟨seen.take zip64EocdMinLen, seen.length, some parsed⟩) := by
  unfold recordRead
  rw [if_neg (Nat.not_lt.2 h)]

/-- What the loop holds after the bytes that it has seen. -/
theorem recordRead_eq_ok {seen : List UInt8} {s : RecordRead} (h : recordRead locator centralDirectoryDisk seen = .ok s) :
    s.fixed = seen.take zip64EocdMinLen ∧ s.available = seen.length ∧
      (seen.length < zip64EocdMinLen ∧ s.parsed = none ∨ zip64EocdMinLen ≤ seen.length ∧ ∃ parsed,
        s.parsed = some parsed ∧ parseZip64Record (seen.take zip64EocdMinLen) locator centralDirectoryDisk = .ok parsed) := by
  rcases Nat.lt_or_ge seen.length zip64EocdMinLen with hlt | hge
  · rw [recordRead_short hlt] at h
    cases h
    exact ⟨rfl, rfl, .inl ⟨hlt, rfl⟩⟩
  · rw [recordRead_long hge] at h
    obtain ⟨parsed, hparsed, h⟩ := bind_eq_ok.1 h
    cases h
    exact ⟨rfl, rfl, .inr ⟨hge, parsed, rfl, hparsed⟩⟩

/-- A volume too many. -/
theorem readRecordVolume_overflow {seen piece : List UInt8} {s : RecordRead} {disk : Nat}
    (hs : recordRead locator centralDirectoryDisk seen = .ok s) (hpiece : Holds openVolume locator disk piece)
    (hover : 2 ^ 64 ≤ (seen ++ piece).length) :
    readRecordVolume openVolume locator centralDirectoryDisk s disk =
      corrupt "split ZIP64 end record length overflows" := by
  obtain ⟨file, start, hopen, -, hspan, -⟩ := hpiece
  rw [List.length_append] at hover
  unfold readRecordVolume
  rw [hopen, ok_bind, hspan, ok_bind]
  dsimp only
  rw [(recordRead_eq_ok hs).2.1, checkedAddU64, if_neg (by omega)]

/-- The fixed part of the record, with the bytes of one piece more. -/
theorem readFixed_eq {seen piece file : List UInt8} {start : Nat} (hinside : start + piece.length ≤ file.length)
    (hbytes : slice file start piece.length = piece) :
    readFixed (seen.take zip64EocdMinLen) file start piece.length = .ok ((seen ++ piece).take zip64EocdMinLen) := by
  unfold readFixed
  rw [List.take_append, List.length_take]
  split
  · rename_i h
    have hshort : min zip64EocdMinLen seen.length = seen.length := by omega
    have hread : slice file start (min piece.length (zip64EocdMinLen - seen.length)) =
        piece.take (zip64EocdMinLen - seen.length) := by
      conv_rhs => rw [← hbytes]
      rw [slice, slice, List.take_take, Nat.min_comm]
    dsimp only
    rw [readArchiveExact_eq (by omega), ok_bind, hshort, hread]
    rfl
  · rename_i h
    have hnothing : piece.take (zip64EocdMinLen - seen.length) = [] := by
      rw [List.take_eq_nil_iff]
      by_cases hpiece : piece.length = 0
      · exact .inr (List.length_eq_zero_iff.1 hpiece)
      · exact .inl (by omega)
    rw [hnothing, List.append_nil]
    rfl

/-- One volume more. -/
theorem readRecordVolume_eq {seen piece : List UInt8} {s : RecordRead} {disk : Nat}
    (hs : recordRead locator centralDirectoryDisk seen = .ok s) (hpiece : Holds openVolume locator disk piece)
    (hroom : (seen ++ piece).length < 2 ^ 64) :
    readRecordVolume openVolume locator centralDirectoryDisk s disk =
      recordRead locator centralDirectoryDisk (seen ++ piece) := by
  obtain ⟨file, start, hopen, hsame, hspan, hinside, hbytes⟩ := hpiece
  obtain ⟨hfixed, havailable, hparsed⟩ := recordRead_eq_ok hs
  have hlength : (seen ++ piece).length = seen.length + piece.length := List.length_append
  unfold readRecordVolume
  rw [hopen, ok_bind, hspan, ok_bind]
  dsimp only
  rw [havailable, checkedAddU64, if_pos (by omega)]
  dsimp only
  rw [hfixed, readFixed_eq hinside hbytes, ok_bind, if_neg (not_not.2 hsame), ← hlength]
  rcases hparsed with ⟨hlt, hnone⟩ | ⟨hge, parsed, hsome, hparse⟩
  · rw [hnone]
    rcases Nat.lt_or_ge (seen ++ piece).length zip64EocdMinLen with hshort | hlong
    · rw [recordRead_short hshort, if_neg]
      · rfl
      · rw [List.length_take]
        omega
    · rw [recordRead_long hlong, if_pos ⟨by rw [List.length_take]; omega, rfl⟩]
  · rw [recordRead_long (by omega), if_neg (by rw [hsome]; simp), hsome, List.take_append_of_le_length hge, hparse]
    rfl

/-- The bytes of a record behind those that decide. -/
theorem readZip64Record_append {seen : List UInt8} (hlong : zip64EocdMinLen ≤ seen.length) (rest : List UInt8) :
    readZip64Record (seen ++ rest) locator centralDirectoryDisk = (do
      let (metadata, declaredLen) ← parseZip64Record (seen.take zip64EocdMinLen) locator centralDirectoryDisk
      if declaredLen ≤ (seen ++ rest).length then pure metadata
      else corrupt "split ZIP64 end record length exceeds the bytes before its locator") := by
  unfold readZip64Record
  rw [if_neg (by rw [List.length_append]; omega), List.take_append_of_le_length hlong]

/-- The volumes are read as the bytes that they hold of the record, or are too long to be counted. -/
theorem readRecordVolumes_eq {disks : List Nat} {pieces : List (List UInt8)}
    (hpieces : List.Forall₂ (Holds openVolume locator) disks pieces) {seen : List UInt8} {s : RecordRead}
    (hs : recordRead locator centralDirectoryDisk seen = .ok s) (hcomplete : s.complete = none) :
    readRecordVolumes openVolume locator centralDirectoryDisk s disks =
        readZip64Record (seen ++ pieces.flatten) locator centralDirectoryDisk ∨
      2 ^ 64 ≤ (seen ++ pieces.flatten).length ∧ readRecordVolumes openVolume locator centralDirectoryDisk s disks =
        corrupt "split ZIP64 end record length overflows" := by
  induction hpieces generalizing seen s with
  | nil =>
    left
    obtain ⟨hfixed, havailable, hparsed⟩ := recordRead_eq_ok hs
    unfold readRecordVolumes
    rw [List.flatten_nil, List.append_nil]
    rcases hparsed with ⟨hlt, -⟩ | ⟨hge, ⟨metadata, declaredLen⟩, hsome, hparse⟩
    · unfold readZip64Record
      rw [if_pos hlt, hfixed, List.length_take, if_pos (by omega)]
    · have hincomplete : ¬ declaredLen ≤ seen.length := by
        unfold RecordRead.complete at hcomplete
        rw [hsome] at hcomplete
        dsimp only at hcomplete
        rw [havailable] at hcomplete
        by_contra h
        rw [if_pos h] at hcomplete
        cases hcomplete
      unfold readZip64Record
      rw [if_neg (Nat.not_lt.2 hge), hparse, ok_bind, hfixed, List.length_take, if_neg (by omega)]
      dsimp only
      rw [if_neg hincomplete]
  | @cons disk piece disks pieces hpiece hrest ih =>
    unfold readRecordVolumes
    rw [List.flatten_cons, ← List.append_assoc]
    rcases Nat.lt_or_ge (seen ++ piece).length (2 ^ 64) with hroom | hover
    · rw [readRecordVolume_eq hs hpiece hroom]
      cases hread : recordRead locator centralDirectoryDisk (seen ++ piece) with
      | error fault =>
        left
        have hlong : zip64EocdMinLen ≤ (seen ++ piece).length := by
          by_contra hshort
          rw [recordRead_short (Nat.not_le.1 hshort)] at hread
          cases hread
        rw [readZip64Record_append hlong]
        rw [recordRead_long hlong] at hread
        cases hparse : parseZip64Record ((seen ++ piece).take zip64EocdMinLen) locator centralDirectoryDisk with
        | error fault' =>
          rw [hparse] at hread
          exact hread.symm ▸ rfl
        | ok parsed =>
          rw [hparse] at hread
          cases hread
      | ok s' =>
        rw [ok_bind]
        cases hdone : s'.complete with
        | none => exact ih hread hdone
        | some metadata =>
          left
          obtain ⟨-, havailable, hparsed⟩ := recordRead_eq_ok hread
          unfold RecordRead.complete at hdone
          rcases hparsed with ⟨-, hnone⟩ | ⟨hlong, ⟨metadata', declaredLen⟩, hsome, hparse⟩
          · rw [hnone] at hdone
            cases hdone
          · rw [hsome, havailable] at hdone
            dsimp only at hdone
            split at hdone
            · rename_i hle
              cases hdone
              rw [readZip64Record_append hlong, hparse, ok_bind]
              dsimp only
              rw [if_pos (by rw [List.length_append]; omega)]
            · cases hdone
    · right
      rw [readRecordVolume_overflow hs hpiece hover]
      exact ⟨by rw [List.length_append]; omega, rfl⟩

/-! ## The volumes -/

/-- Volumes that open and are left alone, with a locator that was found in the last of them. -/
structure SplitSet (openVolume : Nat → Res (OpenVolume Identity)) (volumes : List (List UInt8)) (locator : Zip64Locator) :
    Prop where
  count : volumes.length = locator.finalDisk + 1
  opens : ∀ disk bytes, volumes[disk]? = some bytes →
    ∃ file, openVolume disk = .ok file ∧ file.bytes = bytes ∧ file.finalIdentity = file.initialIdentity
  start_le : locator.recordDisk ≤ locator.finalDisk
  located : ∀ bytes, volumes[locator.finalDisk]? = some bytes → locator.locatorOffset ≤ bytes.length

section SplitSet

variable {volumes : List (List UInt8)}

theorem readArchiveExact_inside {file bytes : List UInt8} {position n : Nat} {field : String} (hn : n ≠ 0)
    (h : readArchiveExact file position n field = .ok bytes) : position + n ≤ file.length := by
  by_contra hout
  unfold readArchiveExact readExactAt at h
  rw [if_neg hn, if_pos (Nat.not_le.1 hout)] at h
  cases h

theorem readZip64Locator_bounds {file : List UInt8} {eocdOffset : Nat} (h : readZip64Locator file eocdOffset = .ok locator) :
    locator.recordDisk ≤ locator.finalDisk ∧ locator.locatorOffset ≤ file.length := by
  unfold readZip64Locator at h
  split at h
  · cases h
  · obtain ⟨bytes, hread, h⟩ := bind_eq_ok.1 h
    have hinside := readArchiveExact_inside (by decide) hread
    split at h
    · cases h
    · dsimp only at h
      split at h
      · cases h
      · obtain ⟨_, -, h⟩ := bind_eq_ok.1 h
        split at h
        · cases h
        · rename_i hdisk
          cases h
          exact ⟨Nat.not_lt.1 hdisk, (Nat.le_add_right _ _).trans hinside⟩

/-- A locator that an inspection finds is inside its volume, and the record does not start behind it. -/
theorem inspectSplitZipEnd_bounds {file : List UInt8}
    (h : inspectSplitZipEnd file = .ok (some (.zip64 locator centralDirectoryDisk))) :
    locator.recordDisk ≤ locator.finalDisk ∧ locator.locatorOffset ≤ file.length := by
  unfold inspectSplitZipEnd at h
  split at h
  · cases h
  · dsimp only at h
    split at h
    · cases h
    · split at h
      · obtain ⟨_, -, h⟩ := bind_eq_ok.1 h
        cases h
      · obtain ⟨found, hfound, h⟩ := bind_eq_ok.1 h
        split at h
        · cases h
        · split at h
          · obtain ⟨_, -, h⟩ := bind_eq_ok.1 h
            cases h
            exact readZip64Locator_bounds hfound
          · cases h
            exact readZip64Locator_bounds hfound

omit [DecidableEq Identity] in
theorem SplitSet.of_inspect {last : List UInt8} (hcount : volumes.length = locator.finalDisk + 1)
    (hopens : ∀ disk bytes, volumes[disk]? = some bytes →
      ∃ file, openVolume disk = .ok file ∧ file.bytes = bytes ∧ file.finalIdentity = file.initialIdentity)
    (hlast : volumes[locator.finalDisk]? = some last)
    (hinspect : inspectSplitZipEnd last = .ok (some (.zip64 locator centralDirectoryDisk))) :
    SplitSet openVolume volumes locator := by
  obtain ⟨hstart, hlocated⟩ := inspectSplitZipEnd_bounds hinspect
  refine ⟨hcount, hopens, hstart, fun bytes hbytes => ?_⟩
  rw [hlast] at hbytes
  cases hbytes
  exact hlocated

omit [DecidableEq Identity] in
theorem SplitSet.holds (h : SplitSet openVolume volumes locator) {disk start n : Nat} {bytes piece : List UInt8}
    (hbytes : volumes[disk]? = some bytes) (hspan : recordSpan locator disk bytes = .ok (start, n))
    (hinside : start + n ≤ bytes.length) (hpiece : slice bytes start n = piece) : Holds openVolume locator disk piece := by
  obtain ⟨file, hopen, rfl, hsame⟩ := h.opens disk bytes hbytes
  have hn : piece.length = n := by rw [← hpiece, length_slice_of_le hinside]
  subst hn
  exact ⟨file, start, hopen, hsame, hspan, hinside, hpiece⟩

/-- The span of a volume that holds where the locator starts, if it does. -/
theorem recordSpan_eq {disk start stop : Nat} {file : List UInt8}
    (hstart : (if disk = locator.recordDisk then locator.recordOffset else 0) = start)
    (hstop : (if disk = locator.finalDisk then locator.locatorOffset else file.length) = stop) (hle : stop ≤ file.length) :
    recordSpan locator disk file =
      if stop < start then corrupt "split ZIP64 end record offset is outside its start volume"
      else pure (start, stop - start) := by
  unfold recordSpan
  dsimp only
  rw [hstart, hstop, if_neg (Nat.not_lt.2 hle)]

theorem recordSpan_behind {disk stop : Nat} {file : List UInt8} (hne : disk ≠ locator.recordDisk)
    (hstop : (if disk = locator.finalDisk then locator.locatorOffset else file.length) = stop) (hle : stop ≤ file.length) :
    recordSpan locator disk file = .ok (0, stop) := by
  rw [recordSpan_eq (if_neg hne) hstop hle, if_neg (Nat.not_lt_zero _)]
  rfl

theorem forall₂_range' {α : Type} {R : Nat → α → Prop} {l : List α} {first : Nat}
    (h : ∀ i a, l[i]? = some a → R (first + i) a) : List.Forall₂ R (List.range' first l.length) l := by
  induction l generalizing first with
  | nil => exact .nil
  | cons a l ih =>
    refine .cons (h 0 a rfl) (ih fun i b hb => ?_)
    rw [Nat.add_assoc, Nat.add_comm 1 i]
    exact h (i + 1) b hb

/-- A record that starts behind its volume is refused at once. -/
theorem SplitSet.outside (h : SplitSet openVolume volumes locator) {bytes : List UInt8} {fault : Fault}
    (hbytes : volumes[locator.recordDisk]? = some bytes) (hspan : recordSpan locator locator.recordDisk bytes = .error fault) :
    readZip64RecordFromVolumes openVolume locator centralDirectoryDisk = .error fault := by
  obtain ⟨file, hopen, rfl, -⟩ := h.opens _ bytes hbytes
  have hstart := h.start_le
  have hcount : locator.finalDisk + 1 - locator.recordDisk = locator.finalDisk - locator.recordDisk + 1 := by omega
  have hfirst : readRecordVolume openVolume locator centralDirectoryDisk ⟨[], 0, none⟩ locator.recordDisk = .error fault := by
    unfold readRecordVolume
    rw [hopen, ok_bind, hspan]
    rfl
  unfold readZip64RecordFromVolumes
  rw [hcount, List.range'_succ, readRecordVolumes, hfirst]
  rfl

/-- Volumes that hold the record piece by piece. -/
theorem readZip64RecordFromVolumes_eq (pieces : List (List UInt8)) (hbytes : pieces.flatten = recordBytes volumes locator)
    (hcount : pieces.length = locator.finalDisk + 1 - locator.recordDisk)
    (hpieces : ∀ i piece, pieces[i]? = some piece → Holds openVolume locator (locator.recordDisk + i) piece) :
    readZip64RecordFromVolumes openVolume locator centralDirectoryDisk =
        readZip64Record (recordBytes volumes locator) locator centralDirectoryDisk ∨
      2 ^ 64 ≤ (recordBytes volumes locator).length ∧ readZip64RecordFromVolumes openVolume locator centralDirectoryDisk =
        corrupt "split ZIP64 end record length overflows" := by
  have hnothing : recordRead locator centralDirectoryDisk [] = .ok ⟨[], 0, none⟩ := recordRead_short (by decide)
  have := readRecordVolumes_eq (forall₂_range' hpieces) hnothing rfl
  rwa [List.nil_append, hbytes, hcount] at this

/-- A record in the volume of its locator. -/
theorem SplitSet.read_same (h : SplitSet openVolume volumes locator) (hsame : locator.recordDisk = locator.finalDisk) :
    readZip64RecordFromVolumes openVolume locator centralDirectoryDisk =
        readZip64RecordFromConcatenation volumes locator centralDirectoryDisk ∨
      2 ^ 64 ≤ (recordBytes volumes locator).length ∧ readZip64RecordFromVolumes openVolume locator centralDirectoryDisk =
        corrupt "split ZIP64 end record length overflows" := by
  obtain ⟨front, last, rfl⟩ : ∃ front last, volumes = front ++ [last] := by
    rcases List.eq_nil_or_concat' volumes with rfl | hlast
    · cases h.count
    · exact hlast
  have hfront : front.length = locator.finalDisk := by
    have := h.count
    rw [List.length_append, List.length_singleton] at this
    omega
  have hlast : (front ++ [last])[locator.finalDisk]? = some last := by
    rw [← hfront, List.getElem?_append_right (Nat.le_refl _), Nat.sub_self]
    rfl
  have hlocated := h.located last hlast
  have hspan : recordSpan locator locator.finalDisk last =
      if locator.locatorOffset < locator.recordOffset then
        corrupt "split ZIP64 end record offset is outside its start volume"
      else pure (locator.recordOffset, locator.locatorOffset - locator.recordOffset) :=
    recordSpan_eq (if_pos hsame.symm) (if_pos rfl) hlocated
  unfold readZip64RecordFromConcatenation
  dsimp only
  rw [if_pos hsame]
  by_cases hoffset : locator.locatorOffset < locator.recordOffset
  · left
    rw [if_pos hoffset] at hspan ⊢
    exact h.outside (by rw [hsame, hlast]) (by rw [hsame]; exact hspan)
  · rw [if_neg hoffset] at hspan ⊢
    refine readZip64RecordFromVolumes_eq
      [slice last locator.recordOffset (locator.locatorOffset - locator.recordOffset)] ?_ ?_ ?_
    · have htake : (front ++ [last]).take locator.finalDisk = front := List.take_left' hfront
      unfold recordBytes concatenatedOffset
      rw [hsame, htake, List.flatten_append, List.flatten_singleton, List.flatten_singleton, List.take_append,
        List.take_of_length_le (by omega), Nat.add_sub_cancel_left, List.drop_append, List.drop_eq_nil_of_le (by omega),
        List.nil_append, Nat.add_sub_cancel_left, List.drop_take]
      rfl
    · rw [List.length_singleton]
      omega
    · rintro (_ | i) piece hpiece
      · cases hpiece
        rw [hsame]
        exact h.holds hlast hspan (by omega) rfl
      · cases hpiece

/-- A record that starts before the volume of its locator. -/
theorem SplitSet.read_before (h : SplitSet openVolume volumes locator) (hbefore : locator.recordDisk < locator.finalDisk) :
    readZip64RecordFromVolumes openVolume locator centralDirectoryDisk =
        readZip64RecordFromConcatenation volumes locator centralDirectoryDisk ∨
      2 ^ 64 ≤ (recordBytes volumes locator).length ∧ readZip64RecordFromVolumes openVolume locator centralDirectoryDisk =
        corrupt "split ZIP64 end record length overflows" := by
  obtain ⟨init, last, rfl⟩ : ∃ init last, volumes = init ++ [last] := by
    rcases List.eq_nil_or_concat' volumes with rfl | hlast
    · cases h.count
    · exact hlast
  have hinit : init.length = locator.finalDisk := by
    have := h.count
    rw [List.length_append, List.length_singleton] at this
    omega
  obtain ⟨front, first, middle, rfl, hfront⟩ : ∃ front first middle, init = front ++ first :: middle ∧
      front.length = locator.recordDisk := by
    refine ⟨init.take locator.recordDisk, init[locator.recordDisk], init.drop (locator.recordDisk + 1), ?_, ?_⟩
    · rw [← List.drop_eq_getElem_cons, List.take_append_drop]
    · rw [List.length_take]
      omega
  have hmiddle : front.length + (middle.length + 1) = locator.finalDisk := by
    rw [← hinit, List.length_append, List.length_cons]
  have hgetFirst : (front ++ first :: middle ++ [last])[locator.recordDisk]? = some first := by
    rw [← hfront, List.append_assoc, List.getElem?_append_right (Nat.le_refl _), Nat.sub_self]
    rfl
  have hgetMiddle : ∀ i piece, middle[i]? = some piece →
      (front ++ first :: middle ++ [last])[locator.recordDisk + (i + 1)]? = some piece := by
    intro i piece hpiece
    rw [← hfront, List.append_assoc, List.getElem?_append_right (by omega), Nat.add_sub_cancel_left, List.cons_append,
      List.getElem?_cons_succ, List.getElem?_append_left (List.getElem?_eq_some_iff.1 hpiece).1, hpiece]
  have hgetLast : (front ++ first :: middle ++ [last])[locator.finalDisk]? = some last := by
    rw [← hinit, List.getElem?_append_right (Nat.le_refl _), Nat.sub_self]
    rfl
  have hlocated := h.located last hgetLast
  have hspan : recordSpan locator locator.recordDisk first =
      if first.length < locator.recordOffset then
        corrupt "split ZIP64 end record offset is outside its start volume"
      else pure (locator.recordOffset, first.length - locator.recordOffset) :=
    recordSpan_eq (if_pos rfl) (if_neg (Nat.ne_of_lt hbefore)) (Nat.le_refl _)
  have hroom : (front ++ first :: middle ++ [last]).getD locator.recordDisk [] = first := by
    rw [List.getD_eq_getElem?_getD, hgetFirst]
    rfl
  unfold readZip64RecordFromConcatenation
  dsimp only
  rw [if_neg (Nat.ne_of_lt hbefore), hroom]
  by_cases hoffset : first.length < locator.recordOffset
  · left
    rw [if_pos hoffset] at hspan ⊢
    exact h.outside hgetFirst hspan
  · rw [if_neg hoffset] at hspan ⊢
    refine readZip64RecordFromVolumes_eq
      (first.drop locator.recordOffset :: (middle ++ [last.take locator.locatorOffset])) ?_ ?_ ?_
    · have htake : (front ++ first :: middle ++ [last]).take locator.finalDisk = front ++ first :: middle :=
        List.take_left' hinit
      have hpieces : (first.drop locator.recordOffset :: (middle ++ [last.take locator.locatorOffset])).flatten =
          first.drop locator.recordOffset ++ (middle.flatten ++ last.take locator.locatorOffset) := by
        rw [List.flatten_cons, List.flatten_append, List.flatten_singleton]
      have htakeFront : (front ++ first :: middle ++ [last]).take locator.recordDisk = front := by
        rw [List.append_assoc]
        exact List.take_left' hfront
      unfold recordBytes concatenatedOffset
      rw [hpieces, htake, htakeFront, @List.flatten_append _ _ [last], List.flatten_singleton,
        List.take_length_add_append, List.flatten_append, List.append_assoc, List.drop_length_add_append, List.flatten_cons,
        List.append_assoc, List.drop_append_of_le_length (by omega)]
    · rw [List.length_cons, List.length_append, List.length_singleton]
      omega
    · rintro (_ | i) piece hpiece
      · cases hpiece
        refine h.holds hgetFirst hspan (by omega) ?_
        rw [slice, List.take_of_length_le (by rw [List.length_drop])]
      · rw [List.getElem?_cons_succ] at hpiece
        rcases Nat.lt_or_ge i middle.length with hlt | hge
        · rw [List.getElem?_append_left hlt] at hpiece
          have hspan' : recordSpan locator (locator.recordDisk + (i + 1)) piece = .ok (0, piece.length) :=
            recordSpan_behind (by omega) (if_neg (by omega)) (Nat.le_refl _)
          exact h.holds (hgetMiddle i piece hpiece) hspan' (by omega) (slice_full piece)
        · rw [List.getElem?_append_right hge] at hpiece
          obtain ⟨hi, rfl⟩ := List.getElem?_eq_some_iff.1 hpiece
          rw [List.length_singleton] at hi
          have hdisk : locator.recordDisk + (i + 1) = locator.finalDisk := by omega
          rw [hdisk]
          have hzero : i - middle.length = 0 := by omega
          simp only [hzero, List.getElem_cons_zero]
          have hspan' : recordSpan locator locator.finalDisk last = .ok (0, locator.locatorOffset) :=
            recordSpan_behind (Nat.ne_of_gt hbefore) (if_pos rfl) hlocated
          exact h.holds hgetLast hspan' (by omega) rfl

/-- Three long volumes before a locator: the record is declared to be as long as can be counted, and the count of what is there
overflows. -/
theorem SplitSet.overflows {first second third last : List UInt8} {metadata : SplitZipMetadata}
    (h : SplitSet openVolume [first, second, third, last] ⟨3, 0, 0, 0⟩) (hfirst : first.length = 2 ^ 63 - 1)
    (hsecond : second.length = 2 ^ 63 - 1) (hthird : third.length = 2 ^ 63 - 1)
    (hparse : parseZip64Record (first.take zip64EocdMinLen) ⟨3, 0, 0, 0⟩ centralDirectoryDisk = .ok (metadata, 2 ^ 64 - 1)) :
    readZip64RecordFromVolumes openVolume ⟨3, 0, 0, 0⟩ centralDirectoryDisk =
        corrupt "split ZIP64 end record length overflows" ∧
      readZip64RecordFromConcatenation [first, second, third, last] ⟨3, 0, 0, 0⟩ centralDirectoryDisk = .ok metadata := by
  have hwhole : ∀ {disk piece}, [first, second, third, last][disk]? = some piece → disk < 3 →
      Holds openVolume ⟨3, 0, 0, 0⟩ disk piece := by
    intro disk piece hpiece hdisk
    have hspan : recordSpan ⟨3, 0, 0, 0⟩ disk piece = .ok (0, piece.length) := by
      rw [recordSpan_eq (ite_self 0) (if_neg (Nat.ne_of_lt hdisk)) (Nat.le_refl _), if_neg (Nat.not_lt_zero _)]
      rfl
    exact h.holds hpiece hspan (by omega) (slice_full piece)
  have hread : ∀ rest : List UInt8, recordRead ⟨3, 0, 0, 0⟩ centralDirectoryDisk (first ++ rest) =
      .ok ⟨first.take zip64EocdMinLen, (first ++ rest).length, some (metadata, 2 ^ 64 - 1)⟩ := by
    intro rest
    have hlong : zip64EocdMinLen ≤ first.length := by
      rw [hfirst]
      decide
    rw [recordRead_long (by rw [List.length_append]; omega), List.take_append_of_le_length hlong, hparse]
    rfl
  have hincomplete : ∀ rest : List UInt8, rest.length < 2 ^ 63 →
      RecordRead.complete ⟨first.take zip64EocdMinLen, (first ++ rest).length, some (metadata, 2 ^ 64 - 1)⟩ = none := by
    intro rest hrest
    unfold RecordRead.complete
    dsimp only
    rw [if_neg (by rw [List.length_append]; omega)]
  have hnothing : recordRead ⟨3, 0, 0, 0⟩ centralDirectoryDisk [] = .ok ⟨[], 0, none⟩ := recordRead_short (by decide)
  have hone := hread []
  rw [List.append_nil] at hone
  have hone' := hincomplete [] (by decide)
  rw [List.append_nil] at hone'
  constructor
  · show readRecordVolumes openVolume ⟨3, 0, 0, 0⟩ centralDirectoryDisk ⟨[], 0, none⟩ [0, 1, 2, 3] = _
    rw [readRecordVolumes, readRecordVolume_eq hnothing (hwhole rfl (by decide)) (by rw [List.nil_append]; omega),
      List.nil_append, hone, ok_bind, hone']
    dsimp only
    rw [readRecordVolumes, readRecordVolume_eq hone (hwhole rfl (by decide)) (by rw [List.length_append]; omega), hread,
      ok_bind, hincomplete second (by omega)]
    dsimp only
    rw [readRecordVolumes, readRecordVolume_overflow (hread second) (hwhole rfl (by decide))
      (by rw [List.length_append, List.length_append]; omega)]
    rfl
  · have hbytes : recordBytes [first, second, third, last] ⟨3, 0, 0, 0⟩ = first ++ (second ++ third) := by
      have hbefore : ([first, second, third, last].take 3).flatten = first ++ (second ++ third) := by simp
      have htotal : [first, second, third, last].flatten = first ++ (second ++ third) ++ last := by simp
      unfold recordBytes concatenatedOffset
      dsimp only
      rw [hbefore, htotal, List.take_length_add_append]
      exact List.append_nil _
    unfold readZip64RecordFromConcatenation
    dsimp only
    rw [if_neg (Nat.not_lt_zero _), hbytes,
      readZip64Record_append (by rw [hfirst]; decide), hparse, ok_bind]
    dsimp only
    rw [if_pos (by rw [List.length_append, List.length_append]; omega)]
    rfl

end SplitSet

end Loop

/-! ## The record -/

/-- The ZIP64 end record is read from the volumes as from their concatenation, wherever they cut it, with the same metadata and
the same errors; only where the volumes hold more bytes before the locator than are counted may the count overflow. -/
theorem zip64_record_from_volumes {Identity : Type} [DecidableEq Identity]
    {openVolume : Nat → Res (OpenVolume Identity)} {volumes : List (List UInt8)} {locator : Zip64Locator}
    {centralDirectoryDisk : Option Nat} (h : SplitSet openVolume volumes locator) :
    readZip64RecordFromVolumes openVolume locator centralDirectoryDisk =
        readZip64RecordFromConcatenation volumes locator centralDirectoryDisk ∨
      2 ^ 64 ≤ (recordBytes volumes locator).length ∧ readZip64RecordFromVolumes openVolume locator centralDirectoryDisk =
        corrupt "split ZIP64 end record length overflows" := by
  rcases Nat.eq_or_lt_of_le h.start_le with hsame | hbefore
  · exact h.read_same hsame
  · exact h.read_before hbefore


/-- A record for four volumes with a body of so many bytes. -/
def sampleRecord (bodyLen : Nat) : List UInt8 :=
  zip64EocdMagic ++ leBytes 8 bodyLen ++ List.replicate 4 0 ++ leBytes 4 3 ++ List.replicate 36 0

/-- The end of the last of four volumes, with a record that starts at a place of the first one. -/
def sampleFinalVolume (recordOffset : Nat) : List UInt8 :=
  zip64LocatorMagic ++ leBytes 4 0 ++ leBytes 8 recordOffset ++ leBytes 4 4 ++
    (eocdMagic ++ leBytes 2 u16Max ++ leBytes 2 u16Max ++ List.replicate 14 0)

def openBytes (bytes : List UInt8) (sized : bytes.length < 2 ^ 63) : Res (OpenVolume Unit) := .ok ⟨bytes, sized, (), ()⟩

/-- The bytes of a record behind five other ones, over four volumes. -/
def sampleVolumes : List (List UInt8) :=
  [[1, 2, 3, 4, 5] ++ slice (sampleRecord 44) 0 10, slice (sampleRecord 44) 10 1, slice (sampleRecord 44) 11 39,
    slice (sampleRecord 44) 50 6 ++ sampleFinalVolume 5]

def openSample (disk : Nat) : Res (OpenVolume Unit) :=
  if h : (sampleVolumes.getD disk []).length < 2 ^ 63 then openBytes (sampleVolumes.getD disk []) h
  else corrupt "split ZIP64 end record refers to an unavailable volume"

theorem zip64_record_from_sample_volumes :
    readZip64RecordFromVolumes openSample ⟨3, 0, 5, 6⟩ none =
        readZip64RecordFromConcatenation sampleVolumes ⟨3, 0, 5, 6⟩ none ∧
      readZip64RecordFromConcatenation sampleVolumes ⟨3, 0, 5, 6⟩ none = .ok ⟨3, 0⟩ := by
  have hset : SplitSet openSample sampleVolumes ⟨3, 0, 5, 6⟩ := by
    refine ⟨rfl, ?_, by decide, by decide +kernel⟩
    rintro (_ | _ | _ | _ | disk) bytes hbytes
    · cases hbytes
      exact ⟨_, rfl, rfl, rfl⟩
    · cases hbytes
      exact ⟨_, rfl, rfl, rfl⟩
    · cases hbytes
      exact ⟨_, rfl, rfl, rfl⟩
    · cases hbytes
      exact ⟨_, rfl, rfl, rfl⟩
    · cases hbytes
  exact ⟨(zip64_record_from_volumes hset).resolve_right fun h => absurd h.1 (by decide +kernel), by decide +kernel⟩

/-- A volume of as many bytes as a file may have, with these at its start. -/
def sparseVolume (head : List UInt8) : List UInt8 := head ++ List.replicate (2 ^ 63 - 1 - head.length) 0

theorem length_sparseVolume {head : List UInt8} (h : head.length < 2 ^ 63) : (sparseVolume head).length = 2 ^ 63 - 1 := by
  rw [sparseVolume, List.length_append, List.length_replicate]
  omega

theorem sparse_length_lt {head : List UInt8} (h : head.length < 2 ^ 63) : (sparseVolume head).length < 2 ^ 63 := by
  rw [length_sparseVolume h]
  decide

def openSparse : Nat → Res (OpenVolume Unit)
  | 0 => openBytes (sparseVolume (sampleRecord (2 ^ 64 - 13))) (sparse_length_lt (by decide +kernel))
  | 3 => openBytes (sampleFinalVolume 0) (by decide +kernel)
  | _ => openBytes (sparseVolume []) (sparse_length_lt (by decide))

/-- A record whose declared bytes are all there, in volumes whose bytes before the locator cannot be counted. -/
theorem zip64_record_count_overflows :
    inspectSplitZipEnd (sampleFinalVolume 0) = .ok (some (.zip64 ⟨3, 0, 0, 0⟩ none)) ∧
      SplitSet openSparse [sparseVolume (sampleRecord (2 ^ 64 - 13)), sparseVolume [], sparseVolume [], sampleFinalVolume 0]
        ⟨3, 0, 0, 0⟩ ∧
      readZip64RecordFromVolumes openSparse ⟨3, 0, 0, 0⟩ none = corrupt "split ZIP64 end record length overflows" ∧
      readZip64RecordFromConcatenation
        [sparseVolume (sampleRecord (2 ^ 64 - 13)), sparseVolume [], sparseVolume [], sampleFinalVolume 0] ⟨3, 0, 0, 0⟩ none =
          .ok ⟨3, 0⟩ := by
  have hinspect : inspectSplitZipEnd (sampleFinalVolume 0) = .ok (some (.zip64 ⟨3, 0, 0, 0⟩ none)) := by decide +kernel
  have hset : SplitSet openSparse
      [sparseVolume (sampleRecord (2 ^ 64 - 13)), sparseVolume [], sparseVolume [], sampleFinalVolume 0] ⟨3, 0, 0, 0⟩ := by
    refine .of_inspect rfl ?_ rfl hinspect
    rintro (_ | _ | _ | _ | disk) bytes hbytes
    · cases hbytes
      exact ⟨_, rfl, rfl, rfl⟩
    · cases hbytes
      exact ⟨_, rfl, rfl, rfl⟩
    · cases hbytes
      exact ⟨_, rfl, rfl, rfl⟩
    · cases hbytes
      exact ⟨_, rfl, rfl, rfl⟩
    · cases hbytes
  have hrecord : (sparseVolume (sampleRecord (2 ^ 64 - 13))).take zip64EocdMinLen = sampleRecord (2 ^ 64 - 13) :=
    List.take_left' (by decide +kernel)
  have hempty : (sparseVolume []).length = 2 ^ 63 - 1 := length_sparseVolume (by decide)
  refine ⟨hinspect, hset, hset.overflows (length_sparseVolume (by decide +kernel)) hempty hempty ?_⟩
  rw [hrecord]
  decide +kernel

end Squallz.Zip
