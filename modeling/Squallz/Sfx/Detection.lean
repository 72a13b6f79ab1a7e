/-
The footer of a single-file SFX is found wherever it was written, and whatever file is inspected nothing panics and no
payload is found that is not followed by its footer inside the file.
-/
import Squallz.Sfx.Footer
import Mathlib.Tactic.IntervalCases

namespace Squallz.Sfx

open Squallz.Api Squallz.Bytes

/-! ## Footers -/

theorem length_encode (footer : SfxFooter) : footer.encode.length = footerLen := by
  simp only [SfxFooter.encode, List.length_append, List.length_cons, length_leBytes]
  rfl

/-- A footer that is written is read back. -/
theorem decode_encode {footer : SfxFooter} {footerEnd : Nat} (htarget : footer.target ≠ .macos)
    (hoffset : footer.payloadOffset ≠ 0) (hbytes : footer.payloadBytes ≠ 0) (hcrc : footer.payloadCrc32 < 2 ^ 32)
    (hend : footer.payloadOffset + footer.payloadBytes + footerLen = footerEnd) (hfits : footerEnd < 2 ^ 64) :
    SfxFooter.decode footer.encode footerEnd = .ok (some footer) := by
  obtain ⟨target, offset, bytes, crc⟩ := footer
  have field : ∀ (front rest : List UInt8) (width v off : Nat), off = front.length → v < 256 ^ width →
      leNat (slice (front ++ (leBytes width v ++ rest)) off width) = v := by
    intro front rest width v off hoff hv
    rw [slice_middle hoff (length_leBytes width v).symm, leNat_leBytes_of_lt hv]
  have hlen : footerLen = 32 := rfl
  dsimp only at hoffset hbytes hcrc hend htarget
  have hoffsetField := field (footerMagic ++ [target.footerId, 0, 0, 0]) (leBytes 8 bytes ++ leBytes 4 crc) 8 offset 12
    rfl (by omega)
  have hbytesField := field (footerMagic ++ [target.footerId, 0, 0, 0] ++ leBytes 8 offset) (leBytes 4 crc) 8 bytes
    20 (by rw [List.length_append, length_leBytes]; rfl) (by omega)
  have hcrcField := field (footerMagic ++ [target.footerId, 0, 0, 0] ++ leBytes 8 offset ++ leBytes 8 bytes) []
    4 crc 28 (by rw [List.length_append, List.length_append, length_leBytes, length_leBytes]; rfl)
    (by omega)
  have hencode : SfxFooter.encode ⟨target, offset, bytes, crc⟩ =
      footerMagic ++ [target.footerId, 0, 0, 0] ++ (leBytes 8 offset ++ (leBytes 8 bytes ++ leBytes 4 crc)) := rfl
  have htargetField : SfxTarget.fromFooterId ((SfxFooter.encode ⟨target, offset, bytes, crc⟩).getD 8 0) = .ok target := by
    cases target with
    | windows => rfl
    | linux => rfl
    | macos => exact absurd rfl htarget
  have hmagic : (SfxFooter.encode ⟨target, offset, bytes, crc⟩).take 8 = footerMagic := rfl
  have hflags : slice (SfxFooter.encode ⟨target, offset, bytes, crc⟩) 9 3 = [0, 0, 0] := rfl
  rw [SfxFooter.decode, hmagic, if_neg (not_not.2 rfl), hflags, if_neg (not_not.2 rfl), htargetField, ok_bind]
  dsimp only
  simp only [List.append_nil, List.append_assoc] at hoffsetField hbytesField hcrcField
  rw [hencode]
  simp only [List.append_assoc]
  rw [hoffsetField, hbytesField, hcrcField, checkedSubU64, if_pos (by omega)]
  dsimp only
  rw [checkedAddU64_eq (by omega)]
  dsimp only
  rw [if_neg (by omega)]
  rfl

/-- A footer that is found is that of the bytes in front of it. -/
theorem sound_decode (bytes : List UInt8) (footerEnd : Nat) : Sound (SfxFooter.decode bytes footerEnd) fun found =>
    ∀ footer, found = some footer → 0 < footer.payloadOffset ∧ 0 < footer.payloadBytes ∧
      footer.payloadOffset + footer.payloadBytes + footerLen = footerEnd := by
  have htarget : ∀ value, Sound (SfxTarget.fromFooterId value) fun _ => True := fun value =>
    sound_ite (fun _ => trivial) fun _ => sound_ite (fun _ => trivial) fun _ => sound_ite (fun _ => trivial) fun _ => trivial
  unfold SfxFooter.decode
  refine sound_ite (fun _ => sound_ok fun footer h => by cases h) fun _ => sound_ite (fun _ => sound_raise _) fun _ => ?_
  refine sound_bind (htarget _) fun target _ => ?_
  dsimp only
  split
  · exact sound_raise _
  · rename_i footerOffset hsub
    split
    · exact sound_raise _
    · rename_i payloadEnd hadd
      obtain ⟨rfl, -⟩ := checkedAddU64_eq_some.1 hadd
      unfold checkedSubU64 at hsub
      refine sound_ite (fun _ => sound_raise _) fun hbounds => sound_ok fun footer h => ?_
      cases h
      split at hsub
      · cases hsub
        dsimp only
        omega
      · cases hsub

theorem decode_eq_none {bytes : List UInt8} {footerEnd : Nat} (h : bytes.take 8 ≠ footerMagic) :
    SfxFooter.decode bytes footerEnd = .ok none := if_pos h

/-! ## Any file -/

/-- A payload that lies in a file, with its footer right behind it. -/
structure Located (file : List UInt8) (footer : SfxFooter) : Prop where
  offset : 0 < footer.payloadOffset
  bytes : 0 < footer.payloadBytes
  inside : footer.payloadOffset + footer.payloadBytes + footerLen ≤ file.length
  footer : SfxFooter.decode (slice file (footer.payloadOffset + footer.payloadBytes) footerLen)
    (footer.payloadOffset + footer.payloadBytes + footerLen) = .ok (some footer)

section AnyFile

variable {file : List UInt8}

theorem sound_readFooterEndingAt (footerEnd : Nat) : Sound (readFooterEndingAt file footerEnd) fun found =>
    ∀ footer, found = some footer → Located file footer := by
  unfold readFooterEndingAt
  refine sound_ite (fun _ => sound_ok fun footer h => by cases h) fun hend => ?_
  rw [subU64_eq (Nat.le_of_not_lt hend), ok_bind]
  refine sound_bind (sound_readExactAt file _ footerLen) fun bytes hbytes => ?_
  obtain ⟨rfl, hinside⟩ := hbytes.2 (by decide)
  have hsound := sound_decode (slice file (footerEnd - footerLen) footerLen) footerEnd
  cases hdecode : SfxFooter.decode (slice file (footerEnd - footerLen) footerLen) footerEnd with
  | error fault =>
    rw [hdecode] at hsound
    cases fault with
    | raised error => trivial
    | panicked message => exact hsound
  | ok found =>
    refine sound_ok fun footer hfound => ?_
    subst hfound
    obtain ⟨hoffset, hpayload, rfl⟩ := hsound.eq_ok hdecode footer rfl
    rw [Nat.add_sub_cancel] at hdecode hinside
    exact ⟨hoffset, hpayload, hinside, hdecode⟩

theorem sound_readFooterBeforePadding (certificateOffset padding : Nat) :
    Sound (readFooterBeforePadding file certificateOffset padding) fun found =>
      ∀ footer, found = some footer → Located file footer := by
  unfold readFooterBeforePadding
  split
  · exact sound_ok fun footer h => by cases h
  · rename_i footerEnd _
    refine sound_ite (fun _ => sound_ok fun footer h => by cases h) fun _ => ?_
    refine sound_ite (fun _ => ?_) fun _ => sound_readFooterEndingAt footerEnd
    refine sound_bind (sound_readExactAt file _ _) fun bytes _ => ?_
    exact sound_ite (fun _ => sound_ok fun footer h => by cases h) fun _ => sound_readFooterEndingAt footerEnd

theorem sound_readFooterBeforePaddings (certificateOffset : Nat) (paddings : List Nat) :
    Sound (readFooterBeforePaddings file certificateOffset paddings) fun found =>
      ∀ footer, found = some footer → Located file footer := by
  induction paddings with
  | nil => exact sound_ok fun footer h => by cases h
  | cons padding paddings ih =>
    refine sound_bind (sound_readFooterBeforePadding certificateOffset padding) fun found hfound => ?_
    cases found with
    | none => exact ih
    | some footer => exact sound_ok hfound

theorem sound_coffStart (fileLen : Nat) (hfits : fileLen < 2 ^ 64) : Sound (coffStart file fileLen) fun found =>
    ∀ coffStart, found = some coffStart → coffStart + 20 ≤ fileLen := by
  unfold coffStart
  refine sound_ite (fun _ => sound_ok fun _ h => by cases h) fun _ => ?_
  refine sound_bind (sound_readExactAt file 0 64) fun dos _ => ?_
  refine sound_ite (fun _ => sound_ok fun _ h => by cases h) fun _ => ?_
  dsimp only
  split
  · exact sound_raise _
  · refine sound_ite (fun _ => sound_ok fun _ h => by cases h) fun hend => ?_
    refine sound_bind (sound_readExactAt file _ 4) fun signature _ => ?_
    refine sound_ite (fun _ => sound_ok fun _ h => by cases h) fun _ => sound_ok fun _ h => ?_
    cases h
    exact (checkedAddU64_le hfits).1 (Bool.eq_false_iff.2 hend)

theorem sound_optionalHeader {fileLen start : Nat} (hfits : fileLen < 2 ^ 64) (hstart : start + 20 ≤ fileLen) :
    Sound (optionalHeader file fileLen start) fun found =>
      ∀ header, found = some header → header.optionalStart + header.optionalSize ≤ fileLen := by
  unfold optionalHeader
  rw [addU64_eq (by omega), ok_bind]
  refine sound_bind (sound_readExactAt file _ 2) fun size _ => ?_
  rw [addU64_eq (by omega), ok_bind]
  refine sound_ite (fun _ => sound_ok fun _ h => by cases h) fun hsize => ?_
  obtain ⟨-, hend⟩ := not_or.1 hsize
  have hend := (checkedAddU64_le hfits).1 (Bool.eq_false_iff.2 hend)
  refine sound_bind (sound_readExactAt file _ 2) fun magic _ => ?_
  refine sound_ite (fun _ => sound_ok fun _ h => ?_) fun _ => sound_ite (fun _ => sound_ok fun _ h => ?_) fun _ =>
    sound_ok fun _ h => by cases h
  · cases h
    exact hend
  · cases h
    exact hend

theorem sound_certificateTable {fileLen : Nat} {header : OptionalHeader} (hfits : fileLen < 2 ^ 64)
    (hheader : header.optionalStart + header.optionalSize ≤ fileLen) :
    Sound (certificateTable file fileLen header) fun _ => True := by
  unfold certificateTable
  refine sound_ite (fun _ => trivial) fun hcount => ?_
  rw [addU64_eq (by omega), ok_bind]
  refine sound_bind (sound_readExactAt file _ 4) fun count _ => ?_
  refine sound_ite (fun _ => trivial) fun _ => ?_
  split
  · exact sound_raise _
  · split
    · trivial
    · rw [addU64_eq (by omega), ok_bind]
      refine sound_ite (fun _ => trivial) fun _ => ?_
      refine sound_bind (sound_readExactAt file _ 8) fun entry _ => ?_
      exact sound_ite (fun _ => trivial) fun _ => sound_ite (fun _ => trivial) fun _ => trivial

theorem sound_peCertificateTable {fileLen : Nat} (hfits : fileLen < 2 ^ 64) :
    Sound (peCertificateTable file fileLen) fun _ => True := by
  refine sound_bind (sound_coffStart fileLen hfits) fun found hstart => ?_
  cases found with
  | none => trivial
  | some start =>
    refine sound_bind (sound_optionalHeader hfits (hstart start rfl)) fun found hheader => ?_
    cases found with
    | none => trivial
    | some header => exact sound_certificateTable hfits (hheader header rfl)

/-- Whatever the file, the inspection does not panic, and a payload that it finds lies in the file with its footer behind
it. -/
theorem sound_inspectSingleFileSfx (hfits : file.length < 2 ^ 64) :
    Sound (inspectSingleFileSfx file file.length) fun found =>
      ∀ info, found = some info → ∃ footer, Located file footer ∧ info = sfxInfo footer file.length := by
  unfold inspectSingleFileSfx
  refine sound_ite (fun _ => sound_ok fun _ h => by cases h) fun _ => ?_
  refine sound_bind (sound_readFooterEndingAt file.length) fun found hfound => ?_
  cases found with
  | some footer =>
    refine sound_ok fun info h => ?_
    cases h
    exact ⟨footer, hfound footer rfl, rfl⟩
  | none =>
    refine sound_bind (sound_peCertificateTable hfits) fun found _ => ?_
    cases found with
    | none => exact sound_ok fun _ h => by cases h
    | some table =>
      obtain ⟨certificateOffset, certificateBytes⟩ := table
      have hbefore : Sound (readFooterBeforeCertificate file certificateOffset certificateBytes file.length) fun found =>
          ∀ footer, found = some footer → Located file footer :=
        sound_ite (fun _ => sound_raise _) fun _ => sound_readFooterBeforePaddings certificateOffset _
      refine sound_bind hbefore fun found hfound => ?_
      cases found with
      | none => exact sound_ok fun _ h => by cases h
      | some footer =>
        refine sound_ite (fun _ => sound_raise _) fun _ => sound_ok fun info h => ?_
        cases h
        exact ⟨footer, hfound footer rfl, rfl⟩

end AnyFile

/-! ## Signed executables -/

/-- Where the directory count of an optional header is, in PE32 and in PE32+. -/
def countOffset (plus : Bool) : Nat := if plus then 108 else 92

def directoryOffset (plus : Bool) : Nat := if plus then 112 else 96

/-- A PE32 or PE32+ executable whose headers lie inside it, with an entry for its certificate table. -/
structure PeHeaders (stub : List UInt8) (peOffset optionalSize : Nat) (plus : Bool) (offset size : Nat) : Prop where
  dos : 64 ≤ stub.length
  mz : stub.take 2 = [0x4D, 0x5A]
  lfanew : leNat (slice stub 0x3C 4) = peOffset
  signature : slice stub peOffset 4 = [0x50, 0x45, 0x00, 0x00]
  optionalHeaderSize : leNat (slice stub (peOffset + 20) 2) = optionalSize
  inside : peOffset + 24 + optionalSize ≤ stub.length
  magic : leNat (slice stub (peOffset + 24) 2) = if plus then 0x20B else 0x10B
  directories : 4 < leNat (slice stub (peOffset + 24 + countOffset plus) 4)
  room : directoryOffset plus + 40 ≤ optionalSize
  entryOffset : leNat (slice stub (peOffset + 24 + directoryOffset plus + 32) 4) = offset
  entrySize : leNat (slice stub (peOffset + 24 + directoryOffset plus + 36) 4) = size

/-- An executable whose certificate table is entered at a place. -/
def SignedStub (stub : List UInt8) (offset size : Nat) : Prop :=
  ∃ peOffset optionalSize plus, PeHeaders stub peOffset optionalSize plus offset size

section Signed

variable {stub rest : List UInt8} {peOffset optionalSize offset size fileLen : Nat} {plus : Bool}

theorem readExactAt_front {position n : Nat} (h : position + n ≤ stub.length) :
    readExactAt (stub ++ rest) position n = .ok (slice stub position n) := by
  rw [readExactAt_eq (by rw [List.length_append]; omega), slice_append_left h]

theorem PeHeaders.coffStart (h : PeHeaders stub peOffset optionalSize plus offset size) (hlen : stub.length ≤ fileLen)
    (hfits : fileLen < 2 ^ 64) : coffStart (stub ++ rest) fileLen = .ok (some (peOffset + 4)) := by
  have hdos := h.dos
  have hinside := h.inside
  have hmz : (slice stub 0 64).take 2 = [0x4D, 0x5A] := by
    rw [← h.mz, slice, List.drop_zero, List.take_take]
    rfl
  have hoffset : leNat (slice (slice stub 0 64) 0x3C 4) = peOffset := by
    rw [slice_slice (by decide), Nat.zero_add, h.lfanew]
  have hend : ((checkedAddU64 (peOffset + 4) 20).all fun coffEnd => decide (fileLen < coffEnd)) = false :=
    (checkedAddU64_le hfits).2 (by omega)
  rw [Sfx.coffStart, if_neg (by omega), readExactAt_front (by omega), ok_bind, hmz, if_neg (not_not.2 rfl)]
  dsimp only
  rw [hoffset, checkedAddU64_eq (by omega)]
  dsimp only
  rw [hend, if_neg (by decide), readExactAt_front (by omega), ok_bind, h.signature, if_neg (not_not.2 rfl)]
  rfl

theorem PeHeaders.optionalHeader (h : PeHeaders stub peOffset optionalSize plus offset size) (hlen : stub.length ≤ fileLen)
    (hfits : fileLen < 2 ^ 64) : optionalHeader (stub ++ rest) fileLen (peOffset + 4) =
      .ok (some ⟨peOffset + 24, optionalSize, directoryOffset plus, countOffset plus⟩) := by
  have hinside := h.inside
  have hroom := h.room
  have hsize : ¬ (optionalSize < 2 ∨ ((checkedAddU64 (peOffset + 24) optionalSize).all fun optionalEnd =>
      decide (fileLen < optionalEnd)) = true) := by
    rw [(checkedAddU64_le hfits).2 (by omega)]
    rintro (hsmall | hlarge)
    · omega
    · cases hlarge
  rw [Sfx.optionalHeader, addU64_eq (by omega), ok_bind, readExactAt_front (by omega), ok_bind, addU64_eq (by omega),
    ok_bind]
  dsimp only
  rw [show peOffset + 4 + 16 = peOffset + 20 by omega, show peOffset + 4 + 20 = peOffset + 24 by omega, h.optionalHeaderSize,
    if_neg hsize, readExactAt_front (by omega), ok_bind, h.magic]
  cases plus <;> rfl

theorem PeHeaders.certificateTable (h : PeHeaders stub peOffset optionalSize plus offset size)
    (hlen : stub.length ≤ fileLen) (hfits : fileLen < 2 ^ 64) (hoffset : 0 < offset) (haligned : 8 ∣ offset)
    (hsize : 8 ≤ size) (hend : offset + size ≤ fileLen) :
    certificateTable (stub ++ rest) fileLen ⟨peOffset + 24, optionalSize, directoryOffset plus, countOffset plus⟩ =
      .ok (some (offset, size)) := by
  have hinside := h.inside
  have hroom := h.room
  have hcount : countOffset plus + 4 = directoryOffset plus := by cases plus <;> rfl
  have hdirectories := h.directories
  have hentry : leNat (slice (slice stub (peOffset + 24 + directoryOffset plus + 32) 8) 0 4) = offset ∧
      leNat (slice (slice stub (peOffset + 24 + directoryOffset plus + 32) 8) 4 4) = size := by
    rw [slice_slice (by decide), slice_slice (by decide), Nat.add_zero, h.entryOffset]
    exact ⟨rfl, h.entrySize⟩
  have htable : ¬ (offset = 0 ∨ ¬ 8 ∣ offset ∨ size < 8 ∨ ((checkedAddU64 offset size).all fun tableEnd =>
      decide (fileLen < tableEnd)) = true) := by
    rw [(checkedAddU64_le hfits).2 hend]
    rintro (h0 | h8 | hsmall | hlarge)
    · omega
    · exact h8 haligned
    · omega
    · cases hlarge
  rw [Sfx.certificateTable]
  dsimp only
  rw [if_neg (by omega), addU64_eq (by omega), ok_bind, readExactAt_front (by omega), ok_bind, if_neg (by omega),
    checkedAddU64_eq (by omega), Option.bind_some, checkedAddU64_eq (by omega)]
  dsimp only
  rw [checkedAddU64_eq (by omega)]
  dsimp only
  rw [addU64_eq (by omega), ok_bind, if_neg (by omega), readExactAt_front (by omega), ok_bind, hentry.1, hentry.2,
    if_neg (by omega), if_neg htable]
  rfl

theorem SignedStub.peCertificateTable (h : SignedStub stub offset size) (hlen : stub.length ≤ fileLen)
    (hfits : fileLen < 2 ^ 64) (hoffset : 0 < offset) (haligned : 8 ∣ offset) (hsize : 8 ≤ size)
    (hend : offset + size ≤ fileLen) : peCertificateTable (stub ++ rest) fileLen = .ok (some (offset, size)) := by
  obtain ⟨peOffset, optionalSize, plus, h⟩ := h
  rw [Sfx.peCertificateTable, h.coffStart hlen hfits, ok_bind]
  dsimp only
  rw [h.optionalHeader hlen hfits, ok_bind]
  exact h.certificateTable hlen hfits hoffset haligned hsize hend

end Signed

/-! ## Footers that were written -/

section Written

variable {front back : List UInt8} {footer : SfxFooter}

theorem readFooterEndingAt_written (footerEnd : Nat) (h : front.length + footerLen = footerEnd) :
    readFooterEndingAt (front ++ (footer.encode ++ back)) footerEnd = SfxFooter.decode footer.encode footerEnd := by
  have hslice : slice (front ++ (footer.encode ++ back)) front.length footerLen = footer.encode :=
    slice_middle rfl (length_encode footer).symm
  subst h
  rw [readFooterEndingAt, if_neg (by omega), subU64_eq (by omega), ok_bind, Nat.add_sub_cancel,
    readExactAt_eq (by simp only [List.length_append, length_encode]; omega), ok_bind, hslice]

/-- The magic of a footer does not begin inside it. -/
theorem magic_shifted (footer : SfxFooter) (back : List UInt8) {shift : Nat} (hpos : 0 < shift) (hlt : shift < 8) :
    (slice (footer.encode ++ back) shift footerLen).take 8 ≠ footerMagic := by
  intro h
  have hget : ∀ i < 8, (footer.encode ++ back)[shift + i]? = footerMagic[i]? := by
    intro i hi
    rw [← h, List.getElem?_take, if_pos hi, getElem?_slice, if_pos (Nat.lt_trans hi (by decide))]
  have hmagic : ∀ i < 8, (footer.encode ++ back)[i]? = footerMagic[i]? := by
    intro i hi
    rw [SfxFooter.encode, List.append_assoc, List.getElem?_append_left hi]
  -- Only the fourth byte of the magic is like the first one, and the fifth is not like the second one.
  have hfirst := (hmagic shift hlt).symm.trans (hget 0 (by decide))
  by_cases hthree : shift = 3
  · have hsecond := (hmagic 4 (by decide)).symm.trans (hthree ▸ hget 1 (by decide))
    exact absurd hsecond (by decide)
  · revert hfirst
    interval_cases shift <;> first | decide | exact absurd rfl hthree

theorem any_replicate_zero (n : Nat) : (List.replicate n (0 : UInt8)).any (· ≠ 0) = false := by
  rw [List.any_eq_false]
  intro b hb
  rw [List.eq_of_mem_replicate hb]
  decide

section Padding

variable {table : List UInt8} {padding certificateOffset : Nat}

/-- The zeros in front of a certificate table are passed over. -/
theorem readFooterBeforePadding_eq (hoffset : certificateOffset = front.length + footerLen + padding) {passed : Nat}
    (hpassed : passed ≤ padding) :
    readFooterBeforePadding (front ++ (footer.encode ++ (List.replicate padding 0 ++ table))) certificateOffset passed =
      readFooterEndingAt (front ++ (footer.encode ++ (List.replicate padding 0 ++ table))) (certificateOffset - passed) := by
  rw [readFooterBeforePadding, checkedSubU64, if_pos (by omega)]
  dsimp only
  rw [if_neg (by omega)]
  by_cases hpos : 0 < passed
  · have hzeros : slice (front ++ (footer.encode ++ (List.replicate padding 0 ++ table))) (certificateOffset - passed) passed =
        List.replicate passed 0 := by
      have hencode := length_encode footer
      rw [slice_append_right (by omega), slice_append_right (by omega),
        slice_append_left (by rw [List.length_replicate]; omega), slice, List.drop_replicate, List.take_replicate]
      congr 1
      omega
    have hinside : certificateOffset - passed + passed ≤
        (front ++ (footer.encode ++ (List.replicate padding 0 ++ table))).length := by
      simp only [List.length_append, length_encode, List.length_replicate]
      omega
    rw [if_pos hpos, readExactAt_eq hinside, ok_bind, hzeros, any_replicate_zero, if_neg (by decide)]
  · rw [if_neg hpos]

/-- Too little padding is passed over: no footer ends there. -/
theorem readFooterBeforePadding_short (hoffset : certificateOffset = front.length + footerLen + padding)
    (hpadding : padding < 8) {passed : Nat} (hpassed : passed < padding) :
    readFooterBeforePadding (front ++ (footer.encode ++ (List.replicate padding 0 ++ table))) certificateOffset passed =
      .ok none := by
  have hencode := length_encode footer
  have hposition : certificateOffset - passed - footerLen = front.length + (padding - passed) := by omega
  have hinside : front.length + (padding - passed) + footerLen ≤
      (front ++ (footer.encode ++ (List.replicate padding 0 ++ table))).length := by
    simp only [List.length_append, length_encode, List.length_replicate]
    omega
  have hmagic := magic_shifted footer (List.replicate padding 0 ++ table) (by omega : 0 < padding - passed) (by omega)
  rw [readFooterBeforePadding_eq hoffset (Nat.le_of_lt hpassed), readFooterEndingAt, if_neg (by omega),
    subU64_eq (by omega), ok_bind, hposition, readExactAt_eq hinside, ok_bind, slice_append_right (by omega),
    Nat.add_sub_cancel_left]
  exact decode_eq_none hmagic

/-- The paddings that are tried before the right one yield nothing. -/
theorem readFooterBeforePaddings_append {file : List UInt8} {before after : List Nat} {found : SfxFooter}
    (hbefore : ∀ passed ∈ before, readFooterBeforePadding file certificateOffset passed = .ok none)
    (hfound : readFooterBeforePadding file certificateOffset padding = .ok (some found)) :
    readFooterBeforePaddings file certificateOffset (before ++ padding :: after) = .ok (some found) := by
  induction before with
  | nil =>
    rw [List.nil_append, readFooterBeforePaddings, hfound]
    rfl
  | cons passed before ih =>
    rw [List.cons_append, readFooterBeforePaddings, hbefore passed List.mem_cons_self, ok_bind]
    exact ih fun other hother => hbefore other (List.mem_cons_of_mem _ hother)

end Padding

end Written

/-! ## Files that were assembled -/

/-- A file that was assembled, and possibly signed: nothing stands behind its footer, or the certificate table that the
headers of its stub enter, behind less than eight zeros. -/
inductive Appended (target : SfxTarget) (stub assembled : List UInt8) : List UInt8 → Prop
  | plain : Appended target stub assembled assembled
  | signed {padding : Nat} {table : List UInt8} : target = .windows → padding < 8 → 8 ∣ assembled.length + padding →
      8 ≤ table.length → SignedStub stub (assembled.length + padding) table.length →
      ¬ footerMagic <+: (assembled ++ (List.replicate padding 0 ++ table)).drop
        ((assembled ++ (List.replicate padding 0 ++ table)).length - footerLen) →
      Appended target stub assembled (assembled ++ (List.replicate padding 0 ++ table))

section Assembled

variable {target : SfxTarget} {stub payload assembled file : List UInt8}

theorem stageSingleFileSfx_eq_ok (h : stageSingleFileSfx target stub payload = .ok assembled) :
    stub.length + payload.length + footerLen < 2 ^ 64 ∧
      assembled = stub ++ (payload ++ (assembledFooter target stub payload).encode) := by
  unfold stageSingleFileSfx at h
  split at h
  · cases h
  · rename_i total htotal
    cases h
    obtain ⟨sum, hsum, htotal⟩ := Option.bind_eq_some_iff.1 htotal
    obtain ⟨rfl, -⟩ := checkedAddU64_eq_some.1 hsum
    exact ⟨(checkedAddU64_eq_some.1 htotal).2, rfl⟩

theorem decode_assembled (htarget : target ≠ .macos) (hstub : stub ≠ []) (hpayload : payload ≠ [])
    (hfits : stub.length + payload.length + footerLen < 2 ^ 64) :
    SfxFooter.decode (assembledFooter target stub payload).encode (stub.length + payload.length + footerLen) =
      .ok (some (assembledFooter target stub payload)) :=
  decode_encode htarget (fun h => hstub (List.length_eq_zero_iff.1 h)) (fun h => hpayload (List.length_eq_zero_iff.1 h))
    (crc32 payload).toNat_lt rfl hfits

/-- The footer that was written is found, whatever stands behind it. -/
theorem inspect_appended (htarget : target ≠ .macos) (hstub : stub ≠ []) (hpayload : payload ≠ [])
    (hstaged : stageSingleFileSfx target stub payload = .ok assembled) (happended : Appended target stub assembled file)
    (hfile : file.length < 2 ^ 64) :
    inspectSingleFileSfx file file.length = .ok (some (sfxInfo (assembledFooter target stub payload) file.length)) := by
  obtain ⟨hfits, rfl⟩ := stageSingleFileSfx_eq_ok hstaged
  have hpos : 0 < stub.length := List.length_pos_iff.2 hstub
  have hdecode := decode_assembled htarget hstub hpayload hfits
  have hfront : (stub ++ payload).length + footerLen = stub.length + payload.length + footerLen := by
    rw [List.length_append]
  have hlen : (stub ++ (payload ++ (assembledFooter target stub payload).encode)).length =
      stub.length + payload.length + footerLen := by
    simp only [List.length_append, length_encode]
    omega
  cases happended with
  | plain =>
    have hread := @readFooterEndingAt_written (stub ++ payload) [] (assembledFooter target stub payload) _
      hfront
    rw [List.append_nil, List.append_assoc] at hread
    rw [inspectSingleFileSfx, hlen, if_neg (by omega), hread, hdecode]
    rfl
  | @signed padding table hwindows hpadding haligned htable hsigned hlast =>
    rw [hlen] at haligned hsigned
    obtain ⟨whole, hwhole⟩ : ∃ whole, stub ++ (payload ++ (assembledFooter target stub payload).encode) ++
        (List.replicate padding 0 ++ table) = whole := ⟨_, rfl⟩
    have hwholeLen : whole.length = stub.length + payload.length + footerLen + padding + table.length := by
      rw [← hwhole, List.length_append, hlen, List.length_append, List.length_replicate, ← Nat.add_assoc]
    rw [hwhole] at hlast hfile ⊢
    have hnone : readFooterEndingAt whole whole.length = .ok none := by
      have hslice : slice whole (whole.length - footerLen) footerLen = whole.drop (whole.length - footerLen) := by
        rw [slice, List.take_of_length_le]
        rw [List.length_drop]
        omega
      rw [readFooterEndingAt, if_neg (by omega), subU64_eq (by omega), ok_bind, readExactAt_eq (by omega), ok_bind, hslice]
      exact decode_eq_none fun hmagic => hlast (hmagic ▸ List.take_prefix _ _)
    have htableAt : peCertificateTable whole whole.length =
        .ok (some (stub.length + payload.length + footerLen + padding, table.length)) := by
      have hrest : whole = stub ++ (payload ++ (assembledFooter target stub payload).encode ++
          (List.replicate padding 0 ++ table)) := by
        rw [← hwhole, List.append_assoc]
      rw [hrest]
      exact hsigned.peCertificateTable (by rw [← hrest]; omega) (by rw [← hrest]; omega) (by omega) haligned htable
        (by rw [← hrest]; omega)
    have hbefore : readFooterBeforeCertificate whole (stub.length + payload.length + footerLen + padding) table.length
        whole.length = .ok (some (assembledFooter target stub payload)) := by
      have hall : ((checkedAddU64 (stub.length + payload.length + footerLen + padding) table.length).all fun tableEnd =>
          decide (tableEnd ≠ whole.length)) = false := by
        rw [checkedAddU64_eq (by omega), Option.all_some, hwholeLen, decide_eq_false_iff_not, not_not]
      have hsplit : whole = (stub ++ payload) ++ ((assembledFooter target stub payload).encode ++
          (List.replicate padding 0 ++ table)) := by
        rw [← hwhole]
        simp only [List.append_assoc]
      have hoffset : stub.length + payload.length + footerLen + padding = (stub ++ payload).length + footerLen + padding := by
        rw [hfront]
      have hrange : List.range 8 = List.range padding ++ padding :: List.range' (padding + 1) (7 - padding) := by
        interval_cases padding <;> rfl
      rw [readFooterBeforeCertificate, hall, if_neg (by decide), hrange]
      refine readFooterBeforePaddings_append (fun passed hpassed => ?_) ?_
      · rw [hsplit]
        exact readFooterBeforePadding_short hoffset hpadding (List.mem_range.1 hpassed)
      · rw [hsplit, readFooterBeforePadding_eq hoffset (Nat.le_refl padding), Nat.add_sub_cancel,
          readFooterEndingAt_written _ hfront]
        exact hdecode
    rw [inspectSingleFileSfx, if_neg (by omega), hnone, ok_bind]
    dsimp only
    rw [htableAt, ok_bind]
    dsimp only
    rw [hbefore, ok_bind]
    dsimp only
    have htargetField : (assembledFooter target stub payload).target = .windows := hwindows
    rw [htargetField, if_neg (not_not.2 rfl)]
    rfl

end Assembled

/-- The footer that was written is found exactly, in the plain file and in the signed one; and whatever file is inspected,
nothing panics, and the payload that is found lies in the file with its footer right behind it. -/
theorem inspectSingleFileSfx_exact :
    (∀ {target : SfxTarget} {stub payload assembled file : List UInt8}, target ≠ .macos → stub ≠ [] → payload ≠ [] →
      stageSingleFileSfx target stub payload = .ok assembled → Appended target stub assembled file →
      file.length < 2 ^ 64 → inspectSingleFileSfx file file.length =
        .ok (some ⟨.singleFile, target, stub.length, payload.length, (crc32 payload).toNat, none, file.length,
          stub.length⟩)) ∧
    ∀ {file : List UInt8}, file.length < 2 ^ 64 → Sound (inspectSingleFileSfx file file.length) fun found =>
      ∀ info, found = some info → 0 < info.payloadOffset ∧ 0 < info.payloadBytes ∧
        info.payloadOffset + info.payloadBytes + footerLen ≤ file.length ∧
        SfxFooter.decode (slice file (info.payloadOffset + info.payloadBytes) footerLen)
          (info.payloadOffset + info.payloadBytes + footerLen) =
            .ok (some ⟨info.target, info.payloadOffset, info.payloadBytes, info.payloadCrc32⟩) := by
  constructor
  · intro target stub payload assembled file htarget hstub hpayload hstaged happended hfile
    exact inspect_appended htarget hstub hpayload hstaged happended hfile
  · intro file hfile
    refine (sound_inspectSingleFileSfx hfile).mono fun found hfound info hinfo => ?_
    obtain ⟨footer, hlocated, rfl⟩ := hfound info hinfo
    exact ⟨hlocated.offset, hlocated.bytes, hlocated.inside, hlocated.footer⟩

/-- An executable with room for the entry of its certificate table: a PE32 file of 256 bytes whose headers begin at 64. -/
def signedStub (offset size : Nat) : List UInt8 :=
  [0x4D, 0x5A] ++ (List.replicate 58 0 ++ (leBytes 4 64 ++ ([0x50, 0x45, 0x00, 0x00] ++ (List.replicate 16 0 ++
    (leBytes 2 136 ++ (List.replicate 2 0 ++ (leBytes 2 0x10B ++ (List.replicate 90 0 ++ (leBytes 4 5 ++
      (List.replicate 32 0 ++ (leBytes 4 offset ++ (leBytes 4 size ++ List.replicate 32 0))))))))))))

theorem inspectSingleFileSfx_exact_signed :
    let assembled := signedStub 296 40 ++ ([1, 2, 3] ++ (assembledFooter .windows (signedStub 296 40) [1, 2, 3]).encode)
    let file := assembled ++ (List.replicate 5 0 ++ List.replicate 40 7)
    stageSingleFileSfx .windows (signedStub 296 40) [1, 2, 3] = .ok assembled ∧
      inspectSingleFileSfx file file.length = .ok (some ⟨.singleFile, .windows, 256, 3, 0x55BC801D, none, 336, 256⟩) ∧
      Sound (inspectSingleFileSfx [1, 2] 2) fun found => ∀ info, found = some info → 0 < info.payloadOffset ∧
        0 < info.payloadBytes ∧ info.payloadOffset + info.payloadBytes + footerLen ≤ [1, 2].length ∧
        SfxFooter.decode (slice [1, 2] (info.payloadOffset + info.payloadBytes) footerLen)
          (info.payloadOffset + info.payloadBytes + footerLen) =
            .ok (some ⟨info.target, info.payloadOffset, info.payloadBytes, info.payloadCrc32⟩) := by
  intro assembled file
  have hstaged : stageSingleFileSfx .windows (signedStub 296 40) [1, 2, 3] = .ok assembled := by decide +kernel
  have hsigned : SignedStub (signedStub 296 40) 296 40 := ⟨64, 136, false, by constructor <;> decide +kernel⟩
  have hlen : assembled.length + 5 = 296 := by decide +kernel
  have htable : (List.replicate 40 (7 : UInt8)).length = 40 := List.length_replicate
  have happended : Appended .windows (signedStub 296 40) assembled file :=
    .signed rfl (by decide) (by decide +kernel) (by decide +kernel) (by rw [hlen, htable]; exact hsigned) (by decide +kernel)
  refine ⟨hstaged, ?_, inspectSingleFileSfx_exact.2 (by decide)⟩
  have hinspect := inspectSingleFileSfx_exact.1 (by decide) (by decide +kernel) (by decide) hstaged happended
    (by decide +kernel)
  rw [hinspect]
  decide +kernel

end Squallz.Sfx
