/-
What the splitter writes is read back: the headers of volumes and of parity files, and the names of volumes.
-/
import Squallz.Destination.Readable
import Squallz.Volumes.Discovery
import Squallz.Volumes.Outputs

namespace Squallz.Volumes

open Squallz.Api Squallz.Bytes Squallz.Destination Squallz.Text

/-! ## Fields -/

/-- A number among other fields is read at its place. -/
theorem leNat_field (front rest : List UInt8) {width v off : Nat} (hoff : off = front.length) (hv : v < 256 ^ width) :
    leNat (slice (front ++ (leBytes width v ++ rest)) off width) = v := by
  rw [slice_middle hoff (length_leBytes width v).symm, leNat_leBytes_of_lt hv]

theorem crc32c_lt (bytes : List UInt8) : (crc32c bytes).toNat < 256 ^ 4 := (crc32c bytes).toNat_lt

/-- The halves of a UUID are `u64`s. -/
def UuidFits (uuid : Uuid) : Prop := uuid.1 < 2 ^ 64 ∧ uuid.2 < 2 ^ 64

/-- The header of a volume is read back. -/
theorem readSqzvHeader_sqzvHeader {index total : Nat} {uuid : Uuid} {header : List UInt8} (huuid : UuidFits uuid)
    (h : sqzvHeader index total uuid = .ok header) (data : List UInt8) :
    readSqzvHeader (header ++ data) = .ok (some ⟨index, total, uuid⟩) := by
  have hlen := length_sqzvHeader h
  unfold sqzvHeader at h
  split at h
  · cases h
  · rename_i hfits
    obtain ⟨hindex, htotal⟩ := not_or.1 hfits
    have hindex : index < 256 ^ 4 := Nat.lt_of_not_le hindex
    have htotal : total < 256 ^ 4 := Nat.lt_of_not_le htotal
    rw [readSqzvHeader, if_neg (by rw [List.length_append, hlen]; omega), ← hlen, List.take_left]
    cases h
    obtain ⟨fields, hfields⟩ : ∃ fields, sqzvMagic ++ (leBytes 4 index ++ (leBytes 4 total ++
        (leBytes 8 uuid.1 ++ leBytes 8 uuid.2))) = fields := ⟨_, rfl⟩
    have hfieldsLen : fields.length = 28 := by
      rw [← hfields]
      simp only [List.length_append, length_leBytes]
      rfl
    have field : ∀ (front rest : List UInt8) {width v off : Nat}, fields = front ++ (leBytes width v ++ rest) →
        off = front.length → v < 256 ^ width →
        leNat (slice (fields ++ leBytes 4 (crc32c fields).toNat) off width) = v := by
      rintro front rest width v off hfront hoff hv
      rw [hfront, List.append_assoc, List.append_assoc]
      exact leNat_field front _ hoff hv
    have hmagic : (fields ++ leBytes 4 (crc32c fields).toNat).take 4 = sqzvMagic := by
      rw [← hfields, List.append_assoc]
      exact List.take_left' rfl
    have hcrc : leNat (slice (fields ++ leBytes 4 (crc32c fields).toNat) 28 4) = (crc32c fields).toNat := by
      have := leNat_field fields [] hfieldsLen.symm (crc32c_lt fields)
      rwa [List.append_nil] at this
    have hindexField : leNat (slice (fields ++ leBytes 4 (crc32c fields).toNat) 4 4) = index :=
      field sqzvMagic _ hfields.symm rfl hindex
    have htotalField : leNat (slice (fields ++ leBytes 4 (crc32c fields).toNat) 8 4) = total := by
      refine field (sqzvMagic ++ leBytes 4 index) (leBytes 8 uuid.1 ++ leBytes 8 uuid.2) ?_ ?_ htotal
      · rw [← hfields, List.append_assoc]
      · rw [List.length_append, length_leBytes]
        rfl
    have hhigh : leNat (slice (fields ++ leBytes 4 (crc32c fields).toNat) 12 8) = uuid.1 := by
      refine field (sqzvMagic ++ (leBytes 4 index ++ leBytes 4 total)) (leBytes 8 uuid.2) ?_ ?_ huuid.1
      · rw [← hfields, List.append_assoc, List.append_assoc]
      · simp only [List.length_append, length_leBytes]
        rfl
    have hlow : leNat (slice (fields ++ leBytes 4 (crc32c fields).toNat) 20 8) = uuid.2 := by
      refine field (sqzvMagic ++ (leBytes 4 index ++ (leBytes 4 total ++ leBytes 8 uuid.1))) [] ?_ ?_
        huuid.2
      · rw [← hfields, List.append_nil, List.append_assoc, List.append_assoc, List.append_assoc]
      · simp only [List.length_append, length_leBytes]
        rfl
    rw [hfields, parseSqzvHeader, if_neg (not_not.2 hmagic), List.take_left' hfieldsLen, hcrc, if_neg (not_not.2 rfl),
      hindexField, htotalField, hhigh, hlow]

/-- The header of a parity file is read back. -/
theorem readSqzrHeader_sqzrHeader {nodes : Nodes} {base : Path} {recoveryIndex algorithm total physicalVolumeSize
    tailPhysicalLen : Nat} {uuid : Uuid} {header rest : List UInt8} (huuid : UuidFits uuid) (halgorithm : algorithm < 256 ^ 2)
    (hsize : physicalVolumeSize < 2 ^ 64) (htail : tailPhysicalLen < 2 ^ 64)
    (h : sqzrHeader total uuid physicalVolumeSize tailPhysicalLen algorithm = .ok header)
    (hrest : rest.length = physicalVolumeSize)
    (hfile : nodes (recoveryVolumePath base recoveryIndex) = some (.file (header ++ rest))) :
    readSqzrHeader nodes base recoveryIndex algorithm total uuid =
      .ok (some ⟨total, uuid, physicalVolumeSize, tailPhysicalLen, physicalVolumeSize⟩) := by
  have hlen := length_sqzrHeader h
  unfold sqzrHeader at h
  split at h
  · cases h
  · rename_i hfits
    have htotal : total < 256 ^ 4 := Nat.lt_of_not_le hfits
    cases h
    obtain ⟨fields, hfields⟩ : ∃ fields, sqzrMagic ++ (leBytes 2 sqzrVersion ++ (leBytes 2 algorithm ++ (leBytes 4 total ++
        (leBytes 8 uuid.1 ++ (leBytes 8 uuid.2 ++ (leBytes 8 physicalVolumeSize ++ (leBytes 8 tailPhysicalLen ++
        leBytes 8 physicalVolumeSize))))))) = fields := ⟨_, rfl⟩
    rw [hfields] at hlen hfile
    have hfieldsLen : fields.length = 52 := by
      rw [← hfields]
      simp only [List.length_append, length_leBytes]
      rfl
    obtain ⟨header, hheader⟩ : ∃ header, fields ++ (leBytes 4 (crc32c fields).toNat ++ List.replicate 8 0) = header := ⟨_, rfl⟩
    have field : ∀ (front rest : List UInt8) {width v off : Nat}, fields = front ++ (leBytes width v ++ rest) →
        off = front.length → v < 256 ^ width → leNat (slice header off width) = v := by
      rintro front rest width v off hfront hoff hv
      rw [← hheader, hfront, List.append_assoc, List.append_assoc]
      exact leNat_field front _ hoff hv
    have hmagic : header.take 4 = sqzrMagic := by
      rw [← hheader, ← hfields, List.append_assoc]
      exact List.take_left' rfl
    have hcrc : leNat (slice header 52 4) = (crc32c (header.take 52)).toNat := by
      rw [← hheader, List.take_left' hfieldsLen]
      exact leNat_field fields _ hfieldsLen.symm (crc32c_lt fields)
    have hversion : leNat (slice header 4 2) = sqzrVersion := field sqzrMagic _ hfields.symm rfl (by decide)
    have halgorithmField : leNat (slice header 6 2) = algorithm := by
      refine field (sqzrMagic ++ leBytes 2 sqzrVersion) (leBytes 4 total ++ (leBytes 8 uuid.1 ++ (leBytes 8 uuid.2 ++
        (leBytes 8 physicalVolumeSize ++ (leBytes 8 tailPhysicalLen ++ leBytes 8 physicalVolumeSize))))) ?_ rfl halgorithm
      rw [← hfields, List.append_assoc]
    have htotalField : leNat (slice header 8 4) = total := by
      refine field (sqzrMagic ++ (leBytes 2 sqzrVersion ++ leBytes 2 algorithm)) (leBytes 8 uuid.1 ++ (leBytes 8 uuid.2 ++
        (leBytes 8 physicalVolumeSize ++ (leBytes 8 tailPhysicalLen ++ leBytes 8 physicalVolumeSize)))) ?_ rfl htotal
      rw [← hfields, List.append_assoc, List.append_assoc]
    have hhigh : leNat (slice header 12 8) = uuid.1 := by
      refine field (sqzrMagic ++ (leBytes 2 sqzrVersion ++ (leBytes 2 algorithm ++ leBytes 4 total))) (leBytes 8 uuid.2 ++
        (leBytes 8 physicalVolumeSize ++ (leBytes 8 tailPhysicalLen ++ leBytes 8 physicalVolumeSize))) ?_ rfl huuid.1
      rw [← hfields, List.append_assoc, List.append_assoc, List.append_assoc]
    have hlow : leNat (slice header 20 8) = uuid.2 := by
      refine field (sqzrMagic ++ (leBytes 2 sqzrVersion ++ (leBytes 2 algorithm ++ (leBytes 4 total ++ leBytes 8 uuid.1))))
        (leBytes 8 physicalVolumeSize ++ (leBytes 8 tailPhysicalLen ++ leBytes 8 physicalVolumeSize)) ?_ rfl huuid.2
      rw [← hfields, List.append_assoc, List.append_assoc, List.append_assoc, List.append_assoc]
    have hsizeField : leNat (slice header 28 8) = physicalVolumeSize := by
      refine field (sqzrMagic ++ (leBytes 2 sqzrVersion ++ (leBytes 2 algorithm ++ (leBytes 4 total ++ (leBytes 8 uuid.1 ++
        leBytes 8 uuid.2))))) (leBytes 8 tailPhysicalLen ++ leBytes 8 physicalVolumeSize) ?_ rfl hsize
      rw [← hfields, List.append_assoc, List.append_assoc, List.append_assoc, List.append_assoc, List.append_assoc]
    have htailField : leNat (slice header 36 8) = tailPhysicalLen := by
      refine field (sqzrMagic ++ (leBytes 2 sqzrVersion ++ (leBytes 2 algorithm ++ (leBytes 4 total ++ (leBytes 8 uuid.1 ++
        (leBytes 8 uuid.2 ++ leBytes 8 physicalVolumeSize)))))) (leBytes 8 physicalVolumeSize) ?_ rfl htail
      rw [← hfields, List.append_assoc, List.append_assoc, List.append_assoc, List.append_assoc, List.append_assoc,
        List.append_assoc]
    have hparityField : leNat (slice header 44 8) = physicalVolumeSize := by
      refine field (sqzrMagic ++ (leBytes 2 sqzrVersion ++ (leBytes 2 algorithm ++ (leBytes 4 total ++ (leBytes 8 uuid.1 ++
        (leBytes 8 uuid.2 ++ (leBytes 8 physicalVolumeSize ++ leBytes 8 tailPhysicalLen))))))) [] ?_ rfl hsize
      rw [← hfields, List.append_nil, List.append_assoc, List.append_assoc, List.append_assoc, List.append_assoc,
        List.append_assoc, List.append_assoc, List.append_assoc]
    rw [hheader] at hlen hfile
    rw [readSqzrHeader, hfile]
    dsimp only
    rw [if_neg (by rw [List.length_append, hlen]; omega), List.take_left' hlen, if_neg (not_not.2 hmagic),
      if_neg (not_not.2 hcrc), hversion, halgorithmField, if_neg (by simp), htotalField, hhigh, hlow, hsizeField, htailField,
      hparityField, if_neg (by simp), if_neg (by rw [List.length_append, hlen, hrest]; omega)]

/-! ## Names -/

theorem length_padded (width n : Nat) : width ≤ (padded width n).length := by
  rw [padded, List.length_append, List.length_replicate]
  omega

theorem all_isDigit_padded (width n : Nat) : (padded width n).all Char.isDigit = true := by
  refine List.all_eq_true.2 fun c hc => ?_
  rcases List.mem_append.1 hc with hc | hc
  · rw [List.eq_of_mem_replicate hc]
    rfl
  · exact isDigit_of_mem_decimal hc

theorem ofDecimal_padded (width n : Nat) : ofDecimal (padded width n) = n := by
  have zeros : ∀ k : Nat, ofDecimal (List.replicate k '0' ++ decimal n) = n := by
    intro k
    induction k with
    | zero => exact ofDecimal_decimal n
    | succ k ih => exact ih
  exact zeros _

theorem parseUnsigned_padded {bound width n : Nat} (h : n < bound) : parseUnsigned bound (padded width n) = some n := by
  have hne : padded width n ≠ [] := by
    rw [padded]
    exact List.append_ne_nil_of_right_ne_nil _ (decimal_ne_nil n)
  have hplus : (padded width n).head? ≠ some '+' := by
    intro hhead
    have := List.all_eq_true.1 (all_isDigit_padded width n) _ (List.mem_of_mem_head? hhead)
    revert this
    decide
  unfold parseUnsigned
  rw [if_neg hplus]
  simp only
  rw [if_pos ⟨hne, all_isDigit_padded width n, by rwa [ofDecimal_padded]⟩, ofDecimal_padded]

theorem dot_not_mem_padded (width n : Nat) : '.' ∉ padded width n := by
  intro hmem
  have := List.all_eq_true.1 (all_isDigit_padded width n) _ hmem
  revert this
  decide

/-- The name of a volume is read back. -/
theorem splitVolumeName_padded {name : List Char} {index : Nat} (hname : name ≠ []) (hpos : 0 < index)
    (hlt : index < 2 ^ 32) : splitVolumeName (name ++ '.' :: padded 3 index) = some (name, index) := by
  unfold splitVolumeName
  rw [rsplitOnce_append (dot_not_mem_padded 3 index)]
  simp only
  rw [if_neg, parseUnsigned_padded hlt]
  · simp only
    rw [if_neg (Nat.pos_iff_ne_zero.1 hpos)]
  · rintro (h | h | h)
    · exact hname h
    · exact absurd (length_padded 3 index) (Nat.not_le.2 h)
    · exact h (all_isDigit_padded 3 index)

/-- The name of a volume beside a base. -/
def volumeName (base : Path) (index : Nat) : List UInt8 := osStr (filenameOrEmpty base ++ '.' :: padded 3 index)

theorem withFileName_eq {path : Path} (hpath : (fileName path).isSome = true) {text : List Char} (hne : text ≠ [])
    (hdot : text ≠ ['.']) : withFileName path (osStr text) = parent path ++ [osStr text] := by
  unfold withFileName joinName
  rw [if_pos hpath, if_neg]
  rintro (h | h)
  · exact hne (osStr_eq_nil.1 h)
  · exact hdot (osStr_injective (h.trans (show [dot] = osStr ['.'] from rfl)))

theorem volumePath_eq {base : Path} (hbase : (fileName base).isSome = true) (index : Nat) :
    volumePath base index = parent base ++ [volumeName base index] := by
  have hpad : 0 < (padded 3 index).length := Nat.lt_of_lt_of_le (by decide) (length_padded 3 index)
  refine withFileName_eq hbase (by simp) fun h => ?_
  have := congrArg List.length h
  rw [List.length_append, List.length_cons, List.length_singleton] at this
  omega

end Squallz.Volumes
