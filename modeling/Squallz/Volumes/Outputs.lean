/-
What the splitter writes: how long its outputs are, and that it writes them whenever there is room for them.
-/
import Squallz.Volumes.Splitter

namespace Squallz.Volumes

open Squallz.Api Squallz.Bytes Squallz.Destination

/-! ## Layouts -/

/-- The layout of `total` bytes in volumes of `volumeSize` bytes. -/
structure LayoutOf (base : Path) (total volumeSize : Nat) (layout : SplitLayout) : Prop where
  minimum : minSplitSize ≤ volumeSize
  writeSqzv : layout.writeSqzv = isSqzBase base
  logical : layout.logicalVolumeSize = if layout.writeSqzv then volumeSize - sqzvHeaderLen else volumeSize
  count : layout.count = max (divCeil total layout.logicalVolumeSize) 1
  bounded : layout.count ≤ maxSplitVolumeCount
  weighted : layout.writeWeightedParity = (layout.writeSqzv && 2 < layout.count && layout.count ≤ 255)
  quadratic : layout.writeQuadraticParity = (layout.writeSqzv && 3 < layout.count && layout.count ≤ 255)

/-- What a volume has room for beside its header. -/
def roomOf (base : Path) (volumeSize : Nat) : Nat := if isSqzBase base then volumeSize - sqzvHeaderLen else volumeSize

/-- The layout, once the volumes are large enough. -/
theorem splitLayout_eq {base : Path} {total volumeSize : Nat} (hmin : minSplitSize ≤ volumeSize) :
    splitLayout base total volumeSize =
      (let count := max (divCeil total (roomOf base volumeSize)) 1
      if maxSplitVolumeCount < count then raise (.resourceLimitExceeded "split archive would create too many volumes")
      else
        .ok ⟨roomOf base volumeSize, count, isSqzBase base, isSqzBase base && 2 < count && count ≤ 255,
          isSqzBase base && 3 < count && count ≤ 255⟩) := by
  have hroom : ¬ (isSqzBase base = true ∧ volumeSize ≤ sqzvHeaderLen) := by
    rintro ⟨-, h⟩
    exact absurd (Nat.le_trans hmin h) (by decide)
  rw [splitLayout, if_neg (Nat.not_lt.2 hmin)]
  dsimp only
  rw [if_neg hroom]
  rfl

theorem splitLayout_eq_ok {base : Path} {total volumeSize : Nat} {layout : SplitLayout}
    (h : splitLayout base total volumeSize = .ok layout) : LayoutOf base total volumeSize layout := by
  by_cases hmin : volumeSize < minSplitSize
  · rw [splitLayout, if_pos hmin] at h
    cases h
  · rw [splitLayout_eq (Nat.le_of_not_lt hmin)] at h
    dsimp only at h
    by_cases hcount : maxSplitVolumeCount < max (divCeil total (roomOf base volumeSize)) 1
    · rw [if_pos hcount] at h
      cases h
    · rw [if_neg hcount] at h
      cases h
      exact ⟨Nat.le_of_not_lt hmin, rfl, rfl, rfl, Nat.le_of_not_lt hcount, rfl, rfl⟩

/-- There is a layout wherever the volumes are large enough and not too many. -/
theorem splitLayout_ok {base : Path} {total volumeSize : Nat} (hmin : minSplitSize ≤ volumeSize)
    (hcount : max (divCeil total (roomOf base volumeSize)) 1 ≤ maxSplitVolumeCount) :
    ∃ layout, splitLayout base total volumeSize = .ok layout := by
  rw [splitLayout_eq hmin]
  dsimp only
  rw [if_neg (Nat.not_lt.2 hcount)]
  exact ⟨_, rfl⟩

namespace LayoutOf

variable {base : Path} {total volumeSize : Nat} {layout : SplitLayout}

theorem logical_pos (h : LayoutOf base total volumeSize layout) : 0 < layout.logicalVolumeSize := by
  have hmin := h.minimum
  rw [h.logical]
  unfold minSplitSize at hmin
  unfold sqzvHeaderLen
  split <;> omega

theorem header_add (h : LayoutOf base total volumeSize layout) :
    (if layout.writeSqzv then sqzvHeaderLen else 0) + layout.logicalVolumeSize = volumeSize := by
  have hmin := h.minimum
  rw [h.logical]
  unfold minSplitSize at hmin
  unfold sqzvHeaderLen
  split <;> omega

theorem count_pos (h : LayoutOf base total volumeSize layout) : 0 < layout.count := by
  rw [h.count]
  exact Nat.lt_of_lt_of_le Nat.zero_lt_one (Nat.le_max_right _ _)

/-- The volumes hold the whole archive. -/
theorem total_le (h : LayoutOf base total volumeSize layout) : total ≤ layout.count * layout.logicalVolumeSize := by
  have hc : divCeil total layout.logicalVolumeSize ≤ layout.count := by
    rw [h.count]
    exact Nat.le_max_left _ _
  exact (divCeil_le_iff h.logical_pos).1 hc

/-- Every volume but the first begins inside the archive. -/
theorem begin_lt (h : LayoutOf base total volumeSize layout) {i : Nat} (hi : i < layout.count) (hi0 : 0 < i) :
    i * layout.logicalVolumeSize < total := by
  refine (lt_divCeil h.logical_pos).1 ?_
  have hc := h.count
  omega

theorem count_le_iff (h : LayoutOf base total volumeSize layout) {n : Nat} (hn : 1 ≤ n) :
    layout.count ≤ n ↔ total ≤ n * layout.logicalVolumeSize := by
  rw [← divCeil_le_iff h.logical_pos, h.count, Nat.max_le, and_iff_left hn]

end LayoutOf

/-! ## Headers and parity files -/

theorem length_sqzvHeader {index total : Nat} {uuid : Uuid} {header : List UInt8}
    (h : sqzvHeader index total uuid = .ok header) : header.length = sqzvHeaderLen := by
  unfold sqzvHeader at h
  split at h
  · cases h
  · cases h
    simp only [List.length_append, length_leBytes]
    rfl

theorem sqzvHeader_ok {index total : Nat} (hindex : index < 2 ^ 32) (htotal : total < 2 ^ 32) (uuid : Uuid) :
    ∃ header, sqzvHeader index total uuid = .ok header := by
  unfold sqzvHeader
  rw [if_neg (by omega)]
  exact ⟨_, rfl⟩

theorem length_sqzrHeader {total physicalVolumeSize tailPhysicalLen algorithm : Nat} {uuid : Uuid} {header : List UInt8}
    (h : sqzrHeader total uuid physicalVolumeSize tailPhysicalLen algorithm = .ok header) :
    header.length = sqzrHeaderLen := by
  unfold sqzrHeader at h
  split at h
  · cases h
  · cases h
    simp only [List.length_append, length_leBytes, List.length_replicate]
    rfl

theorem length_addParity {weight : UInt8 → UInt8} {file file' bytes : List UInt8} {physicalOffset : Nat}
    (h : addParity weight file physicalOffset bytes = .ok file') : file'.length = file.length := by
  unfold addParity at h
  split at h
  · cases h
    rfl
  · dsimp only at h
    split at h
    · cases h
    · cases h
      simp only [List.length_append, List.length_take, List.length_zipWith, length_slice, List.length_drop]
      omega

theorem addParity_ok (weight : UInt8 → UInt8) {file bytes : List UInt8} {physicalOffset : Nat}
    (h : sqzrHeaderLen + physicalOffset + bytes.length ≤ file.length) :
    ∃ file', addParity weight file physicalOffset bytes = .ok file' := by
  unfold addParity
  split
  · exact ⟨_, rfl⟩
  · dsimp only
    rw [if_neg (Nat.not_lt.2 h)]
    exact ⟨_, rfl⟩

theorem length_weightedSqzrParity {file file' bytes : List UInt8} {physicalOffset index : Nat}
    (h : weightedSqzrParity file physicalOffset index bytes = .ok file') : file'.length = file.length := by
  unfold weightedSqzrParity at h
  split at h
  · cases h
    rfl
  · obtain ⟨coeff, -, h⟩ := bind_eq_ok.1 h
    exact length_addParity h

theorem length_quadraticSqzrParity {file file' bytes : List UInt8} {physicalOffset index : Nat}
    (h : quadraticSqzrParity file physicalOffset index bytes = .ok file') : file'.length = file.length := by
  unfold quadraticSqzrParity at h
  split at h
  · cases h
    rfl
  · obtain ⟨coeff, -, h⟩ := bind_eq_ok.1 h
    exact length_addParity h

theorem sqzrWeightedCoeff_ok {index : Nat} (hpos : 0 < index) (hle : index ≤ 255) :
    sqzrWeightedCoeff index = .ok (UInt8.ofNat index) := by
  rw [sqzrWeightedCoeff, if_neg (by omega)]

theorem weightedSqzrParity_ok {file bytes : List UInt8} {physicalOffset index : Nat} (hpos : 0 < index)
    (hle : index ≤ 255) (h : sqzrHeaderLen + physicalOffset + bytes.length ≤ file.length) :
    ∃ file', weightedSqzrParity file physicalOffset index bytes = .ok file' := by
  unfold weightedSqzrParity
  split
  · exact ⟨_, rfl⟩
  · rw [sqzrWeightedCoeff_ok hpos hle, ok_bind]
    exact addParity_ok _ h

theorem quadraticSqzrParity_ok {file bytes : List UInt8} {physicalOffset index : Nat} (hpos : 0 < index)
    (hle : index ≤ 255) (h : sqzrHeaderLen + physicalOffset + bytes.length ≤ file.length) :
    ∃ file', quadraticSqzrParity file physicalOffset index bytes = .ok file' := by
  unfold quadraticSqzrParity
  split
  · exact ⟨_, rfl⟩
  · rw [sqzrQuadraticCoeff, sqzrWeightedCoeff_ok hpos hle]
    exact addParity_ok _ h

/-! ## The parity files as a whole -/

theorem mapM_length {f : List UInt8 → Res (List UInt8)} (hf : ∀ file file', f file = .ok file' → file'.length = file.length)
    {o o' : Option (List UInt8)} (h : o.mapM f = .ok o') : o'.map List.length = o.map List.length := by
  cases o with
  | none =>
    cases h
    rfl
  | some file =>
    obtain ⟨file', hfile', h⟩ := bind_eq_ok.1 h
    cases h
    rw [Option.map_some, Option.map_some, hf file file' hfile']

theorem mapM_ok {f : List UInt8 → Res (List UInt8)} {o : Option (List UInt8)}
    (h : ∀ file, o = some file → ∃ file', f file = .ok file') : ∃ o', o.mapM f = .ok o' := by
  cases o with
  | none => exact ⟨none, rfl⟩
  | some file =>
    obtain ⟨file', hfile'⟩ := h file rfl
    exact ⟨some file', bind_eq_ok.2 ⟨file', hfile', rfl⟩⟩

/-- Which parity files there are, and how long each is. -/
def ParityFiles.lengths (files : ParityFiles) : Option Nat × Option Nat × Option Nat :=
  (files.parity.map List.length, files.weighted.map List.length, files.quadratic.map List.length)

theorem ParityFiles.lengths_add {files files' : ParityFiles} {index physicalOffset : Nat} {bytes : List UInt8}
    (h : files.add index physicalOffset bytes = .ok files') : files'.lengths = files.lengths := by
  unfold ParityFiles.add at h
  simp only [bind_eq_ok] at h
  obtain ⟨parity, hparity, weighted, hweighted, quadratic, hquadratic, h⟩ := h
  cases h
  have hp := mapM_length (fun _ _ h => length_addParity h) hparity
  have hw := mapM_length (fun _ _ h => length_weightedSqzrParity h) hweighted
  have hq := mapM_length (fun _ _ h => length_quadraticSqzrParity h) hquadratic
  rw [lengths, lengths, hp, hw, hq]

/-- The parity files of a layout, each with room for a volume. -/
def SplitLayout.parityLengths (layout : SplitLayout) (volumeSize : Nat) : Option Nat × Option Nat × Option Nat :=
  let length (written : Bool) := if written then some (sqzrHeaderLen + volumeSize) else none
  (length (layout.writeSqzv && 1 < layout.count), length layout.writeWeightedParity, length layout.writeQuadraticParity)

/-- Bytes that fit a volume enter the parity files. -/
theorem ParityFiles.add_ok {base : Path} {total volumeSize : Nat} {layout : SplitLayout}
    (hlayout : LayoutOf base total volumeSize layout) {files : ParityFiles}
    (hfiles : files.lengths = layout.parityLengths volumeSize) {index physicalOffset : Nat} {bytes : List UInt8}
    (hpos : 0 < index) (hle : index ≤ layout.count) (hfits : physicalOffset + bytes.length ≤ volumeSize) :
    ∃ files', files.add index physicalOffset bytes = .ok files' := by
  rw [lengths, SplitLayout.parityLengths, Prod.mk.injEq, Prod.mk.injEq] at hfiles
  obtain ⟨hp, hw, hq⟩ := hfiles
  have room : ∀ {written : Bool} {o : Option (List UInt8)} {file : List UInt8},
      o.map List.length = (if written then some (sqzrHeaderLen + volumeSize) else none) → o = some file →
      written = true ∧ sqzrHeaderLen + physicalOffset + bytes.length ≤ file.length := by
    rintro written o file ho rfl
    cases written with
    | false => cases ho
    | true =>
      have hlen : file.length = sqzrHeaderLen + volumeSize := Option.some.inj ho
      exact ⟨rfl, by omega⟩
  -- The weighted files are only there where the indexes are coefficients.
  have hcoeff : ∀ {written : Bool} {n : Nat}, written = (layout.writeSqzv && n < layout.count && layout.count ≤ 255) →
      written = true → index ≤ 255 := by
    rintro written n rfl h
    have : layout.count ≤ 255 := of_decide_eq_true (Bool.and_eq_true _ _ ▸ h).2
    omega
  obtain ⟨parity, hparity⟩ := mapM_ok (f := (xorSqzrParity · physicalOffset bytes)) (o := files.parity)
    fun file hfile => addParity_ok id (room hp hfile).2
  obtain ⟨weighted, hweighted⟩ := mapM_ok (f := (weightedSqzrParity · physicalOffset index bytes)) (o := files.weighted)
    fun file hfile => weightedSqzrParity_ok hpos (hcoeff hlayout.weighted (room hw hfile).1) (room hw hfile).2
  obtain ⟨quadratic, hquadratic⟩ := mapM_ok (f := (quadraticSqzrParity · physicalOffset index bytes))
    (o := files.quadratic)
    fun file hfile => quadraticSqzrParity_ok hpos (hcoeff hlayout.quadratic (room hq hfile).1) (room hq hfile).2
  refine ⟨⟨parity, weighted, quadratic⟩, ?_⟩
  rw [add, hparity, ok_bind, hweighted, ok_bind, hquadratic]
  rfl

/-! ## The rounds over the volumes -/

section Rounds

variable {layout : SplitLayout} {uuid : Option Uuid} {archive : List UInt8}

/-- How long the header of a volume is. -/
def SplitLayout.headerLen (layout : SplitLayout) : Nat := if layout.writeSqzv then sqzvHeaderLen else 0

/-- A volume is its header and its part of the archive. -/
theorem volumeContent_eq_ok {index : Nat} {content : List UInt8} (h : volumeContent layout uuid archive index = .ok content) :
    ∃ header, header.length = layout.headerLen ∧ content = header ++ volumeData layout archive index := by
  unfold volumeContent at h
  unfold SplitLayout.headerLen
  split at h
  · rename_i hsqzv
    rw [if_pos hsqzv]
    cases uuid with
    | none => cases h
    | some uuid =>
      obtain ⟨header, hheader, h⟩ := bind_eq_ok.1 h
      cases h
      exact ⟨header, length_sqzvHeader hheader, rfl⟩
  · rename_i hsqzv
    rw [if_neg hsqzv]
    cases h
    exact ⟨[], rfl, rfl⟩

theorem volumeContent_ok (archive : List UInt8) {index : Nat} (huuid : layout.writeSqzv = true → uuid.isSome = true) (hindex : index < 2 ^ 32)
    (hcount : layout.count < 2 ^ 32) : ∃ content, volumeContent layout uuid archive index = .ok content := by
  unfold volumeContent
  split
  · rename_i hsqzv
    obtain ⟨uuid, rfl⟩ := Option.isSome_iff_exists.1 (huuid hsqzv)
    obtain ⟨header, hheader⟩ := sqzvHeader_ok hindex hcount uuid
    exact ⟨_, bind_eq_ok.2 ⟨header, hheader, rfl⟩⟩
  · exact ⟨_, rfl⟩

theorem length_volumeData (index : Nat) : (volumeData layout archive index).length =
    min layout.logicalVolumeSize (archive.length - (index - 1) * layout.logicalVolumeSize) := by
  rw [volumeData, length_slice]
  omega

theorem length_volumeContent {index : Nat} {content : List UInt8} (h : volumeContent layout uuid archive index = .ok content) :
    content.length = layout.headerLen +
      min layout.logicalVolumeSize (archive.length - (index - 1) * layout.logicalVolumeSize) := by
  obtain ⟨header, hheader, rfl⟩ := volumeContent_eq_ok h
  rw [List.length_append, hheader, length_volumeData]

/-- The parity files with the header of a volume in them. -/
def headedFiles (layout : SplitLayout) (files : ParityFiles) (index : Nat) (content : List UInt8) : Res ParityFiles :=
  if layout.writeSqzv then files.add index 0 (content.take layout.headerLen) else .ok files

theorem writeVolume_eq (files : ParityFiles) (index : Nat) : writeVolume layout uuid archive files index =
    volumeContent layout uuid archive index >>= fun content => headedFiles layout files index content >>= fun headed =>
      headed.add index layout.headerLen (content.drop layout.headerLen) >>= fun written => .ok (content, written) := by
  unfold writeVolume headedFiles SplitLayout.headerLen
  cases layout.writeSqzv <;> rfl

theorem writeVolume_eq_ok {files files' : ParityFiles} {index : Nat} {content : List UInt8}
    (h : writeVolume layout uuid archive files index = .ok (content, files')) :
    volumeContent layout uuid archive index = .ok content ∧ files'.lengths = files.lengths := by
  rw [writeVolume_eq] at h
  obtain ⟨content', hcontent, h⟩ := bind_eq_ok.1 h
  obtain ⟨headed, hheaded, h⟩ := bind_eq_ok.1 h
  obtain ⟨written, hwritten, h⟩ := bind_eq_ok.1 h
  cases h
  refine ⟨hcontent, ?_⟩
  rw [ParityFiles.lengths_add hwritten]
  unfold headedFiles at hheaded
  split at hheaded
  · rw [ParityFiles.lengths_add hheaded]
  · cases hheaded
    rfl

theorem writeVolume_ok {base : Path} {total volumeSize : Nat} (hlayout : LayoutOf base total volumeSize layout)
    {files : ParityFiles} (hfiles : files.lengths = layout.parityLengths volumeSize) {index : Nat} (hpos : 0 < index)
    (hle : index ≤ layout.count) {content : List UInt8}
    (hcontent : volumeContent layout uuid archive index = .ok content) :
    ∃ files', writeVolume layout uuid archive files index = .ok (content, files') := by
  have hlen := length_volumeContent hcontent
  have hroom : layout.headerLen + layout.logicalVolumeSize = volumeSize := hlayout.header_add
  obtain ⟨headed, hheaded⟩ : ∃ headed, headedFiles layout files index content = .ok headed := by
    unfold headedFiles
    split
    · refine ParityFiles.add_ok hlayout hfiles hpos hle ?_
      rw [List.length_take]
      omega
    · exact ⟨files, rfl⟩
  have hheadedLengths : headed.lengths = layout.parityLengths volumeSize := by
    unfold headedFiles at hheaded
    split at hheaded
    · rw [ParityFiles.lengths_add hheaded, hfiles]
    · cases hheaded
      exact hfiles
  have hfits : layout.headerLen + (content.drop layout.headerLen).length ≤ volumeSize := by
    rw [List.length_drop]
    omega
  obtain ⟨written, hwritten⟩ := ParityFiles.add_ok hlayout hheadedLengths hpos hle hfits
  refine ⟨written, ?_⟩
  rw [writeVolume_eq, hcontent, ok_bind, hheaded, ok_bind, hwritten, ok_bind]

/-- The rounds write the volumes one after another, and no parity file grows or shrinks. -/
theorem writeVolumes_eq_ok {files files' : ParityFiles} {index rounds : Nat} {contents : List (List UInt8)}
    (h : writeVolumes layout uuid archive files index rounds = .ok (contents, files')) :
    contents.length = rounds ∧
      (∀ (k : Nat) (content : List UInt8), contents[k]? = some content →
        volumeContent layout uuid archive (index + k) = .ok content) ∧
      files'.lengths = files.lengths := by
  induction rounds generalizing files index contents with
  | zero =>
    cases h
    refine ⟨rfl, ?_, rfl⟩
    intro k content hk
    cases hk
  | succ rounds ih =>
    rw [writeVolumes] at h
    obtain ⟨⟨content, written⟩, hfirst, h⟩ := bind_eq_ok.1 h
    obtain ⟨⟨rest, last⟩, hrest, h⟩ := bind_eq_ok.1 h
    cases h
    obtain ⟨hcontent, hwritten⟩ := writeVolume_eq_ok hfirst
    obtain ⟨hlen, hall, hlast⟩ := ih hrest
    refine ⟨by rw [List.length_cons, hlen], ?_, by rw [hlast, hwritten]⟩
    intro k content' hk
    cases k with
    | zero =>
      cases hk
      exact hcontent
    | succ k =>
      have := hall k content' hk
      rwa [Nat.add_assoc, Nat.add_comm 1 k] at this

theorem writeVolumes_ok (archive : List UInt8) {base : Path} {total volumeSize : Nat} (hlayout : LayoutOf base total volumeSize layout)
    (huuid : layout.writeSqzv = true → uuid.isSome = true) {files : ParityFiles}
    (hfiles : files.lengths = layout.parityLengths volumeSize) {index rounds : Nat} (hpos : 0 < index)
    (hrounds : index + rounds = layout.count + 1) :
    ∃ written, writeVolumes layout uuid archive files index rounds = .ok written := by
  induction rounds generalizing files index with
  | zero => exact ⟨_, rfl⟩
  | succ rounds ih =>
    have hbounded : layout.count < 2 ^ 32 := Nat.lt_of_le_of_lt hlayout.bounded (by decide)
    obtain ⟨content, hcontent⟩ := volumeContent_ok archive huuid (by omega : index < 2 ^ 32) hbounded
    obtain ⟨written, hwritten⟩ := writeVolume_ok hlayout hfiles hpos (by omega) hcontent
    have hlengths := (writeVolume_eq_ok hwritten).2.trans hfiles
    obtain ⟨rest, hrest⟩ := ih hlengths (Nat.succ_pos index) (by omega)
    exact ⟨_, bind_eq_ok.2 ⟨_, hwritten, bind_eq_ok.2 ⟨rest, hrest, rfl⟩⟩⟩

/-- The bytes of the volumes are the bytes of the archive up to their end, and the headers. -/
theorem writeVolumes_bytes {files files' : ParityFiles} {index rounds : Nat} {contents : List (List UInt8)}
    (h : writeVolumes layout uuid archive files index rounds = .ok (contents, files')) (hpos : 0 < index) :
    (contents.map List.length).sum + min archive.length ((index - 1) * layout.logicalVolumeSize) =
      rounds * layout.headerLen + min archive.length ((index - 1 + rounds) * layout.logicalVolumeSize) := by
  induction rounds generalizing files index contents with
  | zero =>
    cases h
    rw [List.map_nil, List.sum_nil, Nat.zero_mul, Nat.add_zero]
  | succ rounds ih =>
    rw [writeVolumes] at h
    obtain ⟨⟨content, written⟩, hfirst, h⟩ := bind_eq_ok.1 h
    obtain ⟨⟨rest, last⟩, hrest, h⟩ := bind_eq_ok.1 h
    cases h
    have hcontent := length_volumeContent (writeVolume_eq_ok hfirst).1
    have hih := ih hrest (Nat.succ_pos index)
    have hnext : (index + 1 - 1) * layout.logicalVolumeSize =
        (index - 1) * layout.logicalVolumeSize + layout.logicalVolumeSize := by
      rw [← Nat.succ_mul, Nat.add_sub_cancel]
      congr 1
      omega
    have hend : index + 1 - 1 + rounds = index - 1 + (rounds + 1) := by omega
    rw [hend, hnext] at hih
    rw [List.map_cons, List.sum_cons, Nat.succ_mul]
    omega

end Rounds

/-! ## The outputs -/

/-- The archive that is cut, and the UUID of its set. -/
def preparedArchive (layout : SplitLayout) (tmp : Path) (archive : List UInt8) : Res (List UInt8 × Option Uuid) :=
  if layout.writeSqzv then do
    let (archive, uuid) ← prepareSqzForSplit archive tmp
    return (archive, some uuid)
  else .ok (archive, none)

theorem preparedArchive_eq_ok {layout : SplitLayout} {tmp : Path} {archive prepared : List UInt8} {uuid : Option Uuid}
    (h : preparedArchive layout tmp archive = .ok (prepared, uuid)) :
    prepared.length = archive.length ∧ (layout.writeSqzv = true → uuid.isSome = true) := by
  unfold preparedArchive at h
  split at h
  · obtain ⟨⟨marked, id⟩, hmarked, h⟩ := bind_eq_ok.1 h
    cases h
    refine ⟨?_, fun _ => rfl⟩
    unfold prepareSqzForSplit at hmarked
    split at hmarked
    · cases hmarked
    · rename_i hlen
      dsimp only at hmarked
      split at hmarked
      · cases hmarked
      · cases hmarked
        simp only [List.length_append, length_leBytes, List.length_take, List.length_drop, length_slice]
        unfold sqzHeaderLen at *
        omega
  · rename_i hsqzv
    cases h
    exact ⟨rfl, fun hs => absurd hs hsqzv⟩

/-- Whatever has the beginning of an SQZ archive can be cut. -/
theorem preparedArchive_ok (tmp : Path) (archive : List UInt8) (layout : SplitLayout) (hlen : sqzHeaderLen ≤ archive.length)
    (hmagic : archive.take 8 = sqzMagic) : ∃ prepared, preparedArchive layout tmp archive = .ok prepared := by
  unfold preparedArchive
  split
  · have htake : (archive.take sqzHeaderLen).take 8 = sqzMagic := by
      rw [List.take_take]
      exact hmagic
    rw [prepareSqzForSplit, if_neg (Nat.not_lt.2 hlen)]
    dsimp only
    rw [if_neg (not_not.2 htake)]
    exact ⟨_, rfl⟩
  · exact ⟨_, rfl⟩

/-- The files beside the volumes. -/
def sidecarOutputs (base : Path) (layout : SplitLayout) (tail : List UInt8) (files : ParityFiles) : List SplitOutput :=
  (if layout.writeSqzv ∧ 1 < layout.count then [⟨recoveryVolumePath base layout.count, .tailRecovery, tail⟩] else []) ++
  ((files.parity.map fun file => ⟨recoveryParityVolumePath base, .parity, file⟩).toList ++
  ((files.weighted.map fun file => ⟨recoveryWeightedParityVolumePath base, .weightedParity, file⟩).toList ++
  (files.quadratic.map fun file => ⟨recoveryQuadraticParityVolumePath base, .quadraticParity, file⟩).toList))

theorem length_finishParity {layout : SplitLayout} {uuid : Option Uuid} {volumeSize tailPhysicalLen algorithm : Nat}
    {target : String} {file file' : List UInt8} (hlen : sqzrHeaderLen ≤ file.length)
    (h : finishParity layout uuid volumeSize tailPhysicalLen algorithm target file = .ok file') :
    file'.length = file.length := by
  unfold finishParity at h
  cases uuid with
  | none => cases h
  | some uuid =>
    obtain ⟨header, hheader, h⟩ := bind_eq_ok.1 h
    cases h
    rw [List.length_append, length_sqzrHeader hheader, List.length_drop]
    omega

/-- The parity files before the first volume. -/
def startFiles (layout : SplitLayout) (volumeSize : Nat) : ParityFiles :=
  let reserve (written : Bool) := if written then some (emptyParity volumeSize) else none
  ⟨reserve (layout.writeSqzv && 1 < layout.count), reserve layout.writeWeightedParity, reserve layout.writeQuadraticParity⟩

theorem lengths_startFiles (layout : SplitLayout) (volumeSize : Nat) :
    (startFiles layout volumeSize).lengths = layout.parityLengths volumeSize := by
  have reserved : ∀ written : Bool, (if written then some (emptyParity volumeSize) else none).map List.length =
      if written then some (sqzrHeaderLen + volumeSize) else none := by
    rintro (_ | _)
    · rfl
    · exact congrArg some List.length_replicate
  rw [ParityFiles.lengths, SplitLayout.parityLengths]
  dsimp only [startFiles]
  rw [reserved, reserved, reserved]

/-- The parity files with their headers. -/
def finishedFiles (layout : SplitLayout) (uuid : Option Uuid) (volumeSize tailPhysicalLen : Nat) (files : ParityFiles) :
    Res ParityFiles := do
  let parity ← files.parity.mapM
    (finishParity layout uuid volumeSize tailPhysicalLen sqzrAlgoXorSingle "SQZR single parity header")
  let weighted ← files.weighted.mapM
    (finishParity layout uuid volumeSize tailPhysicalLen sqzrAlgoXorWeighted "SQZR weighted parity header")
  let quadratic ← files.quadratic.mapM
    (finishParity layout uuid volumeSize tailPhysicalLen sqzrAlgoXorQuadratic "SQZR quadratic parity header")
  return ⟨parity, weighted, quadratic⟩

theorem splitIntoVolumes_eq (tmp base : Path) (volumeSize : Nat) (archive : List UInt8) (available : Nat) :
    splitIntoVolumes tmp base volumeSize archive available =
      normalizedSplitOutputBase base >>= fun base =>
      splitLayout base archive.length volumeSize >>= fun layout =>
      splitOutputBudget base archive.length volumeSize >>= fun budget =>
      preparedArchive layout tmp archive >>= fun prepared =>
      if available < budget.additionalSpaceBytes then raise .diskFull
      else
        writeVolumes layout prepared.2 prepared.1 (startFiles layout volumeSize) 1 layout.count >>= fun written =>
        finishedFiles layout prepared.2 volumeSize (written.1.getLastD []).length written.2 >>= fun files =>
        .ok (volumeOutputs base written.1 ++ sidecarOutputs base layout (written.1.getLastD []) files) := by
  unfold splitIntoVolumes
  congr 1; funext base; congr 1; funext layout; congr 1; funext budget
  cases hsqzv : layout.writeSqzv with
  | false =>
    simp only [preparedArchive, finishedFiles, startFiles, sidecarOutputs, hsqzv, Bool.false_eq_true, if_false, bind_assoc,
      pure_eq_ok, ok_bind]
  | true =>
    simp only [preparedArchive, finishedFiles, startFiles, sidecarOutputs, hsqzv, if_true, bind_assoc, pure_eq_ok, ok_bind]

theorem lengths_finishedFiles {layout : SplitLayout} {uuid : Option Uuid} {volumeSize tailPhysicalLen : Nat}
    {files files' : ParityFiles} (hfiles : files.lengths = layout.parityLengths volumeSize)
    (h : finishedFiles layout uuid volumeSize tailPhysicalLen files = .ok files') :
    files'.lengths = layout.parityLengths volumeSize := by
  have step : ∀ {o o' : Option (List UInt8)} {written : Bool} {algorithm : Nat} {target : String},
      o.map List.length = (if written then some (sqzrHeaderLen + volumeSize) else none) →
      o.mapM (finishParity layout uuid volumeSize tailPhysicalLen algorithm target) = .ok o' →
      o'.map List.length = (if written then some (sqzrHeaderLen + volumeSize) else none) := by
    intro o o' written algorithm target ho h
    cases o with
    | none =>
      cases h
      exact ho
    | some file =>
      obtain ⟨file', hfile', h⟩ := bind_eq_ok.1 h
      cases h
      cases written with
      | false => cases ho
      | true =>
        have hlen : file.length = sqzrHeaderLen + volumeSize := Option.some.inj ho
        rw [Option.map_some, length_finishParity (hlen ▸ Nat.le_add_right _ _) hfile', hlen, if_pos rfl]
  rw [ParityFiles.lengths, SplitLayout.parityLengths, Prod.mk.injEq, Prod.mk.injEq] at hfiles
  obtain ⟨hp, hw, hq⟩ := hfiles
  unfold finishedFiles at h
  obtain ⟨parity, hparity, h⟩ := bind_eq_ok.1 h
  obtain ⟨weighted, hweighted, h⟩ := bind_eq_ok.1 h
  obtain ⟨quadratic, hquadratic, h⟩ := bind_eq_ok.1 h
  cases h
  rw [ParityFiles.lengths, step hp hparity, step hw hweighted, step hq hquadratic]
  rfl

theorem finishedFiles_ok {layout : SplitLayout} {uuid : Option Uuid} (volumeSize tailPhysicalLen : Nat)
    {files : ParityFiles} (hcount : layout.count < 2 ^ 32)
    (huuid : (∃ file, files.parity = some file ∨ files.weighted = some file ∨ files.quadratic = some file) →
      uuid.isSome = true) : ∃ files', finishedFiles layout uuid volumeSize tailPhysicalLen files = .ok files' := by
  have step : ∀ (algorithm : Nat) (target : String) (file : List UInt8), uuid.isSome = true →
      ∃ file', finishParity layout uuid volumeSize tailPhysicalLen algorithm target file = .ok file' := by
    intro algorithm target file h
    obtain ⟨uuid, rfl⟩ := Option.isSome_iff_exists.1 h
    unfold finishParity sqzrHeader
    dsimp only
    rw [if_neg (Nat.not_le.2 hcount)]
    exact ⟨_, rfl⟩
  obtain ⟨parity, hparity⟩ := mapM_ok fun file hfile =>
    step sqzrAlgoXorSingle "SQZR single parity header" file (huuid ⟨file, .inl hfile⟩)
  obtain ⟨weighted, hweighted⟩ := mapM_ok fun file hfile =>
    step sqzrAlgoXorWeighted "SQZR weighted parity header" file (huuid ⟨file, .inr (.inl hfile)⟩)
  obtain ⟨quadratic, hquadratic⟩ := mapM_ok fun file hfile =>
    step sqzrAlgoXorQuadratic "SQZR quadratic parity header" file (huuid ⟨file, .inr (.inr hfile)⟩)
  refine ⟨⟨parity, weighted, quadratic⟩, ?_⟩
  rw [finishedFiles, hparity, ok_bind, hweighted, ok_bind, hquadratic, ok_bind]
  rfl

/-- What was written, once the splitter is through. -/
structure Written (base : Path) (volumeSize : Nat) (layout : SplitLayout) (uuid : Option Uuid) (archive : List UInt8)
    (contents : List (List UInt8)) (files : ParityFiles) : Prop where
  layoutOf : LayoutOf base archive.length volumeSize layout
  rounds : ∃ written, writeVolumes layout uuid archive (startFiles layout volumeSize) 1 layout.count = .ok (contents, written) ∧
    finishedFiles layout uuid volumeSize (contents.getLastD []).length written = .ok files
  lengths : files.lengths = layout.parityLengths volumeSize

theorem splitIntoVolumes_eq_ok {tmp base : Path} {volumeSize : Nat} {archive : List UInt8} {available : Nat}
    {outputs : List SplitOutput} (h : splitIntoVolumes tmp base volumeSize archive available = .ok outputs) :
    ∃ (base' : Path) (layout : SplitLayout) (prepared : List UInt8) (uuid : Option Uuid) (contents : List (List UInt8))
      (files : ParityFiles),
      normalizedSplitOutputBase base = .ok base' ∧ splitLayout base' archive.length volumeSize = .ok layout ∧
      preparedArchive layout tmp archive = .ok (prepared, uuid) ∧
      Written base' volumeSize layout uuid prepared contents files ∧
      outputs = volumeOutputs base' contents ++ sidecarOutputs base' layout (contents.getLastD []) files := by
  rw [splitIntoVolumes_eq] at h
  obtain ⟨base', hbase, h⟩ := bind_eq_ok.1 h
  obtain ⟨layout, hlayout, h⟩ := bind_eq_ok.1 h
  obtain ⟨budget, -, h⟩ := bind_eq_ok.1 h
  obtain ⟨⟨prepared, uuid⟩, hprepared, h⟩ := bind_eq_ok.1 h
  split at h
  · cases h
  · obtain ⟨⟨contents, written⟩, hwritten, h⟩ := bind_eq_ok.1 h
    obtain ⟨files, hfiles, h⟩ := bind_eq_ok.1 h
    cases h
    refine ⟨base', layout, prepared, uuid, contents, files, hbase, hlayout, hprepared, ⟨?_, ⟨written, hwritten, hfiles⟩, ?_⟩,
      rfl⟩
    · rw [(preparedArchive_eq_ok hprepared).1]
      exact splitLayout_eq_ok hlayout
    · refine lengths_finishedFiles ?_ hfiles
      rw [(writeVolumes_eq_ok hwritten).2.2, lengths_startFiles]

/-- The splitter comes through wherever there is a layout, an archive of the kind that the name announces, and room. -/
theorem splitIntoVolumes_ok {tmp base base' : Path} {volumeSize : Nat} {archive prepared : List UInt8} {available : Nat}
    {layout : SplitLayout} {budget : SplitOutputBudget} {uuid : Option Uuid}
    (hbase : normalizedSplitOutputBase base = .ok base') (hlayout : splitLayout base' archive.length volumeSize = .ok layout)
    (hbudget : splitOutputBudget base' archive.length volumeSize = .ok budget)
    (hprepared : preparedArchive layout tmp archive = .ok (prepared, uuid))
    (hspace : budget.additionalSpaceBytes ≤ available) :
    ∃ outputs, splitIntoVolumes tmp base volumeSize archive available = .ok outputs := by
  have hof := splitLayout_eq_ok hlayout
  obtain ⟨hlen, huuid⟩ := preparedArchive_eq_ok hprepared
  obtain ⟨⟨contents, written⟩, hwritten⟩ := writeVolumes_ok prepared hof huuid (lengths_startFiles layout volumeSize)
    Nat.one_pos (Nat.add_comm 1 layout.count)
  have hlengths := (writeVolumes_eq_ok hwritten).2.2.trans (lengths_startFiles layout volumeSize)
  have hsqzv : (∃ file, written.parity = some file ∨ written.weighted = some file ∨ written.quadratic = some file) →
      layout.writeSqzv = true := by
    rw [ParityFiles.lengths, SplitLayout.parityLengths, Prod.mk.injEq, Prod.mk.injEq, hof.weighted, hof.quadratic] at hlengths
    obtain ⟨hp, hw, hq⟩ := hlengths
    cases hs : layout.writeSqzv with
    | true => exact fun _ => rfl
    | false =>
      rw [hs] at hp hw hq
      rintro ⟨file, h | h | h⟩
      · rw [h] at hp
        cases hp
      · rw [h] at hw
        cases hw
      · rw [h] at hq
        cases hq
  obtain ⟨files, hfiles⟩ := finishedFiles_ok volumeSize (contents.getLastD []).length
    (Nat.lt_of_le_of_lt hof.bounded (by decide)) fun h => huuid (hsqzv h)
  refine ⟨volumeOutputs base' contents ++ sidecarOutputs base' layout (contents.getLastD []) files, ?_⟩
  rw [splitIntoVolumes_eq, hbase, ok_bind, hlayout, ok_bind, hbudget, ok_bind, hprepared, ok_bind,
    if_neg (Nat.not_lt.2 hspace), hwritten, ok_bind, hfiles, ok_bind]

end Squallz.Volumes
