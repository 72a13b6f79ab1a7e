/-
A file split into volumes without headers is read back as it was, exactly if no volume looks as if it had one.
-/
import Squallz.Volumes.Opening
import Squallz.Volumes.Remaining
import Squallz.Volumes.ZeroFill

namespace Squallz.Volumes

open Squallz.Api Squallz.Bytes Squallz.Destination

/-! ## What is found -/

section Found

variable {disk : Disk} {base : Path} {layout : SplitLayout} {contents : List (List UInt8)} {files : ParityFiles}

/-- Where nothing is missing, every volume is found, in order. -/
theorem Remains.present_eq (hbase : (fileName base).isSome = true)
    (h : Remains disk base (volumeOutputs base contents ++ sidecarOutputs base layout (contents.getLastD []) files)
      fun _ => false) :
    (presentVolumes disk base).toList = (List.range' 1 contents.length).map fun index => (index, volumePath base index) := by
  have hmem : ∀ index path, (index, path) ∈ (presentVolumes disk base).toList ↔
      path = volumePath base index ∧ 0 < index ∧ index ≤ contents.length := by
    intro index path
    rw [h.present hbase]
    constructor
    · rintro ⟨-, rfl, k, content, rfl, hcontent, -⟩
      obtain ⟨hlt, -⟩ := List.getElem?_eq_some_iff.1 hcontent
      exact ⟨rfl, Nat.succ_pos k, hlt⟩
    · rintro ⟨rfl, hpos, hle⟩
      obtain ⟨k, rfl⟩ := Nat.exists_eq_add_one.2 hpos
      have hcontent : contents[k]? = some contents[k] := List.getElem?_eq_getElem hle
      exact ⟨rfl, rfl, k, _, rfl, hcontent, h.files _ _ _ _ (volume_mem_iff.2 ⟨hcontent, rfl, rfl⟩) rfl⟩
  have hkeys : (presentVolumes disk base).toList.map Prod.fst = List.range' 1 contents.length := by
    refine eq_range'_of_mem (presentVolumes_sorted disk base) fun index => ?_
    rw [List.mem_map]
    constructor
    · rintro ⟨⟨index, path⟩, hin, rfl⟩
      exact ((hmem index path).1 hin).2
    · intro hindex
      exact ⟨(index, volumePath base index), (hmem _ _).2 ⟨rfl, hindex⟩, rfl⟩
  rw [← hkeys, List.map_map]
  refine (List.map_id _).symm.trans (List.map_congr_left fun volume hin => ?_)
  obtain ⟨index, path⟩ := volume
  rw [((hmem index path).1 hin).1]
  rfl

/-- Where no volume that was written is missing, nothing is. -/
theorem Remains.all {outputs : List SplitOutput} {missing : Nat → Bool} (h : Remains disk base outputs missing)
    (hnone : ∀ index primary path content, ⟨path, .volume index primary, content⟩ ∈ outputs → missing (index + 1) = false) :
    Remains disk base outputs fun _ => false where
  listed index primary path content hout _ := h.listed index primary path content hout (hnone index primary path content hout)
  only index name hname := ⟨rfl, (h.only index name hname).2⟩
  files index primary path content hout _ := h.files index primary path content hout (hnone index primary path content hout)

/-- The part of a volume without a header. -/
def plainPart (base : Path) (contents : List (List UInt8)) (index : Nat) : VolumePart :=
  ⟨volumePath base index, 0, (contents.getD (index - 1) []).length, .file⟩

theorem plainParts_range {nodes : Nodes} {index rounds : Nat}
    (h : ∀ i, index ≤ i → i < index + rounds → nodes (volumePath base i) = some (.file (contents.getD (i - 1) []))) :
    plainParts nodes base index ((List.range' index rounds).map fun i => (i, volumePath base i)) =
      .ok ((List.range' index rounds).map (plainPart base contents), index + rounds) := by
  induction rounds generalizing index with
  | zero => rfl
  | succ rounds ih =>
    have hrest := @ih (index + 1) fun i hi hlt => h i (by omega) (by omega)
    rw [List.range'_succ, List.map_cons, plainParts, if_neg (not_not.2 rfl), h index (Nat.le_refl _) (by omega)]
    dsimp only
    rw [hrest, ok_bind, Nat.add_assoc, Nat.add_comm 1 rounds]
    rfl

/-- Outside of SQZ sets, the volumes that were written are collected from any of them. -/
theorem Remains.collect {volume : Path} {baseName : List Char} {selectedIndex : Nat} (hbase : (fileName base).isSome = true)
    (hplain : isSqzBase base = false) (hpos : 0 < contents.length)
    (hvolume : ((fileName volume).bind toStr).bind splitVolumeName = some (baseName, selectedIndex))
    (hvolumeBase : withFileName volume (osStr baseName) = base) (hselected : selectedIndex ≤ contents.length)
    (h : Remains disk base (volumeOutputs base contents ++ sidecarOutputs base layout (contents.getLastD []) files)
      fun _ => false) :
    collectVolumeSet disk volume = .ok ((List.range' 1 contents.length).map (plainPart base contents)) := by
  have hnodes : ∀ i, 1 ≤ i → i < 1 + contents.length →
      disk.nodes (volumePath base i) = some (.file (contents.getD (i - 1) [])) := by
    intro i hi hlt
    obtain ⟨k, rfl⟩ := Nat.exists_eq_add_one.2 hi
    have hk : k < contents.length := by omega
    have hcontent : contents[k]? = some contents[k] := List.getElem?_eq_getElem hk
    rw [h.files _ _ _ _ (volume_mem_iff.2 ⟨hcontent, rfl, rfl⟩) rfl, Nat.add_sub_cancel, List.getD_eq_getElem?_getD, hcontent]
    rfl
  have hmax : ((((List.range' 1 contents.length).map fun index => (index, volumePath base index)).getLast?).map
      Prod.fst).getD 0 = contents.length := by
    rw [← List.getLast?_map, List.map_map, show (Prod.fst ∘ fun index => (index, volumePath base index)) = id from rfl,
      List.map_id, List.getLast?_range', if_neg (by omega), Option.getD_some]
    omega
  rw [collectVolumeSet_eq hvolume, hvolumeBase, h.present_eq hbase, collectPresent]
  dsimp only
  rw [hmax, if_neg (by omega), hplain, if_neg Bool.false_ne_true]
  show plainParts disk.nodes base 1 _ >>= (fun found => if found.2 ≤ max contents.length selectedIndex then
    missingVolume (volumePath base found.2) else Except.ok found.1) = _
  rw [plainParts_range hnodes, ok_bind, if_neg (by omega)]

end Found

/-! ## What is opened -/

/-- A volume that looks as if it had a header. -/
def looksHeaded (content : List UInt8) : Bool := sqzvHeaderLen ≤ content.length ∧ content.take 4 = sqzvMagic

theorem readSqzvHeader_eq_none {content : List UInt8} : readSqzvHeader content = .ok none ↔ looksHeaded content = false := by
  unfold readSqzvHeader parseSqzvHeader looksHeaded
  rw [decide_eq_false_iff_not]
  by_cases hlen : content.length < sqzvHeaderLen
  · rw [if_pos hlen]
    exact iff_of_true rfl fun h => absurd h.1 (Nat.not_le.2 hlen)
  · have htake : (content.take sqzvHeaderLen).take 4 = content.take 4 := by
      rw [List.take_take]
      rfl
    rw [if_neg hlen, htake]
    by_cases hmagic : content.take 4 = sqzvMagic
    · rw [if_neg (not_not.2 hmagic)]
      refine iff_of_false (fun h => ?_) fun h => h ⟨Nat.le_of_not_lt hlen, hmagic⟩
      split at h <;> cases h
    · rw [if_pos hmagic]
      exact iff_of_true rfl fun h => hmagic h.2

section Opened

variable {nodes : Nodes} {base : Path} {count : Nat} {contents : List (List UInt8)}

/-- Without a header in any of them, the volumes are opened as they are. -/
theorem openParts_plain {index rounds : Nat}
    (hnodes : ∀ i, index ≤ i → i < index + rounds → nodes (volumePath base i) = some (.file (contents.getD (i - 1) [])))
    (hplain : ∀ i, index ≤ i → i < index + rounds → looksHeaded (contents.getD (i - 1) []) = false)
    (reader : MultiVolumeReader) :
    MultiVolumeReader.openParts nodes count index none reader ((List.range' index rounds).map (plainPart base contents)) =
      .ok (reader.pushAll ((List.range' index rounds).map fun i =>
        ⟨.file (contents.getD (i - 1) []), 0, (contents.getD (i - 1) []).length⟩)) := by
  induction rounds generalizing index reader with
  | zero => rfl
  | succ rounds ih =>
    have hheader := readSqzvHeader_eq_none.2 (hplain index (Nat.le_refl _) (by omega))
    rw [List.range'_succ, List.map_cons, MultiVolumeReader.openParts, MultiVolumeReader.openPart]
    dsimp only [plainPart]
    rw [openFile_eq_ok.2 (hnodes index (Nat.le_refl _) (by omega)), ok_bind, hheader]
    dsimp only [MultiVolumeReader.checkHeader]
    exact @ih (index + 1) (fun i hi hlt => hnodes i (by omega) (by omega)) (fun i hi hlt => hplain i (by omega) (by omega)) _

theorem checkHeader_eq_ok {part : VolumePart} {index dataOffset : Nat} {known known' : Option Uuid}
    {header : Option SqzvHeader}
    (h : MultiVolumeReader.checkHeader part index count known header = .ok (dataOffset, known')) :
    dataOffset = if header = none then 0 else sqzvHeaderLen := by
  unfold MultiVolumeReader.checkHeader at h
  split at h
  · cases h
    rfl
  · obtain ⟨_, -, h⟩ := bind_eq_ok.1 h
    cases h
    rfl
  · obtain ⟨_, -, h⟩ := bind_eq_ok.1 h
    split at h
    · cases h
    · cases h
      rfl
  · cases h

/-- However they are opened, the headers that are seen in the volumes are left out. -/
theorem openParts_headed {index rounds : Nat} {known : Option Uuid} {reader opened : MultiVolumeReader}
    (hnodes : ∀ i, index ≤ i → i < index + rounds → nodes (volumePath base i) = some (.file (contents.getD (i - 1) [])))
    (h : MultiVolumeReader.openParts nodes count index known reader
      ((List.range' index rounds).map (plainPart base contents)) = .ok opened) :
    ∃ segments : List Segment, opened = reader.pushAll segments ∧ (∀ segment ∈ segments, segment.Backed) ∧
      (segments.map Segment.logicalLen).sum +
        sqzvHeaderLen * (List.range' index rounds).countP (fun i => looksHeaded (contents.getD (i - 1) [])) =
        ((List.range' index rounds).map fun i => (contents.getD (i - 1) []).length).sum := by
  induction rounds generalizing index known reader with
  | zero =>
    cases h
    exact ⟨[], rfl, fun segment hsegment => absurd hsegment List.not_mem_nil, rfl⟩
  | succ rounds ih =>
    have hpart : MultiVolumeReader.openPart nodes (plainPart base contents index) =
        readSqzvHeader (contents.getD (index - 1) []) >>= fun header =>
          .ok (some (.file (contents.getD (index - 1) []), (contents.getD (index - 1) []).length, header)) := by
      unfold MultiVolumeReader.openPart plainPart
      dsimp only
      rw [openFile_eq_ok.2 (hnodes index (Nat.le_refl _) (by omega)), ok_bind]
      rfl
    rw [List.range'_succ, List.map_cons, MultiVolumeReader.openParts, hpart] at h
    cases hheader : readSqzvHeader (contents.getD (index - 1) []) with
    | error fault =>
      rw [hheader] at h
      cases h
    | ok header =>
      rw [hheader, ok_bind, ok_bind] at h
      dsimp only at h
      obtain ⟨⟨dataOffset, known'⟩, hcheck, h⟩ := bind_eq_ok.1 h
      dsimp only at h
      split at h
      · cases h
      · rename_i hlen
        obtain ⟨segments, hopened, hbacked, hsum⟩ := @ih (index + 1) _ _ (fun i hi hlt => hnodes i (by omega) (by omega)) h
        have hoffset := checkHeader_eq_ok hcheck
        have hheaded : sqzvHeaderLen * (if looksHeaded (contents.getD (index - 1) []) = true then 1 else 0) = dataOffset := by
          rw [hoffset]
          cases header with
          | none =>
            rw [readSqzvHeader_eq_none.1 hheader]
            rfl
          | some header =>
            have hlooks : looksHeaded (contents.getD (index - 1) []) ≠ false := fun hnot => by
              rw [readSqzvHeader_eq_none.2 hnot] at hheader
              cases hheader
            rw [if_pos (Bool.eq_true_of_not_eq_false hlooks), if_neg (by simp), Nat.mul_one]
        refine ⟨⟨.file (contents.getD (index - 1) []), dataOffset, (contents.getD (index - 1) []).length - dataOffset⟩ ::
          segments, hopened, fun segment hsegment => ?_, ?_⟩
        · cases hsegment with
          | head =>
            show dataOffset + ((contents.getD (index - 1) []).length - dataOffset) ≤ _
            omega
          | tail _ hsegment => exact hbacked segment hsegment
        · rw [List.range'_succ, List.map_cons, List.sum_cons, List.map_cons, List.sum_cons, List.countP_cons, ← hsum, Nat.mul_add,
            hheaded]
          dsimp only
          omega

end Opened

/-! ## The round trip -/

/-- A volume without a header is a block of the archive. -/
theorem Written.block_content {base : Path} {volumeSize : Nat} {layout : SplitLayout} {uuid : Option Uuid}
    {archive : List UInt8} {contents : List (List UInt8)} {files : ParityFiles}
    (h : Written base volumeSize layout uuid archive contents files) (hplain : layout.writeSqzv = false) :
    contents.length = layout.count ∧ layout.logicalVolumeSize = volumeSize ∧
      ∀ k, k < layout.count → contents.getD k [] = block volumeSize archive k := by
  obtain ⟨written, hwritten, -⟩ := h.rounds
  obtain ⟨hlen, hcontents, -⟩ := writeVolumes_eq_ok hwritten
  have hroom := h.layoutOf.header_add
  rw [hplain, if_neg Bool.false_ne_true, Nat.zero_add] at hroom
  refine ⟨hlen, hroom, fun k hk => ?_⟩
  have hget : contents[k]? = some contents[k] := List.getElem?_eq_getElem (hlen ▸ hk)
  have hcontent := hcontents k _ hget
  unfold volumeContent at hcontent
  rw [hplain, if_neg Bool.false_ne_true, Nat.add_comm 1 k, volumeData_eq_block, hroom] at hcontent
  rw [List.getD_eq_getElem?_getD, hget, Option.getD_some]
  exact (Except.ok.inj hcontent).symm

/-- The blocks of an archive, whether or not it is empty. -/
theorem flatten_volumes {base : Path} {volumeSize : Nat} {layout : SplitLayout} {archive : List UInt8}
    (h : LayoutOf base archive.length volumeSize layout) :
    ((List.range layout.count).map (block layout.logicalVolumeSize archive)).flatten = archive := by
  have hblocks := flatten_blocks h.logical_pos archive
  by_cases hcount : layout.count = divCeil archive.length layout.logicalVolumeSize
  · rwa [hcount]
  · have hzero : divCeil archive.length layout.logicalVolumeSize = 0 := by
      have := h.count
      omega
    have hone : layout.count = 1 := by
      have := h.count
      omega
    rw [hzero, List.range_zero, List.map_nil, List.flatten_nil] at hblocks
    rw [hone, ← hblocks, List.range_one, List.map_singleton, List.flatten_singleton, block, slice, List.drop_nil, List.take_nil]

/-- Segments that hold the blocks of a list, one behind the other, are read as the list. -/
theorem answers_of_blocks {segments : List Segment} {size count : Nat} {l : List UInt8}
    (hbytes : segments.map Segment.bytes = (List.range count).map (block size l))
    (hflatten : ((List.range count).map (block size l)).flatten = l) (hbacked : ∀ segment ∈ segments, segment.Backed)
    (hlen : l.length < 2 ^ 64) :
    (MultiVolumeReader.ofSegments segments).content = l ∧ ∀ search, Finds search → ∀ calls : List (Call Nat),
      (MultiVolumeReader.ofSegments segments).flat.Answers u64Max 0 calls
        ((MultiVolumeReader.stream search).answers (MultiVolumeReader.ofSegments segments) calls) := by
  have hcontent : (segments.map Segment.bytes).flatten = l := by rw [hbytes, hflatten]
  have hsum : (segments.map Segment.logicalLen).sum = l.length := by
    rw [← MultiVolumeReader.length_bytes_flatten hbacked, hcontent]
  have hfull : (segments.map Segment.logicalLen).Pairwise fun a b => a = 0 → b = 0 := by
    have hlens : segments.map Segment.logicalLen = (segments.map Segment.bytes).map List.length := by
      rw [List.map_map]
      exact List.map_congr_left fun segment hsegment => (hbacked segment hsegment).length_bytes.symm
    rw [hlens, hbytes, List.map_map]
    refine List.pairwise_map.2 (List.pairwise_lt_range.imp fun {i j} hij hzero => ?_)
    have hmul := Nat.mul_le_mul_right size (Nat.le_of_lt hij)
    rw [Function.comp_apply, length_block] at hzero ⊢
    omega
  refine ⟨by rw [MultiVolumeReader.ofSegments_content, hcontent], fun search hsearch calls => ?_⟩
  exact MultiVolumeReader.answers_flat hbacked (by omega) hsearch
    (fun _ _ hpos hfound => MultiVolumeReader.full_of_trailing hfull hsearch hpos hfound) calls

theorem looksHeaded_block {volumeSize : Nat} (hsize : sqzvHeaderLen ≤ volumeSize) (archive : List UInt8) (k : Nat) :
    looksHeaded (block volumeSize archive k) = true ↔
      k * volumeSize + sqzvHeaderLen ≤ archive.length ∧ slice archive (k * volumeSize) 4 = sqzvMagic := by
  have htake : (block volumeSize archive k).take 4 = slice archive (k * volumeSize) 4 := by
    rw [block, slice, slice, List.take_take, Nat.min_eq_left (Nat.le_trans (by decide) hsize)]
  unfold looksHeaded
  rw [decide_eq_true_eq, htake, length_block]
  refine and_congr_left fun _ => ?_
  have hpos : 0 < sqzvHeaderLen := by decide
  omega

/-- A file that was split without headers is read back as it was from any of its volumes, exactly if no volume that could hold
a header begins like one. -/
theorem opened_plain_iff {tmp base base' volume : Path} {volumeSize available selectedIndex : Nat} {archive : List UInt8}
    {outputs : List SplitOutput} {layout : SplitLayout} {disk : Disk} {baseName : List Char}
    (hsplit : splitIntoVolumes tmp base volumeSize archive available = .ok outputs)
    (hbase : normalizedSplitOutputBase base = .ok base') (hplain : isSqzBase base' = false)
    (hname : (fileName base').isSome = true) (hlayout : splitLayout base' archive.length volumeSize = .ok layout)
    (harchive : archive.length ≤ u64Max)
    (hvolume : ((fileName volume).bind toStr).bind splitVolumeName = some (baseName, selectedIndex))
    (hvolumeBase : withFileName volume (osStr baseName) = base') (hselected : selectedIndex ≤ layout.count)
    (hremains : Remains disk base' outputs fun _ => false) :
    (∃ set reader, collectVolumeSet disk volume = .ok set ∧ MultiVolumeReader.openSet disk.nodes set = .ok reader ∧
      reader.content = archive ∧
      ∀ search, Finds search → ∀ calls : List (Call Nat),
        reader.flat.Answers u64Max 0 calls ((MultiVolumeReader.stream search).answers reader calls)) ↔
      ∀ k, k * volumeSize + sqzvHeaderLen ≤ archive.length → slice archive (k * volumeSize) 4 ≠ sqzvMagic := by
  obtain ⟨base'', layout', prepared, uuid, contents, files, hbase', hlayout', hprepared, hwritten, rfl⟩ :=
    splitIntoVolumes_eq_ok hsplit
  cases hbase'.symm.trans hbase
  cases hlayout'.symm.trans hlayout
  have hof := splitLayout_eq_ok hlayout
  have hsqzv : layout.writeSqzv = false := hof.writeSqzv.trans hplain
  rw [preparedArchive, hsqzv, if_neg Bool.false_ne_true] at hprepared
  cases hprepared
  obtain ⟨hcontents, hlogical, hblock⟩ := hwritten.block_content hsqzv
  have hflatten := flatten_volumes hwritten.layoutOf
  have hcollect := hremains.collect hname hplain (hcontents ▸ hof.count_pos) hvolume hvolumeBase (hcontents ▸ hselected)
  have hnodes : ∀ i, 1 ≤ i → i < 1 + layout.count →
      disk.nodes (volumePath base' i) = some (.file (contents.getD (i - 1) [])) := by
    intro i hi hlt
    obtain ⟨k, rfl⟩ := Nat.exists_eq_add_one.2 hi
    have hcontent : contents[k]? = some contents[k] := List.getElem?_eq_getElem (by omega)
    rw [hremains.files _ _ _ _ (volume_mem_iff.2 ⟨hcontent, rfl, rfl⟩) rfl, Nat.add_sub_cancel, List.getD_eq_getElem?_getD,
      hcontent]
    rfl
  have hvolumes : ∀ i, 1 ≤ i → i < 1 + layout.count → contents.getD (i - 1) [] = block volumeSize archive (i - 1) :=
    fun i hi hlt => hblock (i - 1) (by omega)
  have hheaded := fun k => looksHeaded_block (Nat.le_trans (by decide) hof.minimum) archive k
  constructor
  · rintro ⟨set, reader, hset, hopen, hcontent, -⟩ k hk hmagic
    cases hcollect.symm.trans hset
    rw [MultiVolumeReader.openSet, List.length_map, List.length_range', hcontents] at hopen
    obtain ⟨segments, rfl, hbacked, hsum⟩ := openParts_headed hnodes hopen
    have hlen : (MultiVolumeReader.ofSegments segments).content.length = (segments.map Segment.logicalLen).sum :=
      MultiVolumeReader.length_content hbacked
    rw [show MultiVolumeReader.ofSegments segments = MultiVolumeReader.pushAll ⟨[], [], [], [], 0, 0⟩ segments from rfl,
      hcontent] at hlen
    have htotal : ((List.range' 1 layout.count).map fun i => (contents.getD (i - 1) []).length).sum = archive.length := by
      conv_rhs => rw [← hflatten]
      rw [List.length_flatten, List.map_map, List.range'_eq_map_range, List.map_map]
      refine congrArg List.sum (List.map_congr_left fun i hi => ?_)
      rw [Function.comp_apply, Function.comp_apply, Nat.add_sub_cancel_left, hblock i (List.mem_range.1 hi), hlogical]
    have hcountK : k < layout.count := by
      have hle := hwritten.layoutOf.total_le
      have hpos : 0 < sqzvHeaderLen := by decide
      rw [hlogical] at hle
      exact Nat.lt_of_mul_lt_mul_right (by omega : k * volumeSize < layout.count * volumeSize)
    have hnone : 0 < (List.range' 1 layout.count).countP fun i => looksHeaded (contents.getD (i - 1) []) := by
      refine List.countP_pos_iff.2 ⟨k + 1, List.mem_range'_1.2 (by omega), ?_⟩
      rw [Nat.add_sub_cancel, hblock k hcountK]
      exact (hheaded k).2 ⟨hk, hmagic⟩
    rw [htotal, ← hlen] at hsum
    have hpos : 0 < sqzvHeaderLen := by decide
    have := Nat.mul_pos hpos hnone
    omega
  · intro hnone
    have hunheaded : ∀ i, 1 ≤ i → i < 1 + layout.count → looksHeaded (contents.getD (i - 1) []) = false := by
      intro i hi hlt
      rw [hvolumes i hi hlt]
      refine Bool.eq_false_of_not_eq_true fun hlooks => ?_
      obtain ⟨hroom, hmagic⟩ := (hheaded (i - 1)).1 hlooks
      exact hnone (i - 1) hroom hmagic
    have hbytes : ((List.range' 1 layout.count).map fun i => Segment.mk (.file (contents.getD (i - 1) [])) 0
        (contents.getD (i - 1) []).length).map Segment.bytes =
        (List.range layout.count).map (block layout.logicalVolumeSize archive) := by
      rw [List.map_map, List.range'_eq_map_range, List.map_map]
      refine List.map_congr_left fun k hk => ?_
      rw [Function.comp_apply, Function.comp_apply, Nat.add_sub_cancel_left, hlogical, ← hblock k (List.mem_range.1 hk)]
      exact slice_full _
    have hbacked : ∀ segment ∈ (List.range' 1 layout.count).map fun i =>
        Segment.mk (.file (contents.getD (i - 1) [])) 0 (contents.getD (i - 1) []).length, segment.Backed := by
      intro segment hsegment
      obtain ⟨i, -, rfl⟩ := List.mem_map.1 hsegment
      exact (Nat.zero_add _).le
    refine ⟨_, _, hcollect, ?_, answers_of_blocks hbytes hflatten hbacked (Nat.lt_of_le_of_lt harchive (by decide))⟩
    rw [MultiVolumeReader.openSet, List.length_map, List.length_range', hcontents]
    exact openParts_plain hnodes hunheaded ⟨[], [], [], [], 0, 0⟩

/-- A file of three volumes, none of which begins like a header. -/
theorem opened_plain_iff_zeros :
    ∃ (outputs : List SplitOutput) (disk : Disk) (set : VolumeSet) (reader : MultiVolumeReader),
      splitIntoVolumes [] [osStr "x.zip".toList] 1024 (List.replicate 2100 0) (2 ^ 30) = .ok outputs ∧
      Remains disk [osStr "x.zip".toList] outputs (fun _ => false) ∧
      collectVolumeSet disk [osStr "x.zip.002".toList] = .ok set ∧ MultiVolumeReader.openSet disk.nodes set = .ok reader ∧
      reader.content = List.replicate 2100 0 := by
  have hlen : (List.replicate 2100 (0 : UInt8)).length = 2100 := List.length_replicate
  have hbase : normalizedSplitOutputBase [osStr "x.zip".toList] = .ok [osStr "x.zip".toList] := by decide +kernel
  have hlayout : splitLayout [osStr "x.zip".toList] (List.replicate 2100 (0 : UInt8)).length 1024 =
      .ok ⟨1024, 3, false, false, false⟩ := by
    rw [hlen]
    decide +kernel
  have hbudget : splitOutputBudget [osStr "x.zip".toList] (List.replicate 2100 (0 : UInt8)).length 1024 =
      .ok ⟨2100, 2100 + 2 ^ 20, 3⟩ := by
    rw [hlen]
    decide +kernel
  obtain ⟨outputs, houtputs⟩ := splitIntoVolumes_ok hbase hlayout hbudget (rfl : preparedArchive _ [] _ = .ok (_, none))
    (by decide : _ ≤ 2 ^ 30)
  obtain ⟨base', layout', prepared, uuid, contents, files, hbase', hlayout', hprepared, hwritten, rfl⟩ :=
    splitIntoVolumes_eq_ok houtputs
  cases hbase.symm.trans hbase'
  cases hlayout.symm.trans hlayout'
  have hcontents : contents.length = 3 := (hwritten.block_content rfl).1
  have hremains : Remains (remainsDisk [osStr "x.zip".toList] [1, 2, 3] [] contents) [osStr "x.zip".toList]
      (volumeOutputs [osStr "x.zip".toList] contents ++ sidecarOutputs [osStr "x.zip".toList] ⟨1024, 3, false, false, false⟩
        (contents.getLastD []) files) fun _ => false := by
    refine (remainsDisk_remains ?_ (by rw [hcontents]; decide) (by decide +kernel)
      (fun _ _ sidecar hmem => absurd hmem List.not_mem_nil)).all fun index primary path content hout => ?_
    · show List.filterMap (volumeEntry "x.zip".toList) ([1, 2, 3].map fun index =>
        some (volumeName [osStr "x.zip".toList] index)) = _
      decide +kernel
    · obtain ⟨hlt, -⟩ := List.getElem?_eq_some_iff.1 (volume_mem_iff.1 hout).1
      have hindex : index + 1 ∈ [1, 2, 3] := (List.mem_range'_1 (n := 3)).2 ⟨Nat.succ_pos index, by omega⟩
      exact decide_eq_false (not_not.2 hindex)
  have hzeros : ∀ k, k * 1024 + sqzvHeaderLen ≤ (List.replicate 2100 (0 : UInt8)).length →
      slice (List.replicate 2100 (0 : UInt8)) (k * 1024) 4 ≠ sqzvMagic := by
    intro k _ hmagic
    have hmem : (0x53 : UInt8) ∈ slice (List.replicate 2100 (0 : UInt8)) (k * 1024) 4 := by
      rw [hmagic]
      decide
    exact absurd (List.eq_of_mem_replicate (List.mem_of_mem_drop (List.mem_of_mem_take hmem))) (by decide)
  obtain ⟨set, reader, hset, hopen, hcontent, -⟩ := (opened_plain_iff houtputs hbase (by decide +kernel) (by decide +kernel) hlayout
    (by rw [hlen]; decide)
    (by decide +kernel : ((fileName [osStr "x.zip.002".toList]).bind toStr).bind splitVolumeName = some ("x.zip".toList, 2))
    (by decide +kernel) (by decide) hremains).2 hzeros
  exact ⟨_, _, set, reader, houtputs, hremains, hset, hopen, hcontent⟩

end Squallz.Volumes
