/-
A split archive that has lost volumes for good: as long as its tail and one other volume are there, it is read with zeros in
the place of what is lost.
-/
import Squallz.Volumes.Opening
import Squallz.Volumes.Remaining

namespace Squallz.Volumes

open Squallz.Api Squallz.Bytes Squallz.Destination

/-! ## What is lost for good -/

/-- No recovery file: nothing that can be read, or something else under its name. -/
def SidecarAbsent (nodes : Nodes) (path : Path) : Prop :=
  ∀ file, nodes path = some (.file file) → sqzrHeaderLen ≤ file.length ∧ file.take 4 ≠ sqzrMagic

theorem sidecarAbsent_of_none {nodes : Nodes} {path : Path} (h : nodes path = none) : SidecarAbsent nodes path := by
  intro file hfile
  rw [h] at hfile
  cases hfile

/-- The recovery file of a kind is as it was written. -/
def SidecarKept (nodes : Nodes) (outputs : List SplitOutput) (role : SplitOutputRole) : Prop :=
  ∃ path content, ⟨path, role, content⟩ ∈ outputs ∧ nodes path = some (.file content)

/-- The indexes that are missing. -/
def missingIndexes (count : Nat) (missing : Nat → Bool) : List Nat := (List.range' 1 count).filter missing

/-- The recovery files that are asked for are undamaged, and they are too few for what is missing. -/
structure Irrecoverable (nodes : Nodes) (base : Path) (outputs : List SplitOutput) (count lost : Nat) : Prop where
  single : lost ≠ 0 → SidecarAbsent nodes (recoveryParityVolumePath base) ∨ SidecarKept nodes outputs .parity
  weighted : lost = 2 ∨ lost = 3 → count ≤ 255 →
    SidecarAbsent nodes (recoveryWeightedParityVolumePath base) ∨ SidecarKept nodes outputs .weightedParity
  quadratic : lost = 3 → count ≤ 255 →
    SidecarAbsent nodes (recoveryQuadraticParityVolumePath base) ∨ SidecarKept nodes outputs .quadraticParity
  short : lost ≠ 0 → SidecarAbsent nodes (recoveryParityVolumePath base) ∨
    (lost = 2 ∧ (255 < count ∨ SidecarAbsent nodes (recoveryWeightedParityVolumePath base))) ∨
    (lost = 3 ∧ (255 < count ∨ SidecarAbsent nodes (recoveryWeightedParityVolumePath base) ∨
      SidecarAbsent nodes (recoveryQuadraticParityVolumePath base))) ∨ 4 ≤ lost

/-- An archive with zeros in the place of the volumes that are missing. -/
def zeroFilled (logicalVolumeSize : Nat) (missing : Nat → Bool) (archive : List UInt8) : List UInt8 :=
  archive.mapIdx fun i byte => if missing (i / logicalVolumeSize + 1) then 0 else byte

theorem length_zeroFilled (logicalVolumeSize : Nat) (missing : Nat → Bool) (archive : List UInt8) :
    (zeroFilled logicalVolumeSize missing archive).length = archive.length := List.length_mapIdx

/-- A block of it is the archive's or is zeros. -/
theorem block_zeroFilled {size : Nat} (hs : 0 < size) (missing : Nat → Bool) (archive : List UInt8) (k : Nat) :
    block size (zeroFilled size missing archive) k =
      if missing (k + 1) then List.replicate (block size archive k).length 0 else block size archive k := by
  refine List.ext_getElem? fun j => ?_
  rw [getElem?_block, zeroFilled, List.getElem?_mapIdx]
  by_cases hj : j < size
  · have hdiv : (k * size + j) / size = k := by
      rw [Nat.mul_comm, Nat.mul_add_div hs, Nat.div_eq_of_lt hj, Nat.add_zero]
    rw [if_pos hj, hdiv]
    cases missing (k + 1) with
    | false =>
      rw [if_neg (by decide), getElem?_block, if_pos hj]
      cases archive[k * size + j]? <;> rfl
    | true =>
      rw [if_pos rfl, List.getElem?_replicate, length_block]
      by_cases hin : k * size + j < archive.length
      · rw [List.getElem?_eq_getElem hin, if_pos (by omega)]
        rfl
      · rw [List.getElem?_eq_none (by omega), if_neg (by omega)]
        rfl
  · rw [if_neg hj]
    split
    · exact (List.getElem?_eq_none (by rw [List.length_replicate, length_block]; omega)).symm
    · rw [getElem?_block, if_neg hj]

/-! ## The parity files -/

theorem readSqzrHeader_absent {nodes : Nodes} {base : Path} {recoveryIndex : Nat}
    (h : SidecarAbsent nodes (recoveryVolumePath base recoveryIndex)) (algorithm total : Nat) (uuid : Uuid) :
    readSqzrHeader nodes base recoveryIndex algorithm total uuid = .ok none := by
  unfold readSqzrHeader
  dsimp only
  split
  · rename_i file hfile
    obtain ⟨hlen, hmagic⟩ := h file hfile
    have htake : (file.take sqzrHeaderLen).take 4 = file.take 4 := by
      rw [List.take_take]
      rfl
    rw [if_neg (Nat.not_lt.2 hlen), htake, if_pos hmagic]
  · rfl

theorem finishParity_eq_ok {layout : SplitLayout} {uuid : Uuid} {volumeSize tailPhysicalLen algorithm : Nat} {target : String}
    {o : Option (List UInt8)} {file : List UInt8} {written : Bool}
    (ho : o.map List.length = if written then some (sqzrHeaderLen + volumeSize) else none)
    (h : o.mapM (finishParity layout (some uuid) volumeSize tailPhysicalLen algorithm target) = .ok (some file)) :
    ∃ header rest, sqzrHeader layout.count uuid volumeSize tailPhysicalLen algorithm = .ok header ∧ file = header ++ rest ∧
      rest.length = volumeSize := by
  cases o with
  | none => cases h
  | some start =>
    obtain ⟨finished, hfinished, h⟩ := bind_eq_ok.1 h
    cases h
    cases written with
    | false => cases ho
    | true =>
      have hlen : start.length = sqzrHeaderLen + volumeSize := Option.some.inj ho
      obtain ⟨header, hheader, h⟩ := bind_eq_ok.1 hfinished
      cases h
      refine ⟨header, start.drop sqzrHeaderLen, hheader, rfl, ?_⟩
      rw [List.length_drop, hlen, Nat.add_sub_cancel_left]

/-- The recovery files among the outputs. -/
theorem parity_mem {base : Path} {layout : SplitLayout} {contents : List (List UInt8)} {files : ParityFiles} {path : Path}
    {role : SplitOutputRole} {content : List UInt8} (h : ⟨path, role, content⟩ ∈ volumeOutputs base contents ++
      sidecarOutputs base layout (contents.getLastD []) files) :
    (role = .parity → path = recoveryParityVolumePath base ∧ files.parity = some content) ∧
    (role = .weightedParity → path = recoveryWeightedParityVolumePath base ∧ files.weighted = some content) ∧
    (role = .quadraticParity → path = recoveryQuadraticParityVolumePath base ∧ files.quadratic = some content) := by
  rcases List.mem_append.1 h with h | h
  · obtain ⟨k, content', -, heq⟩ := mem_volumeOutputs.1 h
    cases heq
    refine ⟨?_, ?_, ?_⟩ <;> intro hrole <;> cases hrole
  · unfold sidecarOutputs at h
    rcases List.mem_append.1 h with h | h
    · split at h
      · cases List.mem_singleton.1 h
        refine ⟨?_, ?_, ?_⟩ <;> intro hrole <;> cases hrole
      · cases h
    · rcases List.mem_append.1 h with h | h
      · obtain ⟨file, hfile, heq⟩ := Option.map_eq_some_iff.1 (Option.mem_toList.1 h)
        cases heq
        refine ⟨fun _ => ⟨rfl, hfile⟩, ?_, ?_⟩ <;> intro hrole <;> cases hrole
      · rcases List.mem_append.1 h with h | h
        · obtain ⟨file, hfile, heq⟩ := Option.map_eq_some_iff.1 (Option.mem_toList.1 h)
          cases heq
          refine ⟨?_, fun _ => ⟨rfl, hfile⟩, ?_⟩ <;> intro hrole <;> cases hrole
        · obtain ⟨file, hfile, heq⟩ := Option.map_eq_some_iff.1 (Option.mem_toList.1 h)
          cases heq
          refine ⟨?_, ?_, fun _ => ⟨rfl, hfile⟩⟩ <;> intro hrole <;> cases hrole

/-- The header that every recovery file of a set has, but for its kind. -/
def parityHeader (layout : SplitLayout) (uuid : Uuid) (volumeSize tailPhysicalLen : Nat) : SqzrHeader :=
  ⟨layout.count, uuid, volumeSize, tailPhysicalLen, volumeSize⟩

section Sidecars

variable {nodes : Nodes} {base : Path} {volumeSize : Nat} {layout : SplitLayout} {uuid : Uuid} {archive : List UInt8}
  {contents : List (List UInt8)} {files : ParityFiles}

theorem readSqzrHeader_finished {recoveryIndex tailPhysicalLen algorithm : Nat} {target : String} {o : Option (List UInt8)}
    {file : List UInt8} {written : Bool} (huuid : UuidFits uuid) (hsize : volumeSize < 2 ^ 64)
    (htail : tailPhysicalLen < 2 ^ 64) (halgorithm : algorithm < 256 ^ 2)
    (ho : o.map List.length = if written then some (sqzrHeaderLen + volumeSize) else none)
    (h : o.mapM (finishParity layout (some uuid) volumeSize tailPhysicalLen algorithm target) = .ok (some file))
    (hfile : nodes (recoveryVolumePath base recoveryIndex) = some (.file file)) :
    readSqzrHeader nodes base recoveryIndex algorithm layout.count uuid =
      .ok (some (parityHeader layout uuid volumeSize tailPhysicalLen)) := by
  obtain ⟨header, rest, hheader, rfl, hrest⟩ := finishParity_eq_ok ho h
  exact readSqzrHeader_sqzrHeader huuid halgorithm hsize htail hheader hrest hfile

/-- A recovery file that is as it was written is read, and one that is absent is not there. -/
structure Sidecars (nodes : Nodes) (base : Path) (outputs : List SplitOutput) (header : SqzrHeader) (count : Nat)
    (uuid : Uuid) : Prop where
  single : SidecarKept nodes outputs .parity →
    readSqzrHeader nodes base 1 sqzrAlgoXorSingle count uuid = .ok (some header)
  weighted : SidecarKept nodes outputs .weightedParity →
    readSqzrHeader nodes base 2 sqzrAlgoXorWeighted count uuid = .ok (some header)
  quadratic : SidecarKept nodes outputs .quadraticParity →
    readSqzrHeader nodes base 3 sqzrAlgoXorQuadratic count uuid = .ok (some header)

theorem Written.sidecars (h : Written base volumeSize layout (some uuid) archive contents files) (nodes : Nodes)
    (huuid : UuidFits uuid) (hsize : volumeSize < 2 ^ 64) (htail : (contents.getLastD []).length < 2 ^ 64) :
    Sidecars nodes base (volumeOutputs base contents ++ sidecarOutputs base layout (contents.getLastD []) files)
      (parityHeader layout uuid volumeSize (contents.getLastD []).length) layout.count uuid := by
  obtain ⟨written, hwritten, hfinished⟩ := h.rounds
  have hlengths := (writeVolumes_eq_ok hwritten).2.2.trans (lengths_startFiles layout volumeSize)
  rw [ParityFiles.lengths, SplitLayout.parityLengths, Prod.mk.injEq, Prod.mk.injEq] at hlengths
  obtain ⟨hp, hw, hq⟩ := hlengths
  unfold finishedFiles at hfinished
  obtain ⟨parity, hparity, hfinished⟩ := bind_eq_ok.1 hfinished
  obtain ⟨weighted, hweighted, hfinished⟩ := bind_eq_ok.1 hfinished
  obtain ⟨quadratic, hquadratic, hfinished⟩ := bind_eq_ok.1 hfinished
  cases hfinished
  constructor
  · rintro ⟨path, content, hmem, hnode⟩
    obtain ⟨rfl, hcontent⟩ := (parity_mem hmem).1 rfl
    cases (hcontent : parity = some content)
    exact readSqzrHeader_finished huuid hsize htail (by decide) hp hparity hnode
  · rintro ⟨path, content, hmem, hnode⟩
    obtain ⟨rfl, hcontent⟩ := (parity_mem hmem).2.1 rfl
    cases (hcontent : weighted = some content)
    exact readSqzrHeader_finished huuid hsize htail (by decide) hw hweighted hnode
  · rintro ⟨path, content, hmem, hnode⟩
    obtain ⟨rfl, hcontent⟩ := (parity_mem hmem).2.2 rfl
    cases (hcontent : quadratic = some content)
    exact readSqzrHeader_finished huuid hsize htail (by decide) hq hquadratic hnode

end Sidecars

/-! ## What is not reconstructed -/

/-- A recovery file that is asked for, if it is not damaged. -/
theorem parity_asked {nodes : Nodes} {base : Path} {outputs : List SplitOutput} {header : SqzrHeader}
    {recoveryIndex algorithm count : Nat} {uuid : Uuid} {role : SplitOutputRole} (needed : Prop) [Decidable needed]
    (hkept : SidecarKept nodes outputs role → readSqzrHeader nodes base recoveryIndex algorithm count uuid = .ok (some header))
    (h : needed → SidecarAbsent nodes (recoveryVolumePath base recoveryIndex) ∨ SidecarKept nodes outputs role) :
    ∃ parity, (if needed then readSqzrHeader nodes base recoveryIndex algorithm count uuid else .ok none :
        Res (Option SqzrHeader)) = .ok parity ∧ (parity = none ∨ parity = some header) ∧
      (¬ needed ∨ SidecarAbsent nodes (recoveryVolumePath base recoveryIndex) → parity = none) := by
  by_cases hneeded : needed
  · rw [if_pos hneeded]
    by_cases habsent : SidecarAbsent nodes (recoveryVolumePath base recoveryIndex)
    · exact ⟨none, readSqzrHeader_absent habsent algorithm count uuid, .inl rfl, fun _ => rfl⟩
    · refine ⟨some header, hkept ((h hneeded).resolve_left habsent), .inr rfl, fun hor => ?_⟩
      exact absurd hor (not_or.2 ⟨not_not.2 hneeded, habsent⟩)
  · rw [if_neg hneeded]
    exact ⟨none, rfl, .inl rfl, fun _ => rfl⟩

/-- Recovery files that are too few reconstruct nothing. -/
theorem reconstructSqzvPart_short {nodes : Nodes} {base : Path} {index count volumeSize : Nat} {missing : List Nat}
    {header : SqzrHeader} {single dual triple : Option SqzrHeader} {tailMirror : Option VolumePart}
    (hsingle : single = none ∨ single = some header) (hheader : header.physicalLenFor index count = .ok volumeSize)
    (hshort : missing = [] ∨ single = none ∨ (missing.length = 2 ∧ dual = none) ∨
      (missing.length = 3 ∧ (dual = none ∨ triple = none)) ∨ 4 ≤ missing.length) :
    reconstructSqzvPart nodes base index count missing single dual triple tailMirror = .ok none := by
  unfold reconstructSqzvPart
  by_cases hmissing : index ∈ missing
  · rw [if_neg (not_not.2 hmissing)]
    rcases hsingle with rfl | rfl
    · rfl
    · have hsource : reconstructionSource base index count missing volumeSize dual triple = .ok none := by
        unfold reconstructionSource
        rcases hshort with rfl | h | ⟨hlen, rfl⟩ | ⟨hlen, hnone⟩ | hlen
        · cases hmissing
        · cases h
        · rw [hlen]
          rfl
        · rw [hlen]
          rcases hnone with rfl | rfl
          · rfl
          · cases dual <;> rfl
        · split
          · omega
          · omega
          · omega
          · rfl
      dsimp only
      rw [hheader, ok_bind, hsource, ok_bind]
      rfl
  · rw [if_pos hmissing]

/-- The set that is known when what is missing is lost for good. -/
structure LostSet (nodes : Nodes) (base : Path) (present : List (Nat × Path)) (scan : HeaderScan) (count : Nat)
    (set : SqzvSet) : Prop where
  total : set.total = count
  headers : set.headers = scan
  tailMirror : set.tailMirror = none
  fullLogicalLen : set.fullLogicalLen = Volumes.fullLogicalLen nodes count present
  lost : ∀ index, index ≠ count → reconstructSqzvPart nodes base index count set.reconstructableMissing set.singleParity
    set.dualParity set.tripleParity none = .ok none

theorem rawMissing_eq {scan : HeaderScan} {count : Nat} {missing : Nat → Bool}
    (hscan : ∀ index, 0 < index → index ≤ count → scan.has index = !missing index) :
    ((List.range' 1 count).filter fun index => ¬ scan.has index) = missingIndexes count missing := by
  refine List.filter_congr fun index hindex => ?_
  rw [List.mem_range'_1] at hindex
  rw [hscan index hindex.1 (by omega)]
  cases missing index <;> rfl

theorem tail_not_missing {count : Nat} {missing : Nat → Bool} (htail : missing count = false) :
    count ∉ missingIndexes count missing := by
  unfold missingIndexes
  rw [List.mem_filter, htail]
  exact fun h => Bool.false_ne_true h.2

theorem reconstructable_eq (indexes : List Nat) (count : Nat) :
    (indexes.filter fun index => ¬ (index = count ∧ (none : Option VolumePart).isSome)) = indexes :=
  List.filter_eq_self.2 fun index _ => by simp

theorem sqzvSet_lost {nodes : Nodes} {base : Path} {outputs : List SplitOutput} {header : SqzrHeader} {count volumeSize : Nat}
    {uuid : Uuid} (present : List (Nat × Path)) {scan : HeaderScan} {missing : Nat → Bool}
    (hscan : ∀ index, 0 < index → index ≤ count → scan.has index = !missing index)
    (htail : missing count = false) (hsidecars : Sidecars nodes base outputs header count uuid)
    (hheader : ∀ index, index ≠ count → header.physicalLenFor index count = .ok volumeSize)
    (hlost : Irrecoverable nodes base outputs count (missingIndexes count missing).length) :
    ∃ set, sqzvSet nodes base present scan count uuid = .ok set ∧ LostSet nodes base present scan count set := by
  obtain ⟨single, hsingle, hsingleHeader, hsingleNone⟩ := parity_asked (missingIndexes count missing ≠ [])
    hsidecars.single fun h => hlost.single fun h0 => h (List.length_eq_zero_iff.1 h0)
  obtain ⟨dual, hdual, -, hdualNone⟩ := parity_asked
    (2 ≤ (missingIndexes count missing).length ∧ (missingIndexes count missing).length ≤ 3 ∧ count ≤ 255)
    hsidecars.weighted fun h => hlost.weighted (by omega) h.2.2
  obtain ⟨triple, htriple, -, htripleNone⟩ := parity_asked
    ((missingIndexes count missing).length = 3 ∧ count ≤ 255)
    hsidecars.quadratic fun h => hlost.quadratic h.1 h.2
  refine ⟨⟨count, scan, none, missingIndexes count missing, single, dual, triple, fullLogicalLen nodes count present⟩, ?_, ?_⟩
  · unfold sqzvSet
    dsimp only
    rw [rawMissing_eq hscan, if_neg (tail_not_missing htail), ok_bind, reconstructable_eq, hsingle, ok_bind, hdual, ok_bind, htriple, ok_bind]
    rfl
  · refine ⟨rfl, rfl, rfl, rfl, fun index hindex => reconstructSqzvPart_short hsingleHeader (hheader index hindex) ?_⟩
    by_cases hnil : missingIndexes count missing = []
    · exact .inl hnil
    · rcases hlost.short (fun h0 => hnil (List.length_eq_zero_iff.1 h0)) with h | ⟨hlen, h⟩ | ⟨hlen, h⟩ | h
      · exact .inr (.inl (hsingleNone (.inr h)))
      · refine .inr (.inr (.inl ⟨hlen, hdualNone ?_⟩))
        exact h.imp (fun h => by omega) id
      · refine .inr (.inr (.inr (.inl ⟨hlen, ?_⟩)))
        rcases h with h | h | h
        · exact .inl (hdualNone (.inl (by omega)))
        · exact .inl (hdualNone (.inr h))
        · exact .inr (htripleNone (.inr h))
      · exact .inr (.inr (.inr (.inr h)))

/-! ## The lengths that are inferred -/

theorem volumeData_eq_block (layout : SplitLayout) (archive : List UInt8) (k : Nat) :
    volumeData layout archive (k + 1) = block layout.logicalVolumeSize archive k := by
  rw [volumeData, block, Nat.add_sub_cancel, slice, slice, ← List.length_drop, List.take_eq_take_iff]
  omega

/-- A volume before the tail is full. -/
theorem LayoutOf.length_volumeData {base : Path} {volumeSize : Nat} {layout : SplitLayout} {archive : List UInt8}
    (h : LayoutOf base archive.length volumeSize layout) {index : Nat} (hpos : 0 < index) (hlt : index < layout.count) :
    (volumeData layout archive index).length = layout.logicalVolumeSize := by
  obtain ⟨k, rfl⟩ := Nat.exists_eq_add_one.2 hpos
  have hbegin := h.begin_lt hlt hpos
  rw [Nat.succ_mul] at hbegin
  rw [Volumes.length_volumeData, Nat.add_sub_cancel]
  omega

theorem fullLogicalLen_concat (nodes : Nodes) (total : Nat) (present : List (Nat × Path)) (index : Nat) (path : Path) :
    fullLogicalLen nodes total (present ++ [(index, path)]) =
      if total ≤ index then fullLogicalLen nodes total present
      else
        match nodes.metadataLen path with
        | .ok len =>
          if len < sqzvHeaderLen then fullLogicalLen nodes total present
          else some ((fullLogicalLen nodes total present).elim (len - sqzvHeaderLen) (max · (len - sqzvHeaderLen)))
        | .error _ => fullLogicalLen nodes total present := by
  rw [fullLogicalLen, List.foldl_append]
  rfl

/-- Where the volumes before the tail have one length, it is inferred from any of them. -/
theorem fullLogicalLen_eq {nodes : Nodes} {total len : Nat} {present : List (Nat × Path)}
    (h : ∀ index path, (index, path) ∈ present → index < total → nodes.metadataLen path = .ok (sqzvHeaderLen + len)) :
    (fullLogicalLen nodes total present = some len ∨ fullLogicalLen nodes total present = none) ∧
      ((∃ index path, (index, path) ∈ present ∧ index < total) → fullLogicalLen nodes total present = some len) := by
  induction present using List.reverseRecOn with
  | nil =>
    refine ⟨.inr rfl, ?_⟩
    rintro ⟨index, path, hmem, -⟩
    cases hmem
  | append_singleton present volume ih =>
    obtain ⟨index, path⟩ := volume
    obtain ⟨hknown, hsome⟩ := ih fun index path hmem => h index path (List.mem_append_left _ hmem)
    rw [fullLogicalLen_concat]
    by_cases hindex : total ≤ index
    · rw [if_pos hindex]
      refine ⟨hknown, ?_⟩
      rintro ⟨index', path', hmem, hlt⟩
      rcases List.mem_append.1 hmem with hmem | hmem
      · exact hsome ⟨index', path', hmem, hlt⟩
      · cases List.mem_singleton.1 hmem
        omega
    · have hlen := h index path (List.mem_append_right _ (List.mem_singleton.2 rfl)) (by omega)
      rw [if_neg hindex, hlen]
      dsimp only
      rw [if_neg (by omega), Nat.add_sub_cancel_left]
      have hmax : (fullLogicalLen nodes total present).elim len (max · len) = len := by
        rcases hknown with hknown | hknown
        · rw [hknown, Option.elim_some, Nat.max_self]
        · rw [hknown, Option.elim_none]
      rw [hmax]
      exact ⟨.inl rfl, fun _ => rfl⟩

/-! ## The parts -/

/-- A part of the set: a volume that is found, or zeros. -/
def filledPart (base : Path) (layout : SplitLayout) (archive : List UInt8) (missing : Nat → Bool) (index : Nat) : VolumePart :=
  ⟨volumePath base index, sqzvHeaderLen, (volumeData layout archive index).length,
    if missing index then .missingZero else .file⟩

section Parts

variable {nodes : Nodes} {base : Path} {present : List (Nat × Path)} {layout : SplitLayout} {uuid : Uuid}
  {archive : List UInt8} {missing : Nat → Bool} {volumeSize : Nat}

theorem Found.metadataLen (h : Found nodes base present layout uuid archive missing) {index : Nat} (hpos : 0 < index)
    (hle : index ≤ layout.count) (hmissing : missing index = false) :
    nodes.metadataLen (volumePath base index) = .ok (sqzvHeaderLen + (volumeData layout archive index).length) := by
  obtain ⟨header, hheader, hfile⟩ := h.file index hpos hle hmissing
  rw [Nodes.metadataLen, hfile]
  dsimp only
  rw [List.length_append, length_sqzvHeader hheader]

theorem Found.fullLogicalLen (h : Found nodes base present layout uuid archive missing)
    (hlayout : LayoutOf base archive.length volumeSize layout)
    (hother : ∃ index, 0 < index ∧ index < layout.count ∧ missing index = false) :
    fullLogicalLen nodes layout.count present = some layout.logicalVolumeSize := by
  refine (fullLogicalLen_eq fun index path hmem hlt => ?_).2 ?_
  · obtain ⟨rfl, hpos, hle, hmissing⟩ := (h.mem index path).1 hmem
    rw [h.metadataLen hpos hle hmissing, hlayout.length_volumeData hpos hlt]
  · obtain ⟨index, hpos, hlt, hmissing⟩ := hother
    exact ⟨index, volumePath base index, (h.mem _ _).2 ⟨rfl, hpos, Nat.le_of_lt hlt, hmissing⟩, hlt⟩

theorem Found.sqzvPart (h : Found nodes base present layout uuid archive missing)
    (hlayout : LayoutOf base archive.length volumeSize layout) (htail : missing layout.count = false)
    (hother : ∃ index, 0 < index ∧ index < layout.count ∧ missing index = false) {scan : HeaderScan}
    (hscan : scan.headers = headersOf layout.count uuid present) {set : SqzvSet}
    (hset : LostSet nodes base present scan layout.count set) {index : Nat} (hpos : 0 < index) (hle : index ≤ layout.count) :
    sqzvPart nodes base set index = .ok (filledPart base layout archive missing index) := by
  unfold Volumes.sqzvPart filledPart
  dsimp only
  rw [hset.headers, hscan, h.lookup hpos hle]
  cases hmissing : missing index with
  | false =>
    rw [if_neg (by decide)]
    dsimp only
    rw [validateSqzvHeader, hset.total, if_neg (by simp), ok_bind, h.metadataLen hpos hle hmissing, ok_bind,
      if_neg (by omega), Nat.add_sub_cancel_left]
    rfl
  | true =>
    have hne : index ≠ layout.count := by
      rintro rfl
      rw [htail] at hmissing
      cases hmissing
    have hlt : index < layout.count := Nat.lt_of_le_of_ne hle hne
    rw [if_pos rfl]
    dsimp only
    rw [hset.total, if_neg hne]
    dsimp only
    rw [hset.tailMirror, hset.lost index hne, ok_bind]
    dsimp only
    rw [if_neg hne, hset.fullLogicalLen, h.fullLogicalLen hlayout hother, hlayout.length_volumeData hpos hlt]
    rfl

/-- The parts are opened with the bytes of the archive that has zeros in the place of what is missing. -/
theorem Found.openParts (h : Found nodes base present layout uuid archive missing)
    (hlayout : LayoutOf base archive.length volumeSize layout) (huuid : UuidFits uuid) {index rounds : Nat}
    (hpos : 0 < index) (hrounds : index + rounds = layout.count + 1) {known : Option Uuid} (hknown : known = none ∨ known = some uuid) (reader : MultiVolumeReader) :
    ∃ segments : List Segment, MultiVolumeReader.openParts nodes layout.count index known reader
        ((List.range' index rounds).map (filledPart base layout archive missing)) = .ok (reader.pushAll segments) ∧
      segments.map Segment.bytes = (List.range' index rounds).map (fun i =>
        block layout.logicalVolumeSize (zeroFilled layout.logicalVolumeSize missing archive) (i - 1)) ∧
      ∀ segment ∈ segments, segment.Backed := by
  induction rounds generalizing index known reader with
  | zero => exact ⟨[], rfl, rfl, fun segment hsegment => absurd hsegment List.not_mem_nil⟩
  | succ rounds ih =>
    have hle : index ≤ layout.count := by omega
    obtain ⟨k, rfl⟩ := Nat.exists_eq_add_one.2 hpos
    have hblock := block_zeroFilled hlayout.logical_pos missing archive k
    rw [List.range'_succ, List.map_cons, MultiVolumeReader.openParts, List.map_cons, Nat.add_sub_cancel]
    cases hmissing : missing (k + 1) with
    | true =>
      obtain ⟨segments, hopen, hbytes, hbacked⟩ := ih (Nat.succ_pos (k + 1)) (by omega) hknown
        (reader.push .missingZero sqzvHeaderLen (volumeData layout archive (k + 1)).length)
      refine ⟨⟨.missingZero, sqzvHeaderLen, (volumeData layout archive (k + 1)).length⟩ :: segments, ?_, ?_, ?_⟩
      · rw [MultiVolumeReader.openPart, filledPart, hmissing, if_pos rfl]
        exact hopen
      · rw [List.map_cons, hbytes, hblock, hmissing, if_pos rfl, ← volumeData_eq_block]
        rfl
      · intro segment hsegment
        cases hsegment with
        | head => trivial
        | tail _ hsegment => exact hbacked segment hsegment
    | false =>
      obtain ⟨header, hheader, hfile⟩ := h.file (k + 1) hpos hle hmissing
      obtain ⟨content, hcontent⟩ : ∃ content, header ++ volumeData layout archive (k + 1) = content := ⟨_, rfl⟩
      have hread : readSqzvHeader content = .ok (some ⟨k + 1, layout.count, uuid⟩) :=
        hcontent ▸ readSqzvHeader_sqzvHeader huuid hheader _
      have hlen : content.length = sqzvHeaderLen + (volumeData layout archive (k + 1)).length := by
        rw [← hcontent, List.length_append, length_sqzvHeader hheader]
      have hcheck : MultiVolumeReader.checkHeader (filledPart base layout archive missing (k + 1)) (k + 1) layout.count known
          (some ⟨k + 1, layout.count, uuid⟩) = .ok (sqzvHeaderLen, some uuid) := by
        rcases hknown with rfl | rfl
        · rw [MultiVolumeReader.checkHeader, validateSqzvHeader, if_neg (by simp)]
          rfl
        · rw [MultiVolumeReader.checkHeader, validateSqzvHeader, if_neg (by simp), ok_bind, if_neg (by simp)]
          rfl
      rw [hcontent] at hfile
      obtain ⟨segments, hopen, hbytes, hbacked⟩ := ih (Nat.succ_pos (k + 1)) (by omega) (.inr rfl)
        (reader.push (.file content) sqzvHeaderLen (content.length - sqzvHeaderLen))
      refine ⟨⟨.file content, sqzvHeaderLen, content.length - sqzvHeaderLen⟩ :: segments, ?_, ?_, ?_⟩
      · have hopenPart : MultiVolumeReader.openPart nodes (filledPart base layout archive missing (k + 1)) =
            .ok (some (.file content, content.length, some ⟨k + 1, layout.count, uuid⟩)) := by
          rw [MultiVolumeReader.openPart, filledPart, hmissing, if_neg (by decide)]
          dsimp only
          rw [Nodes.openFile, hfile, ok_bind, hread]
          rfl
        rw [hopenPart, ok_bind]
        dsimp only
        rw [hcheck, ok_bind]
        dsimp only
        rw [if_neg (by omega)]
        exact hopen
      · rw [List.map_cons, hbytes, hblock, hmissing, if_neg (by decide), ← volumeData_eq_block, ← hcontent]
        congr 1
        show slice (header ++ volumeData layout archive (k + 1)) sqzvHeaderLen _ = _
        refine slice_suffix (length_sqzvHeader hheader).symm ?_
        rw [hcontent, hlen, Nat.add_sub_cancel_left]
      · intro segment hsegment
        cases hsegment with
        | head =>
          show sqzvHeaderLen + (content.length - sqzvHeaderLen) ≤ content.length
          omega
        | tail _ hsegment => exact hbacked segment hsegment

end Parts

/-! ## The set as a whole -/

theorem prepareSqzForSplit_uuid {archive prepared : List UInt8} {tmp : Path} {uuid : Uuid}
    (h : prepareSqzForSplit archive tmp = .ok (prepared, uuid)) : UuidFits uuid := by
  unfold prepareSqzForSplit at h
  split at h
  · cases h
  · dsimp only at h
    split at h
    · cases h
    · cases h
      have half : ∀ (header : List UInt8) (off : Nat), leNat (slice header off 8) < 2 ^ 64 := by
        intro header off
        refine Nat.lt_of_lt_of_le (leNat_lt _) (Nat.pow_le_pow_right (n := 256) (by decide) (?_ : _ ≤ 8))
        rw [length_slice]
        exact Nat.min_le_left _ _
      exact ⟨half _ 16, half _ 24⟩

theorem fileName_isSome_of_isSqzBase {base : Path} (h : isSqzBase base = true) : (fileName base).isSome = true := by
  unfold isSqzBase at h
  cases hname : fileName base with
  | some name => rfl
  | none =>
    rw [hname] at h
    cases h

theorem Found.has {nodes : Nodes} {base : Path} {present : List (Nat × Path)} {layout : SplitLayout} {uuid : Uuid}
    {archive : List UInt8} {missing : Nat → Bool} (h : Found nodes base present layout uuid archive missing) (index : Nat)
    (hpos : 0 < index) (hle : index ≤ layout.count) :
    HeaderScan.has ⟨headersOf layout.count uuid present, some layout.count, some uuid⟩ index = !missing index := by
  rw [HeaderScan.has, h.lookup hpos hle]
  cases missing index <;> rfl

/-- Where the tail is there, an SQZ set is put together of the headers that were found. -/
theorem collectPresent_sqzv {nodes : Nodes} {base : Path} {present : List (Nat × Path)} {layout : SplitLayout} {uuid : Uuid}
    {archive : List UInt8} {missing : Nat → Bool} {volumeSize selectedIndex : Nat}
    (h : Found nodes base present layout uuid archive missing) (hlayout : LayoutOf base archive.length volumeSize layout)
    (hsqz : isSqzBase base = true) (huuid : UuidFits uuid) (htail : missing layout.count = false) :
    collectPresent nodes base selectedIndex present =
      sqzvSet nodes base present ⟨headersOf layout.count uuid present, some layout.count, some uuid⟩ layout.count uuid >>=
        fun set => (List.range' 1 layout.count).mapM (sqzvPart nodes base set) := by
  have hpos := hlayout.count_pos
  have htailPresent : (layout.count, volumePath base layout.count) ∈ present :=
    (h.mem _ _).2 ⟨rfl, hpos, Nat.le_refl _, htail⟩
  have hne : present ≠ [] := List.ne_nil_of_mem htailPresent
  have hmax : (present.getLast?.map Prod.fst).getD 0 ≠ 0 := by
    rw [List.getLast?_eq_getLast_of_ne_nil hne, Option.map_some, Option.getD_some]
    exact Nat.pos_iff_ne_zero.1 ((h.mem _ _).1 (List.getLast_mem hne)).2.1
  rw [collectPresent]
  dsimp only
  rw [if_neg hmax, hsqz, if_pos rfl, collectSqzvVolumeSet_eq hne (h.headers huuid) hpos hlayout.bounded fun volume hvolume =>
    ((h.mem volume.1 volume.2).1 hvolume).2.2.1]
  cases sqzvSet nodes base present ⟨headersOf layout.count uuid present, some layout.count, some uuid⟩ layout.count uuid with
  | error fault => rfl
  | ok set =>
    rw [ok_bind, ok_bind]
    cases (List.range' 1 layout.count).mapM (sqzvPart nodes base set) <;> rfl

/-- A set that has lost volumes for good is found and opened, with zeros in their place. -/
theorem Found.openSet {disk : Disk} {base volume : Path} {outputs : List SplitOutput} {layout : SplitLayout} {uuid : Uuid}
    {archive : List UInt8} {missing : Nat → Bool} {volumeSize selectedIndex : Nat} {header : SqzrHeader} {baseName : List Char}
    (h : Found disk.nodes base (presentVolumes disk base).toList layout uuid archive missing)
    (hlayout : LayoutOf base archive.length volumeSize layout) (hsqz : isSqzBase base = true) (huuid : UuidFits uuid)
    (hvolume : ((fileName volume).bind toStr).bind splitVolumeName = some (baseName, selectedIndex))
    (hbase : withFileName volume (osStr baseName) = base) (htail : missing layout.count = false)
    (hother : ∃ index, 0 < index ∧ index < layout.count ∧ missing index = false)
    (hsidecars : Sidecars disk.nodes base outputs header layout.count uuid)
    (hheader : ∀ index, index ≠ layout.count → header.physicalLenFor index layout.count = .ok volumeSize)
    (hlost : Irrecoverable disk.nodes base outputs layout.count (missingIndexes layout.count missing).length) :
    ∃ (set : VolumeSet) (segments : List Segment), collectVolumeSet disk volume = .ok set ∧
      MultiVolumeReader.openSet disk.nodes set = .ok (MultiVolumeReader.ofSegments segments) ∧
      segments.map Segment.bytes = (List.range' 1 layout.count).map (fun i =>
        block layout.logicalVolumeSize (zeroFilled layout.logicalVolumeSize missing archive) (i - 1)) ∧
      ∀ segment ∈ segments, segment.Backed := by
  obtain ⟨present, hpresent⟩ : ∃ present, (presentVolumes disk base).toList = present := ⟨_, rfl⟩
  rw [hpresent] at h
  obtain ⟨set, hset, hknown⟩ := sqzvSet_lost present h.has htail hsidecars hheader hlost
  obtain ⟨segments, hopen, hbytes, hbacked⟩ := h.openParts hlayout huuid Nat.one_pos (Nat.add_comm 1 layout.count)
    (.inl rfl) ⟨[], [], [], [], 0, 0⟩
  refine ⟨(List.range' 1 layout.count).map (filledPart base layout archive missing), segments, ?_, ?_, hbytes, hbacked⟩
  · rw [collectVolumeSet_eq hvolume, hbase, hpresent, collectPresent_sqzv h hlayout hsqz huuid htail, hset, ok_bind]
    refine mapM_eq_ok fun index hindex => ?_
    rw [List.mem_range'_1] at hindex
    exact h.sqzvPart hlayout htail hother rfl hknown hindex.1 (by omega)
  · rw [MultiVolumeReader.openSet, List.length_map, List.length_range']
    exact hopen

/-- A recovery file that is asked for and cannot be read is the end of it. -/
theorem Found.refused {disk : Disk} {base volume : Path} {layout : SplitLayout} {uuid : Uuid} {archive : List UInt8}
    {missing : Nat → Bool} {volumeSize selectedIndex : Nat} {baseName : List Char} {fault : Fault}
    (h : Found disk.nodes base (presentVolumes disk base).toList layout uuid archive missing)
    (hlayout : LayoutOf base archive.length volumeSize layout) (hsqz : isSqzBase base = true) (huuid : UuidFits uuid)
    (hvolume : ((fileName volume).bind toStr).bind splitVolumeName = some (baseName, selectedIndex))
    (hbase : withFileName volume (osStr baseName) = base) (htail : missing layout.count = false)
    (hlost : missingIndexes layout.count missing ≠ [])
    (hfault : readSqzrHeader disk.nodes base 1 sqzrAlgoXorSingle layout.count uuid = .error fault) :
    collectVolumeSet disk volume = .error fault := by
  obtain ⟨present, hpresent⟩ : ∃ present, (presentVolumes disk base).toList = present := ⟨_, rfl⟩
  rw [hpresent] at h
  have hset : sqzvSet disk.nodes base present ⟨headersOf layout.count uuid present, some layout.count, some uuid⟩ layout.count
      uuid = .error fault := by
    unfold sqzvSet
    dsimp only
    rw [rawMissing_eq h.has, if_neg (tail_not_missing htail), ok_bind, reconstructable_eq, if_pos hlost, hfault]
    rfl
  rw [collectVolumeSet_eq hvolume, hbase, hpresent, collectPresent_sqzv h hlayout hsqz huuid htail, hset]
  rfl

theorem Written.length_tail_le {base : Path} {volumeSize : Nat} {layout : SplitLayout} {uuid : Option Uuid}
    {archive : List UInt8} {contents : List (List UInt8)} {files : ParityFiles}
    (h : Written base volumeSize layout uuid archive contents files) : (contents.getLastD []).length ≤ volumeSize := by
  obtain ⟨written, hwritten, -⟩ := h.rounds
  obtain ⟨-, hcontents, -⟩ := writeVolumes_eq_ok hwritten
  rw [List.getLastD_eq_getLast?]
  cases hlast : contents.getLast? with
  | none => exact Nat.zero_le _
  | some content =>
    obtain ⟨k, hk⟩ := List.mem_iff_getElem?.1 (List.mem_of_getLast? hlast)
    have hlen := length_volumeContent (hcontents k content hk)
    have hroom : layout.headerLen + layout.logicalVolumeSize = volumeSize := h.layoutOf.header_add
    rw [Option.getD_some]
    omega

/-- The header of a recovery file gives every volume before the tail its full length. -/
theorem physicalLenFor_parityHeader {layout : SplitLayout} {uuid : Uuid} {volumeSize tailPhysicalLen index : Nat}
    (hsize : minSplitSize ≤ volumeSize) (hindex : index ≠ layout.count) :
    (parityHeader layout uuid volumeSize tailPhysicalLen).physicalLenFor index layout.count = .ok volumeSize := by
  have hmin : sqzvHeaderLen ≤ volumeSize := Nat.le_trans (by decide) hsize
  rw [SqzrHeader.physicalLenFor, if_neg hindex, parityHeader]
  dsimp only
  rw [if_neg (by omega)]

theorem count_eq_divCeil {base : Path} {volumeSize : Nat} {layout : SplitLayout} {archive : List UInt8}
    (h : LayoutOf base archive.length volumeSize layout) (hcount : 1 < layout.count) :
    layout.count = divCeil archive.length layout.logicalVolumeSize := by
  have := h.count
  omega

/-- A directory with some volumes of a set and files beside them. -/
def remainsDisk (base : Path) (indexes : List Nat) (sidecars : List (Path × List UInt8)) (contents : List (List UInt8)) :
    Disk where
  readDir := fun _ => some (indexes.map (fun index => some (volumeName base index)) ++
    sidecars.map fun (path, _) => fileName path)
  nodes := fun path =>
    ((indexes.map (fun index => (volumePath base index, contents.getD (index - 1) [])) ++ sidecars).lookup path).map .file

theorem remainsDisk_file {base : Path} {indexes : List Nat} {sidecars : List (Path × List UInt8)}
    {contents : List (List UInt8)} (hinj : ∀ i ∈ indexes, ∀ j ∈ indexes, volumePath base i = volumePath base j → i = j)
    (hsidecars : ∀ i ∈ indexes, ∀ sidecar ∈ sidecars, sidecar.1 ≠ volumePath base i) {index : Nat} (hindex : index ∈ indexes) :
    (remainsDisk base indexes sidecars contents).nodes (volumePath base index) =
      some (.file (contents.getD (index - 1) [])) := by
  refine Option.map_eq_some_iff.2 ⟨_, lookup_of_unique (List.mem_append_left _ (List.mem_map.2 ⟨index, hindex, rfl⟩)) ?_, rfl⟩
  intro content hmem
  rcases List.mem_append.1 hmem with hmem | hmem
  · obtain ⟨i, hi, heq⟩ := List.mem_map.1 hmem
    cases hinj i hi index hindex (congrArg Prod.fst heq)
    exact (congrArg Prod.snd heq).symm
  · exact absurd rfl (hsidecars index hindex _ hmem)

theorem remainsDisk_none {base path : Path} {indexes : List Nat} {sidecars : List (Path × List UInt8)}
    {contents : List (List UInt8)} (h : ∀ i ∈ indexes, volumePath base i ≠ path)
    (hsidecars : ∀ sidecar ∈ sidecars, sidecar.1 ≠ path) : (remainsDisk base indexes sidecars contents).nodes path = none := by
  refine Option.map_eq_none_iff.2 (List.lookup_eq_none_iff.2 fun entry hmem => bne_iff_ne.2 ?_)
  rcases List.mem_append.1 hmem with hmem | hmem
  · obtain ⟨i, hi, rfl⟩ := List.mem_map.1 hmem
    exact (h i hi).symm
  · exact (hsidecars entry hmem).symm

theorem remainsDisk_remains {base : Path} {indexes : List Nat} {sidecars : List (Path × List UInt8)}
    {contents : List (List UInt8)} {layout : SplitLayout} {files : ParityFiles}
    (hentries : volumeEntries (remainsDisk base indexes sidecars contents) base =
      indexes.map fun index => (index, volumeName base index))
    (hindexes : ∀ i ∈ indexes, 0 < i ∧ i ≤ contents.length)
    (hinj : ∀ i ∈ indexes, ∀ j ∈ indexes, volumePath base i = volumePath base j → i = j)
    (hsidecars : ∀ i ∈ indexes, ∀ sidecar ∈ sidecars, sidecar.1 ≠ volumePath base i) :
    Remains (remainsDisk base indexes sidecars contents) base
      (volumeOutputs base contents ++ sidecarOutputs base layout (contents.getLastD []) files)
      fun index => index ∉ indexes := by
  constructor
  · rintro index primary path content - hmissing
    have hindex : index + 1 ∈ indexes := not_not.1 (of_decide_eq_false hmissing)
    rw [hentries]
    exact List.mem_map.2 ⟨index + 1, hindex, rfl⟩
  · intro index name hmem
    rw [hentries] at hmem
    obtain ⟨i, hi, heq⟩ := List.mem_map.1 hmem
    cases heq
    obtain ⟨hpos, hle⟩ := hindexes index hi
    refine ⟨decide_eq_false (not_not.2 hi), rfl, decide (index - 1 = 0), volumePath base index, contents[index - 1], ?_⟩
    refine volume_mem_iff.2 ⟨List.getElem?_eq_getElem (by omega), ?_, rfl⟩
    rw [Nat.sub_add_cancel hpos]
  · rintro index primary path content hout hmissing
    obtain ⟨hcontent, rfl, -⟩ := volume_mem_iff.1 hout
    rw [remainsDisk_file hinj hsidecars (not_not.1 (of_decide_eq_false hmissing)), Nat.add_sub_cancel,
      List.getD_eq_getElem?_getD, hcontent]
    rfl

theorem length_fiveVolumes : (sqzMagic ++ List.replicate 4000 (0 : UInt8)).length = 4008 := by
  rw [List.length_append, List.length_replicate]
  rfl

/-- An archive of five volumes. -/
theorem fiveVolumes_written :
    ∃ (prepared : List UInt8) (uuid : Uuid) (contents : List (List UInt8)) (files : ParityFiles),
      splitIntoVolumes [] [osStr "x.sqz".toList] 1024 (sqzMagic ++ List.replicate 4000 0) (2 ^ 30) =
        .ok (volumeOutputs [osStr "x.sqz".toList] contents ++
          sidecarOutputs [osStr "x.sqz".toList] ⟨992, 5, true, true, true⟩ (contents.getLastD []) files) ∧
      normalizedSplitOutputBase [osStr "x.sqz".toList] = .ok [osStr "x.sqz".toList] ∧
      splitLayout [osStr "x.sqz".toList] (sqzMagic ++ List.replicate 4000 (0 : UInt8)).length 1024 =
        .ok ⟨992, 5, true, true, true⟩ ∧
      prepareSqzForSplit (sqzMagic ++ List.replicate 4000 0) [] = .ok (prepared, uuid) ∧
      Written [osStr "x.sqz".toList] 1024 ⟨992, 5, true, true, true⟩ (some uuid) prepared contents files ∧
      contents.length = 5 := by
  have hbase : normalizedSplitOutputBase [osStr "x.sqz".toList] = .ok [osStr "x.sqz".toList] := by decide +kernel
  have hlayout : splitLayout [osStr "x.sqz".toList] (sqzMagic ++ List.replicate 4000 (0 : UInt8)).length 1024 =
      .ok ⟨992, 5, true, true, true⟩ := by
    rw [length_fiveVolumes]
    decide +kernel
  have hbudget : splitOutputBudget [osStr "x.sqz".toList] (sqzMagic ++ List.replicate 4000 (0 : UInt8)).length 1024 =
      .ok ⟨8456, 8456 + 2 ^ 20, 5⟩ := by
    rw [length_fiveVolumes]
    decide +kernel
  obtain ⟨⟨prepared, known⟩, hprepared⟩ := preparedArchive_ok [] (sqzMagic ++ List.replicate 4000 0)
    ⟨992, 5, true, true, true⟩ (by rw [length_fiveVolumes]; decide) rfl
  obtain ⟨outputs, houtputs⟩ := splitIntoVolumes_ok hbase hlayout hbudget hprepared (by decide : _ ≤ 2 ^ 30)
  obtain ⟨⟨prepared, uuid⟩, hmarked, heq⟩ := bind_eq_ok.1 hprepared
  cases heq
  obtain ⟨base', layout', prepared', known', contents, files, hbase', hlayout', hprepared', hwritten, rfl⟩ :=
    splitIntoVolumes_eq_ok houtputs
  cases hbase.symm.trans hbase'
  cases hlayout.symm.trans hlayout'
  cases hprepared.symm.trans hprepared'
  obtain ⟨written, hrounds, -⟩ := hwritten.rounds
  exact ⟨prepared, uuid, contents, files, houtputs, hbase, hlayout, hmarked, hwritten, (writeVolumes_eq_ok hrounds).1⟩

/-- Its volumes 2 and 3 are lost. -/
theorem fiveVolumes_remains (sidecars : List (Path × List UInt8)) {contents : List (List UInt8)}
    (hsidecars : (∀ i ∈ [1, 4, 5], ∀ sidecar ∈ sidecars, sidecar.1 ≠ volumePath [osStr "x.sqz".toList] i) ∧
      (sidecars.map fun (path, _) => fileName path).filterMap (volumeEntry "x.sqz".toList) = [])
    (hcontents : contents.length = 5) (files : ParityFiles) :
    Remains (remainsDisk [osStr "x.sqz".toList] [1, 4, 5] sidecars contents) [osStr "x.sqz".toList]
      (volumeOutputs [osStr "x.sqz".toList] contents ++ sidecarOutputs [osStr "x.sqz".toList] ⟨992, 5, true, true, true⟩
        (contents.getLastD []) files) fun index => index ∉ [1, 4, 5] := by
  refine remainsDisk_remains ?_ (by rw [hcontents]; decide) (by decide +kernel) hsidecars.1
  show List.filterMap (volumeEntry "x.sqz".toList) ([1, 4, 5].map (fun index =>
    some (volumeName [osStr "x.sqz".toList] index)) ++ sidecars.map fun (path, _) => fileName path) = _
  rw [List.filterMap_append, hsidecars.2, List.append_nil]
  decide +kernel

end Squallz.Volumes
