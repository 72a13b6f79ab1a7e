/-
A split archive that has lost up to three volumes: as long as the recovery files for them are there, it is read as if nothing
were missing.
-/
import Squallz.Volumes.RoundTrip
import Squallz.Volumes.Solving

namespace Squallz.Volumes

open Squallz.Api Squallz.Bytes Squallz.Destination Squallz.Erasure

/-! ## What is lost -/

/-- The indexes that are lost: those that are missing, but for the tail where its mirror is there. -/
def lostIndexes (count : Nat) (missing : Nat → Bool) (mirrored : Bool) : List Nat :=
  (missingIndexes count missing).filter fun index => ¬ (index = count ∧ mirrored = true)

/-- The recovery files that are needed are as they were written, and they are enough for what is lost. -/
structure Recoverable (nodes : Nodes) (base : Path) (outputs : List SplitOutput) (count : Nat) (missing : Nat → Bool)
    (mirrored : Bool) : Prop where
  tail : missing count = true → nodes.isFile (volumePath base count) = false
  mirror : missing count = true → mirrored = true → SidecarKept nodes outputs .tailRecovery
  noMirror : missing count = true → mirrored = false → nodes.isFile (recoveryVolumePath base count) = false
  few : (lostIndexes count missing mirrored).length ≤ 3
  single : lostIndexes count missing mirrored ≠ [] → SidecarKept nodes outputs .parity
  weighted : 2 ≤ (lostIndexes count missing mirrored).length → SidecarKept nodes outputs .weightedParity
  quadratic : 3 ≤ (lostIndexes count missing mirrored).length → SidecarKept nodes outputs .quadraticParity

theorem mem_lostIndexes {count index : Nat} {missing : Nat → Bool} {mirrored : Bool} :
    index ∈ lostIndexes count missing mirrored ↔
      (0 < index ∧ index ≤ count) ∧ missing index = true ∧ ¬ (index = count ∧ mirrored = true) := by
  unfold lostIndexes missingIndexes
  rw [List.mem_filter, List.mem_filter, List.mem_range'_1, decide_eq_true_eq, and_assoc]
  constructor
  · rintro ⟨hrange, hrest⟩
    exact ⟨⟨hrange.1, by omega⟩, hrest⟩
  · rintro ⟨hrange, hrest⟩
    exact ⟨⟨hrange.1, by omega⟩, hrest⟩

theorem nodup_lostIndexes (count : Nat) (missing : Nat → Bool) (mirrored : Bool) :
    (lostIndexes count missing mirrored).Nodup :=
  ((List.nodup_range' : (List.range' 1 count).Nodup).filter _).filter _

theorem lostOf_lostIndexes (count : Nat) (missing : Nat → Bool) (mirrored : Bool) :
    lostOf (lostIndexes count missing mirrored) count = lostIndexes count missing mirrored := by
  unfold lostOf
  conv_rhs => unfold lostIndexes missingIndexes
  rw [List.filter_filter]
  refine List.filter_congr fun index hindex => ?_
  rw [List.mem_range'_1] at hindex
  have hiff : index ∈ lostIndexes count missing mirrored ↔ missing index = true ∧ ¬ (index = count ∧ mirrored = true) := by
    rw [mem_lostIndexes]
    exact and_iff_right ⟨hindex.1, by omega⟩
  rw [decide_eq_decide.2 hiff, Bool.decide_and, Bool.decide_eq_true, Bool.and_comm]

/-! ## What was written -/

section Written

variable {nodes : Nodes} {base : Path} {volumeSize : Nat} {layout : SplitLayout} {uuid : Uuid} {archive : List UInt8}
  {contents : List (List UInt8)} {files : ParityFiles}

theorem Written.content (h : Written base volumeSize layout (some uuid) archive contents files)
    (hsqzv : layout.writeSqzv = true) {index : Nat} (hpos : 0 < index) (hle : index ≤ layout.count) :
    ∃ header, sqzvHeader index layout.count uuid = .ok header ∧
      contents.getD (index - 1) [] = header ++ volumeData layout archive index := by
  obtain ⟨k, rfl⟩ := Nat.exists_eq_add_one.2 hpos
  obtain ⟨header, hheader, hcontent⟩ := h.volume hsqzv hle
  refine ⟨header, hheader, ?_⟩
  rw [Nat.add_sub_cancel, List.getD_eq_getElem?_getD, hcontent, Option.getD_some]

theorem Written.getLastD_eq (h : Written base volumeSize layout (some uuid) archive contents files) :
    contents.getLastD [] = contents.getD (layout.count - 1) [] := by
  obtain ⟨written, hwritten, -⟩ := h.rounds
  rw [List.getLastD_eq_getLast?, List.getLast?_eq_getElem?, (writeVolumes_eq_ok hwritten).1, List.getD_eq_getElem?_getD]

theorem Written.length_content (h : Written base volumeSize layout (some uuid) archive contents files)
    (hsqzv : layout.writeSqzv = true) {index : Nat} (hpos : 0 < index) (hle : index ≤ layout.count) :
    sqzvHeaderLen ≤ (contents.getD (index - 1) []).length ∧ (contents.getD (index - 1) []).length ≤ volumeSize ∧
      (index ≠ layout.count → (contents.getD (index - 1) []).length = volumeSize) := by
  obtain ⟨header, hheader, hcontent⟩ := h.content hsqzv hpos hle
  have hroom := h.layoutOf.header_add
  rw [hsqzv, if_pos rfl] at hroom
  have hdata : (volumeData layout archive index).length = _ := length_volumeData index
  rw [hcontent, List.length_append, length_sqzvHeader hheader]
  refine ⟨Nat.le_add_right _ _, by omega, fun hne => ?_⟩
  rw [h.layoutOf.length_volumeData hpos (Nat.lt_of_le_of_ne hle hne), hroom]

/-- The header of the recovery files knows how long every volume is. -/
theorem Written.physicalLenFor (h : Written base volumeSize layout (some uuid) archive contents files)
    (hsqzv : layout.writeSqzv = true) {index : Nat} (hpos : 0 < index) (hle : index ≤ layout.count) :
    (parityHeader layout uuid volumeSize (contents.getLastD []).length).physicalLenFor index layout.count =
      .ok (contents.getD (index - 1) []).length := by
  obtain ⟨hmin, hmax, hfull⟩ := h.length_content hsqzv hpos hle
  unfold SqzrHeader.physicalLenFor parityHeader
  dsimp only
  by_cases hindex : index = layout.count
  · rw [if_pos hindex, h.getLastD_eq, ← hindex, if_neg (by omega)]
  · rw [if_neg hindex, ← hfull hindex, if_neg (by omega)]

/-- A parity file that is there, and that every volume fits. -/
def HoldsSums (nodes : Nodes) (path : Path) (contents : List (List UInt8)) (count : Nat) (weights : Nat → Gf256) : Prop :=
  ∃ file, nodes path = some (.file file) ∧
    (∀ index, 0 < index → index ≤ count → sqzrHeaderLen + (contents.getD (index - 1) []).length ≤ file.length) ∧
    ∀ j, byteAt file (sqzrHeaderLen + j) = weightedSum weights (volumeByte contents · j) (List.range' 1 count)

theorem holdsSums_of_kept (h : Written base volumeSize layout (some uuid) archive contents files)
    (hsqzv : layout.writeSqzv = true) {o : Option (List UInt8)} {written : Bool} {file : List UInt8} {path : Path}
    {weights : Nat → Gf256} (hlen : o.map List.length = if written then some (sqzrHeaderLen + volumeSize) else none)
    (hsums : ∀ file, o = some file →
      ∀ j, byteAt file (sqzrHeaderLen + j) = weightedSum weights (volumeByte contents · j) (List.range' 1 layout.count))
    (hfile : o = some file) (hnode : nodes path = some (.file file)) :
    written = true ∧ HoldsSums nodes path contents layout.count weights := by
  subst hfile
  cases written with
  | false => cases hlen
  | true =>
    refine ⟨rfl, file, hnode, fun index hpos hle => ?_, hsums file rfl⟩
    have hroom := (h.length_content hsqzv hpos hle).2.1
    have hfull : file.length = sqzrHeaderLen + volumeSize := Option.some.inj hlen
    omega

theorem Written.kept (h : Written base volumeSize layout (some uuid) archive contents files)
    (hsqzv : layout.writeSqzv = true) :
    (SidecarKept nodes (volumeOutputs base contents ++ sidecarOutputs base layout (contents.getLastD []) files) .parity →
      HoldsSums nodes (recoveryParityVolumePath base) contents layout.count weightOne) ∧
    (SidecarKept nodes (volumeOutputs base contents ++ sidecarOutputs base layout (contents.getLastD []) files)
      .weightedParity → layout.count ≤ 255 ∧
        HoldsSums nodes (recoveryWeightedParityVolumePath base) contents layout.count coeffAt) ∧
    (SidecarKept nodes (volumeOutputs base contents ++ sidecarOutputs base layout (contents.getLastD []) files)
      .quadraticParity → HoldsSums nodes (recoveryQuadraticParityVolumePath base) contents layout.count weightSquare) := by
  have hlengths := h.lengths
  rw [ParityFiles.lengths, SplitLayout.parityLengths, Prod.mk.injEq, Prod.mk.injEq] at hlengths
  obtain ⟨hp, hw, hq⟩ := hlengths
  refine ⟨?_, ?_, ?_⟩
  · rintro ⟨path, content, hmem, hnode⟩
    obtain ⟨rfl, hcontent⟩ := (parity_mem hmem).1 rfl
    exact (holdsSums_of_kept h hsqzv hp h.sums.single hcontent hnode).2
  · rintro ⟨path, content, hmem, hnode⟩
    obtain ⟨rfl, hcontent⟩ := (parity_mem hmem).2.1 rfl
    obtain ⟨hwritten, hholds⟩ := holdsSums_of_kept h hsqzv hw h.sums.weighted hcontent hnode
    rw [h.layoutOf.weighted] at hwritten
    exact ⟨of_decide_eq_true (Bool.and_eq_true_iff.1 hwritten).2, hholds⟩
  · rintro ⟨path, content, hmem, hnode⟩
    obtain ⟨rfl, hcontent⟩ := (parity_mem hmem).2.2 rfl
    exact (holdsSums_of_kept h hsqzv hq h.sums.quadratic hcontent hnode).2

/-! ## The mirror of the tail -/

theorem tail_mem {path : Path} {content : List UInt8} (h : ⟨path, .tailRecovery, content⟩ ∈ volumeOutputs base contents ++
    sidecarOutputs base layout (contents.getLastD []) files) :
    path = recoveryVolumePath base layout.count ∧ content = contents.getLastD [] := by
  rcases List.mem_append.1 h with h | h
  · obtain ⟨k, content', -, heq⟩ := mem_volumeOutputs.1 h
    cases heq
  · unfold sidecarOutputs at h
    rcases List.mem_append.1 h with h | h
    · split at h
      · cases List.mem_singleton.1 h
        exact ⟨rfl, rfl⟩
      · cases h
    · rcases List.mem_append.1 h with h | h
      · obtain ⟨file, -, heq⟩ := Option.map_eq_some_iff.1 (Option.mem_toList.1 h)
        cases heq
      · rcases List.mem_append.1 h with h | h
        · obtain ⟨file, -, heq⟩ := Option.map_eq_some_iff.1 (Option.mem_toList.1 h)
          cases heq
        · obtain ⟨file, -, heq⟩ := Option.map_eq_some_iff.1 (Option.mem_toList.1 h)
          cases heq

/-- The part that is made of the mirror. -/
def mirrorPart (base : Path) (count : Nat) (contents : List (List UInt8)) : VolumePart :=
  ⟨recoveryVolumePath base count, sqzvHeaderLen, (contents.getD (count - 1) []).length - sqzvHeaderLen, .file⟩

theorem Written.mirror (h : Written base volumeSize layout (some uuid) archive contents files)
    (hsqzv : layout.writeSqzv = true) (huuid : UuidFits uuid)
    (hkept : SidecarKept nodes (volumeOutputs base contents ++ sidecarOutputs base layout (contents.getLastD []) files)
      .tailRecovery) :
    nodes (recoveryVolumePath base layout.count) = some (.file (contents.getD (layout.count - 1) [])) ∧
      sqzvRecoveryVolumePart nodes base layout.count layout.count uuid = .ok (some (mirrorPart base layout.count contents)) := by
  obtain ⟨path, content, hmem, hnode⟩ := hkept
  obtain ⟨rfl, rfl⟩ := tail_mem hmem
  rw [h.getLastD_eq] at hnode
  refine ⟨hnode, ?_⟩
  have hpos := h.layoutOf.count_pos
  have hlen := (h.length_content hsqzv hpos (Nat.le_refl _)).1
  obtain ⟨header, hheader, hcontent⟩ := h.content hsqzv hpos (Nat.le_refl _)
  have hread := readSqzvHeader_sqzvHeader huuid hheader (volumeData layout archive layout.count)
  rw [← hcontent] at hread
  unfold sqzvRecoveryVolumePart
  dsimp only
  rw [hnode]
  dsimp only
  rw [hread, ok_bind]
  dsimp only
  rw [validateSqzvHeader, if_neg (by simp), ok_bind, if_neg (by simp), if_neg (Nat.not_lt.2 hlen)]
  rfl

theorem sqzvRecoveryVolumePart_absent {index total : Nat} (h : nodes.isFile (recoveryVolumePath base index) = false) :
    sqzvRecoveryVolumePart nodes base index total uuid = .ok none := by
  unfold Nodes.isFile at h
  unfold sqzvRecoveryVolumePart
  dsimp only
  cases hnode : nodes (recoveryVolumePath base index) with
  | none => rfl
  | some node =>
    cases node with
    | file content =>
      rw [hnode] at h
      cases h
    | other len => rfl

end Written

/-! ## Reconstruction -/

theorem reconstructionPeers_eq {nodes : Nodes} {base : Path} {total : Nat} {lost : List Nat} {tailMirror : Option VolumePart}
    {f : Nat → PeerVolume} {indexes : List Nat}
    (h : ∀ index ∈ indexes, index ∉ lost → reconstructionPeer nodes base total tailMirror index = .ok (f index)) :
    reconstructionPeers nodes base total lost tailMirror indexes = .ok ((indexes.filter fun index => ¬ index ∈ lost).map f) := by
  induction indexes with
  | nil => rfl
  | cons index indexes ih =>
    have hrest := ih fun index hindex => h index (List.mem_cons_of_mem _ hindex)
    rw [reconstructionPeers, List.filter_cons]
    by_cases hlost : index ∈ lost
    · rw [if_pos hlost, if_neg (by simp [hlost]), hrest]
    · rw [if_neg hlost, if_pos (by simp [hlost]), h index List.mem_cons_self hlost, ok_bind, hrest]
      rfl

/-- The volumes that are read beside the parity files. -/
def peerVolumes (base : Path) (count : Nat) (missing : Nat → Bool) (contents : List (List UInt8)) (lost : List Nat) :
    List PeerVolume :=
  (leftOf lost count).map fun index =>
    ⟨index, if missing index then recoveryVolumePath base count else volumePath base index,
      (contents.getD (index - 1) []).length⟩

/-- The volumes that are not lost are there, in their own place or in the mirror's. -/
def Left (nodes : Nodes) (base : Path) (count : Nat) (missing : Nat → Bool) (contents : List (List UInt8))
    (lost : List Nat) : Prop :=
  ∀ index ∈ leftOf lost count, nodes (if missing index then recoveryVolumePath base count else volumePath base index) =
    some (.file (contents.getD (index - 1) []))

theorem new_eq_ok {nodes : Nodes} {base : Path} {count : Nat} {missing : Nat → Bool} {contents : List (List UInt8)}
    {lost : List Nat} {source : ReconstructedSource} {opened : ReconstructedReaderSource} (coeffs : Nat → UInt8 × UInt8)
    (hleft : Left nodes base count missing contents lost)
    (hopened : ReconstructedVolumeReader.openSource nodes source = .ok opened)
    (hcoeffs : ∀ index ∈ leftOf lost count, ReconstructedVolumeReader.peerCoeffs opened index = .ok (coeffs index)) :
    ReconstructedVolumeReader.new nodes source (peerVolumes base count missing contents lost) =
      .ok ⟨opened, peersOf contents coeffs (leftOf lost count)⟩ := by
  unfold ReconstructedVolumeReader.new
  rw [hopened, ok_bind]
  refine bind_eq_ok.2 ⟨_, mapM_eq_ok (g := fun peer => ⟨(coeffs peer.index).1, (coeffs peer.index).2,
    contents.getD (peer.index - 1) [], peer.physicalLen⟩) fun peer hpeer => ?_, ?_⟩
  · obtain ⟨index, hindex, rfl⟩ := List.mem_map.1 hpeer
    dsimp only
    rw [hcoeffs index hindex, ok_bind, openFile_eq_ok.2 (hleft index hindex)]
    rfl
  · unfold peerVolumes peersOf
    rw [List.map_map]
    rfl

/-- The parity files that a number of lost volumes needs. -/
structure Parities (nodes : Nodes) (base : Path) (contents : List (List UInt8)) (count lost : Nat) : Prop where
  single : 1 ≤ lost → HoldsSums nodes (recoveryParityVolumePath base) contents count weightOne
  weighted : 2 ≤ lost → count ≤ 255 ∧ HoldsSums nodes (recoveryWeightedParityVolumePath base) contents count coeffAt
  quadratic : 3 ≤ lost → HoldsSums nodes (recoveryQuadraticParityVolumePath base) contents count weightSquare

section Source

variable {nodes : Nodes} {base : Path} {count a : Nat} {missing : Nat → Bool} {contents : List (List UInt8)} {lost : List Nat}
  {dual triple : Option SqzrHeader}

theorem mem_leftOf {index : Nat} : index ∈ leftOf lost count ↔ (0 < index ∧ index ≤ count) ∧ index ∉ lost := by
  unfold leftOf
  rw [List.mem_filter, List.mem_range'_1, decide_eq_true_eq]
  constructor
  · rintro ⟨hrange, hlost⟩
    exact ⟨⟨hrange.1, by omega⟩, hlost⟩
  · rintro ⟨hrange, hlost⟩
    exact ⟨⟨hrange.1, by omega⟩, hlost⟩

theorem length_others (hnodup : lost.Nodup) (ha : a ∈ lost) : (lost.filter (· ≠ a)).length + 1 = lost.length :=
  (perm_cons_filter hnodup ha).length_eq.symm

/-- A volume that is lost is reconstructed. -/
theorem reconstructed (hlost : lostOf lost count = lost) (hnodup : lost.Nodup) (hfew : lost.length ≤ 3)
    (hrange : ∀ index ∈ lost, 0 < index ∧ index ≤ count) (hleft : Left nodes base count missing contents lost)
    (hparities : Parities nodes base contents count lost.length) (ha : a ∈ lost)
    (hdual : 2 ≤ lost.length → ∃ header, dual = some header ∧
      header.physicalLenFor a count = .ok (contents.getD (a - 1) []).length)
    (htriple : 3 ≤ lost.length → ∃ header, triple = some header ∧
      header.physicalLenFor a count = .ok (contents.getD (a - 1) []).length) :
    ∃ source reader, reconstructionSource base a count lost (contents.getD (a - 1) []).length dual triple = .ok (some source) ∧
      ReconstructedVolumeReader.new nodes source (peerVolumes base count missing contents lost) = .ok reader ∧
      reader.Rebuilds (contents.getD (a - 1) []) := by
  obtain ⟨hpos, hle⟩ := hrange a ha
  have hperm := perm_cons_filter hnodup ha
  have hothers := length_others hnodup ha
  have hmem : ∀ other ∈ lost.filter (· ≠ a), (0 < other ∧ other ≤ count) ∧ a ≠ other := by
    intro other hother
    obtain ⟨hin, hne⟩ := List.mem_filter.1 hother
    exact ⟨hrange other hin, fun heq => of_decide_eq_true hne heq.symm⟩
  obtain ⟨single, hsingleFile, hsingleRoom, hsingleSums⟩ := hparities.single (by omega)
  unfold reconstructionSource
  rcases hcase : lost.filter (· ≠ a) with _ | ⟨b, _ | ⟨c, others⟩⟩
  · rw [hcase] at hothers hperm
    rw [← hothers]
    refine ⟨_, _, rfl, new_eq_ok (fun _ => (0, 0)) hleft ?_ fun _ _ => rfl, singleXor_rebuilds hsingleSums
      (hsingleRoom a hpos hle) (hlost.trans (List.perm_singleton.1 hperm))⟩
    exact bind_eq_ok.2 ⟨single, openFile_eq_ok.2 hsingleFile, rfl⟩
  · rw [hcase] at hothers hperm hmem
    obtain ⟨⟨hbpos, hble⟩, hab⟩ := hmem b (List.mem_singleton.2 rfl)
    obtain ⟨hsmall, weighted, hweightedFile, hweightedRoom, hweightedSums⟩ := hparities.weighted (by
      rw [← hothers]
      exact Nat.le_refl _)
    obtain ⟨header, rfl, hheader⟩ := hdual (by
      rw [← hothers]
      exact Nat.le_refl _)
    have hfind : lost.find? (· ≠ a) = some b := by
      rw [← List.head?_filter, hcase]
      rfl
    have hne := coeffAt_add_ne_zero (by omega : a ≤ 255) (by omega : b ≤ 255) hab
    have hinv := Gf256.gf256Inv_eq hne
    rw [← hothers]
    dsimp only
    rw [hfind]
    dsimp only
    rw [sqzrWeightedCoeff_ok hpos (by omega), ok_bind, sqzrWeightedCoeff_ok hbpos (by omega), ok_bind, hheader, ok_bind,
      if_neg (not_not.2 rfl)]
    refine ⟨_, _, rfl, new_eq_ok (fun index => (UInt8.ofNat index, 0)) hleft ?_ fun index hindex => ?_,
      dualWeighted_rebuilds hsingleSums hweightedSums (hsingleRoom a hpos hle) (hweightedRoom a hpos hle)
        (hlost.symm ▸ hperm) hne⟩
    · unfold ReconstructedVolumeReader.openSource
      rw [Gf256.byte_add] at hinv
      dsimp only [coeffAt] at hinv ⊢
      rw [hinv]
      dsimp only
      rw [openFile_eq_ok.2 hsingleFile, ok_bind, openFile_eq_ok.2 hweightedFile, ok_bind]
      rfl
    · obtain ⟨⟨hindexPos, hindexLe⟩, -⟩ := mem_leftOf.1 hindex
      unfold ReconstructedVolumeReader.peerCoeffs
      dsimp only
      rw [sqzrWeightedCoeff_ok hindexPos (by omega)]
      rfl
  · rw [hcase] at hothers hperm hmem
    obtain rfl : others = [] := List.eq_nil_of_length_eq_zero (by
      rw [List.length_cons, List.length_cons] at hothers
      omega)
    obtain ⟨⟨hbpos, hble⟩, hab⟩ := hmem b List.mem_cons_self
    obtain ⟨⟨hcpos, hcle⟩, hac⟩ := hmem c (List.mem_cons_of_mem _ (List.mem_singleton.2 rfl))
    have hthree : lost.length = 3 := hothers.symm
    obtain ⟨hsmall, weighted, hweightedFile, hweightedRoom, hweightedSums⟩ := hparities.weighted (by omega)
    obtain ⟨quadratic, hquadraticFile, hquadraticRoom, hquadraticSums⟩ := hparities.quadratic (by omega)
    obtain ⟨header, rfl, hheader⟩ := hdual (by omega)
    obtain ⟨header', rfl, hheader'⟩ := htriple (by omega)
    have hne := mul_ne_zero (coeffAt_add_ne_zero (by omega : a ≤ 255) (by omega : b ≤ 255) hab)
      (coeffAt_add_ne_zero (by omega : a ≤ 255) (by omega : c ≤ 255) hac)
    have hinv := Gf256.gf256Inv_eq hne
    rw [hthree]
    dsimp only
    rw [sqzrWeightedCoeff_ok hpos (by omega), ok_bind, sqzrWeightedCoeff_ok hbpos (by omega), ok_bind,
      sqzrWeightedCoeff_ok hcpos (by omega), ok_bind, hheader, ok_bind, if_neg (not_not.2 rfl), hheader', ok_bind,
      if_neg (not_not.2 rfl)]
    refine ⟨_, _, rfl, new_eq_ok (fun index => (UInt8.ofNat index,
        gf256Mul (UInt8.ofNat index) (UInt8.ofNat index))) hleft ?_ fun index hindex => ?_,
      tripleWeighted_rebuilds hsingleSums hweightedSums hquadraticSums (hsingleRoom a hpos hle) (hweightedRoom a hpos hle)
        (hquadraticRoom a hpos hle) (hlost.symm ▸ hperm) hne⟩
    · unfold ReconstructedVolumeReader.openSource
      rw [Gf256.byte_mul, Gf256.byte_add, Gf256.byte_add] at hinv
      dsimp only [coeffAt] at hinv ⊢
      rw [hinv]
      dsimp only
      rw [openFile_eq_ok.2 hsingleFile, ok_bind, openFile_eq_ok.2 hweightedFile, ok_bind, openFile_eq_ok.2 hquadraticFile,
        ok_bind]
      rfl
    · obtain ⟨⟨hindexPos, hindexLe⟩, -⟩ := mem_leftOf.1 hindex
      unfold ReconstructedVolumeReader.peerCoeffs
      dsimp only
      rw [sqzrWeightedCoeff_ok hindexPos (by omega)]
      rfl

end Source

/-! ## The set -/

section Set

variable {nodes : Nodes} {base : Path} {volumeSize : Nat} {layout : SplitLayout} {uuid : Uuid} {archive : List UInt8}
  {contents : List (List UInt8)} {files : ParityFiles} {present : List (Nat × Path)} {missing : Nat → Bool} {mirrored : Bool}

/-- The mirror, where the set uses it. -/
def usedMirror (base : Path) (count : Nat) (contents : List (List UInt8)) (missing : Nat → Bool) (mirrored : Bool) :
    Option VolumePart :=
  if missing count = true ∧ mirrored = true then some (mirrorPart base count contents) else none

theorem Found.content (h : Found nodes base present layout uuid archive missing)
    (hwritten : Written base volumeSize layout (some uuid) archive contents files) (hsqzv : layout.writeSqzv = true)
    {index : Nat} (hpos : 0 < index) (hle : index ≤ layout.count) (hmissing : missing index = false) :
    nodes (volumePath base index) = some (.file (contents.getD (index - 1) [])) := by
  obtain ⟨header, hheader, hfile⟩ := h.file index hpos hle hmissing
  obtain ⟨header', hheader', hcontent⟩ := hwritten.content hsqzv hpos hle
  cases hheader.symm.trans hheader'
  rw [hfile, hcontent]

theorem Recoverable.parities (h : Recoverable nodes base (volumeOutputs base contents ++
      sidecarOutputs base layout (contents.getLastD []) files) layout.count missing mirrored)
    (hwritten : Written base volumeSize layout (some uuid) archive contents files) (hsqzv : layout.writeSqzv = true) :
    Parities nodes base contents layout.count (lostIndexes layout.count missing mirrored).length := by
  obtain ⟨hsingle, hweighted, hquadratic⟩ := @Written.kept nodes _ _ _ _ _ _ _ hwritten hsqzv
  exact ⟨fun hlen => hsingle (h.single (List.ne_nil_of_length_pos hlen)), fun hlen => hweighted (h.weighted hlen),
    fun hlen => hquadratic (h.quadratic hlen)⟩

/-- An index that is missing and not lost is the tail's, and the mirror is there. -/
theorem missing_left {index count : Nat} (hindex : index ∈ leftOf (lostIndexes count missing mirrored) count)
    (hmissing : missing index = true) : index = count ∧ mirrored = true := by
  obtain ⟨hrange, hnot⟩ := mem_leftOf.1 hindex
  by_contra hmirrored
  exact hnot (mem_lostIndexes.2 ⟨hrange, hmissing, hmirrored⟩)

theorem Recoverable.left (h : Recoverable nodes base (volumeOutputs base contents ++
      sidecarOutputs base layout (contents.getLastD []) files) layout.count missing mirrored)
    (hwritten : Written base volumeSize layout (some uuid) archive contents files) (hsqzv : layout.writeSqzv = true)
    (huuid : UuidFits uuid) (hfound : Found nodes base present layout uuid archive missing) :
    Left nodes base layout.count missing contents (lostIndexes layout.count missing mirrored) ∧
      reconstructionPeers nodes base layout.count (lostIndexes layout.count missing mirrored)
        (usedMirror base layout.count contents missing mirrored) (List.range' 1 layout.count) =
        .ok (peerVolumes base layout.count missing contents (lostIndexes layout.count missing mirrored)) := by
  have hleft : Left nodes base layout.count missing contents (lostIndexes layout.count missing mirrored) := by
    intro index hindex
    obtain ⟨⟨hpos, hle⟩, -⟩ := mem_leftOf.1 hindex
    cases hmissing : missing index with
    | false => exact hfound.content hwritten hsqzv hpos hle hmissing
    | true =>
      obtain ⟨rfl, hmirrored⟩ := missing_left hindex hmissing
      exact (hwritten.mirror hsqzv huuid (h.mirror hmissing hmirrored)).1
  refine ⟨hleft, reconstructionPeers_eq fun index hindex hnot => ?_⟩
  have hin : index ∈ leftOf (lostIndexes layout.count missing mirrored) layout.count :=
    List.mem_filter.2 ⟨hindex, decide_eq_true hnot⟩
  obtain ⟨⟨hpos, hle⟩, -⟩ := mem_leftOf.1 hin
  unfold reconstructionPeer
  dsimp only
  cases hmissing : missing index with
  | false =>
    rw [hfound.content hwritten hsqzv hpos hle hmissing]
    rfl
  | true =>
    obtain ⟨rfl, hmirrored⟩ := missing_left hin hmissing
    have hlen := (hwritten.length_content hsqzv hpos hle).1
    have hused : usedMirror base layout.count contents missing mirrored = some (mirrorPart base layout.count contents) :=
      if_pos ⟨hmissing, hmirrored⟩
    have hgone := h.tail hmissing
    unfold Nodes.isFile at hgone
    split
    · rename_i file hfile
      rw [hfile] at hgone
      cases hgone
    · rw [if_pos rfl, hused, if_pos rfl]
      dsimp only [mirrorPart]
      rw [Nat.sub_add_cancel hlen]

/-- What is known of the set when nothing is lost for good. -/
structure RecoveredSet (base : Path) (scan : HeaderScan) (header : SqzrHeader) (count : Nat) (contents : List (List UInt8))
    (missing : Nat → Bool) (mirrored : Bool) (set : SqzvSet) : Prop where
  total : set.total = count
  headers : set.headers = scan
  tailMirror : set.tailMirror = usedMirror base count contents missing mirrored
  lost : set.reconstructableMissing = lostIndexes count missing mirrored
  single : 1 ≤ (lostIndexes count missing mirrored).length → set.singleParity = some header
  dual : 2 ≤ (lostIndexes count missing mirrored).length → set.dualParity = some header
  triple : 3 ≤ (lostIndexes count missing mirrored).length → set.tripleParity = some header

theorem mem_missingIndexes {count : Nat} (hpos : 0 < count) : count ∈ missingIndexes count missing ↔ missing count = true := by
  unfold missingIndexes
  rw [List.mem_filter, List.mem_range'_1]
  exact and_iff_right ⟨hpos, by omega⟩

theorem usedMirror_eq (hwritten : Written base volumeSize layout (some uuid) archive contents files)
    (hsqzv : layout.writeSqzv = true) (huuid : UuidFits uuid)
    (h : Recoverable nodes base (volumeOutputs base contents ++ sidecarOutputs base layout (contents.getLastD []) files)
      layout.count missing mirrored) :
    (if layout.count ∈ missingIndexes layout.count missing then
      sqzvRecoveryVolumePart nodes base layout.count layout.count uuid else .ok none : Res (Option VolumePart)) =
      .ok (usedMirror base layout.count contents missing mirrored) := by
  have hmem : layout.count ∈ missingIndexes layout.count missing ↔ missing layout.count = true :=
    mem_missingIndexes hwritten.layoutOf.count_pos
  unfold usedMirror
  by_cases hmissing : missing layout.count = true
  · rw [if_pos (hmem.2 hmissing)]
    cases hmirrored : mirrored with
    | false => rw [sqzvRecoveryVolumePart_absent (h.noMirror hmissing hmirrored), if_neg fun hboth => Bool.false_ne_true hboth.2]
    | true => rw [(hwritten.mirror hsqzv huuid (h.mirror hmissing hmirrored)).2, if_pos ⟨hmissing, rfl⟩]
  · rw [if_neg fun hin => hmissing (hmem.1 hin), if_neg fun hboth => hmissing hboth.1]

theorem lostIndexes_eq (base : Path) (count : Nat) (contents : List (List UInt8)) (missing : Nat → Bool) (mirrored : Bool) :
    (missingIndexes count missing).filter (fun index =>
      ¬ (index = count ∧ (usedMirror base count contents missing mirrored).isSome)) = lostIndexes count missing mirrored := by
  refine List.filter_congr fun index hindex => decide_eq_decide.2 (not_congr (and_congr_right fun heq => ?_))
  have hmissing : missing index = true := (List.mem_filter.1 hindex).2
  rw [heq] at hmissing
  unfold usedMirror
  cases mirrored with
  | false =>
    rw [if_neg fun hboth => Bool.false_ne_true hboth.2]
    exact iff_of_false Bool.false_ne_true Bool.false_ne_true
  | true => rw [if_pos ⟨hmissing, rfl⟩, Option.isSome_some]

/-- A recovery file that is read where it is needed. -/
theorem parity_needed {needed : Prop} [Decidable needed] {recoveryIndex algorithm count : Nat} {header : SqzrHeader}
    (h : needed → readSqzrHeader nodes base recoveryIndex algorithm count uuid = .ok (some header)) :
    ∃ parity, (if needed then readSqzrHeader nodes base recoveryIndex algorithm count uuid else .ok none :
      Res (Option SqzrHeader)) = .ok parity ∧ (needed → parity = some header) := by
  by_cases hneeded : needed
  · exact ⟨some header, by rw [if_pos hneeded, h hneeded], fun _ => rfl⟩
  · exact ⟨none, if_neg hneeded, fun h => absurd h hneeded⟩

theorem sqzvSet_recovered {scan : HeaderScan} (present : List (Nat × Path))
    (hwritten : Written base volumeSize layout (some uuid) archive contents files) (hsqzv : layout.writeSqzv = true)
    (huuid : UuidFits uuid) (hsize : volumeSize < 2 ^ 64)
    (hscan : ∀ index, 0 < index → index ≤ layout.count → scan.has index = !missing index)
    (h : Recoverable nodes base (volumeOutputs base contents ++ sidecarOutputs base layout (contents.getLastD []) files)
      layout.count missing mirrored) :
    ∃ set, sqzvSet nodes base present scan layout.count uuid = .ok set ∧
      RecoveredSet base scan (parityHeader layout uuid volumeSize (contents.getLastD []).length) layout.count contents missing
        mirrored set := by
  have htailLen := hwritten.length_tail_le
  have hsidecars := hwritten.sidecars nodes huuid hsize (by omega)
  have hsmall := fun hlen => ((h.parities hwritten hsqzv).weighted hlen).1
  obtain ⟨single, hsingle, hsingleSome⟩ := parity_needed fun hne : lostIndexes layout.count missing mirrored ≠ [] =>
    hsidecars.single (h.single hne)
  obtain ⟨dual, hdual, hdualSome⟩ := parity_needed fun hlen : 2 ≤ (lostIndexes layout.count missing mirrored).length ∧
    (lostIndexes layout.count missing mirrored).length ≤ 3 ∧ layout.count ≤ 255 => hsidecars.weighted (h.weighted hlen.1)
  obtain ⟨triple, htriple, htripleSome⟩ := parity_needed fun hlen : (lostIndexes layout.count missing mirrored).length = 3 ∧
    layout.count ≤ 255 => hsidecars.quadratic (h.quadratic hlen.1.ge)
  refine ⟨⟨layout.count, scan, usedMirror base layout.count contents missing mirrored,
    lostIndexes layout.count missing mirrored, single, dual, triple, fullLogicalLen nodes layout.count present⟩, ?_, rfl, rfl,
    rfl, rfl, fun hlen => ?_, fun hlen => ?_, fun hlen => ?_⟩
  · unfold sqzvSet
    dsimp only
    rw [rawMissing_eq hscan, usedMirror_eq hwritten hsqzv huuid h, ok_bind, lostIndexes_eq, hsingle, ok_bind, hdual, ok_bind,
      htriple, ok_bind]
    rfl
  · exact hsingleSome (List.ne_nil_of_length_pos hlen)
  · exact hdualSome ⟨hlen, h.few, hsmall hlen⟩
  · exact htripleSome ⟨Nat.le_antisymm h.few hlen, hsmall (Nat.le_of_succ_le hlen)⟩

/-! ## The parts -/

/-- A part that opens as a volume: with its header, its length and its bytes. -/
def Opens (nodes : Nodes) (part : VolumePart) (content : List UInt8) (header : SqzvHeader) : Prop :=
  ∃ reader, MultiVolumeReader.openPart nodes part = .ok (some (reader, content.length, some header)) ∧
    (Segment.mk reader sqzvHeaderLen (content.length - sqzvHeaderLen)).Backed ∧
    reader.bytes sqzvHeaderLen (content.length - sqzvHeaderLen) = content.drop sqzvHeaderLen

theorem slice_drop {α : Type} (l : List α) (n : Nat) : slice l n (l.length - n) = l.drop n := by
  rw [slice, ← List.length_drop, List.take_length]

theorem opens_file {path : Path} {content : List UInt8} {header : SqzvHeader} (dataOffset logicalLen : Nat)
    (hfile : nodes path = some (.file content)) (hheader : readSqzvHeader content = .ok (some header))
    (hlen : sqzvHeaderLen ≤ content.length) : Opens nodes ⟨path, dataOffset, logicalLen, .file⟩ content header := by
  refine ⟨.file content, ?_, ?_, slice_drop content sqzvHeaderLen⟩
  · unfold MultiVolumeReader.openPart
    dsimp only
    rw [openFile_eq_ok.2 hfile, ok_bind, hheader]
    rfl
  · show sqzvHeaderLen + (content.length - sqzvHeaderLen) ≤ content.length
    omega

theorem opens_reconstructed {part : VolumePart} {source : ReconstructedSource} {peers : List PeerVolume}
    {reader : ReconstructedVolumeReader} {content : List UInt8} {header : SqzvHeader}
    (hsource : part.source = .reconstructed source peers) (hoffset : part.dataOffset = sqzvHeaderLen)
    (hlogical : part.logicalLen = content.length - sqzvHeaderLen) (hcounts : part.Counts nodes)
    (hnew : ReconstructedVolumeReader.new nodes source peers = .ok reader) (hrebuilds : reader.Rebuilds content)
    (hheader : readSqzvHeader content = .ok (some header)) (hlen : sqzvHeaderLen ≤ content.length) :
    Opens nodes part content header := by
  obtain ⟨path, dataOffset, logicalLen, source'⟩ := part
  dsimp only at hsource hoffset hlogical
  subst hsource hoffset hlogical
  have hfits := new_fits hcounts hnew
  rw [Nat.sub_add_cancel hlen] at hfits
  have hdata := hrebuilds sqzvHeaderLen (content.length - sqzvHeaderLen) (by omega)
  have hfront := hrebuilds 0 sqzvHeaderLen (by omega)
  rw [slice, List.drop_zero] at hfront
  unfold readSqzvHeader at hheader
  rw [if_neg (Nat.not_lt.2 hlen)] at hheader
  refine ⟨.reconstructed reader, ?_, ?_, ?_⟩
  · unfold MultiVolumeReader.openPart
    dsimp only
    rw [hnew, ok_bind, hfront, ok_bind, hheader, ok_bind, Nat.sub_add_cancel hlen]
    rfl
  · show reader.Fits (sqzvHeaderLen + (content.length - sqzvHeaderLen))
    rwa [Nat.add_sub_cancel' hlen]
  · unfold PartReader.bytes
    dsimp only
    rw [hdata]
    exact slice_drop content sqzvHeaderLen

/-- The part of every index opens as the volume that was written. -/
theorem sqzvPart_opens {scan : HeaderScan} {set : SqzvSet}
    (hwritten : Written base volumeSize layout (some uuid) archive contents files) (hsqzv : layout.writeSqzv = true)
    (huuid : UuidFits uuid) (hfound : Found nodes base present layout uuid archive missing)
    (hscan : scan.headers = headersOf layout.count uuid present)
    (h : Recoverable nodes base (volumeOutputs base contents ++ sidecarOutputs base layout (contents.getLastD []) files)
      layout.count missing mirrored)
    (hset : sqzvSet nodes base present scan layout.count uuid = .ok set)
    (hknown : RecoveredSet base scan (parityHeader layout uuid volumeSize (contents.getLastD []).length) layout.count contents
      missing mirrored set) {index : Nat} (hpos : 0 < index) (hle : index ≤ layout.count) :
    ∃ part, sqzvPart nodes base set index = .ok part ∧
      Opens nodes part (contents.getD (index - 1) []) ⟨index, layout.count, uuid⟩ := by
  have hlen := (hwritten.length_content hsqzv hpos hle).1
  obtain ⟨header, hheader, hcontent⟩ := hwritten.content hsqzv hpos hle
  have hread := readSqzvHeader_sqzvHeader huuid hheader (volumeData layout archive index)
  rw [← hcontent] at hread
  have hlookup := hfound.lookup hpos hle
  unfold sqzvPart
  dsimp only
  rw [hknown.headers, hscan, hlookup, hknown.total, hknown.tailMirror]
  by_cases hmissing : missing index = true
  · rw [if_pos hmissing]
    dsimp only
    by_cases hmirrored : index = layout.count ∧ mirrored = true
    · obtain ⟨rfl, hmirrored⟩ := hmirrored
      have hused : usedMirror base layout.count contents missing mirrored = some (mirrorPart base layout.count contents) :=
        if_pos ⟨hmissing, hmirrored⟩
      rw [if_pos rfl, hused]
      exact ⟨_, rfl, opens_file _ _ (hwritten.mirror hsqzv huuid (h.mirror hmissing hmirrored)).1 hread hlen⟩
    · have hnone : (if index = layout.count then usedMirror base layout.count contents missing mirrored else none) = none := by
        by_cases hindex : index = layout.count
        · rw [if_pos hindex]
          exact if_neg fun hboth => hmirrored ⟨hindex, hboth.2⟩
        · exact if_neg hindex
      have hlost : index ∈ lostIndexes layout.count missing mirrored := mem_lostIndexes.2 ⟨⟨hpos, hle⟩, hmissing, hmirrored⟩
      have hone : 1 ≤ (lostIndexes layout.count missing mirrored).length := List.length_pos_of_mem hlost
      have hphysical := hwritten.physicalLenFor hsqzv hpos hle
      obtain ⟨hleft, hpeers⟩ := h.left hwritten hsqzv huuid hfound
      obtain ⟨source, reader, hsource, hnew, hrebuilds⟩ := reconstructed (lostOf_lostIndexes layout.count missing mirrored)
        (nodup_lostIndexes layout.count missing mirrored) h.few (fun _ hin => (mem_lostIndexes.1 hin).1) hleft
        (h.parities hwritten hsqzv) hlost (fun htwo => ⟨_, hknown.dual htwo, hphysical⟩)
        (fun hthree => ⟨_, hknown.triple hthree, hphysical⟩)
      have hpart : reconstructSqzvPart nodes base index set.total set.reconstructableMissing set.singleParity set.dualParity
          set.tripleParity set.tailMirror = .ok (some ⟨volumePath base index, sqzvHeaderLen,
            (contents.getD (index - 1) []).length - sqzvHeaderLen, .reconstructed source
              (peerVolumes base layout.count missing contents (lostIndexes layout.count missing mirrored))⟩) := by
        unfold reconstructSqzvPart
        rw [hknown.lost, hknown.single hone, hknown.total, hknown.tailMirror, if_neg (not_not.2 hlost)]
        dsimp only
        rw [hphysical, ok_bind, hsource, ok_bind]
        dsimp only
        rw [hpeers]
        rfl
      have hcounts := reconstructSqzvPart_counts (sqzvSet_counts hset) hpart
      rw [hknown.total, hknown.tailMirror] at hpart
      rw [hnone]
      dsimp only
      rw [hpart]
      exact ⟨_, rfl, opens_reconstructed rfl rfl rfl hcounts hnew hrebuilds hread hlen⟩
  · rw [if_neg hmissing]
    have hfile := hfound.content hwritten hsqzv hpos hle (Bool.eq_false_of_not_eq_true hmissing)
    dsimp only
    rw [validateSqzvHeader, if_neg (by simp), ok_bind, Nodes.metadataLen, hfile]
    dsimp only
    rw [ok_bind, if_neg (Nat.not_lt.2 hlen)]
    exact ⟨_, rfl, opens_file _ _ hfile hread hlen⟩

/-- The parts are opened one behind the other. -/
theorem openParts_opens {part : Nat → VolumePart} {index rounds : Nat} {known : Option Uuid}
    (hparts : ∀ i, index ≤ i → i < index + rounds →
      Opens nodes (part i) (contents.getD (i - 1) []) ⟨i, layout.count, uuid⟩ ∧
        sqzvHeaderLen ≤ (contents.getD (i - 1) []).length)
    (hknown : known = none ∨ known = some uuid) (reader : MultiVolumeReader) :
    ∃ segments : List Segment, MultiVolumeReader.openParts nodes layout.count index known reader
        ((List.range' index rounds).map part) = .ok (reader.pushAll segments) ∧
      segments.map Segment.bytes = (List.range' index rounds).map
        (fun i => (contents.getD (i - 1) []).drop sqzvHeaderLen) ∧
      ∀ segment ∈ segments, segment.Backed := by
  induction rounds generalizing index known reader with
  | zero => exact ⟨[], rfl, rfl, fun segment hsegment => absurd hsegment List.not_mem_nil⟩
  | succ rounds ih =>
    obtain ⟨⟨partReader, hopen, hbacked, hbytes⟩, hlen⟩ := hparts index (Nat.le_refl _) (by omega)
    obtain ⟨content, hcontent⟩ : ∃ content, contents.getD (index - 1) [] = content := ⟨_, rfl⟩
    rw [hcontent] at hopen hbacked hbytes hlen
    obtain ⟨segments, hrest, hrestBytes, hrestBacked⟩ := @ih (index + 1) (some uuid)
      (fun i hi hlt => hparts i (by omega) (by omega)) (.inr rfl)
      (reader.push partReader sqzvHeaderLen (content.length - sqzvHeaderLen))
    have hcheck : MultiVolumeReader.checkHeader (part index) index layout.count known (some ⟨index, layout.count, uuid⟩) =
        .ok (sqzvHeaderLen, some uuid) := by
      rcases hknown with rfl | rfl
      · rw [MultiVolumeReader.checkHeader, validateSqzvHeader, if_neg (by simp)]
        rfl
      · rw [MultiVolumeReader.checkHeader, validateSqzvHeader, if_neg (by simp), ok_bind, if_neg (by simp)]
        rfl
    refine ⟨⟨partReader, sqzvHeaderLen, content.length - sqzvHeaderLen⟩ :: segments, ?_, ?_, ?_⟩
    · rw [List.range'_succ, List.map_cons, MultiVolumeReader.openParts, hopen, ok_bind]
      dsimp only
      rw [hcheck, ok_bind]
      dsimp only
      rw [if_neg (by omega)]
      exact hrest
    · rw [List.map_cons, hrestBytes, List.range'_succ, List.map_cons, hcontent]
      exact congrArg (· :: _) hbytes
    · intro segment hsegment
      cases hsegment with
      | head => exact hbacked
      | tail _ hsegment => exact hrestBacked segment hsegment

end Set

/-! ## The set as a whole -/

/-- An SQZ set is put together of the headers that were found, whichever they are. -/
theorem collectPresent_found {nodes : Nodes} {base : Path} {present : List (Nat × Path)} {layout : SplitLayout} {uuid : Uuid}
    {archive : List UInt8} {missing : Nat → Bool} {volumeSize selectedIndex : Nat}
    (h : Found nodes base present layout uuid archive missing) (hlayout : LayoutOf base archive.length volumeSize layout)
    (hsqz : isSqzBase base = true) (huuid : UuidFits uuid) (hne : present ≠ []) :
    collectPresent nodes base selectedIndex present =
      sqzvSet nodes base present ⟨headersOf layout.count uuid present, some layout.count, some uuid⟩ layout.count uuid >>=
        fun set => (List.range' 1 layout.count).mapM (sqzvPart nodes base set) := by
  have hmax : (present.getLast?.map Prod.fst).getD 0 ≠ 0 := by
    rw [List.getLast?_eq_getLast_of_ne_nil hne, Option.map_some, Option.getD_some]
    exact Nat.pos_iff_ne_zero.1 ((h.mem _ _).1 (List.getLast_mem hne)).2.1
  rw [collectPresent]
  dsimp only
  rw [if_neg hmax, hsqz, if_pos rfl, collectSqzvVolumeSet_eq hne (h.headers huuid) hlayout.count_pos hlayout.bounded
    fun volume hvolume => ((h.mem volume.1 volume.2).1 hvolume).2.2.1]
  cases sqzvSet nodes base present ⟨headersOf layout.count uuid present, some layout.count, some uuid⟩ layout.count uuid with
  | error fault => rfl
  | ok set =>
    rw [ok_bind, ok_bind]
    cases (List.range' 1 layout.count).mapM (sqzvPart nodes base set) <;> rfl

/-- Behind their headers, the volumes hold the archive. -/
theorem Written.drop_content {base : Path} {volumeSize : Nat} {layout : SplitLayout} {uuid : Uuid} {archive : List UInt8}
    {contents : List (List UInt8)} {files : ParityFiles}
    (h : Written base volumeSize layout (some uuid) archive contents files) (hsqzv : layout.writeSqzv = true) {k : Nat}
    (hk : k < layout.count) :
    (contents.getD k []).drop sqzvHeaderLen = block layout.logicalVolumeSize archive k := by
  obtain ⟨header, hheader, hcontent⟩ := h.content hsqzv (Nat.succ_pos k) hk
  rw [Nat.succ_sub_one] at hcontent
  rw [hcontent, List.drop_left' (length_sqzvHeader hheader), volumeData_eq_block]

/-- A set of which nothing is lost for good is found and opened, with the blocks of the archive. -/
theorem Found.openRecovered {disk : Disk} {base volume : Path} {layout : SplitLayout} {uuid : Uuid} {archive : List UInt8}
    {contents : List (List UInt8)} {files : ParityFiles} {missing : Nat → Bool} {mirrored : Bool} {volumeSize selectedIndex : Nat}
    {baseName : List Char} (h : Found disk.nodes base (presentVolumes disk base).toList layout uuid archive missing)
    (hwritten : Written base volumeSize layout (some uuid) archive contents files) (hsqzv : layout.writeSqzv = true)
    (hsqz : isSqzBase base = true) (huuid : UuidFits uuid) (hsize : volumeSize < 2 ^ 64)
    (hvolume : ((fileName volume).bind toStr).bind splitVolumeName = some (baseName, selectedIndex))
    (hbase : withFileName volume (osStr baseName) = base)
    (hsome : ∃ index, 0 < index ∧ index ≤ layout.count ∧ missing index = false)
    (hrecoverable : Recoverable disk.nodes base (volumeOutputs base contents ++
      sidecarOutputs base layout (contents.getLastD []) files) layout.count missing mirrored) :
    ∃ (set : VolumeSet) (segments : List Segment), collectVolumeSet disk volume = .ok set ∧
      MultiVolumeReader.openSet disk.nodes set = .ok (MultiVolumeReader.ofSegments segments) ∧
      segments.map Segment.bytes = (List.range layout.count).map (block layout.logicalVolumeSize archive) ∧
      ∀ segment ∈ segments, segment.Backed := by
  obtain ⟨present, hpresent⟩ : ∃ present, (presentVolumes disk base).toList = present := ⟨_, rfl⟩
  rw [hpresent] at h
  obtain ⟨set, hset, hknown⟩ := sqzvSet_recovered present hwritten hsqzv huuid hsize h.has hrecoverable
  have hparts : ∀ index, ∃ part, 0 < index → index ≤ layout.count →
      Volumes.sqzvPart disk.nodes base set index = .ok part ∧
      Opens disk.nodes part (contents.getD (index - 1) []) ⟨index, layout.count, uuid⟩ := by
    intro index
    by_cases hindex : 0 < index ∧ index ≤ layout.count
    · obtain ⟨part, hpart⟩ := sqzvPart_opens hwritten hsqzv huuid h rfl hrecoverable hset hknown hindex.1 hindex.2
      exact ⟨part, fun _ _ => hpart⟩
    · exact ⟨⟨[], 0, 0, .file⟩, fun hpos hle => absurd ⟨hpos, hle⟩ hindex⟩
  choose part hpart using hparts
  have hopens : ∀ i, 1 ≤ i → i < 1 + layout.count →
      Opens disk.nodes (part i) (contents.getD (i - 1) []) ⟨i, layout.count, uuid⟩ ∧
        sqzvHeaderLen ≤ (contents.getD (i - 1) []).length := by
    intro i hpos hlt
    exact ⟨(hpart i hpos (by omega)).2, (hwritten.length_content hsqzv hpos (by omega)).1⟩
  obtain ⟨segments, hopen, hbytes, hbacked⟩ := openParts_opens hopens (.inl rfl) ⟨[], [], [], [], 0, 0⟩
  have hne : present ≠ [] := by
    obtain ⟨index, hpos, hle, hmissing⟩ := hsome
    exact List.ne_nil_of_mem ((h.mem _ _).2 ⟨rfl, hpos, hle, hmissing⟩)
  refine ⟨(List.range' 1 layout.count).map part, segments, ?_, ?_, ?_, hbacked⟩
  · rw [collectVolumeSet_eq hvolume, hbase, hpresent, collectPresent_found h hwritten.layoutOf hsqz huuid hne, hset, ok_bind]
    refine mapM_eq_ok fun index hindex => ?_
    rw [List.mem_range'_1] at hindex
    exact (hpart index (by omega) (by omega)).1
  · rw [MultiVolumeReader.openSet, List.length_map, List.length_range']
    exact hopen
  · rw [hbytes, List.range'_eq_map_range, List.map_map]
    refine List.map_congr_left fun k hk => ?_
    rw [Function.comp_apply, Nat.add_sub_cancel_left]
    exact hwritten.drop_content hsqzv (List.mem_range.1 hk)

/-- A split archive is read as it was written: whichever volumes are missing, as long as one of them is there and the recovery
files that the missing ones need are as they were written. -/
theorem opened_reconstructed {tmp base base' volume : Path} {volumeSize available selectedIndex : Nat}
    {archive prepared : List UInt8} {uuid : Uuid} {outputs : List SplitOutput} {layout : SplitLayout} {disk : Disk}
    {baseName : List Char} {missing : Nat → Bool} {mirrored : Bool}
    (hsplit : splitIntoVolumes tmp base volumeSize archive available = .ok outputs)
    (hbase : normalizedSplitOutputBase base = .ok base') (hsqz : isSqzBase base' = true)
    (hlayout : splitLayout base' archive.length volumeSize = .ok layout)
    (hprepared : prepareSqzForSplit archive tmp = .ok (prepared, uuid))
    (harchive : archive.length ≤ u64Max) (hsize : volumeSize ≤ u64Max)
    (hvolume : ((fileName volume).bind toStr).bind splitVolumeName = some (baseName, selectedIndex))
    (hvolumeBase : withFileName volume (osStr baseName) = base') (hremains : Remains disk base' outputs missing)
    (hsome : ∃ index, 0 < index ∧ index ≤ layout.count ∧ missing index = false)
    (hrecoverable : Recoverable disk.nodes base' outputs layout.count missing mirrored) :
    ∃ set reader, collectVolumeSet disk volume = .ok set ∧ MultiVolumeReader.openSet disk.nodes set = .ok reader ∧
      reader.content = prepared ∧
      ∀ search, Finds search → ∀ calls : List (Call Nat),
        reader.flat.Answers u64Max 0 calls ((MultiVolumeReader.stream search).answers reader calls) := by
  obtain ⟨base'', layout', prepared', uuid', contents, files, hbase', hlayout', hprepared', hwritten, rfl⟩ :=
    splitIntoVolumes_eq_ok hsplit
  cases hbase'.symm.trans hbase
  cases hlayout'.symm.trans hlayout
  have hof := splitLayout_eq_ok hlayout
  have hsqzv : layout.writeSqzv = true := hof.writeSqzv.trans hsqz
  rw [preparedArchive, if_pos hsqzv, hprepared] at hprepared'
  cases hprepared'
  have hpreparedLen : prepared.length = archive.length := by
    refine (preparedArchive_eq_ok (?_ : preparedArchive layout tmp archive = .ok (prepared, some uuid))).1
    rw [preparedArchive, if_pos hsqzv, hprepared]
    rfl
  have hpow : u64Max < 2 ^ 64 := by decide
  obtain ⟨set, segments, hcollect, hopen, hbytes, hbacked⟩ := (hremains.found hwritten hsqzv
    (fileName_isSome_of_isSqzBase hsqz)).openRecovered hwritten hsqzv hsqz (prepareSqzForSplit_uuid hprepared) (by omega) hvolume
    hvolumeBase hsome hrecoverable
  exact ⟨set, _, hcollect, hopen, answers_of_blocks hbytes (flatten_volumes hwritten.layoutOf) hbacked (by omega)⟩

theorem remainsDisk_sidecar {base path : Path} {indexes : List Nat} {sidecars : List (Path × List UInt8)}
    {contents : List (List UInt8)} {content : List UInt8} (h : ∀ i ∈ indexes, volumePath base i ≠ path)
    (hsidecar : sidecars.lookup path = some content) :
    (remainsDisk base indexes sidecars contents).nodes path = some (.file content) := by
  have hnone : (indexes.map fun index => (volumePath base index, contents.getD (index - 1) [])).lookup path = none := by
    refine List.lookup_eq_none_iff.2 fun entry hmem => ?_
    obtain ⟨i, hi, rfl⟩ := List.mem_map.1 hmem
    exact bne_iff_ne.2 (h i hi).symm
  unfold remainsDisk
  dsimp only
  rw [List.lookup_append, hnone, Option.none_or, hsidecar]
  rfl

/-- The parity files beside an archive. -/
def paritySidecars (base : Path) (single weighted quadratic : List UInt8) : List (Path × List UInt8) :=
  [(recoveryParityVolumePath base, single), (recoveryWeightedParityVolumePath base, weighted),
    (recoveryQuadraticParityVolumePath base, quadratic)]

/-- Two of five volumes are left, and the three parity files: the volumes 2 and 3 and the tail are worked out of them. -/
theorem opened_reconstructed_threeLost :
    ∃ (outputs : List SplitOutput) (disk : Disk) (prepared : List UInt8) (uuid : Uuid) (set : VolumeSet)
      (reader : MultiVolumeReader),
      splitIntoVolumes [] [osStr "x.sqz".toList] 1024 (sqzMagic ++ List.replicate 4000 0) (2 ^ 30) = .ok outputs ∧
      prepareSqzForSplit (sqzMagic ++ List.replicate 4000 0) [] = .ok (prepared, uuid) ∧
      Remains disk [osStr "x.sqz".toList] outputs (fun index => index ∉ [1, 4]) ∧
      collectVolumeSet disk [osStr "x.sqz.001".toList] = .ok set ∧
      MultiVolumeReader.openSet disk.nodes set = .ok reader ∧ reader.content = prepared := by
  obtain ⟨prepared, uuid, contents, files, houtputs, hbase, hlayout, hmarked, hwritten, hcontents⟩ := fiveVolumes_written
  have hlengths := hwritten.lengths
  rw [ParityFiles.lengths, SplitLayout.parityLengths, Prod.mk.injEq, Prod.mk.injEq] at hlengths
  obtain ⟨hp, hw, hq⟩ := hlengths
  obtain ⟨single, hsingle, -⟩ := Option.map_eq_some_iff.1 hp
  obtain ⟨weighted, hweighted, -⟩ := Option.map_eq_some_iff.1 hw
  obtain ⟨quadratic, hquadratic, -⟩ := Option.map_eq_some_iff.1 hq
  have hother : ∀ i ∈ [1, 4, 5], ∀ path ∈ [1, 2, 3, 5].map (recoveryVolumePath [osStr "x.sqz".toList]),
      volumePath [osStr "x.sqz".toList] i ≠ path := by decide +kernel
  have hkeys : ∀ sidecar ∈ paritySidecars [osStr "x.sqz".toList] single weighted quadratic,
      sidecar.1 ∈ [1, 2, 3].map (recoveryVolumePath [osStr "x.sqz".toList]) :=
    fun _ hmem => List.mem_map_of_mem (f := Prod.fst) hmem
  have hremains : Remains (remainsDisk [osStr "x.sqz".toList] [1, 4]
      (paritySidecars [osStr "x.sqz".toList] single weighted quadratic) contents) [osStr "x.sqz".toList]
      (volumeOutputs [osStr "x.sqz".toList] contents ++ sidecarOutputs [osStr "x.sqz".toList] ⟨992, 5, true, true, true⟩
        (contents.getLastD []) files) fun index => index ∉ [1, 4] := by
    refine remainsDisk_remains ?_ (by rw [hcontents]; decide) (by decide +kernel) fun i hi sidecar hmem => ?_
    · show List.filterMap (volumeEntry "x.sqz".toList) [some (volumeName [osStr "x.sqz".toList] 1),
        some (volumeName [osStr "x.sqz".toList] 4), fileName (recoveryVolumePath [osStr "x.sqz".toList] 1),
        fileName (recoveryVolumePath [osStr "x.sqz".toList] 2), fileName (recoveryVolumePath [osStr "x.sqz".toList] 3)] =
        [1, 4].map fun index => (index, volumeName [osStr "x.sqz".toList] index)
      decide +kernel
    · have hin : i ∈ [1, 4, 5] := List.mem_append_left [5] hi
      have hkey := List.mem_append_left ([5].map (recoveryVolumePath [osStr "x.sqz".toList])) (hkeys sidecar hmem)
      exact (hother i hin sidecar.1 hkey).symm
  have hnodes : ∀ (path : Path) (content : List UInt8),
      path ∈ [1, 2, 3].map (recoveryVolumePath [osStr "x.sqz".toList]) →
      (paritySidecars [osStr "x.sqz".toList] single weighted quadratic).lookup path = some content →
      (remainsDisk [osStr "x.sqz".toList] [1, 4] (paritySidecars [osStr "x.sqz".toList] single weighted quadratic)
        contents).nodes path = some (.file content) := by
    intro path content hpath hlookup
    refine remainsDisk_sidecar (fun i hi => ?_) hlookup
    exact hother i (List.mem_append_left [5] hi) path
      (List.mem_append_left ([5].map (recoveryVolumePath [osStr "x.sqz".toList])) hpath)
  have hnone : ∀ path, (∀ i ∈ [1, 4], volumePath [osStr "x.sqz".toList] i ≠ path) →
      (∀ key ∈ [1, 2, 3].map (recoveryVolumePath [osStr "x.sqz".toList]), key ≠ path) →
      (remainsDisk [osStr "x.sqz".toList] [1, 4] (paritySidecars [osStr "x.sqz".toList] single weighted quadratic)
        contents).nodes.isFile path = false := by
    intro path hvolumes hsidecars
    rw [Nodes.isFile, remainsDisk_none hvolumes fun sidecar hmem => hsidecars _ (hkeys sidecar hmem)]
  have hdistinct : (recoveryWeightedParityVolumePath [osStr "x.sqz".toList] ==
        recoveryParityVolumePath [osStr "x.sqz".toList]) = false ∧
      (recoveryQuadraticParityVolumePath [osStr "x.sqz".toList] == recoveryParityVolumePath [osStr "x.sqz".toList]) = false ∧
      (recoveryQuadraticParityVolumePath [osStr "x.sqz".toList] ==
        recoveryWeightedParityVolumePath [osStr "x.sqz".toList]) = false := by decide +kernel
  have hrecoverable : Recoverable (remainsDisk [osStr "x.sqz".toList] [1, 4]
      (paritySidecars [osStr "x.sqz".toList] single weighted quadratic) contents).nodes [osStr "x.sqz".toList]
      (volumeOutputs [osStr "x.sqz".toList] contents ++ sidecarOutputs [osStr "x.sqz".toList] ⟨992, 5, true, true, true⟩
        (contents.getLastD []) files) 5 (fun index => index ∉ [1, 4]) false := by
    constructor
    · exact fun _ => hnone _ (by decide +kernel) (by decide +kernel)
    · exact fun _ h => absurd h (by decide)
    · exact fun _ _ => hnone _ (by decide +kernel) (by decide +kernel)
    · decide
    · refine fun _ => ⟨recoveryParityVolumePath [osStr "x.sqz".toList], single, ?_, hnodes _ _ (by decide +kernel) ?_⟩
      · refine List.mem_append_right _ (List.mem_append_right _ (List.mem_append_left _ ?_))
        rw [hsingle]
        exact List.mem_singleton.2 rfl
      · exact List.lookup_cons_self
    · refine fun _ => ⟨recoveryWeightedParityVolumePath [osStr "x.sqz".toList], weighted, ?_,
        hnodes _ _ (by decide +kernel) ?_⟩
      · refine List.mem_append_right _ (List.mem_append_right _ (List.mem_append_right _ (List.mem_append_left _ ?_)))
        rw [hweighted]
        exact List.mem_singleton.2 rfl
      · rw [paritySidecars, List.lookup_cons, hdistinct.1]
        exact List.lookup_cons_self
    · refine fun _ => ⟨recoveryQuadraticParityVolumePath [osStr "x.sqz".toList], quadratic, ?_,
        hnodes _ _ (by decide +kernel) ?_⟩
      · refine List.mem_append_right _ (List.mem_append_right _ (List.mem_append_right _ (List.mem_append_right _ ?_)))
        rw [hquadratic]
        exact List.mem_singleton.2 rfl
      · rw [paritySidecars, List.lookup_cons, hdistinct.2.1, List.lookup_cons, hdistinct.2.2]
        exact List.lookup_cons_self
  obtain ⟨set, reader, hset, hopen, hcontent, -⟩ := opened_reconstructed houtputs hbase (by decide +kernel) hlayout hmarked
    (by rw [length_fiveVolumes]; decide) (by decide)
    (by decide +kernel : ((fileName [osStr "x.sqz.001".toList]).bind toStr).bind splitVolumeName = some ("x.sqz".toList, 1))
    (by decide +kernel) hremains ⟨1, by decide, by decide, by decide⟩ hrecoverable
  exact ⟨_, _, prepared, uuid, set, reader, houtputs, hmarked, hremains, hset, hopen, hcontent⟩

end Squallz.Volumes
