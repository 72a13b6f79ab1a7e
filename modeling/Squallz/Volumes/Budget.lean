/-
The output budget of a split archive: it covers what the splitter writes for every archive up to the length that the
budget was made for.
-/
import Squallz.Volumes.Outputs

namespace Squallz.Volumes

open Squallz.Api Squallz.Bytes Squallz.Destination

/-! ## The bytes that are written -/

def outputBytes (outputs : List SplitOutput) : Nat := (outputs.map fun output => output.content.length).sum

/-- The bytes of the files beside the volumes. -/
def SplitLayout.sidecarBytes (layout : SplitLayout) (volumeSize tailLen : Nat) : Nat :=
  (if layout.writeSqzv ∧ 1 < layout.count then tailLen + (sqzrHeaderLen + volumeSize) else 0) +
    ((if layout.writeWeightedParity then sqzrHeaderLen + volumeSize else 0) +
      if layout.writeQuadraticParity then sqzrHeaderLen + volumeSize else 0)

theorem outputBytes_append (outputs more : List SplitOutput) :
    outputBytes (outputs ++ more) = outputBytes outputs + outputBytes more := by
  rw [outputBytes, List.map_append, List.sum_append, ← outputBytes, ← outputBytes]

theorem outputBytes_volumeOutputs (base : Path) (contents : List (List UInt8)) :
    outputBytes (volumeOutputs base contents) = (contents.map List.length).sum := by
  rw [outputBytes, volumeOutputs, List.mapIdx_eq_zipIdx_map, List.map_map]
  congr 1
  rw [← List.zipIdx_map_fst 0 contents, List.map_map, List.zipIdx_map_fst]
  rfl

theorem outputBytes_file {path : Path} {role : SplitOutputRole} {o : Option (List UInt8)} {n : Option Nat}
    (h : o.map List.length = n) : outputBytes (o.map fun file => SplitOutput.mk path role file).toList = n.getD 0 := by
  subst h
  cases o with
  | none => rfl
  | some file => exact Nat.add_zero _

theorem getD_written (written : Bool) (n : Nat) : (if written then some n else none).getD 0 = if written then n else 0 := by
  cases written <;> rfl

theorem outputBytes_sidecarOutputs (base : Path) {volumeSize : Nat} {layout : SplitLayout} (tail : List UInt8)
    {files : ParityFiles} (hfiles : files.lengths = layout.parityLengths volumeSize) :
    outputBytes (sidecarOutputs base layout tail files) = layout.sidecarBytes volumeSize tail.length := by
  rw [ParityFiles.lengths, SplitLayout.parityLengths, Prod.mk.injEq, Prod.mk.injEq] at hfiles
  obtain ⟨hp, hw, hq⟩ := hfiles
  rw [sidecarOutputs, outputBytes_append, outputBytes_append, outputBytes_append, outputBytes_file hp, outputBytes_file hw,
    outputBytes_file hq, getD_written, getD_written, getD_written, SplitLayout.sidecarBytes, ← Nat.add_assoc]
  congr 1
  by_cases h : layout.writeSqzv = true ∧ 1 < layout.count
  · rw [if_pos h, if_pos h, if_pos (by simpa using h)]
    rfl
  · rw [if_neg h, if_neg h, if_neg (by simpa using h)]
    rfl

/-- The volumes take the archive and a header each. -/
theorem Written.volumeBytes {base : Path} {volumeSize : Nat} {layout : SplitLayout} {uuid : Option Uuid}
    {archive : List UInt8} {contents : List (List UInt8)} {files : ParityFiles}
    (h : Written base volumeSize layout uuid archive contents files) :
    (contents.map List.length).sum = archive.length + layout.count * layout.headerLen := by
  obtain ⟨written, hrounds, -⟩ := h.rounds
  have hbytes := writeVolumes_bytes hrounds Nat.one_pos
  have htotal := h.layoutOf.total_le
  rw [Nat.sub_self, Nat.zero_mul, Nat.min_zero, Nat.zero_add, Nat.min_eq_left htotal] at hbytes
  rw [Nat.add_comm]
  exact hbytes

/-- The tail is the last volume. -/
theorem Written.length_tail {base : Path} {volumeSize : Nat} {layout : SplitLayout} {uuid : Option Uuid}
    {archive : List UInt8} {contents : List (List UInt8)} {files : ParityFiles}
    (h : Written base volumeSize layout uuid archive contents files) :
    (contents.getLastD []).length = layout.headerLen +
      (archive.length - (layout.count - 1) * layout.logicalVolumeSize) := by
  obtain ⟨written, hrounds, -⟩ := h.rounds
  obtain ⟨hlen, hall, -⟩ := writeVolumes_eq_ok hrounds
  have hpos := h.layoutOf.count_pos
  have htotal := h.layoutOf.total_le
  have hlast : contents[layout.count - 1]? = some (contents.getLastD []) := by
    rw [← hlen, List.getLastD_eq_getLast?, List.getLast?_eq_getElem?]
    rw [List.getElem?_eq_getElem (by omega), Option.getD_some]
  have hstep : layout.count * layout.logicalVolumeSize =
      (layout.count - 1) * layout.logicalVolumeSize + layout.logicalVolumeSize := by
    rw [← Nat.succ_mul]
    congr 1
    omega
  rw [length_volumeContent (hall _ _ hlast), Nat.add_sub_cancel_left]
  omega

theorem Written.outputBytes {base : Path} {volumeSize : Nat} {layout : SplitLayout} {uuid : Option Uuid}
    {archive : List UInt8} {contents : List (List UInt8)} {files : ParityFiles}
    (h : Written base volumeSize layout uuid archive contents files) :
    outputBytes (volumeOutputs base contents ++ sidecarOutputs base layout (contents.getLastD []) files) =
      archive.length + layout.count * layout.headerLen + layout.sidecarBytes volumeSize
        (layout.headerLen + (archive.length - (layout.count - 1) * layout.logicalVolumeSize)) := by
  rw [outputBytes_append, outputBytes_volumeOutputs, h.volumeBytes, outputBytes_sidecarOutputs base _ h.lengths, h.length_tail]

/-- The sum that the splitter reports is the bytes of the outputs, as far as a `u64` reaches. -/
theorem totalOutputBytes_eq (outputs : List SplitOutput) : totalOutputBytes outputs = min (outputBytes outputs) u64Max := by
  have key : ∀ total, total ≤ u64Max →
      outputs.foldl (fun total output => saturatingAdd total output.content.length) total =
        min (total + outputBytes outputs) u64Max := by
    induction outputs with
    | nil =>
      intro total htotal
      exact (Nat.min_eq_left htotal).symm
    | cons output outputs ih =>
      intro total htotal
      have hcons : outputBytes (output :: outputs) = output.content.length + outputBytes outputs := rfl
      rw [List.foldl_cons, ih (saturatingAdd total output.content.length) (Nat.min_le_right _ _), hcons, saturatingAdd]
      omega
  rw [totalOutputBytes, key 0 (Nat.zero_le _), Nat.zero_add]

/-! ## The budget -/

/-- The bytes that are provided for: a tail as long as any other volume. -/
def SplitLayout.fullBytes (layout : SplitLayout) (total volumeSize : Nat) : Nat :=
  total + layout.count * layout.headerLen + layout.sidecarBytes volumeSize volumeSize

theorem saturatingAdd_left (a b : Nat) : saturatingAdd (min a u64Max) b = min (a + b) u64Max := by
  unfold saturatingAdd
  omega

theorem saturatingAdd_both (a b : Nat) : saturatingAdd (min a u64Max) (min b u64Max) = min (a + b) u64Max := by
  unfold saturatingAdd
  omega

theorem LayoutOf.plain {base : Path} {total volumeSize : Nat} {layout : SplitLayout}
    (h : LayoutOf base total volumeSize layout) (hsqzv : layout.writeSqzv = false) (tailLen : Nat) :
    layout.headerLen = 0 ∧ layout.sidecarBytes volumeSize tailLen = 0 := by
  rw [SplitLayout.headerLen, SplitLayout.sidecarBytes, h.weighted, h.quadratic, hsqzv]
  exact ⟨rfl, rfl⟩

/-- One volume has no sidecars. -/
theorem LayoutOf.sidecarBytes_single {base : Path} {total volumeSize : Nat} {layout : SplitLayout}
    (h : LayoutOf base total volumeSize layout) (hcount : layout.count ≤ 1) (tailLen : Nat) :
    layout.sidecarBytes volumeSize tailLen = 0 := by
  have hw : layout.writeWeightedParity = false := by
    rw [h.weighted, decide_eq_false (Nat.not_lt.2 (Nat.le_trans hcount (by decide))), Bool.and_false, Bool.false_and]
  have hq : layout.writeQuadraticParity = false := by
    rw [h.quadratic, decide_eq_false (Nat.not_lt.2 (Nat.le_trans hcount (by decide))), Bool.and_false, Bool.false_and]
  rw [SplitLayout.sidecarBytes, hw, hq, if_neg fun h => absurd h.2 (Nat.not_lt.2 hcount)]
  rfl

/-- The bytes of the budget are those that are provided for, as far as a `u64` reaches. -/
theorem splitFinalOutputBytes_eq {base : Path} {total volumeSize : Nat} {layout : SplitLayout}
    (hlayout : LayoutOf base total volumeSize layout) (htotal : total ≤ u64Max) :
    splitFinalOutputBytes total volumeSize layout = min (layout.fullBytes total volumeSize) u64Max := by
  rw [splitFinalOutputBytes, SplitLayout.fullBytes]
  cases hsqzv : layout.writeSqzv with
  | false =>
    obtain ⟨hheader, hsidecar⟩ := hlayout.plain hsqzv volumeSize
    rw [if_pos (by decide), hheader, hsidecar, Nat.mul_zero]
    exact (Nat.min_eq_left htotal).symm
  | true =>
    have hheader : layout.headerLen = sqzvHeaderLen := by rw [SplitLayout.headerLen, hsqzv, if_pos rfl]
    have hbytes : saturatingAdd total (saturatingMul layout.count sqzvHeaderLen) =
        min (total + layout.count * sqzvHeaderLen) u64Max := by
      have := saturatingAdd_both total (layout.count * sqzvHeaderLen)
      rwa [Nat.min_eq_left htotal] at this
    have hparity : parityFileBytes volumeSize = min (sqzrHeaderLen + volumeSize) u64Max := rfl
    rw [if_neg (by decide), hheader, hbytes]
    dsimp only
    by_cases hcount : layout.count ≤ 1
    · rw [if_pos hcount, hlayout.sidecarBytes_single hcount, Nat.add_zero]
    · have hseveral : layout.writeSqzv = true ∧ 1 < layout.count := ⟨hsqzv, Nat.lt_of_not_le hcount⟩
      rw [if_neg hcount, saturatingAdd_left, hparity, saturatingAdd_both, SplitLayout.sidecarBytes, if_pos hseveral]
      cases layout.writeWeightedParity <;> cases layout.writeQuadraticParity <;>
        simp only [Bool.false_eq_true, if_false, if_true, saturatingAdd_both, Nat.add_zero, Nat.zero_add, Nat.add_assoc]

/-- What is written is provided for. -/
theorem LayoutOf.written_le {base : Path} {total volumeSize : Nat} {layout : SplitLayout}
    (h : LayoutOf base total volumeSize layout) :
    total + layout.count * layout.headerLen + layout.sidecarBytes volumeSize
      (layout.headerLen + (total - (layout.count - 1) * layout.logicalVolumeSize)) ≤ layout.fullBytes total volumeSize := by
  have htail : layout.headerLen + (total - (layout.count - 1) * layout.logicalVolumeSize) ≤ volumeSize := by
    have hroom : layout.headerLen + layout.logicalVolumeSize = volumeSize := h.header_add
    have htotal := h.total_le
    have hstep : layout.count * layout.logicalVolumeSize =
        (layout.count - 1) * layout.logicalVolumeSize + layout.logicalVolumeSize := by
      have hpos := h.count_pos
      rw [← Nat.succ_mul]
      congr 1
      omega
    omega
  unfold SplitLayout.fullBytes SplitLayout.sidecarBytes
  split <;> omega

theorem ite_le_ite {p q : Prop} [Decidable p] [Decidable q] (h : p → q) (n : Nat) :
    (if p then n else 0) ≤ if q then n else 0 := by
  by_cases hp : p
  · rw [if_pos hp, if_pos (h hp)]
  · rw [if_neg hp]
    exact Nat.zero_le _

/-- More is provided for more, as long as no parity file is lost to the number of volumes. -/
theorem fullBytes_mono {base : Path} {total total' volumeSize : Nat} {layout layout' : SplitLayout}
    (h : LayoutOf base total volumeSize layout) (h' : LayoutOf base total' volumeSize layout') (hle : total' ≤ total)
    (hparity : layout.count ≤ 255 ∨ 255 < layout'.count) :
    layout'.fullBytes total' volumeSize ≤ layout.fullBytes total volumeSize := by
  have hsqzv : layout'.writeSqzv = layout.writeSqzv := by rw [h.writeSqzv, h'.writeSqzv]
  have hheader : layout'.headerLen = layout.headerLen := by rw [SplitLayout.headerLen, SplitLayout.headerLen, hsqzv]
  have hcount : layout'.count ≤ layout.count := by
    have hlogical : layout'.logicalVolumeSize = layout.logicalVolumeSize := by rw [h.logical, h'.logical, hsqzv]
    rw [h.count, h'.count, hlogical]
    exact max_le_max (divCeil_mono h.logical_pos hle) (Nat.le_refl 1)
  have hweighted : layout'.writeWeightedParity = true → layout.writeWeightedParity = true := by
    rw [h.weighted, h'.weighted, hsqzv]
    simp only [Bool.and_eq_true, decide_eq_true_eq]
    rintro ⟨⟨hs, hlow⟩, hhigh⟩
    exact ⟨⟨hs, Nat.lt_of_lt_of_le hlow hcount⟩, hparity.resolve_right (Nat.not_lt.2 hhigh)⟩
  have hquadratic : layout'.writeQuadraticParity = true → layout.writeQuadraticParity = true := by
    rw [h.quadratic, h'.quadratic, hsqzv]
    simp only [Bool.and_eq_true, decide_eq_true_eq]
    rintro ⟨⟨hs, hlow⟩, hhigh⟩
    exact ⟨⟨hs, Nat.lt_of_lt_of_le hlow hcount⟩, hparity.resolve_right (Nat.not_lt.2 hhigh)⟩
  have htail : layout'.writeSqzv = true ∧ 1 < layout'.count → layout.writeSqzv = true ∧ 1 < layout.count := by
    rintro ⟨hs, hlow⟩
    exact ⟨hsqzv ▸ hs, Nat.lt_of_lt_of_le hlow hcount⟩
  rw [SplitLayout.fullBytes, SplitLayout.fullBytes, SplitLayout.sidecarBytes, SplitLayout.sidecarBytes, hheader]
  exact Nat.add_le_add (Nat.add_le_add hle (Nat.mul_le_mul_right _ hcount))
    (Nat.add_le_add (ite_le_ite htail _) (Nat.add_le_add (ite_le_ite hweighted _) (ite_le_ite hquadratic _)))

/-! ## What the budget covers -/

/-- The most bytes of an archive that is still given every recovery file. -/
def lastFullRecoverySet (layout : SplitLayout) (total : Nat) : Nat := min (saturatingMul layout.logicalVolumeSize 255) total

theorem splitOutputBudget_eq_ok {base : Path} {total volumeSize : Nat} {budget : SplitOutputBudget}
    (h : splitOutputBudget base total volumeSize = .ok budget) :
    ∃ layout, splitLayout base total volumeSize = .ok layout ∧
      splitFinalOutputBytes total volumeSize layout ≤ budget.finalOutputBytes ∧
      (layout.writeSqzv = true → 255 < layout.count → ∃ recoveryLayout,
        splitLayout base (lastFullRecoverySet layout total) volumeSize = .ok recoveryLayout ∧
        splitFinalOutputBytes (lastFullRecoverySet layout total) volumeSize recoveryLayout ≤ budget.finalOutputBytes) := by
  rw [splitOutputBudget] at h
  obtain ⟨layout, hlayout, h⟩ := bind_eq_ok.1 h
  refine ⟨layout, hlayout, ?_⟩
  by_cases hmany : layout.writeSqzv = true ∧ 255 < layout.count
  · rw [if_pos hmany] at h
    obtain ⟨recoveryLayout, hrecovery, h⟩ := bind_eq_ok.1 h
    cases h
    exact ⟨Nat.le_max_left _ _, fun _ _ => ⟨recoveryLayout, hrecovery, Nat.le_max_right _ _⟩⟩
  · rw [if_neg hmany] at h
    cases h
    exact ⟨Nat.le_refl _, fun hs hc => absurd ⟨hs, hc⟩ hmany⟩

/-- There is a budget for every layout. -/
theorem splitOutputBudget_ok {base : Path} {total volumeSize : Nat} {layout : SplitLayout}
    (h : splitLayout base total volumeSize = .ok layout) :
    ∃ budget, splitOutputBudget base total volumeSize = .ok budget := by
  have hof := splitLayout_eq_ok h
  rw [splitOutputBudget, h, ok_bind]
  by_cases hmany : layout.writeSqzv = true ∧ 255 < layout.count
  · have hroom : roomOf base volumeSize = layout.logicalVolumeSize := by rw [roomOf, hof.logical, hof.writeSqzv]
    have hcount : max (divCeil (lastFullRecoverySet layout total) (roomOf base volumeSize)) 1 ≤ maxSplitVolumeCount := by
      refine Nat.le_trans ?_ hof.bounded
      rw [hroom, hof.count]
      exact max_le_max (divCeil_mono hof.logical_pos (Nat.min_le_right _ _)) (Nat.le_refl 1)
    obtain ⟨recoveryLayout, hrecovery⟩ := splitLayout_ok hof.minimum hcount
    rw [if_pos hmany]
    exact ⟨_, bind_eq_ok.2 ⟨recoveryLayout, hrecovery, rfl⟩⟩
  · rw [if_neg hmany]
    exact ⟨_, rfl⟩

/-- The budget provides for every archive up to its length. -/
theorem fullBytes_le_budget {base : Path} {total total' volumeSize : Nat} {layout' : SplitLayout}
    {budget : SplitOutputBudget} (htotal : total ≤ u64Max) (hbudget : splitOutputBudget base total volumeSize = .ok budget)
    (h' : LayoutOf base total' volumeSize layout') (hle : total' ≤ total) :
    min (layout'.fullBytes total' volumeSize) u64Max ≤ budget.finalOutputBytes := by
  obtain ⟨layout, hlayout, hbytes, hrecovery⟩ := splitOutputBudget_eq_ok hbudget
  have hof := splitLayout_eq_ok hlayout
  have covered : ∀ {covering : Nat} {cover : SplitLayout}, LayoutOf base covering volumeSize cover → covering ≤ u64Max →
      total' ≤ covering → (cover.count ≤ 255 ∨ 255 < layout'.count) →
      splitFinalOutputBytes covering volumeSize cover ≤ budget.finalOutputBytes →
      min (layout'.fullBytes total' volumeSize) u64Max ≤ budget.finalOutputBytes := by
    intro covering cover hcover hmax hcovering hparity hfinal
    rw [splitFinalOutputBytes_eq hcover hmax] at hfinal
    exact Nat.le_trans (min_le_min_right _ (fullBytes_mono hcover h' hcovering hparity)) hfinal
  by_cases hparity : layout.count ≤ 255 ∨ 255 < layout'.count
  · exact covered hof htotal hle hparity hbytes
  · -- The parity files are lost on the way from this archive to the longest one.
    have hmany : 255 < layout.count := by omega
    have hfew : layout'.count ≤ 255 := by omega
    by_cases hsqzv : layout.writeSqzv = true
    · obtain ⟨recoveryLayout, hlayout', hfinal⟩ := hrecovery hsqzv hmany
      have hcover := splitLayout_eq_ok hlayout'
      have same : ∀ {t t' : Nat} {l l' : SplitLayout}, LayoutOf base t volumeSize l → LayoutOf base t' volumeSize l' →
          l.logicalVolumeSize = l'.logicalVolumeSize := by
        intro t t' l l' hl hl'
        rw [hl.logical, hl'.logical, hl.writeSqzv, hl'.writeSqzv]
      have hshort : total' ≤ lastFullRecoverySet layout total := by
        have := (h'.count_le_iff (by decide)).1 hfew
        rw [same h' hof] at this
        unfold lastFullRecoverySet saturatingMul
        omega
      refine covered hcover (Nat.le_trans (Nat.min_le_right _ _) htotal) hshort (.inl ?_) hfinal
      refine (hcover.count_le_iff (by decide)).2 ?_
      rw [same hcover hof]
      unfold lastFullRecoverySet saturatingMul
      omega
    · have hplain : layout'.writeSqzv = false := by
        rw [h'.writeSqzv, ← hof.writeSqzv]
        exact Bool.eq_false_iff.2 hsqzv
      obtain ⟨hheader, hsidecar⟩ := h'.plain hplain volumeSize
      rw [splitFinalOutputBytes, if_pos hsqzv] at hbytes
      rw [SplitLayout.fullBytes, hheader, hsidecar, Nat.mul_zero, Nat.add_zero]
      exact Nat.le_trans (Nat.min_le_left _ _) (Nat.le_trans hle hbytes)

/-- The outputs of every archive up to the length of the budget take no more bytes than it has, as far as a `u64`
reaches. -/
theorem splitOutputBudget_covers {tmp base base' : Path} {total volumeSize available : Nat} {budget : SplitOutputBudget}
    {archive : List UInt8} {outputs : List SplitOutput} (hbase : normalizedSplitOutputBase base = .ok base')
    (htotal : total ≤ u64Max) (hbudget : splitOutputBudget base' total volumeSize = .ok budget)
    (hle : archive.length ≤ total) (h : splitIntoVolumes tmp base volumeSize archive available = .ok outputs) :
    min (outputBytes outputs) u64Max ≤ budget.finalOutputBytes := by
  obtain ⟨base', layout, prepared, uuid, contents, files, hbase', -, hprepared, hwritten, rfl⟩ := splitIntoVolumes_eq_ok h
  cases hbase.symm.trans hbase'
  have hlen := (preparedArchive_eq_ok hprepared).1
  have hbytes := hwritten.layoutOf.written_le
  rw [← hwritten.outputBytes] at hbytes
  refine Nat.le_trans (min_le_min_right _ hbytes) ?_
  exact fullBytes_le_budget htotal hbudget hwritten.layoutOf (hlen ▸ hle)

theorem splitOutputBudget_covers_fiveVolumes :
    ∃ (budget : SplitOutputBudget) (outputs : List SplitOutput),
      splitOutputBudget [osStr "x.sqz".toList] 5000 1024 = .ok budget ∧
      splitIntoVolumes [] [osStr "x.sqz.001".toList] 1024 (sqzMagic ++ List.replicate 4000 0) (2 ^ 30) = .ok outputs ∧
      min (outputBytes outputs) u64Max ≤ budget.finalOutputBytes := by
  have hbase : normalizedSplitOutputBase [osStr "x.sqz.001".toList] = .ok [osStr "x.sqz".toList] := by decide +kernel
  have hlen : (sqzMagic ++ List.replicate 4000 (0 : UInt8)).length = 4008 := by
    rw [List.length_append, List.length_replicate]
    rfl
  have hlayout : splitLayout [osStr "x.sqz".toList] 4008 1024 = .ok ⟨992, 5, true, true, true⟩ := by decide +kernel
  have hbudget : splitOutputBudget [osStr "x.sqz".toList] 4008 1024 = .ok ⟨8456, 8456 + 2 ^ 20, 5⟩ := by decide +kernel
  obtain ⟨⟨prepared, uuid⟩, hprepared⟩ := preparedArchive_ok [] (sqzMagic ++ List.replicate 4000 0)
    ⟨992, 5, true, true, true⟩ (by rw [hlen]; decide) rfl
  obtain ⟨outputs, houtputs⟩ := splitIntoVolumes_ok hbase (hlen ▸ hlayout) (hlen ▸ hbudget) hprepared
    (by decide : _ ≤ 2 ^ 30)
  have hlong : splitOutputBudget [osStr "x.sqz".toList] 5000 1024 = .ok ⟨9480, 9480 + 2 ^ 20, 6⟩ := by decide +kernel
  exact ⟨_, outputs, hlong, houtputs, splitOutputBudget_covers hbase (by decide) hlong (hlen ▸ by decide) houtputs⟩

/-- The budget of a name with a volume suffix is not that of the archive that the splitter makes of it, and a budget does
not reach above a `u64`. -/
theorem budget_exceeded :
    (splitOutputBudget [osStr "x.sqz.001".toList] 64 1024 = .ok ⟨64, 64 + 2 ^ 20, 1⟩ ∧
      (splitIntoVolumes [] [osStr "x.sqz.001".toList] 1024 (sqzMagic ++ List.replicate 56 0) (2 ^ 30)).map outputBytes =
        .ok 96) ∧
    splitOutputBudget [osStr "x.sqz".toList] (2 ^ 63 - 1) (2 ^ 63 - 65) = .ok ⟨2 ^ 64 - 1, 2 ^ 64 - 1, 2⟩ ∧
      ∃ outputs, splitIntoVolumes [] [osStr "x.sqz".toList] (2 ^ 63 - 65) (sqzMagic ++ List.replicate (2 ^ 63 - 9) 0)
        (2 ^ 64 - 1) = .ok outputs ∧ outputBytes outputs = 2 ^ 64 + 190 := by
  have hbase : normalizedSplitOutputBase [osStr "x.sqz".toList] = .ok [osStr "x.sqz".toList] := by decide +kernel
  have hlen : (sqzMagic ++ List.replicate (2 ^ 63 - 9) (0 : UInt8)).length = 2 ^ 63 - 1 := by
    rw [List.length_append, List.length_replicate]
    rfl
  have hlayout : splitLayout [osStr "x.sqz".toList] (2 ^ 63 - 1) (2 ^ 63 - 65) =
      .ok ⟨2 ^ 63 - 97, 2, true, false, false⟩ := by decide +kernel
  have hbudget : splitOutputBudget [osStr "x.sqz".toList] (2 ^ 63 - 1) (2 ^ 63 - 65) =
      .ok ⟨2 ^ 64 - 1, 2 ^ 64 - 1, 2⟩ := by decide +kernel
  refine ⟨⟨by decide +kernel, by decide +kernel⟩, hbudget, ?_⟩
  obtain ⟨⟨prepared, uuid⟩, hprepared⟩ := preparedArchive_ok []
    (sqzMagic ++ List.replicate (2 ^ 63 - 9) 0) ⟨2 ^ 63 - 97, 2, true, false, false⟩ (by rw [hlen]; decide)
    (List.take_left' rfl)
  obtain ⟨outputs, houtputs⟩ := splitIntoVolumes_ok hbase (hlen.symm ▸ hlayout) (hlen.symm ▸ hbudget) hprepared
    (Nat.le_refl (2 ^ 64 - 1))
  refine ⟨outputs, houtputs, ?_⟩
  obtain ⟨base', layout, prepared, uuid, contents, files, hbase', hlayout', hprepared', hwritten, rfl⟩ :=
    splitIntoVolumes_eq_ok houtputs
  cases hbase.symm.trans hbase'
  cases hlayout.symm.trans (hlen ▸ hlayout')
  rw [hwritten.outputBytes, (preparedArchive_eq_ok hprepared').1, hlen]
  decide +kernel

end Squallz.Volumes
