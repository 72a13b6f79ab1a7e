/-
Damage to the footer alone: the scan visits every offset of the tail once, and rebuilds the footer of every container
whose index holds no trailer.
-/
import Squallz.Sqz.FooterRebuild

namespace Squallz.Sqz

open Squallz.Api Squallz.Bytes

/-! ## The offsets that the scan visits -/

/-- The offsets that a window compares with the magic, in their order. -/
def visitedPositions (start scanEnd : Nat) : Nat → List Nat
  | 0 => []
  | pos + 1 =>
    if scanEnd ≤ start + pos then visitedPositions start scanEnd pos
    else (start + pos) :: visitedPositions start scanEnd pos

/-- The offsets that the windows from `scanEnd` down to `scanStart` compare with the magic, in their order. -/
def visitedWindows (len scanStart scanEnd : Nat) : List Nat :=
  if _h : scanStart < scanEnd then
    let start := windowStart scanStart scanEnd
    let readEnd := min (scanEnd + (recoveryProtectionTrailerLen - 1)) len
    let count := readEnd - start
    visitedPositions start scanEnd (count - (recoveryProtectionTrailerLen - 1)) ++ visitedWindows len scanStart start
  else []
termination_by scanEnd
decreasing_by exact windowStart_lt _h

/-- The offsets that the scan of a file visits. -/
def visited (len : Nat) : List Nat := visitedWindows len (len - footerRecoveryScanWindow) len

/-- Tries positions in their order, up to the first that yields something. -/
def searchAlong {ε β : Type} (f : Nat → Except ε (Option β)) : List Nat → Except ε (Option β)
  | [] => .ok none
  | t :: ts => do
    match ← f t with
    | some b => return some b
    | none => searchAlong f ts

/-- The positions from `lo` on, the last one first. -/
def downFrom (lo n : Nat) : List Nat := (List.range' lo n).reverse

theorem downFrom_succ (lo n : Nat) : downFrom lo (n + 1) = (lo + n) :: downFrom lo n := by
  simp [downFrom, List.range'_concat]

theorem downFrom_add (lo n m : Nat) : downFrom lo (n + m) = downFrom (lo + n) m ++ downFrom lo n := by
  unfold downFrom
  rw [← List.reverse_append]
  simp

theorem searchDown_eq_searchAlong {ε β : Type} (f : Nat → Except ε (Option β)) (lo n : Nat) :
    searchDown f lo n = searchAlong f (downFrom lo n) := by
  induction n with
  | zero => rfl
  | succ n ih =>
    rw [searchDown, downFrom_succ, searchAlong]
    cases f (lo + n) with
    | error e => rfl
    | ok found =>
      cases found with
      | some b => rfl
      | none => exact ih

theorem visitedPositions_eq (start scanEnd n : Nat) :
    visitedPositions start scanEnd n = downFrom start (min n (scanEnd - start)) := by
  induction n with
  | zero => rw [Nat.zero_min]; rfl
  | succ n ih =>
    rw [visitedPositions, ih]
    split
    · rw [show min (n + 1) (scanEnd - start) = min n (scanEnd - start) by omega]
    · rw [show min (n + 1) (scanEnd - start) = n + 1 by omega, show min n (scanEnd - start) = n by omega, downFrom_succ]

/-- The windows overlap by less than a trailer: together they visit every place of a whole trailer once. -/
theorem visitedWindows_eq {len scanStart scanEnd : Nat} (hend : scanEnd ≤ len) : visitedWindows len scanStart scanEnd =
    downFrom scanStart (min scanEnd (len - (recoveryProtectionTrailerLen - 1)) - scanStart) := by
  induction scanEnd using Nat.strong_induction_on with
  | _ scanEnd ih =>
    have hlen : recoveryProtectionTrailerLen = 80 := rfl
    rw [visitedWindows]
    by_cases hlt : scanStart < scanEnd
    · rw [dif_pos hlt]
      have hstart := windowStart_lt hlt
      have hge : scanStart ≤ windowStart scanStart scanEnd := Nat.le_max_right _ _
      generalize windowStart scanStart scanEnd = w at hstart hge ⊢
      simp only
      rw [visitedPositions_eq, ih w hstart (by omega)]
      obtain ⟨d, rfl⟩ := Nat.exists_eq_add_of_le hge
      by_cases hroom : scanStart + d < len - (recoveryProtectionTrailerLen - 1)
      · rw [show min (scanStart + d) (len - (recoveryProtectionTrailerLen - 1)) - scanStart = d by omega, ← downFrom_add]
        congr 1
        omega
      · rw [show min (min (scanEnd + (recoveryProtectionTrailerLen - 1)) len - (scanStart + d) -
          (recoveryProtectionTrailerLen - 1)) (scanEnd - (scanStart + d)) = 0 by omega]
        show downFrom scanStart _ = _
        congr 1
        omega
    · rw [dif_neg hlt, show min scanEnd (len - (recoveryProtectionTrailerLen - 1)) - scanStart = 0 by omega]
      rfl

theorem visited_eq (len : Nat) : visited len =
    downFrom (len - footerRecoveryScanWindow) (len - (recoveryProtectionTrailerLen - 1) - (len - footerRecoveryScanWindow)) := by
  rw [visited, visitedWindows_eq (Nat.le_refl len), Nat.min_eq_right (Nat.sub_le _ _)]

/-- Every place of a whole trailer in the tail is visited. -/
theorem mem_visited {len t : Nat} :
    t ∈ visited len ↔ len - footerRecoveryScanWindow ≤ t ∧ t + recoveryProtectionTrailerLen ≤ len := by
  have hlen : recoveryProtectionTrailerLen = 80 := rfl
  rw [visited_eq, downFrom, List.mem_reverse, List.mem_range'_1]
  omega

theorem nodup_visited (len : Nat) : (visited len).Nodup := by
  rw [visited_eq, downFrom, List.nodup_reverse]
  exact List.nodup_range'

/-- The scan tries the offsets it visits in their order, up to the first that holds. -/
theorem scanWindows_eq_searchAlong (P : Primitives) (src : List UInt8) (uuidHi uuidLo : Nat) :
    scanWindows P src src.length uuidHi uuidLo (src.length - footerRecoveryScanWindow) src.length =
      searchAlong (candidateAt P src uuidHi uuidLo) (visited src.length) := by
  rw [scanWindows_eq (Nat.le_refl _), searchDown_eq_searchAlong, visited, visitedWindows_eq (Nat.le_refl _)]

/-! ## Containers -/

/-- A footer that cannot be read is reported as damage. -/
theorem readFooter_damaged {P : Primitives} {src : List UInt8} (hlen : footerLen ≤ src.length)
    (h : ∀ footer, readFooter P src src.length ≠ .ok footer) : ∃ message, readFooter P src src.length = corrupt message := by
  unfold readFooter at h ⊢
  rw [seekReadExact_ok (by omega), ofIo_ok, ok_bind] at h ⊢
  split
  · exact ⟨_, rfl⟩
  · split
    · exact ⟨_, rfl⟩
    · rename_i hmagic hcrc
      rw [if_neg hmagic, if_neg hcrc] at h
      exact absurd rfl (h _)

namespace Container

variable {P : Primitives} (c : Container P) (footer' : List UInt8)

/-- Where the protection trailer of a container begins. -/
def trailerOffset : Nat := c.recoveryOffset + (c.primary.length + (protectionOf P c.primary).length)

/-- No trailer that is valid reaches into the index. -/
def IndexHoldsNoTrailer : Prop := ∀ t trailer, c.trailerOffset < t → t + recoveryProtectionTrailerLen ≤ c.footerOffset →
  parseRecoveryProtectionTrailer P (slice c.bytes t recoveryProtectionTrailerLen) ≠ .ok (some trailer)

/-- The file of a container whose footer has been replaced. -/
def withFooter : List UInt8 := c.withTail (trailerOf P c.primary) footer'

theorem indexOffset_eq : c.indexOffset = c.trailerOffset + recoveryProtectionTrailerLen := by
  rw [indexOffset, recoverySection, length_protectedOf_add, trailerOffset]
  omega

variable {c} {footer' : List UInt8}

theorem index_ne_nil : c.index ≠ [] := by
  have hindex := c.index_eq
  simp only [buildIndex, bind_eq_ok, pure_eq_ok] at hindex
  obtain ⟨records, -, hindex⟩ := hindex
  intro hnil
  rw [hnil] at hindex
  cases hindex

theorem withFooter_eq : c.withFooter footer' = (c.header ++ (c.descriptor ++ c.payload)) ++
    (protectedOf P c.primary ++ (c.index ++ footer')) := by
  simp only [withFooter, withTail, Parts.bytes, parts, protectedOf, List.append_assoc]

/-- Before the footer the file is the container. -/
theorem slice_withFooter {t n : Nat} (h : t + n ≤ c.footerOffset) :
    slice (c.withFooter footer') t n = slice c.bytes t n := by
  have hbytes : c.bytes = c.withFooter c.footer := rfl
  have hfront : ∀ f, slice (c.withFooter f) t n =
      slice (c.header ++ (c.descriptor ++ c.payload) ++ (protectedOf P c.primary ++ c.index)) t n := by
    intro f
    rw [withFooter_eq, ← List.append_assoc (protectedOf P c.primary), ← List.append_assoc (c.header ++ _)]
    refine slice_append_left ?_
    simp only [List.length_append, c.length_header]
    simp only [footerOffset, indexOffset, recoveryOffset, payloadStart, recoverySection] at h
    omega
  rw [hbytes, hfront, hfront]

/-- The container's own trailer is a candidate that holds. -/
theorem candidateAt_own (hrest : c.ShowsRest (c.withFooter footer') (trailerOf P c.primary))
    (hf : footer'.length = footerLen) : ∃ s, candidateAt P (c.withFooter footer') c.uuidHi c.uuidLo c.trailerOffset =
      .ok (some (c.footerFields, c.state s)) := by
  have hlt := c.bytes_lt
  have hend := footer_lt hrest.length_eq
  have hpre : (c.header ++ (c.descriptor ++ c.payload)).length = c.recoveryOffset := by
    simp only [List.length_append, c.length_header, recoveryOffset, payloadStart, Nat.add_assoc]
  obtain ⟨s, hnew, hguard, -⟩ := guarded hrest.length_eq hrest.sect
  obtain ⟨s', hread, -⟩ := readProtected_restores hnew hguard (fun g => by
    rw [damagedIn_eq_length, missingIn_self]
    exact Nat.zero_le _)
  have hnew' : RecoverySection.new (c.header ++ (c.descriptor ++ c.payload)).length (protectedOf P c.primary).length =
      .ok s := by
    rw [hpre]
    exact hnew
  have hcandidate := @candidateAt_of_readProtected P _ _ _ _ c.uuidHi c.uuidLo s _ withFooter_eq
    (by rw [hpre, recoveryOffset, payloadStart]; omega) hnew' hread index_ne_nil
    (by rw [List.length_append, hf]; exact Nat.le_refl _) (by rw [hrest.length_eq] at hend ⊢; omega)
  rw [hpre] at hcandidate
  exact ⟨s', hcandidate⟩

/-- Above the own trailer no candidate of a container without a trailer in its index holds. -/
theorem candidateAt_above (hindex : c.IndexHoldsNoTrailer) (hlen : (c.withFooter footer').length = c.bytes.length) {t : Nat}
    (ht : c.trailerOffset < t) : candidateAt P (c.withFooter footer') c.uuidHi c.uuidLo t = .ok none := by
  have hend := footer_lt hlen
  unfold candidateAt
  split
  · rfl
  · unfold scanCandidate
    split
    · rfl
    · rfl
    · rename_i trailer hparse
      by_cases hinside : t + recoveryProtectionTrailerLen ≤ c.footerOffset
      · rw [slice_withFooter hinside] at hparse
        exact absurd hparse (hindex t trailer ht hinside)
      -- a candidate that reaches into the footer ends behind the last place of a recovery section
      · simp only
        split
        · rfl
        · rw [if_pos (by omega)]

end Container

/-- A container whose footer alone is damaged: if the recovery trailer lies in the tail that is scanned and no trailer
reaches into the index, the scan returns the fields of the footer the container was written with. It visits every
offset of the tail once. -/
theorem footer_rebuilt {P : Primitives} {ctx : WriterContext} {capacity : UInt64} {opts : SqzCreateOptions}
    {entries : List (EntryMeta × Option Body)} {bytes : List UInt8} (h : Written P ctx capacity opts entries bytes) :
    ∃ c : Container P, c.bytes = bytes ∧ c.opts = opts ∧ readFooter P bytes bytes.length = .ok c.footerFields ∧
      ∀ footer' : List UInt8, footer'.length = footerLen →
        (bytes.length - footerRecoveryScanWindow ≤ c.trailerOffset → c.IndexHoldsNoTrailer →
          (∀ footer, readFooter P (c.withFooter footer') bytes.length ≠ .ok footer) →
          ∃ state, recoverFooterFromRecoveryScan P (c.withFooter footer') bytes.length =
              .ok (some (c.footerFields, state)) ∧
            openFooter P (c.withFooter footer') bytes.length = .ok (c.footerFields, some state)) ∧
        scanWindows P (c.withFooter footer') bytes.length c.uuidHi c.uuidLo (bytes.length - footerRecoveryScanWindow)
          bytes.length = searchAlong (candidateAt P (c.withFooter footer') c.uuidHi c.uuidLo) (visited bytes.length) ∧
        (visited bytes.length).Nodup ∧ ∀ t, t ∈ visited bytes.length ↔
          bytes.length - footerRecoveryScanWindow ≤ t ∧ t + recoveryProtectionTrailerLen ≤ bytes.length := by
  obtain ⟨c, rfl, rfl, -, -⟩ := writeContainer_ok h.run
  refine ⟨c, rfl, rfl, Container.readFooter_eq rfl c.slice_footer, fun footer' hf => ?_⟩
  have hrest : c.ShowsRest (c.withFooter footer') (trailerOf P c.primary) :=
    Container.showsRest_withTail (length_trailerOf _ _) hf
  have hlen := hrest.length_eq
  refine ⟨fun htail hindex hdamaged => ?_, ?_, nodup_visited _, fun t => mem_visited⟩
  · obtain ⟨s, hown⟩ := Container.candidateAt_own hrest hf
    have hoffset := c.indexOffset_eq
    have hparts : c.footerOffset = c.indexOffset + c.index.length := rfl
    have hend := Container.footer_lt hlen
    have htop : Topmost P (c.withFooter footer') c.uuidHi c.uuidLo c.trailerOffset (c.footerFields, c.state s) :=
      ⟨by rwa [hlen], by omega, hown, fun t ht _ => Container.candidateAt_above hindex hlen ht⟩
    have huuid := Container.validHeaderUuid_eq hrest
    obtain ⟨message, hmessage⟩ := @readFooter_damaged P (c.withFooter footer') (by omega) (by rwa [hlen])
    rw [← hlen]
    exact ⟨_, (recoverFooterFromRecoveryScan_eq_some huuid).2 ⟨_, htop⟩, (openFooter_eq_ok huuid).2 (.rebuilt hmessage htop)⟩
  · rw [← hlen]
    exact scanWindows_eq_searchAlong _ _ _ _

/-! ## A container without entries -/

/-- Bytes that do not begin with the magic are no trailer. -/
theorem parse_of_no_magic {P : Primitives} {trailer : List UInt8} (hlen : trailer.length = recoveryProtectionTrailerLen)
    (h : slice trailer 0 4 ≠ recoveryProtectionMagic) : parseRecoveryProtectionTrailer P trailer = .ok none := by
  unfold parseRecoveryProtectionTrailer
  rw [if_neg (by omega), hlen, Nat.sub_self, List.drop_zero]
  exact if_pos h

/-- The magic does not begin within the first fields of a trailer. -/
theorem slice_trailer_ne_magic (P : Primitives) (primary : List UInt8) {d : Nat} (hpos : 0 < d) (hle : d ≤ 16) :
    slice (trailerOf P primary) d 4 ≠ recoveryProtectionMagic := by
  have hfirst : ∃ rest, trailerOf P primary = (recoveryProtectionMagic ++ (leBytes 2 recoveryProtectionVersion ++
      (leBytes 2 recoveryAlgoRsGf8 ++ (leBytes 4 blockSize ++ (leBytes 2 recoveryDataShards ++
      (leBytes 2 recoveryParityShards ++ leBytes 4 0)))))) ++ rest := by
    refine ⟨leBytes 8 primary.length ++ (leBytes 8 (blockCountOf primary) ++ (leBytes 8 (protectionOf P primary).length ++
      ((P.blake3 primary).bytes ++ leBytes 4 (P.crc32c (trailerFields P primary (blockCountOf primary)
        (protectionOf P primary).length)).toNat))), ?_⟩
    rw [trailerOf, trailerFields]
    simp only [List.append_assoc]
  obtain ⟨rest, hrest⟩ := hfirst
  rw [hrest, slice_append_left (Nat.le_trans (Nat.add_le_add_right hle 4) (by decide))]
  have hall : ∀ k, k < 16 → slice (recoveryProtectionMagic ++ (leBytes 2 recoveryProtectionVersion ++
      (leBytes 2 recoveryAlgoRsGf8 ++ (leBytes 4 blockSize ++ (leBytes 2 recoveryDataShards ++
      (leBytes 2 recoveryParityShards ++ leBytes 4 0)))))) (k + 1) 4 ≠ recoveryProtectionMagic := by decide +kernel
  have := hall (d - 1) (by omega)
  rwa [Nat.sub_add_cancel hpos] at this

/-- An index without records is too short for a trailer to begin behind the own one. -/
theorem Container.indexHoldsNoTrailer_of_empty {P : Primitives} {c : Container P} (h : c.index = emptyIndex) :
    c.IndexHoldsNoTrailer := by
  intro t trailer ht hinside
  have hoffset := c.indexOffset_eq
  have hend := c.length_bytes
  have hparts : c.footerOffset = c.indexOffset + c.index.length := rfl
  have hindex : c.index.length = 16 := by rw [h]; rfl
  have htrailer : slice c.bytes c.trailerOffset recoveryProtectionTrailerLen = trailerOf P c.primary := by
    have := @slice_embedded_trailer P _ _ _ _ (show c.bytes = _ from withFooter_eq)
    simp only [List.length_append, c.length_header] at this
    rw [trailerOffset, recoveryOffset, payloadStart]
    simpa only [Nat.add_assoc] using this
  have hlen : (slice c.bytes t recoveryProtectionTrailerLen).length = recoveryProtectionTrailerLen :=
    length_slice_of_le (by omega)
  rw [parse_of_no_magic hlen]
  · rintro ⟨⟩
  · obtain ⟨d, rfl⟩ := Nat.exists_eq_add_of_le (Nat.le_of_lt ht)
    have htlen : recoveryProtectionTrailerLen = 80 := rfl
    rw [slice_slice (by omega), Nat.add_zero, ← @slice_slice _ _ _ recoveryProtectionTrailerLen _ _ (by omega), htrailer]
    exact slice_trailer_ne_magic P c.primary (by omega) (by omega)

theorem writeContainer_nil : ∃ bytes,
    writeContainer samplePrimitives sampleContext 0xFFFFFFFFFFFFFFFF ⟨.sqz, 5⟩ [] = .ok bytes := by
  obtain ⟨descriptor, hdesc, hlen⟩ := exists_descriptor
  refine writeContainer_accepts samplePrimitives hdesc (fun entry hentry => by cases hentry) ?_
  rw [hlen]
  decide +kernel

theorem footer_rebuilt_nil : ∃ (bytes : List UInt8) (c : Container samplePrimitives) (state : RecoveryState),
    c.bytes = bytes ∧ recoverFooterFromRecoveryScan samplePrimitives (c.withFooter zeroFooter) bytes.length =
      .ok (some (c.footerFields, state)) := by
  obtain ⟨bytes, h⟩ := writeContainer_nil
  obtain ⟨c, hbytes, -, hread, hall⟩ := footer_rebuilt (.entrySet rfl h)
  obtain ⟨c₀, hbytes₀, -, -, hstored⟩ := writeContainer_ok h
  -- both containers have the same footer, and with it the same index
  have hindex : c.index = emptyIndex := by
    have hread₀ : readFooter samplePrimitives c₀.bytes c₀.bytes.length = .ok c₀.footerFields :=
      Container.readFooter_eq rfl c₀.slice_footer
    rw [hbytes₀] at hread₀
    have hfields := Except.ok.inj (hread.symm.trans hread₀)
    have hoff : c.indexOffset = c₀.indexOffset := congrArg Footer.indexOffset hfields
    have hlen : c.index.length = c₀.index.length := congrArg Footer.indexLength hfields
    have hslice := c.slice_index
    rw [hbytes, hoff, hlen, ← hbytes₀, c₀.slice_index] at hslice
    have hrecords := c₀.index_eq
    rw [List.forall₂_nil_left_iff.1 hstored, buildIndex_nil] at hrecords
    rw [← hslice]
    exact (Except.ok.inj hrecords).symm
  have hlen : bytes.length = c.trailerOffset + 160 := by
    have hoffset := c.indexOffset_eq
    have hend := c.length_bytes
    have hparts : c.footerOffset = c.indexOffset + c.index.length := rfl
    have hsixteen : c.index.length = 16 := by rw [hindex]; rfl
    have htlen : recoveryProtectionTrailerLen = 80 := rfl
    have hflen : footerLen = 64 := rfl
    rw [← hbytes]
    omega
  have hdamaged : ∀ footer, readFooter samplePrimitives (c.withFooter zeroFooter) bytes.length ≠ .ok footer := by
    intro footer hfooter
    have hlast : slice (c.withFooter zeroFooter) (bytes.length - footerLen) footerLen = zeroFooter := by
      rw [Container.withFooter_eq, ← List.append_assoc, ← List.append_assoc]
      refine slice_suffix ?_ rfl
      have hwhole := c.length_bytes
      rw [hbytes] at hwhole
      rw [hwhole]
      simp only [List.length_append, c.length_header, Container.footerOffset, Container.indexOffset,
        Container.recoveryOffset, Container.payloadStart, Container.recoverySection]
      omega
    have hroom : bytes.length = (c.withFooter zeroFooter).length := by
      rw [← hbytes, Container.withFooter, (Container.showsRest_withTail (c := c) (length_trailerOf _ _) rfl).length_eq]
    have hflen : footerLen = 64 := rfl
    unfold readFooter at hfooter
    rw [seekReadExact_ok (by omega), ofIo_ok, ok_bind, hlast, if_pos (by decide)] at hfooter
    cases hfooter
  obtain ⟨state, hscan, -⟩ := (hall zeroFooter rfl).1 (by rw [hlen, footerRecoveryScanWindow]; omega)
    (Container.indexHoldsNoTrailer_of_empty hindex) hdamaged
  exact ⟨bytes, c, state, hbytes, hscan⟩

end Squallz.Sqz
