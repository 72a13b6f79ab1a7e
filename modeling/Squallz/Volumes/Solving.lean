/-
A volume that is lost is worked out of the parity files and the volumes that are left: from one, two or three equations.
-/
import Squallz.Volumes.Concatenation
import Squallz.Volumes.Parity

namespace Squallz.Volumes

open Squallz.Api Squallz.Bytes Squallz.Destination Squallz.Erasure

/-! ## Peers -/

/-- A peer that is as long as it is known to be gives all of its bytes. -/
theorem peerRead_eq {peer : PeerReader} (h : peer.physicalLen = peer.file.length) (offset len : Nat) :
    peer.read offset len = .ok (slice peer.file offset len) := by
  unfold PeerReader.read
  rw [h]
  split
  · rename_i hle
    rw [slice, List.drop_eq_nil_of_le hle, List.take_nil]
  · rename_i hlt
    rw [readExact_ok (by omega)]
    congr 1
    refine List.ext_getElem? fun j => ?_
    rw [getElem?_slice, getElem?_slice]
    by_cases hj : j < len
    · by_cases hin : offset + j < peer.file.length
      · rw [if_pos (by omega), if_pos hj]
      · rw [if_neg (by omega), if_pos hj, List.getElem?_eq_none (by omega)]
    · rw [if_neg (by omega), if_neg hj]

/-- A buffer with all the peers in it. -/
def mixAll (offset len : Nat) (weight : PeerReader → UInt8 → UInt8) (peers : List PeerReader) (buffer : List UInt8) :
    List UInt8 :=
  peers.foldl (fun buffer peer => mix (weight peer) buffer (slice peer.file offset len)) buffer

theorem mixPeers_eq {peers : List PeerReader} (h : ∀ peer ∈ peers, peer.physicalLen = peer.file.length) (offset len : Nat)
    (buffers : List ((PeerReader → UInt8 → UInt8) × List UInt8)) :
    mixPeers offset len peers buffers = .ok (buffers.map fun buffer => mixAll offset len buffer.1 peers buffer.2) := by
  induction peers generalizing buffers with
  | nil => rfl
  | cons peer peers ih =>
    rw [mixPeers, peerRead_eq (h peer List.mem_cons_self), ok_bind, ih fun peer hpeer => h peer (List.mem_cons_of_mem _ hpeer),
      List.map_map]
    rfl

theorem length_mixAll {offset len : Nat} (weight : PeerReader → UInt8 → UInt8) (peers : List PeerReader)
    {buffer : List UInt8} (h : buffer.length = len) : (mixAll offset len weight peers buffer).length = len := by
  induction peers generalizing buffer with
  | nil => exact h
  | cons peer peers ih =>
    refine ih (?_ : (mix (weight peer) buffer (slice peer.file offset len)).length = len)
    rw [length_mix (by rw [length_slice]; omega), h]

theorem byteAt_slice (bytes : List UInt8) (offset : Nat) {len j : Nat} (hj : j < len) :
    byteAt (slice bytes offset len) j = byteAt bytes (offset + j) := by
  unfold byteAt
  rw [List.getD_eq_getElem?_getD, getElem?_slice, if_pos hj, ← List.getD_eq_getElem?_getD]

theorem byteAt_mix {weight : UInt8 → UInt8} {w : Gf256} (hweight : ∀ byte, (⟨weight byte⟩ : Gf256) = w * ⟨byte⟩)
    {out bytes : List UInt8} (h : bytes.length ≤ out.length) (j : Nat) :
    byteAt (mix weight out bytes) j = byteAt out j + w * byteAt bytes j := by
  have hzip : (List.zipWith (fun dst src => dst ^^^ weight src) out bytes).length = bytes.length := by
    rw [List.length_zipWith, Nat.min_eq_right h]
  by_cases hj : j < bytes.length
  · have hin : j < out.length := Nat.lt_of_lt_of_le hj h
    have hw := congrArg Gf256.byte (hweight bytes[j])
    refine Gf256.ext_byte ?_
    unfold mix byteAt
    rw [Gf256.byte_add, Gf256.byte_mul, List.getD_eq_getElem?_getD, List.getElem?_append_left (by omega),
      List.getElem?_zipWith, List.getElem?_eq_getElem hin, List.getElem?_eq_getElem hj, List.getD_eq_getElem _ _ hin,
      List.getD_eq_getElem _ _ hj]
    exact congrArg (out[j] ^^^ ·) hw
  · obtain ⟨i, rfl⟩ := Nat.exists_eq_add_of_le (Nat.le_of_not_lt hj)
    have hnone : byteAt bytes (bytes.length + i) = 0 := by
      unfold byteAt
      rw [List.getD_eq_getElem?_getD, List.getElem?_eq_none (Nat.le_add_right _ _)]
      rfl
    rw [mix, byteAt_append_right hzip, byteAt_drop, hnone, mul_zero, add_zero]

/-- The bytes of the peers are added, weighted, to the bytes of a buffer. -/
theorem byteAt_mixAll {weight : PeerReader → UInt8 → UInt8} {w : PeerReader → Gf256}
    (hweight : ∀ peer byte, (⟨weight peer byte⟩ : Gf256) = w peer * ⟨byte⟩) {offset len j : Nat} (hj : j < len)
    (peers : List PeerReader) {buffer : List UInt8} (h : buffer.length = len) :
    byteAt (mixAll offset len weight peers buffer) j =
      byteAt buffer j + weightedSum w (fun peer => byteAt peer.file (offset + j)) peers := by
  induction peers generalizing buffer with
  | nil => exact (add_zero _).symm
  | cons peer peers ih =>
    have hshort : (slice peer.file offset len).length ≤ buffer.length := by
      rw [length_slice]
      omega
    have hmixed : (mix (weight peer) buffer (slice peer.file offset len)).length = len := by
      rw [length_mix hshort, h]
    have hrest := ih hmixed
    rw [byteAt_mix (hweight peer) hshort, byteAt_slice _ _ hj] at hrest
    rw [weightedSum_cons, ← add_assoc]
    exact hrest

/-! ## Solving for a volume -/

/-- The readers of the volumes that are not lost, with the coefficients they are read with. -/
def peersOf (contents : List (List UInt8)) (coeffs : Nat → UInt8 × UInt8) (indexes : List Nat) : List PeerReader :=
  indexes.map fun index => ⟨(coeffs index).1, (coeffs index).2, contents.getD (index - 1) [],
    (contents.getD (index - 1) []).length⟩

/-- The indexes that are lost of all, and those that are left. -/
def lostOf (lost : List Nat) (count : Nat) : List Nat := (List.range' 1 count).filter fun index => index ∈ lost

def leftOf (lost : List Nat) (count : Nat) : List Nat := (List.range' 1 count).filter fun index => ¬ index ∈ lost

theorem weightedSum_peersOf (w : PeerReader → Gf256) (contents : List (List UInt8)) (coeffs : Nat → UInt8 × UInt8) (j : Nat)
    (indexes : List Nat) :
    weightedSum w (fun peer => byteAt peer.file j) (peersOf contents coeffs indexes) =
      weightedSum (fun index => w ⟨(coeffs index).1, (coeffs index).2, contents.getD (index - 1) [],
        (contents.getD (index - 1) []).length⟩) (volumeByte contents · j) indexes := by
  unfold weightedSum peersOf
  rw [List.map_map]
  rfl

section Solving

variable {contents : List (List UInt8)} {count offset len j : Nat} {file : List UInt8}

/-- A parity file with the volumes that are left in it holds the sum of those that are lost. -/
theorem byteAt_mixed (lost : List Nat) {weights : Nat → Gf256} (hsums : ∀ j, byteAt file (sqzrHeaderLen + j) =
      weightedSum weights (volumeByte contents · j) (List.range' 1 count))
    (hlen : sqzrHeaderLen + (offset + len) ≤ file.length) (weight : PeerReader → UInt8 → UInt8) (w : PeerReader → Gf256)
    (hweight : ∀ peer byte, (⟨weight peer byte⟩ : Gf256) = w peer * ⟨byte⟩) (coeffs : Nat → UInt8 × UInt8)
    (hw : ∀ index content, w ⟨(coeffs index).1, (coeffs index).2, content, content.length⟩ = weights index) (hj : j < len) :
    byteAt (mixAll offset len weight (peersOf contents coeffs (leftOf lost count)) (slice file (sqzrHeaderLen + offset) len)) j =
      weightedSum weights (volumeByte contents · (offset + j)) (lostOf lost count) := by
  rw [byteAt_mixAll hweight hj _ (length_slice_of_le (by omega)), byteAt_slice _ _ hj, Nat.add_assoc, hsums,
    weightedSum_peersOf]
  simp only [hw]
  exact weightedSum_add_left weights _ (· ∈ lost) _

/-- What is worked out byte by byte. -/
theorem byteAt_zipWith (f : UInt8 → UInt8 → UInt8) {a b : List UInt8} (ha : a.length = len) (hb : b.length = len) (hj : j < len) :
    byteAt (List.zipWith f a b) j = ⟨f (byteAt a j).byte (byteAt b j).byte⟩ := by
  unfold byteAt
  rw [List.getD_eq_getElem?_getD, List.getElem?_zipWith, List.getElem?_eq_getElem (by omega : j < a.length),
    List.getElem?_eq_getElem (by omega : j < b.length), List.getD_eq_getElem _ _ (by omega : j < a.length),
    List.getD_eq_getElem _ _ (by omega : j < b.length)]
  rfl

theorem byteAt_zipWith_zip (f : UInt8 → UInt8 × UInt8 → UInt8) {a b third : List UInt8} (ha : a.length = len)
    (hb : b.length = len) (hc : third.length = len) (hj : j < len) :
    byteAt (List.zipWith f a (List.zip b third)) j = ⟨f (byteAt a j).byte ((byteAt b j).byte, (byteAt third j).byte)⟩ := by
  have hzip : (List.zip b third)[j]? = some (b[j], third[j]) := by
    rw [List.getElem?_eq_getElem (by rw [List.length_zip]; omega), List.getElem_zip]
  unfold byteAt
  rw [List.getD_eq_getElem?_getD, List.getElem?_zipWith, List.getElem?_eq_getElem (by omega : j < a.length), hzip,
    List.getD_eq_getElem _ _ (by omega : j < a.length), List.getD_eq_getElem _ _ (by omega : j < b.length),
    List.getD_eq_getElem _ _ (by omega : j < third.length)]
  rfl

theorem coeffAt_add_ne_zero {a b : Nat} (ha : a ≤ 255) (hb : b ≤ 255) (hne : a ≠ b) : coeffAt a + coeffAt b ≠ 0 := by
  intro hzero
  have hbyte : UInt8.ofNat a = UInt8.ofNat b := congrArg Gf256.byte (CharTwo.add_eq_zero.1 hzero)
  have hnat := congrArg UInt8.toNat hbyte
  rw [UInt8.toNat_ofNat', UInt8.toNat_ofNat'] at hnat
  omega

end Solving

/-- What a reconstruction gives is a volume. -/
def ReconstructedVolumeReader.Rebuilds (reader : ReconstructedVolumeReader) (content : List UInt8) : Prop :=
  ∀ offset len, offset + len ≤ content.length → reader.readPhysical offset len = .ok (slice content offset len)

theorem peersOf_full (contents : List (List UInt8)) (coeffs : Nat → UInt8 × UInt8) (indexes : List Nat) :
    ∀ peer ∈ peersOf contents coeffs indexes, peer.physicalLen = peer.file.length := by
  intro peer hpeer
  obtain ⟨index, -, rfl⟩ := List.mem_map.1 hpeer
  rfl

section Rebuilds

variable {contents : List (List UInt8)} {count a b c : Nat} {lost : List Nat} {single weighted quadratic : List UInt8}

/-- Bytes that are the volume's one by one are a stretch of it. -/
theorem eq_slice_of_byteAt {bytes : List UInt8} {offset len : Nat} (hlen : bytes.length = len)
    (hroom : offset + len ≤ (contents.getD (a - 1) []).length)
    (h : ∀ j < len, byteAt bytes j = volumeByte contents a (offset + j)) :
    bytes = slice (contents.getD (a - 1) []) offset len := by
  refine ext_byteAt (by rw [hlen, length_slice_of_le hroom]) fun j hj => ?_
  rw [byteAt_slice _ _ (hlen ▸ hj)]
  exact h j (hlen ▸ hj)

/-- One volume is the first parity file without the other ones. -/
theorem singleXor_rebuilds
    (hsums : ∀ j, byteAt single (sqzrHeaderLen + j) = weightedSum weightOne (volumeByte contents · j) (List.range' 1 count))
    (hroom : sqzrHeaderLen + (contents.getD (a - 1) []).length ≤ single.length) (hlost : lostOf lost count = [a]) :
    ReconstructedVolumeReader.Rebuilds ⟨.singleXor single, peersOf contents (fun _ => (0, 0)) (leftOf lost count)⟩
      (contents.getD (a - 1) []) := by
  intro offset len hlen
  unfold ReconstructedVolumeReader.readPhysical
  split
  · rename_i h0
    rw [h0, slice_zero]
  · have hexact := readExact_ok (by omega : sqzrHeaderLen + offset + len ≤ single.length)
    dsimp only
    rw [hexact, ok_bind, mixPeers_eq (peersOf_full _ _ _), ok_bind]
    refine congrArg Except.ok (eq_slice_of_byteAt (length_mixAll _ _ (length_slice_of_le (by omega))) hlen fun j hj => ?_)
    have hmixed := byteAt_mixed lost hsums (by omega : sqzrHeaderLen + (offset + len) ≤ single.length)
      (fun _ => id) (fun _ => 1) (fun _ _ => (one_mul _).symm) (fun _ => (0, 0)) (fun _ _ => rfl) hj
    rw [hlost] at hmixed
    exact hmixed.trans (weightedSum_one _ _)

/-- One of two volumes is worked out of two parity files. -/
theorem dualWeighted_rebuilds
    (hsingle : ∀ j, byteAt single (sqzrHeaderLen + j) = weightedSum weightOne (volumeByte contents · j) (List.range' 1 count))
    (hweighted : ∀ j, byteAt weighted (sqzrHeaderLen + j) =
      weightedSum coeffAt (volumeByte contents · j) (List.range' 1 count))
    (hroom : sqzrHeaderLen + (contents.getD (a - 1) []).length ≤ single.length)
    (hroom' : sqzrHeaderLen + (contents.getD (a - 1) []).length ≤ weighted.length)
    (hlost : (lostOf lost count).Perm [a, b]) (hne : coeffAt a + coeffAt b ≠ 0) :
    ReconstructedVolumeReader.Rebuilds ⟨.dualWeighted single weighted (coeffAt b).byte (coeffAt a + coeffAt b)⁻¹.byte,
      peersOf contents (fun index => (UInt8.ofNat index, 0)) (leftOf lost count)⟩ (contents.getD (a - 1) []) := by
  intro offset len hlen
  unfold ReconstructedVolumeReader.readPhysical
  split
  · rename_i h0
    rw [h0, slice_zero]
  · have hexact := readExact_ok (by omega : sqzrHeaderLen + offset + len ≤ single.length)
    have hexact' := readExact_ok (by omega : sqzrHeaderLen + offset + len ≤ weighted.length)
    have hbuffer := length_slice_of_le (by omega : sqzrHeaderLen + offset + len ≤ single.length)
    have hbuffer' := length_slice_of_le (by omega : sqzrHeaderLen + offset + len ≤ weighted.length)
    dsimp only
    rw [hexact, ok_bind, hexact', ok_bind, mixPeers_eq (peersOf_full _ _ _), ok_bind]
    refine congrArg Except.ok (eq_slice_of_byteAt ?_ hlen fun j hj => ?_)
    · exact (List.length_zipWith.trans (congrArg₂ min (length_mixAll _ _ hbuffer) (length_mixAll _ _ hbuffer'))).trans
        (Nat.min_self len)
    · have hmixed := byteAt_mixed lost hsingle (by omega : sqzrHeaderLen + (offset + len) ≤ single.length)
        (fun _ => id) (fun _ => 1) (fun _ _ => (one_mul _).symm) (fun index => (UInt8.ofNat index, 0))
        (fun _ _ => rfl) hj
      have hmixed' := byteAt_mixed lost hweighted (by omega : sqzrHeaderLen + (offset + len) ≤ weighted.length)
        (fun peer => gf256Mul peer.coeff) (fun peer => ⟨peer.coeff⟩) (fun _ _ => rfl)
        (fun index => (UInt8.ofNat index, 0)) (fun _ _ => rfl) hj
      rw [weightedSum_perm _ _ hlost] at hmixed hmixed'
      refine (byteAt_zipWith _ (length_mixAll _ _ hbuffer) (length_mixAll _ _ hbuffer') hj).trans ?_
      rw [hmixed, hmixed']
      exact solve_two coeffAt (volumeByte contents · (offset + j)) hne

/-- One of three volumes is worked out of three parity files. -/
theorem tripleWeighted_rebuilds
    (hsingle : ∀ j, byteAt single (sqzrHeaderLen + j) = weightedSum weightOne (volumeByte contents · j) (List.range' 1 count))
    (hweighted : ∀ j, byteAt weighted (sqzrHeaderLen + j) =
      weightedSum coeffAt (volumeByte contents · j) (List.range' 1 count))
    (hquadratic : ∀ j, byteAt quadratic (sqzrHeaderLen + j) =
      weightedSum weightSquare (volumeByte contents · j) (List.range' 1 count))
    (hroom : sqzrHeaderLen + (contents.getD (a - 1) []).length ≤ single.length)
    (hroom' : sqzrHeaderLen + (contents.getD (a - 1) []).length ≤ weighted.length)
    (hroom'' : sqzrHeaderLen + (contents.getD (a - 1) []).length ≤ quadratic.length)
    (hlost : (lostOf lost count).Perm [a, b, c]) (hne : (coeffAt a + coeffAt b) * (coeffAt a + coeffAt c) ≠ 0) :
    ReconstructedVolumeReader.Rebuilds
      ⟨.tripleWeighted single weighted quadratic ((coeffAt b).byte, (coeffAt c).byte)
        ((coeffAt a + coeffAt b) * (coeffAt a + coeffAt c))⁻¹.byte,
      peersOf contents (fun index => (UInt8.ofNat index, gf256Mul (UInt8.ofNat index) (UInt8.ofNat index)))
        (leftOf lost count)⟩ (contents.getD (a - 1) []) := by
  intro offset len hlen
  unfold ReconstructedVolumeReader.readPhysical
  split
  · rename_i h0
    rw [h0, slice_zero]
  · have hexact := readExact_ok (by omega : sqzrHeaderLen + offset + len ≤ single.length)
    have hexact' := readExact_ok (by omega : sqzrHeaderLen + offset + len ≤ weighted.length)
    have hexact'' := readExact_ok (by omega : sqzrHeaderLen + offset + len ≤ quadratic.length)
    have hbuffer := length_slice_of_le (by omega : sqzrHeaderLen + offset + len ≤ single.length)
    have hbuffer' := length_slice_of_le (by omega : sqzrHeaderLen + offset + len ≤ weighted.length)
    have hbuffer'' := length_slice_of_le (by omega : sqzrHeaderLen + offset + len ≤ quadratic.length)
    dsimp only
    rw [hexact, ok_bind, hexact', ok_bind, hexact'', ok_bind, mixPeers_eq (peersOf_full _ _ _), ok_bind]
    refine congrArg Except.ok (eq_slice_of_byteAt ?_ hlen fun j hj => ?_)
    · refine (List.length_zipWith.trans (congrArg₂ min (length_mixAll _ _ hbuffer) (List.length_zip.trans
        (congrArg₂ min (length_mixAll _ _ hbuffer') (length_mixAll _ _ hbuffer''))))).trans ?_
      rw [Nat.min_self, Nat.min_self]
    · have hmixed := byteAt_mixed lost hsingle (by omega : sqzrHeaderLen + (offset + len) ≤ single.length)
        (fun _ => id) (fun _ => 1) (fun _ _ => (one_mul _).symm)
        (fun index => (UInt8.ofNat index, gf256Mul (UInt8.ofNat index) (UInt8.ofNat index))) (fun _ _ => rfl) hj
      have hmixed' := byteAt_mixed lost hweighted (by omega : sqzrHeaderLen + (offset + len) ≤ weighted.length)
        (fun peer => gf256Mul peer.coeff) (fun peer => ⟨peer.coeff⟩) (fun _ _ => rfl)
        (fun index => (UInt8.ofNat index, gf256Mul (UInt8.ofNat index) (UInt8.ofNat index))) (fun _ _ => rfl) hj
      have hmixed'' := byteAt_mixed lost hquadratic (by omega : sqzrHeaderLen + (offset + len) ≤ quadratic.length)
        (fun peer => gf256Mul peer.quadraticCoeff)
        (fun peer => ⟨peer.quadraticCoeff⟩) (fun _ _ => rfl)
        (fun index => (UInt8.ofNat index, gf256Mul (UInt8.ofNat index) (UInt8.ofNat index))) (fun _ _ => rfl) hj
      rw [weightedSum_perm _ _ hlost] at hmixed hmixed' hmixed''
      refine (byteAt_zipWith_zip _ (length_mixAll _ _ hbuffer) (length_mixAll _ _ hbuffer') (length_mixAll _ _ hbuffer'')
        hj).trans ?_
      rw [hmixed, hmixed', hmixed'']
      exact solve_three coeffAt (volumeByte contents · (offset + j)) hne

end Rebuilds

end Squallz.Volumes
