/-
The reader of a volume set is a reader of the volumes one behind the other: where the part of a position is found for every
volume set, and where a search may find an empty volume in its place.
-/
import Squallz.Volumes.Reader

namespace Squallz.Volumes

open Squallz.Api Squallz.Bytes Squallz.Destination Squallz.Erasure

/-! ## Reconstructed bytes -/

theorem length_readExact {file bytes : List UInt8} {offset len : Nat} (h : readExact file offset len = .ok bytes) :
    bytes.length = len := by
  unfold readExact at h
  split at h
  · rename_i h0
    cases h
    exact h0.symm
  · split at h
    · cases h
    · rename_i hlen
      cases h
      exact length_slice_of_le (Nat.le_of_not_lt hlen)

theorem readExact_ok {file : List UInt8} {offset len : Nat} (h : offset + len ≤ file.length) :
    readExact file offset len = .ok (slice file offset len) := by
  unfold readExact
  split
  · rename_i h0
    rw [h0, slice_zero]
  · rw [if_neg (Nat.not_lt.2 h)]

/-- A part of what is read is what is read of the part. -/
theorem readExact_slice {file bytes : List UInt8} {offset len i k : Nat} (h : readExact file offset len = .ok bytes)
    (hik : i + k ≤ len) : readExact file (offset + i) k = .ok (slice bytes i k) := by
  unfold readExact at h
  split at h
  · rename_i h0
    have hk : k = 0 := by omega
    rw [hk, slice_zero]
    rfl
  · split at h
    · cases h
    · rename_i hlen
      cases h
      rw [readExact_ok (by omega), slice_slice hik]

theorem length_mix {weight : UInt8 → UInt8} {out bytes : List UInt8} (h : bytes.length ≤ out.length) :
    (mix weight out bytes).length = out.length := by
  rw [mix, List.length_append, List.length_zipWith, List.length_drop]
  omega

/-- A part of what is mixed is what is mixed of the parts. -/
theorem slice_mix {weight : UInt8 → UInt8} {out bytes : List UInt8} (h : bytes.length ≤ out.length) (i k : Nat) :
    slice (mix weight out bytes) i k = mix weight (slice out i k) (slice bytes i k) := by
  have pointwise : ∀ {out bytes : List UInt8}, bytes.length ≤ out.length → ∀ j : Nat, (mix weight out bytes)[j]? =
      out[j]?.map fun dst => (bytes[j]?).elim dst fun src => dst ^^^ weight src := by
    intro out bytes h j
    rw [mix, List.getElem?_append, List.length_zipWith, List.getElem?_zipWith, List.getElem?_drop, Nat.min_eq_right h]
    by_cases hj : j < bytes.length
    · rw [if_pos hj, List.getElem?_eq_getElem hj, List.getElem?_eq_getElem (Nat.lt_of_lt_of_le hj h)]
      rfl
    · have hnone : bytes[j]? = none := List.getElem?_eq_none (Nat.le_of_not_lt hj)
      rw [if_neg hj, hnone, show bytes.length + (j - bytes.length) = j by omega]
      cases out[j]? <;> rfl
  have hlen : (slice bytes i k).length ≤ (slice out i k).length := by
    rw [length_slice, length_slice]
    omega
  refine List.ext_getElem? fun j => ?_
  rw [getElem?_slice, pointwise h, pointwise hlen, getElem?_slice, getElem?_slice]
  split <;> rfl

theorem length_peerRead {peer : PeerReader} {offset len : Nat} {bytes : List UInt8} (h : peer.read offset len = .ok bytes) :
    bytes.length = min len (peer.physicalLen - offset) := by
  unfold PeerReader.read at h
  split at h
  · rename_i hle
    cases h
    rw [Nat.sub_eq_zero_of_le hle, Nat.min_zero]
    rfl
  · exact length_readExact h

theorem peerRead_slice {peer : PeerReader} {offset len i k : Nat} {bytes : List UInt8}
    (h : peer.read offset len = .ok bytes) (hik : i + k ≤ len) : peer.read (offset + i) k = .ok (slice bytes i k) := by
  have hlen := length_peerRead h
  unfold PeerReader.read
  split
  · rename_i hle
    have hnil : slice bytes i k = [] := by
      apply List.eq_nil_of_length_eq_zero
      rw [length_slice]
      omega
    rw [hnil]
  · rename_i hle
    unfold PeerReader.read at h
    rw [if_neg (by omega)] at h
    rw [readExact_slice h (by omega)]
    congr 1
    by_cases hk : k ≤ peer.physicalLen - (offset + i)
    · rw [Nat.min_eq_left hk]
    · unfold slice
      rw [List.take_of_length_le (by rw [List.length_drop]; omega), List.take_of_length_le (by rw [List.length_drop]; omega)]

theorem mixPeers_slice {offset len i k : Nat} {peers : List PeerReader}
    {buffers : List ((PeerReader → UInt8 → UInt8) × List UInt8)} {mixed : List (List UInt8)}
    (h : mixPeers offset len peers buffers = .ok mixed) (hlen : ∀ buffer ∈ buffers, buffer.2.length = len)
    (hik : i + k ≤ len) :
    mixPeers (offset + i) k peers (buffers.map fun (weight, buffer) => (weight, slice buffer i k)) =
      .ok (mixed.map fun buffer => slice buffer i k) := by
  induction peers generalizing buffers with
  | nil =>
    cases h
    rw [mixPeers, List.map_map, List.map_map]
    rfl
  | cons peer peers ih =>
    rw [mixPeers] at h
    obtain ⟨bytes, hbytes, h⟩ := bind_eq_ok.1 h
    have hshort : bytes.length ≤ len := length_peerRead hbytes ▸ Nat.min_le_left _ _
    rw [mixPeers, peerRead_slice hbytes hik, ok_bind, ← ih h, List.map_map, List.map_map]
    · congr 1
      refine List.map_congr_left fun buffer hbuffer => ?_
      simp only [Function.comp_apply]
      rw [slice_mix (hlen buffer hbuffer ▸ hshort)]
    · intro buffer hbuffer
      obtain ⟨buffer', hbuffer', rfl⟩ := List.mem_map.1 hbuffer
      dsimp only
      rw [length_mix (hlen buffer' hbuffer' ▸ hshort), hlen buffer' hbuffer']

theorem mixPeers_ok (offset len : Nat) {peers : List PeerReader} (hpeers : ∀ peer ∈ peers, peer.physicalLen ≤ peer.file.length)
    (buffers : List ((PeerReader → UInt8 → UInt8) × List UInt8)) :
    ∃ mixed, mixPeers offset len peers buffers = .ok mixed := by
  induction peers generalizing buffers with
  | nil => exact ⟨_, rfl⟩
  | cons peer peers ih =>
    have hpeer := hpeers peer List.mem_cons_self
    obtain ⟨bytes, hbytes⟩ : ∃ bytes, peer.read offset len = .ok bytes := by
      unfold PeerReader.read
      split
      · exact ⟨_, rfl⟩
      · exact ⟨_, readExact_ok (by omega)⟩
    obtain ⟨mixed, hmixed⟩ := ih (fun peer h => hpeers peer (List.mem_cons_of_mem _ h))
      (buffers.map fun (weight, buffer) => (weight, mix (weight peer) buffer bytes))
    exact ⟨mixed, bind_eq_ok.2 ⟨bytes, hbytes, hmixed⟩⟩

theorem slice_zipWith {α β γ : Type} (f : α → β → γ) (a : List α) (b : List β) (i k : Nat) :
    slice (List.zipWith f a b) i k = List.zipWith f (slice a i k) (slice b i k) := by
  rw [slice, List.drop_zipWith, List.take_zipWith, ← slice, ← slice]

theorem headD_map_slice (buffers : List (List UInt8)) (i k : Nat) :
    (buffers.map fun buffer => slice buffer i k).headD [] = slice (buffers.headD []) i k := by
  cases buffers with
  | nil => rw [List.map_nil, List.headD_nil, slice, List.drop_nil, List.take_nil]
  | cons buffer buffers => rfl

namespace ReconstructedVolumeReader

/-- A part of a reconstruction is what is reconstructed of the part. -/
theorem readPhysical_slice {reader : ReconstructedVolumeReader} {offset len i k : Nat} {bytes : List UInt8}
    (h : reader.readPhysical offset len = .ok bytes) (hik : i + k ≤ len) :
    reader.readPhysical (offset + i) k = .ok (slice bytes i k) := by
  by_cases hk : k = 0
  · rw [hk, slice_zero]
    rfl
  · unfold readPhysical at h ⊢
    rw [if_neg (by omega)] at h
    rw [if_neg hk]
    have hoff : sqzrHeaderLen + (offset + i) = sqzrHeaderLen + offset + i := (Nat.add_assoc _ _ _).symm
    rw [hoff]
    cases hs : reader.source with
    | singleXor recovery =>
      simp only [hs] at h ⊢
      obtain ⟨out, hout, h⟩ := bind_eq_ok.1 h
      obtain ⟨mixed, hmixed, h⟩ := bind_eq_ok.1 h
      cases h
      have := mixPeers_slice hmixed (by simpa using length_readExact hout) hik
      rw [readExact_slice hout hik, ok_bind]
      exact bind_eq_ok.2 ⟨_, this, congrArg _ (headD_map_slice mixed i k)⟩
    | dualWeighted xor weighted otherCoeff denominatorInv =>
      simp only [hs] at h ⊢
      obtain ⟨out, hout, h⟩ := bind_eq_ok.1 h
      obtain ⟨weightedBuf, hweighted, h⟩ := bind_eq_ok.1 h
      obtain ⟨mixed, hmixed, h⟩ := bind_eq_ok.1 h
      cases h
      have := mixPeers_slice hmixed (by simpa using ⟨length_readExact hout, length_readExact hweighted⟩) hik
      rw [readExact_slice hout hik, ok_bind, readExact_slice hweighted hik, ok_bind]
      refine bind_eq_ok.2 ⟨_, this, ?_⟩
      rw [slice_zipWith, headD_map_slice, ← List.map_tail, headD_map_slice]
      rfl
    | tripleWeighted xor weighted quadratic otherCoeffs denominatorInv =>
      simp only [hs] at h ⊢
      obtain ⟨out, hout, h⟩ := bind_eq_ok.1 h
      obtain ⟨weightedBuf, hweighted, h⟩ := bind_eq_ok.1 h
      obtain ⟨quadraticBuf, hquadratic, h⟩ := bind_eq_ok.1 h
      obtain ⟨mixed, hmixed, h⟩ := bind_eq_ok.1 h
      cases h
      have := mixPeers_slice hmixed
        (by simpa using ⟨length_readExact hout, length_readExact hweighted, length_readExact hquadratic⟩) hik
      rw [readExact_slice hout hik, ok_bind, readExact_slice hweighted hik, ok_bind, readExact_slice hquadratic hik, ok_bind]
      refine bind_eq_ok.2 ⟨_, this, ?_⟩
      rw [slice_zipWith, List.zip_eq_zipWith, List.zip_eq_zipWith, slice_zipWith, headD_map_slice, ← List.map_tail, headD_map_slice, ← List.map_tail,
        headD_map_slice]
      rfl

/-- The files are as long as a reconstruction of `len` bytes needs them. -/
structure Fits (reader : ReconstructedVolumeReader) (len : Nat) : Prop where
  source : match reader.source with
    | .singleXor recovery => sqzrHeaderLen + len ≤ recovery.length
    | .dualWeighted xor weighted _ _ => sqzrHeaderLen + len ≤ xor.length ∧ sqzrHeaderLen + len ≤ weighted.length
    | .tripleWeighted xor weighted quadratic _ _ =>
      sqzrHeaderLen + len ≤ xor.length ∧ sqzrHeaderLen + len ≤ weighted.length ∧ sqzrHeaderLen + len ≤ quadratic.length
  peers : ∀ peer ∈ reader.peers, peer.physicalLen ≤ peer.file.length

/-- Then every part of it can be read. -/
theorem Fits.readPhysical_ok {reader : ReconstructedVolumeReader} {len : Nat} (h : reader.Fits len) :
    ∃ bytes, reader.readPhysical 0 len = .ok bytes := by
  unfold readPhysical
  split
  · exact ⟨_, rfl⟩
  · have hsource := h.source
    rw [Nat.add_zero]
    cases hs : reader.source with
    | singleXor recovery =>
      rw [hs] at hsource
      dsimp only
      obtain ⟨mixed, hmixed⟩ := mixPeers_ok 0 len h.peers [(fun _ => id, slice recovery sqzrHeaderLen len)]
      rw [readExact_ok hsource, ok_bind, hmixed]
      exact ⟨_, rfl⟩
    | dualWeighted xor weighted otherCoeff denominatorInv =>
      rw [hs] at hsource
      dsimp only
      obtain ⟨hxor, hweighted⟩ := hsource
      obtain ⟨mixed, hmixed⟩ := mixPeers_ok 0 len h.peers
        [(fun _ => id, slice xor sqzrHeaderLen len), (fun peer => gf256Mul peer.coeff, slice weighted sqzrHeaderLen len)]
      rw [readExact_ok hxor, ok_bind, readExact_ok hweighted, ok_bind, hmixed]
      exact ⟨_, rfl⟩
    | tripleWeighted xor weighted quadratic otherCoeffs denominatorInv =>
      rw [hs] at hsource
      dsimp only
      obtain ⟨hxor, hweighted, hquadratic⟩ := hsource
      obtain ⟨mixed, hmixed⟩ := mixPeers_ok 0 len h.peers
        [(fun _ => id, slice xor sqzrHeaderLen len), (fun peer => gf256Mul peer.coeff, slice weighted sqzrHeaderLen len),
          (fun peer => gf256Mul peer.quadraticCoeff, slice quadratic sqzrHeaderLen len)]
      rw [readExact_ok hxor, ok_bind, readExact_ok hweighted, ok_bind, readExact_ok hquadratic, ok_bind, hmixed]
      exact ⟨_, rfl⟩

end ReconstructedVolumeReader

theorem lengths_mixPeers {offset len : Nat} {peers : List PeerReader}
    {buffers : List ((PeerReader → UInt8 → UInt8) × List UInt8)} {mixed : List (List UInt8)}
    (h : mixPeers offset len peers buffers = .ok mixed) (hlen : ∀ buffer ∈ buffers, buffer.2.length = len) :
    mixed.map List.length = buffers.map fun _ => len := by
  induction peers generalizing buffers with
  | nil =>
    cases h
    rw [List.map_map]
    exact List.map_congr_left hlen
  | cons peer peers ih =>
    rw [mixPeers] at h
    obtain ⟨bytes, hbytes, h⟩ := bind_eq_ok.1 h
    have hshort : bytes.length ≤ len := length_peerRead hbytes ▸ Nat.min_le_left _ _
    rw [ih h, List.map_map]
    · rfl
    · intro buffer hbuffer
      obtain ⟨buffer', hbuffer', rfl⟩ := List.mem_map.1 hbuffer
      dsimp only
      rw [length_mix (hlen buffer' hbuffer' ▸ hshort), hlen buffer' hbuffer']

theorem ReconstructedVolumeReader.length_readPhysical {reader : ReconstructedVolumeReader} {offset len : Nat}
    {bytes : List UInt8} (h : reader.readPhysical offset len = .ok bytes) : bytes.length = len := by
  unfold readPhysical at h
  split at h
  · rename_i h0
    cases h
    exact h0.symm
  · cases hs : reader.source with
    | singleXor recovery =>
      simp only [hs] at h
      obtain ⟨out, hout, h⟩ := bind_eq_ok.1 h
      obtain ⟨mixed, hmixed, h⟩ := bind_eq_ok.1 h
      cases h
      have hlens := lengths_mixPeers hmixed (by simpa using length_readExact hout)
      obtain ⟨first, rfl⟩ := List.length_eq_one_iff.1 (by simpa using congrArg List.length hlens)
      exact (List.cons.inj hlens).1
    | dualWeighted xor weighted otherCoeff denominatorInv =>
      simp only [hs] at h
      obtain ⟨out, hout, h⟩ := bind_eq_ok.1 h
      obtain ⟨weightedBuf, hweighted, h⟩ := bind_eq_ok.1 h
      obtain ⟨mixed, hmixed, h⟩ := bind_eq_ok.1 h
      cases h
      have hlens := lengths_mixPeers hmixed (by simpa using ⟨length_readExact hout, length_readExact hweighted⟩)
      obtain ⟨first, second, rfl⟩ := List.length_eq_two.1 (by simpa using congrArg List.length hlens)
      obtain ⟨hfirst, hlens⟩ := List.cons.inj hlens
      rw [List.length_zipWith]
      exact (congrArg₂ min hfirst (List.cons.inj hlens).1).trans (Nat.min_self len)
    | tripleWeighted xor weighted quadratic otherCoeffs denominatorInv =>
      simp only [hs] at h
      obtain ⟨out, hout, h⟩ := bind_eq_ok.1 h
      obtain ⟨weightedBuf, hweighted, h⟩ := bind_eq_ok.1 h
      obtain ⟨quadraticBuf, hquadratic, h⟩ := bind_eq_ok.1 h
      obtain ⟨mixed, hmixed, h⟩ := bind_eq_ok.1 h
      cases h
      have hlens := lengths_mixPeers hmixed
        (by simpa using ⟨length_readExact hout, length_readExact hweighted, length_readExact hquadratic⟩)
      obtain ⟨first, second, third, rfl⟩ := List.length_eq_three.1 (by simpa using congrArg List.length hlens)
      obtain ⟨hfirst, hlens⟩ := List.cons.inj hlens
      obtain ⟨hsecond, hlens⟩ := List.cons.inj hlens
      rw [List.length_zipWith, List.length_zip]
      exact (congrArg₂ min hfirst (congrArg₂ min hsecond (List.cons.inj hlens).1)).trans (by rw [Nat.min_self, Nat.min_self])

/-! ## Segments -/

/-- What a part holds of the stream. -/
structure Segment where
  part : PartReader
  dataOffset : Nat
  logicalLen : Nat

/-- The bytes of a part from an offset on. -/
def PartReader.bytes (part : PartReader) (offset len : Nat) : List UInt8 :=
  match part with
  | .file content => slice content offset len
  | .missingZero => List.replicate len 0
  | .reconstructed reader =>
    match reader.readPhysical offset len with
    | .ok bytes => bytes
    | .error _ => []

namespace Segment

def bytes (segment : Segment) : List UInt8 := segment.part.bytes segment.dataOffset segment.logicalLen

/-- The part has the bytes that are counted on. -/
def Backed (segment : Segment) : Prop :=
  match segment.part with
  | .file content => segment.dataOffset + segment.logicalLen ≤ content.length
  | .missingZero => True
  | .reconstructed reader => reader.Fits (segment.dataOffset + segment.logicalLen)

variable {segment : Segment}

theorem Backed.length_bytes (h : segment.Backed) : segment.bytes.length = segment.logicalLen := by
  obtain ⟨part, dataOffset, logicalLen⟩ := segment
  unfold bytes PartReader.bytes
  cases part with
  | file content => exact length_slice_of_le h
  | missingZero => exact List.length_replicate
  | reconstructed reader =>
    obtain ⟨whole, hwhole⟩ := ReconstructedVolumeReader.Fits.readPhysical_ok h
    have hslice := ReconstructedVolumeReader.readPhysical_slice hwhole (Nat.le_refl (dataOffset + logicalLen))
    rw [Nat.zero_add] at hslice
    dsimp only
    rw [hslice]
    exact ReconstructedVolumeReader.length_readPhysical hslice

/-- What a read of the part returns, within the segment. -/
theorem Backed.readPart (h : segment.Backed) {within want : Nat} (pick : Nat) (hwant : within + want ≤ segment.logicalLen) :
    ∃ bytes, MultiVolumeReader.readPart segment.part (segment.dataOffset + within) want pick = .ok bytes ∧
      bytes = slice segment.bytes within bytes.length ∧ bytes.length ≤ want ∧ (0 < want → bytes ≠ []) := by
  have hbytes := h.length_bytes
  obtain ⟨part, dataOffset, logicalLen⟩ := segment
  unfold bytes PartReader.bytes at *
  unfold MultiVolumeReader.readPart
  cases part with
  | file content =>
    have hfile : dataOffset + logicalLen ≤ content.length := h
    dsimp only at *
    have hlen : (slice content (dataOffset + within) (min want (max pick 1))).length = min want (max pick 1) :=
      length_slice_of_le (by omega)
    refine ⟨_, rfl, ?_, by omega, fun hpos hnil => ?_⟩
    · rw [hlen, slice_slice (by omega)]
    · rw [hnil, List.length_nil] at hlen
      omega
  | missingZero =>
    dsimp only at *
    refine ⟨_, rfl, ?_, Nat.le_of_eq List.length_replicate, fun hpos hnil => ?_⟩
    · rw [List.length_replicate, slice, List.drop_replicate, List.take_replicate, Nat.min_eq_left (by omega)]
    · have := congrArg List.length hnil
      rw [List.length_replicate, List.length_nil] at this
      omega
  | reconstructed reader =>
    obtain ⟨whole, hwhole⟩ := ReconstructedVolumeReader.Fits.readPhysical_ok h
    have hslice := ReconstructedVolumeReader.readPhysical_slice hwhole (Nat.le_refl (dataOffset + logicalLen))
    rw [Nat.zero_add] at hslice
    dsimp only at *
    rw [hslice]
    have hread := ReconstructedVolumeReader.readPhysical_slice hslice hwant
    have hlen := ReconstructedVolumeReader.length_readPhysical hread
    refine ⟨_, hread, by rw [hlen], Nat.le_of_eq hlen, fun hpos hnil => ?_⟩
    rw [hnil, List.length_nil] at hlen
    omega

end Segment

/-! ## Where the parts begin -/

/-- Where stretches of some lengths begin, one behind the other. -/
def starts (start : Nat) : List Nat → List Nat
  | [] => []
  | len :: lens => start :: starts (start + len) lens

@[simp] theorem length_starts (start : Nat) (lens : List Nat) : (starts start lens).length = lens.length := by
  induction lens generalizing start with
  | nil => rfl
  | cons len lens ih => rw [starts, List.length_cons, ih, List.length_cons]

theorem getElem?_starts (start : Nat) {lens : List Nat} {i : Nat} (hi : i < lens.length) :
    (starts start lens)[i]? = some (start + (lens.take i).sum) := by
  induction lens generalizing start i with
  | nil => cases hi
  | cons len lens ih =>
    cases i with
    | zero => rfl
    | succ i =>
      rw [starts, List.getElem?_cons_succ, ih _ (Nat.lt_of_succ_lt_succ hi), List.take_succ_cons, List.sum_cons,
        Nat.add_assoc]

theorem starts_sorted (start : Nat) (lens : List Nat) : (starts start lens).Pairwise (· ≤ ·) := by
  have least : ∀ {start : Nat} {lens : List Nat}, ∀ n ∈ starts start lens, start ≤ n := by
    intro start lens
    induction lens generalizing start with
    | nil => exact fun n hn => absurd hn List.not_mem_nil
    | cons len lens ih =>
      intro n hn
      cases hn with
      | head => exact Nat.le_refl _
      | tail _ hn => exact Nat.le_trans (Nat.le_add_right _ _) (ih n hn)
  induction lens generalizing start with
  | nil => exact .nil
  | cons len lens ih => exact .cons (fun n hn => Nat.le_trans (Nat.le_add_right _ _) (least n hn)) (ih _)

theorem sum_take_succ {lens : List Nat} {i len : Nat} (h : lens[i]? = some len) :
    (lens.take (i + 1)).sum = (lens.take i).sum + len := by
  rw [List.take_add_one, h, List.sum_append]
  rfl

theorem sum_take_le (lens : List Nat) (i : Nat) : (lens.take i).sum ≤ lens.sum := by
  conv_rhs => rw [← List.take_append_drop i lens, List.sum_append]
  exact Nat.le_add_right _ _

/-- A search that does not stop at an empty stretch finds the one that a position lies in. -/
theorem lands {search : Search} (hsearch : Finds search) {lens : List Nat} {pos : Nat} (hpos : pos < lens.sum)
    (hfull : ∀ i, search (starts 0 lens) pos = .ok i → lens[i]? ≠ some 0) :
    ∃ len, lens[foundPart (search (starts 0 lens) pos)]? = some len ∧
      (lens.take (foundPart (search (starts 0 lens) pos))).sum ≤ pos ∧
      pos < (lens.take (foundPart (search (starts 0 lens) pos))).sum + len := by
  have hsorted := starts_sorted 0 lens
  have begins : ∀ {i : Nat}, i < lens.length → (starts 0 lens)[i]? = some (lens.take i).sum := by
    intro i hi
    rw [getElem?_starts 0 hi, Nat.zero_add]
  have hlen : 0 < lens.length := by
    by_contra h
    rw [List.length_eq_zero_iff.1 (Nat.eq_zero_of_not_pos h)] at hpos
    exact absurd hpos (Nat.not_lt_zero _)
  cases hs : search (starts 0 lens) pos with
  | ok i =>
    have hi := hsearch.found _ _ _ hsorted hs
    have hlt : i < lens.length := by
      have := (List.getElem?_eq_some_iff.1 hi).1
      rwa [length_starts] at this
    have hbegin : (lens.take i).sum = pos := Option.some.inj ((begins hlt).symm.trans hi)
    have hget := List.getElem?_eq_getElem hlt
    have hne : lens[i] ≠ 0 := fun h0 => hfull i hs (h0 ▸ hget)
    refine ⟨lens[i], hget, Nat.le_of_eq hbegin, ?_⟩
    show pos < (lens.take i).sum + lens[i]
    omega
  | error i =>
    obtain ⟨hle, hbefore, hafter⟩ := hsearch.absent _ _ _ hsorted hs
    rw [length_starts] at hle
    have hi : i ≠ 0 := by
      rintro rfl
      exact absurd (hafter 0 _ (Nat.le_refl 0) (begins hlen)) (Nat.not_lt_zero _)
    have hlt : i - 1 < lens.length := by omega
    have hget := List.getElem?_eq_getElem hlt
    have hbegin := hbefore (i - 1) _ (by omega) (begins hlt)
    have hend := sum_take_succ hget
    rw [show i - 1 + 1 = i by omega] at hend
    refine ⟨lens[i - 1], hget, Nat.le_of_lt hbegin, ?_⟩
    show pos < (lens.take (i - 1)).sum + lens[i - 1]
    rw [← hend]
    by_cases hlast : i < lens.length
    · exact hafter i _ (Nat.le_refl i) (begins hlast)
    · rwa [List.take_of_length_le (by omega)]

/-! ## The opened set -/

namespace MultiVolumeReader

/-- The volumes one behind the other. -/
def content (reader : MultiVolumeReader) : List UInt8 :=
  ((reader.parts.zip (reader.dataOffsets.zip reader.logicalLens)).map fun (part, dataOffset, logicalLen) =>
    part.bytes dataOffset logicalLen).flatten

def pushAll (reader : MultiVolumeReader) (segments : List Segment) : MultiVolumeReader :=
  segments.foldl (fun reader segment => reader.push segment.part segment.dataOffset segment.logicalLen) reader

/-- The reader of some segments. -/
def ofSegments (segments : List Segment) : MultiVolumeReader := pushAll ⟨[], [], [], [], 0, 0⟩ segments

theorem pushAll_fields (reader : MultiVolumeReader) (segments : List Segment) :
    (reader.pushAll segments).parts = reader.parts ++ segments.map Segment.part ∧
      (reader.pushAll segments).dataOffsets = reader.dataOffsets ++ segments.map Segment.dataOffset ∧
      (reader.pushAll segments).logicalLens = reader.logicalLens ++ segments.map Segment.logicalLen ∧
      (reader.pushAll segments).pos = reader.pos := by
  induction segments generalizing reader with
  | nil => exact ⟨(List.append_nil _).symm, (List.append_nil _).symm, (List.append_nil _).symm, rfl⟩
  | cons segment segments ih =>
    obtain ⟨hparts, hdata, hlens, hpos⟩ := ih (reader.push segment.part segment.dataOffset segment.logicalLen)
    refine ⟨hparts.trans ?_, hdata.trans ?_, hlens.trans ?_, hpos⟩
    · rw [push, List.append_assoc]
      rfl
    · rw [push, List.append_assoc]
      rfl
    · rw [push, List.append_assoc]
      rfl

theorem pushAll_total (reader : MultiVolumeReader) (h : reader.total < 2 ^ 64) (segments : List Segment) :
    (reader.pushAll segments).total = (reader.total + (segments.map Segment.logicalLen).sum) % 2 ^ 64 := by
  induction segments generalizing reader with
  | nil => exact (Nat.mod_eq_of_lt h).symm
  | cons segment segments ih =>
    have := ih (reader.push segment.part segment.dataOffset segment.logicalLen) (Nat.mod_lt _ (by decide))
    refine this.trans ?_
    rw [push, List.map_cons, List.sum_cons, Nat.mod_add_mod, Nat.add_assoc]

/-- As long as the total does not wrap around, the offsets are where the parts begin. -/
theorem pushAll_offsets (reader : MultiVolumeReader) {segments : List Segment}
    (h : reader.total + (segments.map Segment.logicalLen).sum < 2 ^ 64) :
    (reader.pushAll segments).offsets = reader.offsets ++ starts reader.total (segments.map Segment.logicalLen) := by
  induction segments generalizing reader with
  | nil => exact (List.append_nil _).symm
  | cons segment segments ih =>
    rw [List.map_cons, List.sum_cons] at h
    have htotal : (reader.total + segment.logicalLen) % 2 ^ 64 = reader.total + segment.logicalLen :=
      Nat.mod_eq_of_lt (by omega)
    have := ih (reader.push segment.part segment.dataOffset segment.logicalLen)
      (by
        show (reader.total + segment.logicalLen) % 2 ^ 64 + _ < 2 ^ 64
        omega)
    refine this.trans ?_
    rw [push, htotal, List.append_assoc]
    rfl

section Segments

variable (segments : List Segment)

theorem ofSegments_parts : (ofSegments segments).parts = segments.map Segment.part := (pushAll_fields _ segments).1

theorem ofSegments_dataOffsets : (ofSegments segments).dataOffsets = segments.map Segment.dataOffset :=
  (pushAll_fields _ segments).2.1

theorem ofSegments_logicalLens : (ofSegments segments).logicalLens = segments.map Segment.logicalLen :=
  (pushAll_fields _ segments).2.2.1

theorem ofSegments_pos : (ofSegments segments).pos = 0 := (pushAll_fields _ segments).2.2.2

theorem ofSegments_total : (ofSegments segments).total = (segments.map Segment.logicalLen).sum % 2 ^ 64 := by
  have := pushAll_total ⟨[], [], [], [], 0, 0⟩ (by decide) segments
  rwa [Nat.zero_add] at this

theorem ofSegments_content : (ofSegments segments).content = (segments.map Segment.bytes).flatten := by
  rw [content, ofSegments_parts, ofSegments_dataOffsets, ofSegments_logicalLens]
  congr 1
  induction segments with
  | nil => rfl
  | cons segment segments ih =>
    rw [List.map_cons, List.map_cons, List.map_cons, List.zip_cons_cons, List.zip_cons_cons, List.map_cons, List.map_cons,
      ih]
    rfl

variable {segments}

theorem ofSegments_offsets (h : (segments.map Segment.logicalLen).sum < 2 ^ 64) :
    (ofSegments segments).offsets = starts 0 (segments.map Segment.logicalLen) :=
  pushAll_offsets ⟨[], [], [], [], 0, 0⟩ (by rwa [Nat.zero_add])

theorem length_bytes_flatten (hbacked : ∀ segment ∈ segments, segment.Backed) :
    (segments.map Segment.bytes).flatten.length = (segments.map Segment.logicalLen).sum := by
  rw [List.length_flatten, List.map_map]
  exact congrArg List.sum (List.map_congr_left fun segment h => (hbacked segment h).length_bytes)

/-- A stretch inside a part is a stretch of the part's bytes. -/
theorem slice_segment (hbacked : ∀ segment ∈ segments, segment.Backed) {i within k : Nat} {segment : Segment}
    (hi : segments[i]? = some segment) (hk : within + k ≤ segment.logicalLen) :
    slice (segments.map Segment.bytes).flatten (((segments.map Segment.logicalLen).take i).sum + within) k =
      slice segment.bytes within k := by
  obtain ⟨hlt, hget⟩ := List.getElem?_eq_some_iff.1 hi
  have hsplit : segments = segments.take i ++ segment :: segments.drop (i + 1) := by
    rw [← hget, ← List.drop_eq_getElem_cons hlt, List.take_append_drop]
  have hflat : (segments.map Segment.bytes).flatten = ((segments.take i).map Segment.bytes).flatten ++
      (segment.bytes ++ ((segments.drop (i + 1)).map Segment.bytes).flatten) := by
    conv_lhs => rw [hsplit]
    rw [List.map_append, List.flatten_append, List.map_cons, List.flatten_cons]
  have hbefore : ((segments.take i).map Segment.bytes).flatten.length =
      ((segments.map Segment.logicalLen).take i).sum := by
    rw [length_bytes_flatten fun s hs => hbacked s (List.mem_of_mem_take hs), List.map_take]
  have hlen := (hbacked segment (List.mem_of_getElem? hi)).length_bytes
  rw [hflat, ← hbefore, slice_append_right (Nat.le_add_right _ _), Nat.add_sub_cancel_left,
    slice_append_left (by omega)]

end Segments

end MultiVolumeReader

/-! ## Refinement -/

namespace MultiVolumeReader

/-- The stream of the volumes one behind the other. -/
def flat (reader : MultiVolumeReader) : Flat := ⟨reader.content, fun _ => False⟩

/-- The reader at a position. -/
def At (reader : MultiVolumeReader) (s : MultiVolumeReader) (pos : Nat) : Prop := s = { reader with pos := pos }

section Stream

variable {segments : List Segment} {search : Search}

theorem length_content (hbacked : ∀ segment ∈ segments, segment.Backed) :
    (ofSegments segments).content.length = (segments.map Segment.logicalLen).sum := by
  rw [ofSegments_content, length_bytes_flatten hbacked]

theorem seek_flat (hbacked : ∀ segment ∈ segments, segment.Backed)
    (hsum : (segments.map Segment.logicalLen).sum < 2 ^ 64) {s : MultiVolumeReader} {pos : Nat}
    (h : At (ofSegments segments) s pos) (whence : SeekFrom) :
    match seek s whence with
    | .ok (n, s') => whence.target (ofSegments segments).flat.content.length pos = n ∧ n ≤ u64Max ∧
      At (ofSegments segments) s' n
    | .error _ => whence.target (ofSegments segments).flat.content.length pos < 0 ∨
      u64Max < whence.target (ofSegments segments).flat.content.length pos := by
  subst h
  have hlen : (ofSegments segments).flat.content.length = (ofSegments segments).total := by
    rw [ofSegments_total, Nat.mod_eq_of_lt hsum]
    exact length_content hbacked
  rw [hlen]
  unfold seek
  dsimp only
  by_cases hout : whence.target (ofSegments segments).total pos < 0 ∨
      (u64Max : Int) < whence.target (ofSegments segments).total pos
  · rw [if_pos hout]
    exact hout
  · rw [if_neg hout]
    dsimp only
    refine ⟨?_, ?_, rfl⟩ <;> omega

/-- A read returns bytes of the volumes, when the part that is found is the one of the position. -/
theorem read_flat (hbacked : ∀ segment ∈ segments, segment.Backed)
    (hsum : (segments.map Segment.logicalLen).sum < 2 ^ 64) (hsearch : Finds search)
    (hfull : ∀ pos i, pos < (segments.map Segment.logicalLen).sum →
      search (starts 0 (segments.map Segment.logicalLen)) pos = .ok i → (segments.map Segment.logicalLen)[i]? ≠ some 0)
    {s : MultiVolumeReader} {pos : Nat} (h : At (ofSegments segments) s pos) (bufLen pick : Nat) :
    ∃ bytes s', read search s bufLen pick = .ok (bytes, s') ∧ (ofSegments segments).flat.Reads pos bufLen bytes ∧
      At (ofSegments segments) s' (pos + bytes.length) := by
  subst h
  have htotal : (ofSegments segments).total = (segments.map Segment.logicalLen).sum := by
    rw [ofSegments_total, Nat.mod_eq_of_lt hsum]
  have hcontent := length_content hbacked
  by_cases hnone : (ofSegments segments).total ≤ pos ∨ bufLen = 0
  · refine ⟨[], { ofSegments segments with pos := pos }, if_pos hnone, Flat.reads_nil _ ?_, rfl⟩
    rwa [flat, hcontent, ← htotal]
  · obtain ⟨hpos, hbuf⟩ := not_or.1 hnone
    rw [htotal, Nat.not_le] at hpos
    obtain ⟨len, hlen, hle, hlt⟩ := lands hsearch hpos (hfull pos · hpos)
    have hindex : partIndex search { ofSegments segments with pos := pos } =
        foundPart (search (starts 0 (segments.map Segment.logicalLen)) pos) := by
      rw [partIndex, ofSegments_offsets hsum]
    rw [← hindex] at hlen hle hlt
    generalize hidx : partIndex search { ofSegments segments with pos := pos } = idx at hlen hle hlt
    obtain ⟨segment, hsegment, rfl⟩ := Option.map_eq_some_iff.1 (List.getElem?_map.symm.trans hlen)
    have hin := List.mem_of_getElem? hsegment
    have hidxlt : idx < (segments.map Segment.logicalLen).length := (List.getElem?_eq_some_iff.1 hlen).1
    have hbegin := getElem?_starts 0 hidxlt
    rw [Nat.zero_add] at hbegin
    have hend := sum_take_succ hlen
    have hwhole := sum_take_le (segments.map Segment.logicalLen) (idx + 1)
    obtain ⟨start, hstart⟩ : ∃ start, ((segments.map Segment.logicalLen).take idx).sum = start := ⟨_, rfl⟩
    rw [hstart] at hbegin hle hlt hend
    have hremaining : (segment.logicalLen + 2 ^ 64 - (pos - start)) % 2 ^ 64 = segment.logicalLen - (pos - start) := by
      omega
    obtain ⟨bytes, hread, heq, hshort, hprogress⟩ := (hbacked segment hin).readPart pick
      (by omega : pos - start + min bufLen (segment.logicalLen - (pos - start)) ≤ segment.logicalLen)
    refine ⟨bytes, { ofSegments segments with pos := pos + bytes.length }, ?_, ⟨?_, by omega, ?_, fun _ _ => id⟩, rfl⟩
    · rw [read, if_neg hnone]
      dsimp only
      rw [hidx, ofSegments_parts, ofSegments_offsets hsum, ofSegments_dataOffsets, ofSegments_logicalLens,
        List.getElem?_map, List.getElem?_map, List.getElem?_map, hsegment, hbegin]
      dsimp only [Option.map_some]
      rw [hremaining, hread]
      rfl
    · have hslice := slice_segment hbacked hsegment
        (by omega : pos - start + bytes.length ≤ segment.logicalLen)
      rw [hstart, show start + (pos - start) = pos by omega] at hslice
      show bytes = slice (ofSegments segments).content pos bytes.length
      rw [ofSegments_content, hslice]
      exact heq
    · intro _ hbuf
      exact hprogress (by omega)

/-- The reader answers like the volumes one behind the other, when no search ends at an empty volume. -/
theorem answers_flat (hbacked : ∀ segment ∈ segments, segment.Backed)
    (hsum : (segments.map Segment.logicalLen).sum < 2 ^ 64) (hsearch : Finds search)
    (hfull : ∀ pos i, pos < (segments.map Segment.logicalLen).sum →
      search (starts 0 (segments.map Segment.logicalLen)) pos = .ok i → (segments.map Segment.logicalLen)[i]? ≠ some 0)
    (calls : List (Call Nat)) :
    (ofSegments segments).flat.Answers u64Max 0 calls ((stream search).answers (ofSegments segments) calls) := by
  refine Flat.answers_of_steps (At (ofSegments segments)) ?_ ?_ ?_ calls
  · intro s pos whence h
    have hcall := seek_flat hbacked hsum h whence
    simp only [stream]
    cases hs : seek s whence with
    | ok result =>
      rw [hs] at hcall
      exact hcall
    | error e =>
      rw [hs] at hcall
      exact hcall
  · intro s pos bufLen pick h
    obtain ⟨bytes, s', hread, hreads, hat⟩ := read_flat hbacked hsum hsearch hfull h bufLen pick
    simp only [stream, hread]
    exact ⟨hreads, hat⟩
  · rw [At, ← ofSegments_pos segments]

/-- Where only empty volumes follow an empty one, no search for a position before the end finds an empty volume. -/
theorem full_of_trailing {lens : List Nat} (htrailing : lens.Pairwise fun a b => a = 0 → b = 0) (hsearch : Finds search)
    {pos i : Nat} (hpos : pos < lens.sum) (hfound : search (starts 0 lens) pos = .ok i) : lens[i]? ≠ some 0 := by
  intro hempty
  have hi := hsearch.found _ _ _ (starts_sorted 0 lens) hfound
  obtain ⟨hlt, hget⟩ := List.getElem?_eq_some_iff.1 hempty
  rw [getElem?_starts 0 hlt, Nat.zero_add] at hi
  have hrest : (lens.drop i).sum = 0 := by
    rw [List.drop_eq_getElem_cons hlt, List.sum_cons, hget, Nat.zero_add]
    refine List.sum_eq_zero fun len hlen => ?_
    obtain ⟨j, hj, rfl⟩ := List.getElem_of_mem hlen
    rw [List.getElem_drop]
    exact List.pairwise_iff_getElem.1 htrailing i _ hlt _ (by omega) hget
  have hsum : lens.sum = (lens.take i).sum + (lens.drop i).sum := by
    rw [← List.sum_append, List.take_append_drop]
  have := Option.some.inj hi
  omega

/-- A search that stops at the last place of a value never ends at an empty volume either. -/
theorem full_of_last {lens : List Nat} (hsearch : Finds search)
    (hlast : ∀ (l : List Nat) (x i j : Nat), search l x = .ok i → i < j → l[j]? ≠ some x)
    {pos i : Nat} (hpos : pos < lens.sum) (hfound : search (starts 0 lens) pos = .ok i) : lens[i]? ≠ some 0 := by
  intro hempty
  have hi := hsearch.found _ _ _ (starts_sorted 0 lens) hfound
  have hend := sum_take_succ hempty
  obtain ⟨hlt, -⟩ := List.getElem?_eq_some_iff.1 hempty
  rw [getElem?_starts 0 hlt, Nat.zero_add] at hi
  have hi := Option.some.inj hi
  by_cases hnext : i + 1 < lens.length
  · refine hlast _ _ _ _ hfound (Nat.lt_succ_self i) ?_
    rw [getElem?_starts 0 hnext, Nat.zero_add, hend, Nat.add_zero, hi]
  · rw [List.take_of_length_le (by omega)] at hend
    omega

/-! ## Searches -/

/-- A search that stops at the first place of a value. -/
def firstPlace (l : List Nat) (x : Nat) : Except Nat Nat :=
  if x ∈ l then .ok (l.idxOf x) else .error (l.countP (· < x))

theorem lt_countP_iff {l : List Nat} (hsorted : l.Pairwise (· ≤ ·)) {x j y : Nat} (hj : l[j]? = some y) :
    j < l.countP (· < x) ↔ y < x := by
  induction l generalizing j with
  | nil => cases hj
  | cons a l ih =>
    rw [List.pairwise_cons] at hsorted
    rw [List.countP_cons]
    by_cases ha : a < x
    · rw [if_pos (decide_eq_true ha)]
      cases j with
      | zero =>
        cases hj
        exact ⟨fun _ => ha, fun _ => Nat.succ_pos _⟩
      | succ j => exact Nat.succ_lt_succ_iff.trans (ih hsorted.2 hj)
    · have hzero : l.countP (· < x) = 0 := by
        rw [List.countP_eq_zero]
        intro b hb
        have := hsorted.1 b hb
        simp only [decide_eq_true_eq]
        omega
      have hy : ¬ y < x := by
        cases j with
        | zero =>
          cases hj
          exact ha
        | succ j =>
          have := hsorted.1 y (List.mem_of_getElem? hj)
          omega
      rw [if_neg (fun h => ha (of_decide_eq_true h)), hzero]
      exact ⟨fun h => absurd h (Nat.not_lt_zero _), fun h => absurd h hy⟩

theorem firstPlace_finds : Finds firstPlace := by
  constructor
  · intro l x i hsorted h
    unfold firstPlace at h
    split at h
    · rename_i hx
      cases h
      exact List.getElem?_idxOf hx
    · cases h
  · intro l x i hsorted h
    unfold firstPlace at h
    split at h
    · cases h
    · rename_i hx
      cases h
      refine ⟨List.countP_le_length, fun j y hj hy => (lt_countP_iff hsorted hy).1 hj, fun j y hj hy => ?_⟩
      have hle : ¬ y < x := fun hlt => absurd ((lt_countP_iff hsorted hy).2 hlt) (Nat.not_lt.2 hj)
      have hne : y ≠ x := fun heq => hx (heq ▸ List.mem_of_getElem? hy)
      omega

/-- A search that stops at a given place in one list, which may be any place of the value. -/
def stopsAt (places : List Nat) (place : Nat) (l : List Nat) (x : Nat) : Except Nat Nat :=
  if l = places ∧ places[place]? = some x then .ok place else firstPlace l x

theorem stopsAt_finds (places : List Nat) (place : Nat) : Finds (stopsAt places place) := by
  constructor
  · intro l x i hsorted h
    unfold stopsAt at h
    split at h
    · rename_i hstop
      cases h
      exact hstop.1 ▸ hstop.2
    · exact firstPlace_finds.found l x i hsorted h
  · intro l x i hsorted h
    unfold stopsAt at h
    split at h
    · cases h
    · exact firstPlace_finds.absent l x i hsorted h

/-! ## Every search -/

theorem sum_take_mono (lens : List Nat) {i j : Nat} (h : i ≤ j) : (lens.take i).sum ≤ (lens.take j).sum := by
  have := sum_take_le (lens.take j) i
  rwa [List.take_take, Nat.min_eq_left h] at this

/-- A stream that is longer than a `u64` is not answered for: its end cannot be sought. -/
theorem sum_lt_of_answers (hbacked : ∀ segment ∈ segments, segment.Backed)
    (h : ∀ calls : List (Call Nat), (ofSegments segments).flat.Answers u64Max 0 calls
      ((stream search).answers (ofSegments segments) calls)) : (segments.map Segment.logicalLen).sum < 2 ^ 64 := by
  have hlen : (ofSegments segments).flat.content.length = (segments.map Segment.logicalLen).sum := length_content hbacked
  have htotal : (ofSegments segments).total < 2 ^ 64 := by
    rw [ofSegments_total]
    exact Nat.mod_lt _ (by decide)
  have hseek : seek (ofSegments segments) (.fromEnd 0) =
      .ok ((ofSegments segments).total, { ofSegments segments with pos := (ofSegments segments).total }) := by
    have htarget : (SeekFrom.fromEnd 0).target (ofSegments segments).total (ofSegments segments).pos =
        ((ofSegments segments).total : Int) := Int.add_zero _
    rw [seek, htarget, if_neg (by unfold u64Max; omega)]
    rfl
  have hanswers := h [.seek (.fromEnd 0)]
  simp only [StreamReader.answers, stream, hseek] at hanswers
  cases hanswers with
  | sought htarget hle hrest =>
    have : ((ofSegments segments).flat.content.length : Int) + 0 = (ofSegments segments).total := htarget
    rw [hlen] at this
    omega

/-- A search may end at an empty volume that a longer one follows. -/
theorem trailing_of_answers (hbacked : ∀ segment ∈ segments, segment.Backed)
    (hsum : (segments.map Segment.logicalLen).sum < 2 ^ 64)
    (h : ∀ search, Finds search → ∀ calls : List (Call Nat), (ofSegments segments).flat.Answers u64Max 0 calls
      ((stream search).answers (ofSegments segments) calls)) :
    (segments.map Segment.logicalLen).Pairwise fun a b => a = 0 → b = 0 := by
  by_contra hnot
  obtain ⟨i, j, hi, hj, hij, hempty, hfull⟩ : ∃ i j, ∃ (hi : i < (segments.map Segment.logicalLen).length)
      (hj : j < (segments.map Segment.logicalLen).length), i < j ∧ (segments.map Segment.logicalLen)[i] = 0 ∧
        (segments.map Segment.logicalLen)[j] ≠ 0 := by
    by_contra hno
    refine hnot (List.pairwise_iff_getElem.2 fun i j hi hj hij hempty => ?_)
    by_contra hfull
    exact hno ⟨i, j, hi, hj, hij, hempty, hfull⟩
  obtain ⟨place, hplace⟩ : ∃ place, ((segments.map Segment.logicalLen).take i).sum = place := ⟨_, rfl⟩
  have hlt : place < (segments.map Segment.logicalLen).sum := by
    have hend := sum_take_succ (List.getElem?_eq_getElem hj)
    have hmono := sum_take_mono (segments.map Segment.logicalLen) (Nat.le_of_lt hij)
    have hle := sum_take_le (segments.map Segment.logicalLen) (j + 1)
    omega
  have hbegin : (starts 0 (segments.map Segment.logicalLen))[i]? = some place := by
    rw [getElem?_starts 0 hi, Nat.zero_add, hplace]
  have htotal : (ofSegments segments).total = (segments.map Segment.logicalLen).sum := by
    rw [ofSegments_total, Nat.mod_eq_of_lt hsum]
  have hsegment := List.getElem?_eq_getElem (by rwa [List.length_map] at hi : i < segments.length)
  obtain ⟨segment, hget⟩ : ∃ segment, segments[i]? = some segment := ⟨_, hsegment⟩
  have hnone : segment.logicalLen = 0 := by
    have hmap : (segments.map Segment.logicalLen)[i]? = some segment.logicalLen := by rw [List.getElem?_map, hget]; rfl
    exact Option.some.inj (hmap.symm.trans (List.getElem?_eq_getElem hi)) |>.trans hempty
  have hseek : seek (ofSegments segments) (.start place) = .ok (place, { ofSegments segments with pos := place }) := by
    have htarget : (SeekFrom.start place).target (ofSegments segments).total (ofSegments segments).pos = (place : Int) := rfl
    rw [seek, htarget, if_neg (by unfold u64Max; omega)]
    rfl
  have hread : read (stopsAt (starts 0 (segments.map Segment.logicalLen)) i) { ofSegments segments with pos := place } 1 0 =
      .ok ([], { ofSegments segments with pos := place }) := by
    have hindex : partIndex (stopsAt (starts 0 (segments.map Segment.logicalLen)) i)
        { ofSegments segments with pos := place } = i := by
      rw [partIndex, ofSegments_offsets hsum, stopsAt, if_pos ⟨rfl, hbegin⟩, foundPart]
    rw [read, if_neg (by dsimp only; omega)]
    dsimp only
    rw [hindex, ofSegments_parts, ofSegments_offsets hsum, ofSegments_dataOffsets, ofSegments_logicalLens,
      List.getElem?_map, List.getElem?_map, List.getElem?_map, hget, hbegin]
    dsimp only [Option.map_some]
    have hzero : min 1 ((segment.logicalLen + 2 ^ 64 - (place - place)) % 2 ^ 64) = 0 := by
      rw [hnone, Nat.sub_self]
      rfl
    rw [hzero]
    have hpart : ∀ offset, readPart segment.part offset 0 0 = .ok [] := by
      intro offset
      cases segment.part with
      | file content => exact congrArg Except.ok (slice_zero _ _)
      | missingZero => rfl
      | reconstructed reader => rfl
    rw [hpart]
    rfl
  have hanswers := h _ (stopsAt_finds (starts 0 (segments.map Segment.logicalLen)) i) [.seek (.start place), .read 1 0]
  simp only [StreamReader.answers, stream, hseek, hread] at hanswers
  cases hanswers with
  | sought htarget hle hrest =>
    cases hrest with
    | read hreads _ => exact hreads.progress (by rw [flat, length_content hbacked]; exact hlt) Nat.one_pos rfl

/-- The reader of some segments answers like the segments one behind the other, with every search, exactly if they fit a
`u64` and no empty one stands before one that is not. -/
theorem answers_flat_iff (hbacked : ∀ segment ∈ segments, segment.Backed) :
    (∀ search, Finds search → ∀ calls : List (Call Nat), (ofSegments segments).flat.Answers u64Max 0 calls
      ((stream search).answers (ofSegments segments) calls)) ↔
      (segments.map Segment.logicalLen).sum < 2 ^ 64 ∧
        (segments.map Segment.logicalLen).Pairwise fun a b => a = 0 → b = 0 := by
  constructor
  · intro h
    have hsum := sum_lt_of_answers hbacked (h firstPlace firstPlace_finds)
    exact ⟨hsum, trailing_of_answers hbacked hsum h⟩
  · rintro ⟨hsum, htrailing⟩ search hsearch calls
    exact answers_flat hbacked hsum hsearch (fun _ _ hpos hfound => full_of_trailing htrailing hsearch hpos hfound) calls

end Stream

end MultiVolumeReader

end Squallz.Volumes
