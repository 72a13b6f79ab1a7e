/-
What the parity files of a split archive hold: behind its header, each has the sum of the volumes in the field with 256
elements, with the weights of its kind.
-/
import Mathlib.Data.List.GetD
import Squallz.Erasure.Parity
import Squallz.Volumes.Outputs

namespace Squallz.Volumes

open Squallz.Api Squallz.Bytes Squallz.Destination Squallz.Erasure

/-! ## Bytes as field elements -/

/-- The byte at a place, as a field element. Behind the last byte there are zeros. -/
def byteAt (bytes : List UInt8) (j : Nat) : Gf256 := ⟨bytes.getD j 0⟩

instance : CharP Gf256 2 :=
  CharTwo.of_one_ne_zero_of_two_eq_zero one_ne_zero (by rw [← one_add_one_eq_two, Gf256.add_self])

theorem byteAt_nil (j : Nat) : byteAt [] j = 0 := rfl

theorem byteAt_append_right {front : List UInt8} {n : Nat} (h : front.length = n) (rest : List UInt8) (j : Nat) :
    byteAt (front ++ rest) (n + j) = byteAt rest j := by
  unfold byteAt
  rw [List.getD_eq_getElem?_getD, List.getD_eq_getElem?_getD, List.getElem?_append_right (by omega), h, Nat.add_sub_cancel_left]

theorem byteAt_drop (bytes : List UInt8) (n j : Nat) : byteAt (bytes.drop n) j = byteAt bytes (n + j) := by
  unfold byteAt
  rw [List.getD_eq_getElem?_getD, List.getElem?_drop, ← List.getD_eq_getElem?_getD]

theorem byteAt_replicate (n j : Nat) : byteAt (List.replicate n 0) j = 0 := by
  unfold byteAt
  rw [List.getD_eq_getElem?_getD, List.getElem?_replicate]
  split <;> rfl

/-- The bytes in front and the bytes behind, each where it stands. -/
theorem byteAt_take_add_drop (bytes : List UInt8) (n j : Nat) :
    byteAt (bytes.take n) j + (if j < n then 0 else byteAt (bytes.drop n) (j - n)) = byteAt bytes j := by
  by_cases hj : j < n
  · rw [if_pos hj, add_zero]
    unfold byteAt
    rw [List.getD_eq_getElem?_getD, List.getElem?_take_of_lt hj, ← List.getD_eq_getElem?_getD]
  · rw [if_neg hj, byteAt_drop, Nat.add_sub_cancel' (Nat.le_of_not_lt hj)]
    have hnone : byteAt (bytes.take n) j = 0 := by
      unfold byteAt
      rw [List.getD_eq_getElem?_getD, List.getElem?_eq_none (by rw [List.length_take]; omega)]
      rfl
    rw [hnone, zero_add]

theorem ext_byteAt {a b : List UInt8} (hlen : a.length = b.length) (h : ∀ j < a.length, byteAt a j = byteAt b j) : a = b := by
  refine List.ext_getElem hlen fun j ha hb => ?_
  have hbyte := congrArg Gf256.byte (h j ha)
  unfold byteAt at hbyte
  dsimp only at hbyte
  rwa [List.getD_eq_getElem a 0 ha, List.getD_eq_getElem b 0 hb] at hbyte

/-! ## One parity file -/

/-- The weight of a volume in the second parity file. -/
def coeffAt (index : Nat) : Gf256 := ⟨UInt8.ofNat index⟩

theorem sqzrWeightedCoeff_eq_ok {index : Nat} {coeff : UInt8} (h : sqzrWeightedCoeff index = .ok coeff) :
    coeff = (coeffAt index).byte := by
  unfold sqzrWeightedCoeff at h
  split at h
  · cases h
  · cases h
    rfl

/-- What is added to a parity file stands behind its header. -/
theorem byteAt_addParity {weight : UInt8 → UInt8} {w : Gf256} (hweight : ∀ byte, (⟨weight byte⟩ : Gf256) = w * ⟨byte⟩)
    {file file' bytes : List UInt8} {offset : Nat} (h : addParity weight file offset bytes = .ok file') (j : Nat) :
    byteAt file' (sqzrHeaderLen + j) =
      byteAt file (sqzrHeaderLen + j) + w * (if j < offset then 0 else byteAt bytes (j - offset)) := by
  unfold addParity at h
  split at h
  · rename_i hnil
    cases h
    rw [hnil, byteAt_nil, ite_self, mul_zero, add_zero]
  · dsimp only at h
    split at h
    · cases h
    · rename_i hlen
      cases h
      rw [Nat.not_lt] at hlen
      have htake : (file.take (sqzrHeaderLen + offset)).length = sqzrHeaderLen + offset := by
        rw [List.length_take]
        omega
      have hzip : (List.zipWith (fun dst src => dst ^^^ weight src) (slice file (sqzrHeaderLen + offset) bytes.length)
          bytes).length = bytes.length := by
        rw [List.length_zipWith, length_slice_of_le hlen, Nat.min_self]
      by_cases hfront : j < offset
      · rw [if_pos hfront, mul_zero, add_zero]
        unfold byteAt
        rw [List.getD_eq_getElem?_getD, List.getElem?_append_left (by omega), List.getElem?_take_of_lt (by omega),
          ← List.getD_eq_getElem?_getD]
      · obtain ⟨k, rfl⟩ := Nat.exists_eq_add_of_le (Nat.le_of_not_lt hfront)
        rw [if_neg hfront, Nat.add_sub_cancel_left, ← Nat.add_assoc, byteAt_append_right htake]
        by_cases hinside : k < bytes.length
        · refine Gf256.ext_byte ?_
          have hw := congrArg Gf256.byte (hweight bytes[k])
          have hin : sqzrHeaderLen + offset + k < file.length := by omega
          unfold byteAt
          rw [Gf256.byte_add, Gf256.byte_mul, List.getD_eq_getElem?_getD, List.getElem?_append_left (by omega),
            List.getElem?_zipWith, getElem?_slice, if_pos hinside, List.getElem?_eq_getElem hin,
            List.getElem?_eq_getElem hinside, List.getD_eq_getElem _ _ hin, List.getD_eq_getElem _ _ hinside]
          exact congrArg (file[sqzrHeaderLen + offset + k] ^^^ ·) hw
        · obtain ⟨i, rfl⟩ := Nat.exists_eq_add_of_le (Nat.le_of_not_lt hinside)
          have hnone : byteAt bytes (bytes.length + i) = 0 := by
            unfold byteAt
            rw [List.getD_eq_getElem?_getD, List.getElem?_eq_none (Nat.le_add_right _ _)]
            rfl
          rw [byteAt_append_right hzip, byteAt_drop, hnone, mul_zero, add_zero, Nat.add_assoc (sqzrHeaderLen + offset)]

/-- A parity file that is there afterwards was there before, and has a term more at every place. -/
def Gains (before after : Option (List UInt8)) (term : Nat → Gf256) : Prop :=
  ∀ file', after = some file' → ∃ file, before = some file ∧
    ∀ j, byteAt file' (sqzrHeaderLen + j) = byteAt file (sqzrHeaderLen + j) + term j

theorem Gains.refl (o : Option (List UInt8)) : Gains o o fun _ => 0 :=
  fun file hfile => ⟨file, hfile, fun _ => (add_zero _).symm⟩

theorem Gains.trans {o o' o'' : Option (List UInt8)} {term term' : Nat → Gf256} (h : Gains o o' term) (h' : Gains o' o'' term') :
    Gains o o'' fun j => term j + term' j := by
  intro file'' hfile''
  obtain ⟨file', hfile', hterm'⟩ := h' file'' hfile''
  obtain ⟨file, hfile, hterm⟩ := h file' hfile'
  refine ⟨file, hfile, fun j => ?_⟩
  rw [hterm' j, hterm j, add_assoc]

theorem Gains.congr {o o' : Option (List UInt8)} {term term' : Nat → Gf256} (h : Gains o o' term)
    (hterm : ∀ j, term j = term' j) : Gains o o' term' := by
  intro file' hfile'
  obtain ⟨file, hfile, hadded⟩ := h file' hfile'
  exact ⟨file, hfile, fun j => (hadded j).trans (congrArg _ (hterm j))⟩

theorem gains_mapM {f : List UInt8 → Res (List UInt8)} {o o' : Option (List UInt8)} {term : Nat → Gf256}
    (hf : ∀ file file', f file = .ok file' →
      ∀ j, byteAt file' (sqzrHeaderLen + j) = byteAt file (sqzrHeaderLen + j) + term j)
    (h : o.mapM f = .ok o') : Gains o o' term := by
  intro file' hfile'
  cases o with
  | none =>
    cases h
    cases hfile'
  | some file =>
    obtain ⟨after, hafter, h⟩ := bind_eq_ok.1 h
    cases h
    cases hfile'
    exact ⟨file, rfl, hf file _ hafter⟩

/-! ## The three parity files -/

/-- The weights of the three parity files. -/
def weightOne (_ : Nat) : Gf256 := 1

def weightSquare (index : Nat) : Gf256 := coeffAt index * coeffAt index

/-- Every parity file gains the sum of some volumes with the weights of its kind. -/
structure ParityFiles.Gains (files files' : ParityFiles) (x : Nat → Nat → Gf256) (indexes : List Nat) : Prop where
  single : Volumes.Gains files.parity files'.parity fun j => weightedSum weightOne (x · j) indexes
  weighted : Volumes.Gains files.weighted files'.weighted fun j => weightedSum coeffAt (x · j) indexes
  quadratic : Volumes.Gains files.quadratic files'.quadratic fun j => weightedSum weightSquare (x · j) indexes

namespace ParityFiles

variable {files files' files'' : ParityFiles} {x y : Nat → Nat → Gf256} {indexes : List Nat} {index : Nat}

theorem Gains.refl (files : ParityFiles) (x : Nat → Nat → Gf256) : files.Gains files x [] :=
  ⟨.refl _, .refl _, .refl _⟩

theorem Gains.cons (h : files.Gains files' x [index]) (h' : files'.Gains files'' x indexes) :
    files.Gains files'' x (index :: indexes) := by
  constructor
  · refine (h.single.trans h'.single).congr fun j => ?_
    rw [weightedSum_cons, weightedSum_nil, add_zero, weightedSum_cons]
  · refine (h.weighted.trans h'.weighted).congr fun j => ?_
    rw [weightedSum_cons, weightedSum_nil, add_zero, weightedSum_cons]
  · refine (h.quadratic.trans h'.quadratic).congr fun j => ?_
    rw [weightedSum_cons, weightedSum_nil, add_zero, weightedSum_cons]

theorem Gains.congr (h : files.Gains files' x indexes) (hxy : ∀ i ∈ indexes, ∀ j, x i j = y i j) :
    files.Gains files' y indexes where
  single := h.single.congr fun j => weightedSum_congr (fun _ _ => rfl) fun i hi => hxy i hi j
  weighted := h.weighted.congr fun j => weightedSum_congr (fun _ _ => rfl) fun i hi => hxy i hi j
  quadratic := h.quadratic.congr fun j => weightedSum_congr (fun _ _ => rfl) fun i hi => hxy i hi j

/-- The bytes of a volume enter in two pieces. -/
theorem Gains.join {z : Nat → Nat → Gf256} (h : files.Gains files' x [index]) (h' : files'.Gains files'' y [index])
    (hz : ∀ j, z index j = x index j + y index j) : files.Gains files'' z [index] := by
  constructor
  · refine (h.single.trans h'.single).congr fun j => ?_
    simp only [weightedSum_cons, weightedSum_nil, add_zero, hz, mul_add]
  · refine (h.weighted.trans h'.weighted).congr fun j => ?_
    simp only [weightedSum_cons, weightedSum_nil, add_zero, hz, mul_add]
  · refine (h.quadratic.trans h'.quadratic).congr fun j => ?_
    simp only [weightedSum_cons, weightedSum_nil, add_zero, hz, mul_add]

theorem gains_add {offset : Nat} {bytes : List UInt8} (h : files.add index offset bytes = .ok files') :
    files.Gains files' (fun _ j => if j < offset then 0 else byteAt bytes (j - offset)) [index] := by
  have hempty : bytes = [] → ∀ (w : Gf256) (j : Nat), w * (if j < offset then 0 else byteAt bytes (j - offset)) = 0 := by
    rintro rfl w j
    rw [byteAt_nil, ite_self, mul_zero]
  unfold add at h
  obtain ⟨single, hsingle, h⟩ := bind_eq_ok.1 h
  obtain ⟨weighted, hweighted, h⟩ := bind_eq_ok.1 h
  obtain ⟨quadratic, hquadratic, h⟩ := bind_eq_ok.1 h
  cases h
  constructor
  · refine gains_mapM (fun file file' h j => ?_) hsingle
    rw [weightedSum_cons, weightedSum_nil, add_zero]
    exact byteAt_addParity (fun byte => (one_mul _).symm) h j
  · refine gains_mapM (fun file file' h j => ?_) hweighted
    rw [weightedSum_cons, weightedSum_nil, add_zero]
    unfold weightedSqzrParity at h
    split at h
    · rename_i hnil
      cases h
      rw [hempty hnil, add_zero]
    · obtain ⟨coeff, hcoeff, h⟩ := bind_eq_ok.1 h
      rw [sqzrWeightedCoeff_eq_ok hcoeff] at h
      exact byteAt_addParity (fun byte => rfl) h j
  · refine gains_mapM (fun file file' h j => ?_) hquadratic
    rw [weightedSum_cons, weightedSum_nil, add_zero]
    unfold quadraticSqzrParity at h
    split at h
    · rename_i hnil
      cases h
      rw [hempty hnil, add_zero]
    · obtain ⟨coeff, hcoeff, h⟩ := bind_eq_ok.1 h
      unfold sqzrQuadraticCoeff at hcoeff
      obtain ⟨c, hc, hcoeff⟩ := bind_eq_ok.1 hcoeff
      cases hcoeff
      rw [sqzrWeightedCoeff_eq_ok hc] at h
      exact byteAt_addParity (w := weightSquare index) (fun byte => rfl) h j

end ParityFiles

/-! ## The volumes -/

section Volumes

variable {layout : SplitLayout} {uuid : Option Uuid} {archive : List UInt8} {files files' : ParityFiles}

/-- A volume enters the parity files with its header and its data. -/
theorem writeVolume_gains {index : Nat} {content : List UInt8}
    (h : writeVolume layout uuid archive files index = .ok (content, files')) :
    files.Gains files' (fun _ j => byteAt content j) [index] := by
  rw [writeVolume_eq] at h
  obtain ⟨content', hcontent, h⟩ := bind_eq_ok.1 h
  obtain ⟨headed, hheaded, h⟩ := bind_eq_ok.1 h
  obtain ⟨written, hwritten, h⟩ := bind_eq_ok.1 h
  cases h
  have hdata := ParityFiles.gains_add hwritten
  unfold headedFiles at hheaded
  split at hheaded
  · refine (ParityFiles.gains_add hheaded).join hdata fun j => ?_
    rw [if_neg (Nat.not_lt_zero j), Nat.sub_zero, byteAt_take_add_drop]
  · rename_i hsqzv
    cases hheaded
    have hlen : layout.headerLen = 0 := if_neg hsqzv
    rw [hlen, List.drop_zero] at hdata
    exact hdata

/-- Every parity file gains the volumes that are written, each with its weight. -/
theorem writeVolumes_gains {index rounds : Nat} {contents : List (List UInt8)}
    (h : writeVolumes layout uuid archive files index rounds = .ok (contents, files')) (x : Nat → Nat → Gf256)
    (hx : ∀ (k : Nat) (content : List UInt8), contents[k]? = some content → ∀ j, x (index + k) j = byteAt content j) :
    files.Gains files' x (List.range' index rounds) := by
  induction rounds generalizing files index contents with
  | zero =>
    cases h
    exact .refl _ _
  | succ rounds ih =>
    rw [writeVolumes] at h
    obtain ⟨⟨content, written⟩, hfirst, h⟩ := bind_eq_ok.1 h
    obtain ⟨⟨rest, last⟩, hrest, h⟩ := bind_eq_ok.1 h
    cases h
    have hvolume : files.Gains written x [index] := (writeVolume_gains hfirst).congr fun i hi j => by
      rw [List.mem_singleton.1 hi]
      exact (hx 0 content rfl j).symm
    rw [List.range'_succ]
    refine hvolume.cons (ih hrest fun k content' hk j => ?_)
    rw [Nat.add_assoc, Nat.add_comm 1 k]
    exact hx (k + 1) content' hk j

end Volumes

/-- A byte of a volume of the set. -/
def volumeByte (contents : List (List UInt8)) (index j : Nat) : Gf256 := byteAt (contents.getD (index - 1) []) j

/-- Behind their headers, the parity files hold the sums of all the volumes. -/
structure ParityFiles.Sums (files : ParityFiles) (contents : List (List UInt8)) (count : Nat) : Prop where
  single : ∀ file, files.parity = some file →
    ∀ j, byteAt file (sqzrHeaderLen + j) = weightedSum weightOne (volumeByte contents · j) (List.range' 1 count)
  weighted : ∀ file, files.weighted = some file →
    ∀ j, byteAt file (sqzrHeaderLen + j) = weightedSum coeffAt (volumeByte contents · j) (List.range' 1 count)
  quadratic : ∀ file, files.quadratic = some file →
    ∀ j, byteAt file (sqzrHeaderLen + j) = weightedSum weightSquare (volumeByte contents · j) (List.range' 1 count)

theorem finishParity_gains {layout : SplitLayout} {uuid : Option Uuid} {volumeSize tailPhysicalLen algorithm : Nat}
    {target : String} {o o' : Option (List UInt8)}
    (h : o.mapM (finishParity layout uuid volumeSize tailPhysicalLen algorithm target) = .ok o') :
    Gains o o' fun _ => 0 := by
  refine gains_mapM (fun file file' hfinish j => ?_) h
  unfold finishParity at hfinish
  cases uuid with
  | none => cases hfinish
  | some uuid =>
    obtain ⟨header, hheader, hfinish⟩ := bind_eq_ok.1 hfinish
    cases hfinish
    rw [byteAt_append_right (length_sqzrHeader hheader), byteAt_drop, add_zero]

/-- A parity file begins with zeros. -/
theorem reserved_gains {volumeSize : Nat} {written : Bool} {o : Option (List UInt8)} {term : Nat → Gf256}
    (h : Gains (if written then some (emptyParity volumeSize) else none) o term) (file : List UInt8) (hfile : o = some file)
    (j : Nat) : byteAt file (sqzrHeaderLen + j) = term j := by
  obtain ⟨start, hstart, hgains⟩ := h file hfile
  cases written with
  | false => cases hstart
  | true =>
    cases hstart
    rw [hgains j, emptyParity, byteAt_replicate, zero_add]

theorem Written.sums {base : Path} {volumeSize : Nat} {layout : SplitLayout} {uuid : Option Uuid} {archive : List UInt8}
    {contents : List (List UInt8)} {files : ParityFiles}
    (h : Written base volumeSize layout uuid archive contents files) : files.Sums contents layout.count := by
  obtain ⟨written, hwritten, hfinished⟩ := h.rounds
  have hgains := writeVolumes_gains hwritten (volumeByte contents) fun k content hk j => by
    rw [volumeByte, Nat.add_sub_cancel_left, List.getD_eq_getElem?_getD, hk, Option.getD_some]
  unfold finishedFiles at hfinished
  obtain ⟨single, hsingle, hfinished⟩ := bind_eq_ok.1 hfinished
  obtain ⟨weighted, hweighted, hfinished⟩ := bind_eq_ok.1 hfinished
  obtain ⟨quadratic, hquadratic, hfinished⟩ := bind_eq_ok.1 hfinished
  cases hfinished
  constructor
  · exact reserved_gains ((hgains.single.trans (finishParity_gains hsingle)).congr fun j => add_zero _)
  · exact reserved_gains ((hgains.weighted.trans (finishParity_gains hweighted)).congr fun j => add_zero _)
  · exact reserved_gains ((hgains.quadratic.trans (finishParity_gains hquadratic)).congr fun j => add_zero _)

end Squallz.Volumes
