/-
What the scan for local headers finds: entries that stand one behind the other are found where they stand, whichever
way their sizes are recorded, and the scan of any bytes ends.
-/
import Squallz.Zip.LocalHeaders

namespace Squallz.Zip

open Squallz.Api Squallz.Bytes

/-! ## Searches -/

section Search

variable {ε α β : Type} {f : α → Except ε (Option β)}

theorem findSomeM?_none {l : List α} (h : ∀ a ∈ l, f a = .ok none) : l.findSomeM? f = .ok none := by
  induction l with
  | nil => rfl
  | cons a l ih =>
    rw [List.findSomeM?_cons, h a List.mem_cons_self]
    exact ih fun b hb => h b (List.mem_cons_of_mem a hb)

theorem findSomeM?_append {l l' : List α} (h : ∀ a ∈ l, f a = .ok none) : (l ++ l').findSomeM? f = l'.findSomeM? f := by
  induction l with
  | nil => rfl
  | cons a l ih =>
    rw [List.cons_append, List.findSomeM?_cons, h a List.mem_cons_self]
    exact ih fun b hb => h b (List.mem_cons_of_mem a hb)

theorem findSomeM?_cons_some {a : α} {l : List α} {b : β} (h : f a = .ok (some b)) :
    (a :: l).findSomeM? f = .ok (some b) := by
  rw [List.findSomeM?_cons, h]
  rfl

/-- What a search finds is found at an element. -/
theorem mem_of_findSomeM? {l : List α} {b : β} (h : l.findSomeM? f = .ok (some b)) : ∃ a ∈ l, f a = .ok (some b) := by
  induction l with
  | nil => cases h
  | cons a l ih =>
    rw [List.findSomeM?_cons, bind_eq_ok] at h
    obtain ⟨found, hfound, h⟩ := h
    cases found with
    | some c =>
      cases h
      exact ⟨a, List.mem_cons_self, hfound⟩
    | none =>
      obtain ⟨a', ha', h'⟩ := ih h
      exact ⟨a', List.mem_cons_of_mem a ha', h'⟩

end Search

theorem mem_positions {file : List UInt8} {start width offset : Nat} :
    offset ∈ positions file start width ↔ start ≤ offset ∧ offset + width ≤ file.length := by
  rw [positions, List.mem_range'_1]
  omega

/-- A search through positions that finds nothing before its target. -/
theorem search_positions {β : Type} {file : List UInt8} {start width : Nat} {f : Nat → Res (Option β)} {b : β}
    (target : Nat) (hstart : start ≤ target) (hroom : target + width ≤ file.length)
    (hbefore : ∀ offset, start ≤ offset → offset < target → f offset = .ok none) (htarget : f target = .ok (some b)) :
    (positions file start width).findSomeM? f = .ok (some b) := by
  have hcount : file.length + 1 - (start + width) = (target - start) + (file.length - (target + width) + 1) := by omega
  have hsplit : positions file start width =
      List.range' start (target - start) ++ target :: List.range' (target + 1) (file.length - (target + width)) := by
    rw [positions, hcount, ← List.range'_append_1, List.range'_succ, Nat.add_sub_cancel' hstart]
  rw [hsplit, findSomeM?_append]
  · exact findSomeM?_cons_some htarget
  · intro offset hoffset
    rw [List.mem_range'_1] at hoffset
    exact hbefore offset hoffset.1 (by omega)

theorem descriptorField_eq {width start stop : Nat} {fields : List UInt8} {field : String}
    (hstop : stop ≤ fields.length) (hwidth : stop = start + width) :
    descriptorField width fields start stop field = .ok (leNat (slice fields start width)) := by
  have hcount : stop - start = width := by omega
  unfold descriptorField
  rw [if_neg (by omega), hcount]
  dsimp only
  rw [length_slice_of_le (by omega), if_neg (by omega)]

/-! ## Descriptors -/

/-- The width of the sizes of a descriptor. -/
def sizeWidth (zip64 : Bool) : Nat := if zip64 then 8 else 4

theorem descriptorLen_eq (zip64 : Bool) : descriptorLen zip64 = 4 + sizeWidth zip64 + sizeWidth zip64 := by
  cases zip64 <;> rfl

theorem sizeWidth_le (zip64 : Bool) : 4 ≤ sizeWidth zip64 ∧ sizeWidth zip64 ≤ 8 := by
  cases zip64 <;> decide

/-- The fields that stand at an offset. -/
def fieldsAt (file : List UInt8) (zip64 : Bool) (offset : Nat) : Descriptor :=
  ⟨leNat (slice file offset 4), leNat (slice file (offset + 4) (sizeWidth zip64)),
    leNat (slice file (offset + 4 + sizeWidth zip64) (sizeWidth zip64))⟩

theorem parseDataDescriptorFields_eq {fields : List UInt8} {zip64 : Bool} (h : fields.length = descriptorLen zip64) :
    parseDataDescriptorFields fields zip64 = .ok (fieldsAt fields zip64 0) := by
  unfold parseDataDescriptorFields
  cases zip64 with
  | true =>
    rw [descriptorU32, descriptorField_eq (by rw [h]; decide) rfl, ok_bind, if_pos rfl, descriptorU64,
      descriptorField_eq (by rw [h]; decide) rfl, ok_bind, descriptorField_eq (by rw [h]; decide) rfl]
    rfl
  | false =>
    rw [descriptorU32, descriptorField_eq (by rw [h]; decide) rfl, ok_bind, if_neg (by decide),
      descriptorField_eq (by rw [h]; decide) rfl, ok_bind, descriptorField_eq (by rw [h]; decide) rfl]
    rfl

/-- The fields of a slice stand in the whole. -/
theorem fieldsAt_slice {file : List UInt8} {zip64 : Bool} {offset : Nat} :
    fieldsAt (slice file offset (descriptorLen zip64)) zip64 0 = fieldsAt file zip64 offset := by
  have hlen := descriptorLen_eq zip64
  unfold fieldsAt
  rw [slice_slice (by omega), slice_slice (by omega), slice_slice (by omega), Nat.zero_add, Nat.add_zero, Nat.add_assoc]

section Descriptors

variable {file : List UInt8} {dataOffset offset : Nat} {zip64 : Bool}

theorem checkedAddU64_eq_iff {a b c : Nat} (hc : c < 2 ^ 64) : checkedAddU64 a b = some c ↔ a + b = c := by
  rw [checkedAddU64_eq_some]
  omega

theorem readUnsignedDataDescriptor_eq (nextOffset : Nat) (hlen : file.length < 2 ^ 64)
    (hroom : offset + descriptorLen zip64 ≤ file.length) :
    readUnsignedDataDescriptor file dataOffset offset nextOffset zip64 =
      .ok (if dataOffset + (fieldsAt file zip64 offset).compressedSize = offset
        then some (fieldsAt file zip64 offset, nextOffset) else none) := by
  have hread : readExactAt file offset (if zip64 then 20 else 12) = .ok (slice file offset (descriptorLen zip64)) :=
    readExactAt_eq hroom
  rw [readUnsignedDataDescriptor, hread, ok_bind, parseDataDescriptorFields_eq (length_slice_of_le hroom), ok_bind,
    fieldsAt_slice]
  simp only [checkedAddU64_eq_iff (show offset < 2 ^ 64 by omega)]
  split <;> rfl

theorem signedDescriptorAt_eq (hlen : file.length < 2 ^ 64) (hroom : offset + (descriptorLen zip64 + 4) ≤ file.length) :
    signedDescriptorAt file dataOffset zip64 offset =
      .ok (if slice file offset 4 = descriptorSignature ∧
          dataOffset + (fieldsAt file zip64 (offset + 4)).compressedSize = offset
        then some (fieldsAt file zip64 (offset + 4), offset + (descriptorLen zip64 + 4)) else none) := by
  rw [signedDescriptorAt, readExactAt_eq (by omega), ok_bind]
  by_cases hsignature : slice file offset 4 = descriptorSignature
  · rw [if_pos hsignature, readExactAt_eq (by omega), ok_bind,
      parseDataDescriptorFields_eq (length_slice_of_le (by omega)), ok_bind, fieldsAt_slice]
    simp only [checkedAddU64_eq_iff (show offset < 2 ^ 64 by omega), hsignature, true_and]
    split <;> rfl
  · rw [if_neg hsignature, if_neg fun h => hsignature h.1]
    rfl

/-- The signed descriptor of an entry is found at the end of its data, if no bytes of the data are taken for it. -/
theorem findDataDescriptor_signed {n : Nat} (hlen : file.length < 2 ^ 64)
    (hroom : dataOffset + n + (descriptorLen zip64 + 4) ≤ file.length)
    (hsignature : slice file (dataOffset + n) 4 = descriptorSignature)
    (hsize : (fieldsAt file zip64 (dataOffset + n + 4)).compressedSize = n)
    (hfalse : ∀ k, k < n → slice file (dataOffset + k) 4 = descriptorSignature →
      (fieldsAt file zip64 (dataOffset + k + 4)).compressedSize ≠ k) :
    findDataDescriptor file dataOffset zip64 =
      .ok (some (fieldsAt file zip64 (dataOffset + n + 4), dataOffset + n + (descriptorLen zip64 + 4))) := by
  have hfound : (positions file dataOffset (descriptorLen zip64 + 4)).findSomeM?
      (signedDescriptorAt file dataOffset zip64) =
        .ok (some (fieldsAt file zip64 (dataOffset + n + 4), dataOffset + n + (descriptorLen zip64 + 4))) := by
    apply search_positions (dataOffset + n) (Nat.le_add_right _ _) hroom
    · intro offset hstart hbefore
      obtain ⟨k, rfl⟩ := Nat.exists_eq_add_of_le hstart
      rw [signedDescriptorAt_eq hlen (by omega), if_neg]
      rintro ⟨hsig, hk⟩
      exact hfalse k (by omega) hsig (by omega)
    · rw [signedDescriptorAt_eq hlen hroom, if_pos ⟨hsignature, by omega⟩]
  rw [findDataDescriptor, hfound]
  rfl

end Descriptors

/-! ## Entries as they are written -/

/-- A field of an extra area. -/
structure ExtraBlock where
  id : UInt16
  data : List UInt8
  data_lt : data.length < 2 ^ 16

def ExtraBlock.encode (block : ExtraBlock) : List UInt8 :=
  leBytes 2 block.id.toNat ++ (leBytes 2 block.data.length ++ block.data)

/-- An entry with its local header; the CRC and the sizes of the header need not be those of the entry. -/
structure LocalEntry where
  version : UInt16
  flags : UInt16
  method : UInt16
  time : UInt16
  date : UInt16
  headerCrc : UInt32
  headerCompressedSize : UInt32
  headerSize : UInt32
  name : List UInt8
  extra : List UInt8
  payload : List UInt8
  crc : UInt32
  size : Nat
  name_ne : name ≠ []
  name_lt : name.length < 2 ^ 16
  extra_lt : extra.length < 2 ^ 16

namespace LocalEntry

variable (e : LocalEntry)

def fixed : List UInt8 :=
  localHeaderSignature ++ leBytes 2 e.version.toNat ++ leBytes 2 e.flags.toNat ++ leBytes 2 e.method.toNat ++
    leBytes 2 e.time.toNat ++ leBytes 2 e.date.toNat ++ leBytes 4 e.headerCrc.toNat ++
    leBytes 4 e.headerCompressedSize.toNat ++ leBytes 4 e.headerSize.toNat ++ leBytes 2 e.name.length ++
    leBytes 2 e.extra.length

/-- An entry whose CRC and sizes stand behind its data. -/
def hasDescriptor : Bool := e.flags.toNat.testBit 3

/-- The sizes of the descriptor have 64 bits. -/
def zip64 : Bool := e.headerCompressedSize.toNat == u32Max || e.headerSize.toNat == u32Max

def sizeWidth : Nat := Zip.sizeWidth e.zip64

def descriptorBody : List UInt8 :=
  leBytes 4 e.crc.toNat ++ (leBytes e.sizeWidth e.payload.length ++ leBytes e.sizeWidth e.size)

def descriptor (signed : Bool) : List UInt8 :=
  if e.hasDescriptor then (if signed then descriptorSignature else []) ++ e.descriptorBody else []

def encode (signed : Bool) : List UInt8 := e.fixed ++ (e.name ++ (e.extra ++ (e.payload ++ e.descriptor signed)))

/-- Where the data of an entry begins that stands at an offset. -/
def dataOffset (offset : Nat) : Nat := offset + 30 + e.name.length + e.extra.length

/-- The sizes that the header leaves to a ZIP64 field. -/
def zip64Sizes : List UInt8 :=
  (if e.headerSize.toNat = u32Max then leBytes 8 e.size else []) ++
    (if e.headerCompressedSize.toNat = u32Max then leBytes 8 e.payload.length else [])

/-- Where the sizes of an entry stand. -/
inductive Sized : Prop
  | header (hflags : e.hasDescriptor = false) (hcrc : e.headerCrc = e.crc)
      (hcompressed : e.headerCompressedSize.toNat = e.payload.length) (hsize : e.headerSize.toNat = e.size)
      (hfits : e.payload.length ≠ u32Max ∧ e.size ≠ u32Max)
  | extra (before : List ExtraBlock) (block : ExtraBlock) (more after : List UInt8) (hflags : e.hasDescriptor = false)
      (hcrc : e.headerCrc = e.crc) (hextra : e.extra = before.flatMap (·.encode) ++ (block.encode ++ after))
      (hbefore : ∀ other ∈ before, other.id ≠ 1) (hid : block.id = 1) (hdata : block.data = e.zip64Sizes ++ more)
      (hzip64 : e.headerCompressedSize.toNat = u32Max ∨ e.headerSize.toNat = u32Max)
      (hcompressed : e.headerCompressedSize.toNat ≠ u32Max → e.headerCompressedSize.toNat = e.payload.length)
      (hsize : e.headerSize.toNat ≠ u32Max → e.headerSize.toNat = e.size)
      (hfits : e.payload.length < 2 ^ 64 ∧ e.size < 2 ^ 64)
  | descriptor (hflags : e.hasDescriptor = true) (hfits : e.payload.length < 256 ^ e.sizeWidth ∧ e.size < 256 ^ e.sizeWidth)

/-- No bytes of the data are taken for the descriptor: at none of their positions does the signature stand before a
compressed size that is this position. -/
def NoFalseDescriptor : Prop :=
  ∀ k, slice e.payload k 4 = descriptorSignature →
    leNat (slice (e.payload ++ e.descriptor true) (k + 8) e.sizeWidth) ≠ k

/-! ### Fields of the header -/

theorem length_fixed : e.fixed.length = 30 := rfl

theorem fixed_signature : slice e.fixed 0 4 = localHeaderSignature := rfl

theorem fixed_flags : leNat (slice e.fixed 6 2) = e.flags.toNat :=
  @leNat_leBytes_of_lt 2 _ e.flags.toNat_lt

theorem fixed_method : leNat (slice e.fixed 8 2) = e.method.toNat := @leNat_leBytes_of_lt 2 _ e.method.toNat_lt

theorem fixed_time : leNat (slice e.fixed 10 2) = e.time.toNat := @leNat_leBytes_of_lt 2 _ e.time.toNat_lt

theorem fixed_date : leNat (slice e.fixed 12 2) = e.date.toNat := @leNat_leBytes_of_lt 2 _ e.date.toNat_lt

theorem fixed_crc : leNat (slice e.fixed 14 4) = e.headerCrc.toNat := @leNat_leBytes_of_lt 4 _ e.headerCrc.toNat_lt

theorem fixed_compressedSize : leNat (slice e.fixed 18 4) = e.headerCompressedSize.toNat :=
  @leNat_leBytes_of_lt 4 _ e.headerCompressedSize.toNat_lt

theorem fixed_size : leNat (slice e.fixed 22 4) = e.headerSize.toNat :=
  @leNat_leBytes_of_lt 4 _ e.headerSize.toNat_lt

theorem fixed_nameLen : leNat (slice e.fixed 26 2) = e.name.length := @leNat_leBytes_of_lt 2 _ e.name_lt

theorem fixed_extraLen : leNat (slice e.fixed 28 2) = e.extra.length := @leNat_leBytes_of_lt 2 _ e.extra_lt

/-! ### Sizes -/

variable {e}

theorem length_descriptorBody : e.descriptorBody.length = descriptorLen e.zip64 := by
  unfold descriptorBody
  rw [List.length_append, List.length_append, length_leBytes, length_leBytes, length_leBytes, descriptorLen_eq,
    Nat.add_assoc]
  rfl

/-- What stands in the descriptor of an entry. -/
def description (e : LocalEntry) : Descriptor := ⟨e.crc.toNat, e.payload.length, e.size⟩

theorem fieldsAt_descriptorBody (front rest : List UInt8) (hpayload : e.payload.length < 256 ^ e.sizeWidth)
    (hsize : e.size < 256 ^ e.sizeWidth) :
    fieldsAt (front ++ (e.descriptorBody ++ rest)) e.zip64 front.length = e.description := by
  have hslice : slice (front ++ (e.descriptorBody ++ rest)) front.length (descriptorLen e.zip64) = e.descriptorBody :=
    slice_middle rfl length_descriptorBody.symm
  have hcrc : slice e.descriptorBody 0 4 = leBytes 4 e.crc.toNat := slice_head _ (length_leBytes _ _)
  have hcompressed : slice e.descriptorBody 4 e.sizeWidth = leBytes e.sizeWidth e.payload.length :=
    slice_middle (length_leBytes _ _).symm (length_leBytes _ _).symm
  have hsizeField : slice e.descriptorBody (4 + e.sizeWidth) e.sizeWidth = leBytes e.sizeWidth e.size := by
    unfold descriptorBody
    rw [← List.append_assoc]
    exact slice_suffix (by rw [List.length_append, length_leBytes, length_leBytes]) (length_leBytes _ _).symm
  rw [← fieldsAt_slice, hslice, fieldsAt, Nat.zero_add]
  show Descriptor.mk (leNat (slice e.descriptorBody 0 4)) (leNat (slice e.descriptorBody 4 e.sizeWidth))
    (leNat (slice e.descriptorBody (4 + e.sizeWidth) e.sizeWidth)) = e.description
  rw [hcrc, hcompressed, hsizeField, @leNat_leBytes_of_lt 4 _ e.crc.toNat_lt, leNat_leBytes_of_lt hpayload,
    leNat_leBytes_of_lt hsize]
  rfl

/-! ### An entry in a file -/

section Stands

variable {front rest : List UInt8} {signed : Bool}

theorem length_descriptor (h : e.hasDescriptor = true) :
    (e.descriptor signed).length = (if signed then 4 else 0) + descriptorLen e.zip64 := by
  rw [descriptor, if_pos h, List.length_append, length_descriptorBody]
  cases signed <;> rfl

theorem length_encode : (e.encode signed).length =
    30 + e.name.length + e.extra.length + e.payload.length + (e.descriptor signed).length := by
  simp only [encode, List.length_append, length_fixed]
  omega

theorem read_fixed : readExactAt (front ++ (e.encode signed ++ rest)) front.length 30 = .ok e.fixed := by
  unfold encode
  rw [List.append_assoc]
  exact readExactAt_middle rfl e.length_fixed.symm

theorem slice_signature : slice (front ++ (e.encode signed ++ rest)) front.length 4 = localHeaderSignature := by
  have hfixed : slice (front ++ (e.encode signed ++ rest)) front.length 30 = e.fixed := by
    unfold encode
    rw [List.append_assoc]
    exact slice_middle rfl e.length_fixed.symm
  rw [← e.fixed_signature, ← hfixed, slice_slice (by decide), Nat.add_zero]

theorem read_name : readExactAt (front ++ (e.encode signed ++ rest)) (front.length + 30) e.name.length = .ok e.name := by
  have hfile : front ++ (e.encode signed ++ rest) =
      (front ++ e.fixed) ++ (e.name ++ (e.extra ++ (e.payload ++ e.descriptor signed) ++ rest)) := by
    simp only [encode, List.append_assoc]
  rw [hfile]
  exact readExactAt_middle (by rw [List.length_append, length_fixed]) rfl

theorem read_extra : readExactAt (front ++ (e.encode signed ++ rest)) (front.length + 30 + e.name.length) e.extra.length =
    .ok e.extra := by
  have hfile : front ++ (e.encode signed ++ rest) =
      (front ++ e.fixed ++ e.name) ++ (e.extra ++ ((e.payload ++ e.descriptor signed) ++ rest)) := by
    simp only [encode, List.append_assoc]
  rw [hfile]
  exact readExactAt_middle (by rw [List.length_append, List.length_append, length_fixed]) rfl

/-- From its data on, an entry is its data and its descriptor. -/
theorem slice_data (k m : Nat) : slice (front ++ (e.encode signed ++ rest)) (e.dataOffset front.length + k) m =
    slice (e.payload ++ (e.descriptor signed ++ rest)) k m := by
  have hfile : front ++ (e.encode signed ++ rest) =
      (front ++ e.fixed ++ e.name ++ e.extra) ++ (e.payload ++ (e.descriptor signed ++ rest)) := by
    simp only [encode, List.append_assoc]
  have hfront : (front ++ e.fixed ++ e.name ++ e.extra).length = e.dataOffset front.length := by
    rw [List.length_append, List.length_append, List.length_append, length_fixed, dataOffset]
  rw [hfile, slice_append_right (by omega), hfront, Nat.add_sub_cancel_left]

theorem length_file : (front ++ (e.encode signed ++ rest)).length =
    e.dataOffset front.length + e.payload.length + (e.descriptor signed).length + rest.length := by
  rw [List.length_append, List.length_append, length_encode, dataOffset]
  omega

/-- The fields of the descriptor stand behind the data. -/
theorem fieldsAt_descriptor (h : e.hasDescriptor = true) (hpayload : e.payload.length < 256 ^ e.sizeWidth)
    (hsize : e.size < 256 ^ e.sizeWidth) :
    fieldsAt (front ++ (e.encode signed ++ rest)) e.zip64
      (e.dataOffset front.length + e.payload.length + if signed then 4 else 0) = e.description := by
  have hfile : front ++ (e.encode signed ++ rest) = (front ++ e.fixed ++ e.name ++ e.extra ++ e.payload ++
      (if signed then descriptorSignature else [])) ++ (e.descriptorBody ++ rest) := by
    simp only [encode, descriptor, if_pos h, List.append_assoc]
  have hfront : e.dataOffset front.length + e.payload.length + (if signed then 4 else 0) =
      (front ++ e.fixed ++ e.name ++ e.extra ++ e.payload ++ (if signed then descriptorSignature else [])).length := by
    simp only [List.length_append, length_fixed, dataOffset]
    cases signed <;> rfl
  rw [hfile, hfront]
  exact fieldsAt_descriptorBody _ _ hpayload hsize

/-- The signature of a descriptor does not begin in the data. -/
theorem signature_inside {k : Nat} {more : List UInt8} (hk : k < e.payload.length)
    (h : slice (e.payload ++ (descriptorSignature ++ more)) k 4 = descriptorSignature) : k + 4 ≤ e.payload.length := by
  by_contra hshort
  have hget := congrArg (·[e.payload.length - k]?) h
  have hplace : k + (e.payload.length - k) = e.payload.length := by omega
  rw [getElem?_slice, if_pos (by omega), hplace, List.getElem?_append_right (Nat.le_refl _), Nat.sub_self] at hget
  obtain hcase | hcase | hcase : e.payload.length - k = 1 ∨ e.payload.length - k = 2 ∨ e.payload.length - k = 3 := by omega
  all_goals
    rw [hcase] at hget
    cases hget

theorem localSizes_descriptor (h : e.hasDescriptor = true) (hpayload : e.payload.length < 256 ^ e.sizeWidth)
    (hsize : e.size < 256 ^ e.sizeWidth) (hfalse : e.NoFalseDescriptor)
    (hlen : (front ++ (e.encode true ++ rest)).length < 2 ^ 64) :
    findDataDescriptor (front ++ (e.encode true ++ rest)) (e.dataOffset front.length) e.zip64 =
      .ok (some (e.description, front.length + (e.encode true).length)) := by
  have hlength := @length_file e front rest true
  have hdescriptor : (e.descriptor true).length = descriptorLen e.zip64 + 4 := by
    rw [length_descriptor h, if_pos rfl, Nat.add_comm]
  have hfields := @fieldsAt_descriptor e front rest true h hpayload hsize
  rw [if_pos rfl] at hfields
  have hnext : front.length + (e.encode true).length =
      e.dataOffset front.length + e.payload.length + (descriptorLen e.zip64 + 4) := by
    rw [length_encode, hdescriptor, dataOffset]
    omega
  rw [hnext, ← hfields]
  apply findDataDescriptor_signed hlen (by omega)
  · rw [slice_data, descriptor, if_pos h, if_pos rfl, List.append_assoc]
    exact slice_middle rfl rfl
  · rw [hfields]
    rfl
  · intro k hk hsignature hsizeField
    have hwidths := descriptorLen_eq e.zip64
    have hplace : e.dataOffset front.length + k + 4 + 4 = e.dataOffset front.length + (k + 8) := by omega
    rw [slice_data] at hsignature
    have hinside : k + 4 ≤ e.payload.length := by
      rw [descriptor, if_pos h, if_pos rfl, List.append_assoc] at hsignature
      exact signature_inside hk hsignature
    rw [slice_append_left hinside] at hsignature
    apply hfalse k hsignature
    rw [fieldsAt, hplace] at hsizeField
    dsimp only at hsizeField
    rw [slice_data, ← List.append_assoc, slice_append_left] at hsizeField
    · exact hsizeField
    · rw [List.length_append, hdescriptor]
      omega

end Stands

/-! ### Sizes in the header and in a ZIP64 field -/

theorem slice_id (block : ExtraBlock) (rest : List UInt8) : leNat (slice (block.encode ++ rest) 0 2) = block.id.toNat := by
  rw [ExtraBlock.encode, List.append_assoc, slice_head _ (length_leBytes _ _)]
  exact @leNat_leBytes_of_lt 2 _ block.id.toNat_lt

theorem slice_dataSize (block : ExtraBlock) (rest : List UInt8) :
    leNat (slice (block.encode ++ rest) 2 2) = block.data.length := by
  rw [ExtraBlock.encode, List.append_assoc, List.append_assoc,
    slice_middle (length_leBytes _ _).symm (length_leBytes _ _).symm]
  exact @leNat_leBytes_of_lt 2 _ block.data_lt

theorem length_block_encode (block : ExtraBlock) : block.encode.length = 4 + block.data.length := by
  rw [ExtraBlock.encode, List.length_append, List.length_append, length_leBytes, length_leBytes, ← Nat.add_assoc]

/-- The first field with the id of ZIP64 is the one that is read. -/
theorem zip64SizesFrom_block {compressedSize size : Option Nat} {before : List ExtraBlock} {block : ExtraBlock}
    {after : List UInt8} {rounds : Nat} (hbefore : ∀ other ∈ before, other.id ≠ 1) (hid : block.id = 1)
    (hrounds : before.length < rounds) :
    zip64SizesFrom compressedSize size rounds (before.flatMap (·.encode) ++ (block.encode ++ after)) =
      zip64FieldSizes block.data compressedSize size := by
  induction before generalizing rounds with
  | nil =>
    obtain ⟨rounds, rfl⟩ := Nat.exists_eq_add_of_lt hrounds
    have hlength := length_block_encode block
    have hdata : slice (block.encode ++ after) 4 block.data.length = block.data := by
      rw [ExtraBlock.encode, ← List.append_assoc, List.append_assoc]
      exact slice_middle (by rw [List.length_append, length_leBytes, length_leBytes]) rfl
    rw [List.flatMap_nil, List.nil_append, zip64SizesFrom, slice_id, slice_dataSize, hid]
    dsimp only
    rw [if_neg (by rw [List.length_append]; omega), if_neg (by rw [List.length_append]; omega), if_pos (by rfl), hdata]
  | cons other before ih =>
    obtain ⟨rounds, rfl⟩ := Nat.exists_eq_add_of_lt hrounds
    have hlength := length_block_encode other
    have hother : other.id.toNat ≠ 1 := by
      intro h
      exact hbefore other List.mem_cons_self (UInt16.toNat_inj.1 h)
    rw [List.flatMap_cons, List.append_assoc, zip64SizesFrom, slice_id, slice_dataSize]
    dsimp only
    rw [if_neg (by rw [List.length_append]; omega), if_neg (by rw [List.length_append]; omega), if_neg hother, ← hlength,
      List.drop_left]
    exact ih (fun b hb => hbefore b (List.mem_cons_of_mem other hb)) (by rw [List.length_cons]; omega)

theorem readZip64ExtraU64_eq {front rest : List UInt8} {v : Nat} (hv : v < 2 ^ 64) :
    readZip64ExtraU64 (front ++ (leBytes 8 v ++ rest)) front.length = some (v, front.length + 8) := by
  rw [readZip64ExtraU64, if_neg (by rw [List.length_append, List.length_append, length_leBytes]; omega),
    slice_middle rfl (length_leBytes _ _).symm, leNat_leBytes_of_lt hv]

/-- The sizes that the header leaves out stand in the field. -/
theorem zip64FieldSizes_eq (more : List UInt8)
    (hcompressed : e.headerCompressedSize.toNat ≠ u32Max → e.headerCompressedSize.toNat = e.payload.length)
    (hsize : e.headerSize.toNat ≠ u32Max → e.headerSize.toNat = e.size) (hfits : e.payload.length < 2 ^ 64 ∧ e.size < 2 ^ 64) :
    zip64FieldSizes (e.zip64Sizes ++ more) (fieldSize e.headerCompressedSize.toNat) (fieldSize e.headerSize.toNat) =
      some (e.payload.length, e.size) := by
  have hread : ∀ (v : Nat) (rest : List UInt8), v < 2 ^ 64 → readZip64ExtraU64 (leBytes 8 v ++ rest) 0 = some (v, 8) :=
    fun v rest hv => @readZip64ExtraU64_eq [] rest v hv
  unfold zip64FieldSizes zip64Sizes fieldSize
  by_cases hs : e.headerSize.toNat = u32Max
  · rw [if_pos hs, if_neg (not_not.2 hs)]
    by_cases hc : e.headerCompressedSize.toNat = u32Max
    · have hsecond := @readZip64ExtraU64_eq (leBytes 8 e.size) more e.payload.length hfits.1
      rw [length_leBytes] at hsecond
      rw [if_pos hc, if_neg (not_not.2 hc), List.append_assoc]
      simp only [hread e.size _ hfits.2, Option.bind_eq_bind, Option.bind_some, hsecond]
    · rw [if_neg hc, if_pos hc, List.append_nil, hcompressed hc]
      simp only [hread e.size _ hfits.2, Option.bind_eq_bind, Option.bind_some]
  · rw [if_neg hs, if_pos hs, List.nil_append]
    by_cases hc : e.headerCompressedSize.toNat = u32Max
    · rw [if_pos hc, if_neg (not_not.2 hc), hsize hs]
      simp only [hread e.payload.length _ hfits.1, Option.bind_eq_bind, Option.bind_some]
    · rw [if_pos hc, hsize hs, hcompressed hc]
      rfl

/-- A block stands in no less than its four bytes. -/
theorem length_blocks (before : List ExtraBlock) : before.length ≤ (before.flatMap (·.encode)).length := by
  induction before with
  | nil => exact Nat.le_refl _
  | cons block before ih =>
    rw [List.flatMap_cons, List.length_append, length_block_encode, List.length_cons]
    omega

theorem resolveZip64LocalSizes_of_sized (hsized : e.Sized) (hflags : e.hasDescriptor = false) :
    e.headerCrc = e.crc ∧ resolveZip64LocalSizes e.extra e.headerCompressedSize.toNat e.headerSize.toNat =
      some (e.payload.length, e.size) := by
  cases hsized with
  | header _ hcrc hcompressed hsize hfits =>
    refine ⟨hcrc, ?_⟩
    rw [resolveZip64LocalSizes, hcompressed, hsize, fieldSize, fieldSize, if_pos hfits.1, if_pos hfits.2]
  | extra before block more after _ hcrc hextra hbefore hid hdata hzip64 hcompressed hsize hfits =>
    refine ⟨hcrc, ?_⟩
    have hrounds : before.length < e.extra.length := by
      have hblocks := length_blocks before
      rw [hextra, List.length_append, List.length_append, length_block_encode]
      omega
    have hfield := zip64FieldSizes_eq more hcompressed hsize hfits
    rw [← hdata, ← @zip64SizesFrom_block _ _ before block after _ hbefore hid hrounds, ← hextra] at hfield
    rw [resolveZip64LocalSizes]
    split
    · rename_i hc hs
      unfold fieldSize at hc hs
      obtain h | h := hzip64
      · rw [if_neg (not_not.2 h)] at hc
        cases hc
      · rw [if_neg (not_not.2 h)] at hs
        cases hs
    · exact hfield
  | descriptor h _ =>
    rw [hflags] at h
    cases h

theorem Sized.widths (hsized : e.Sized) (h : e.hasDescriptor = true) :
    e.payload.length < 256 ^ e.sizeWidth ∧ e.size < 256 ^ e.sizeWidth := by
  cases hsized with
  | descriptor _ hfits => exact hfits
  | header hflags =>
    rw [h] at hflags
    cases hflags
  | extra _ _ _ _ hflags =>
    rw [h] at hflags
    cases hflags

theorem localSizes_of_descriptor (h : e.hasDescriptor = true) (file : List UInt8) (dataOffset : Nat) :
    localSizes file e.extra dataOffset e.flags.toNat e.headerCrc.toNat e.headerCompressedSize.toNat e.headerSize.toNat =
      findDataDescriptor file dataOffset e.zip64 := if_pos h

theorem localSizes_entry {front rest : List UInt8} (hsized : e.Sized) (hfalse : e.hasDescriptor = true → e.NoFalseDescriptor)
    (hlen : (front ++ (e.encode true ++ rest)).length < 2 ^ 64) :
    localSizes (front ++ (e.encode true ++ rest)) e.extra (e.dataOffset front.length) e.flags.toNat e.headerCrc.toNat
      e.headerCompressedSize.toNat e.headerSize.toNat =
      .ok (some (e.description, front.length + (e.encode true).length)) := by
  cases hflags : e.hasDescriptor with
  | true =>
    have hwidths := hsized.widths hflags
    rw [localSizes_of_descriptor hflags]
    exact localSizes_descriptor hflags hwidths.1 hwidths.2 (hfalse hflags) hlen
  | false =>
    obtain ⟨hcrc, hresolve⟩ := resolveZip64LocalSizes_of_sized hsized hflags
    have hlength := @length_file e front rest true
    have hencode := @length_encode e true
    have hdescriptor : e.descriptor true = [] := by rw [descriptor, hflags, if_neg Bool.false_ne_true]
    rw [hdescriptor, List.length_nil] at hlength hencode
    have hnext : front.length + (e.encode true).length = e.dataOffset front.length + e.payload.length := by
      rw [hencode, dataOffset]
      omega
    rw [localSizes, if_neg (by rw [← hasDescriptor, hflags]; exact Bool.false_ne_true), hresolve]
    dsimp only
    rw [checkedAddU64_eq (by omega)]
    dsimp only
    rw [if_neg (by omega), hcrc, ← hnext]
    rfl

end LocalEntry

/-! ## Rounds of the scan -/

section Scan

variable {DosTime : Type} {tryFromMsdos : Nat → Nat → Option DosTime} {fromZipDatetime : DosTime → Option SystemTime}

/-- What is found of an entry that stands at an offset. -/
def LocalEntry.candidate (tryFromMsdos : Nat → Nat → Option DosTime) (fromZipDatetime : DosTime → Option SystemTime)
    (e : LocalEntry) (offset : Nat) (sizes : Descriptor) : LocalCandidate :=
  ⟨e.name, e.flags.toNat, e.method.toNat, sizes.crc, sizes.compressedSize, sizes.size, e.dataOffset offset,
    localModifiedTime fromZipDatetime (tryFromMsdos e.date.toNat e.time.toNat) e.extra⟩

/-- The round at an entry whose sizes are found or not. -/
def LocalEntry.round (tryFromMsdos : Nat → Nat → Option DosTime) (fromZipDatetime : DosTime → Option SystemTime)
    (e : LocalEntry) (offset : Nat) : Option Found → Round
  | none => .stop
  | some (sizes, nextOffset) => .found (e.candidate tryFromMsdos fromZipDatetime offset sizes) nextOffset

/-- A round at an entry asks for its sizes. -/
theorem scanRound_entry {e : LocalEntry} {front rest : List UInt8} {signed : Bool}
    (hlen : (front ++ (e.encode signed ++ rest)).length + 30 < 2 ^ 64) {sizes : Option Found}
    (hsizes : localSizes (front ++ (e.encode signed ++ rest)) e.extra (e.dataOffset front.length) e.flags.toNat
      e.headerCrc.toNat e.headerCompressedSize.toNat e.headerSize.toNat = .ok sizes) :
    scanRound tryFromMsdos fromZipDatetime (front ++ (e.encode signed ++ rest)) front.length =
      .ok (e.round tryFromMsdos fromZipDatetime front.length sizes) := by
  have hlength := @LocalEntry.length_file e front rest signed
  have hname : e.name.length ≠ 0 := fun h => e.name_ne (List.length_eq_zero_iff.1 h)
  unfold LocalEntry.dataOffset at hlength hsizes
  rw [scanRound, addU64_eq (by omega), ok_bind, if_neg (by omega), LocalEntry.read_fixed, ok_bind,
    LocalEntry.fixed_signature, if_neg (not_not.2 rfl), headerRound]
  simp only [LocalEntry.fixed_flags, LocalEntry.fixed_method, LocalEntry.fixed_time, LocalEntry.fixed_date,
    LocalEntry.fixed_crc, LocalEntry.fixed_compressedSize, LocalEntry.fixed_size, LocalEntry.fixed_nameLen,
    LocalEntry.fixed_extraLen]
  rw [checkedAddU64_eq (by omega)]
  dsimp only
  rw [checkedAddU64_eq (by omega)]
  dsimp only
  rw [checkedAddU64_eq (by omega)]
  dsimp only
  rw [if_neg (by omega), LocalEntry.read_name, ok_bind, LocalEntry.read_extra, ok_bind, hsizes, ok_bind]
  cases sizes with
  | none => rfl
  | some found => rfl

theorem scanRound_skip {file : List UInt8} {offset : Nat} (hlen : file.length + 30 < 2 ^ 64) (hoffset : offset ≤ file.length)
    (hsignature : slice file offset 4 ≠ localHeaderSignature) :
    scanRound tryFromMsdos fromZipDatetime file offset =
      .ok (if file.length < offset + 30 then .stop else .skip (offset + 1)) := by
  rw [scanRound, addU64_eq (by omega), ok_bind]
  by_cases hroom : file.length < offset + 30
  · rw [if_pos hroom, if_pos hroom]
    rfl
  · have hslice : slice (slice file offset 30) 0 4 = slice file offset 4 := slice_slice (by decide)
    rw [if_neg hroom, if_neg hroom, readExactAt_eq (by omega), ok_bind, hslice, if_pos hsignature]
    rfl

/-- Where no signature is left, nothing is found. -/
theorem scanRounds_tail {file : List UInt8} {rounds offset : Nat} (hlen : file.length + 30 < 2 ^ 64)
    (hoffset : offset ≤ file.length) (hsignature : ∀ i, offset ≤ i → slice file i 4 ≠ localHeaderSignature)
    (hrounds : file.length - offset < rounds) :
    scanRounds tryFromMsdos fromZipDatetime file rounds offset = some (.ok []) := by
  induction rounds generalizing offset with
  | zero => omega
  | succ rounds ih =>
    rw [scanRounds, scanRound_skip hlen hoffset (hsignature offset (Nat.le_refl _))]
    by_cases hroom : file.length < offset + 30
    · rw [if_pos hroom]
    · rw [if_neg hroom]
      exact ih (by omega) (fun i hi => hsignature i (by omega)) (by omega)

/-! ## The scan ends -/

theorem readUnsignedDataDescriptor_next {file : List UInt8} {dataOffset descriptorOffset nextOffset : Nat} {zip64 : Bool}
    {found : Found} (h : readUnsignedDataDescriptor file dataOffset descriptorOffset nextOffset zip64 = .ok (some found)) :
    found.2 = nextOffset := by
  simp only [readUnsignedDataDescriptor, bind_eq_ok] at h
  obtain ⟨fields, -, descriptor, -, h⟩ := h
  split at h
  · cases h
    rfl
  · cases h

/-- The scan goes on behind the data's beginning. -/
theorem findDataDescriptor_next {file : List UInt8} {dataOffset : Nat} {zip64 : Bool} {found : Found}
    (h : findDataDescriptor file dataOffset zip64 = .ok (some found)) : dataOffset ≤ found.2 := by
  simp only [findDataDescriptor, bind_eq_ok] at h
  obtain ⟨signed, hsigned, h⟩ := h
  cases signed with
  | some descriptor =>
    cases h
    obtain ⟨offset, hoffset, hat⟩ := mem_of_findSomeM? hsigned
    have hstart := (mem_positions.1 hoffset).1
    simp only [signedDescriptorAt, bind_eq_ok] at hat
    obtain ⟨signature, -, hat⟩ := hat
    split at hat
    · simp only [bind_eq_ok] at hat
      obtain ⟨fields, -, parsed, -, hat⟩ := hat
      split at hat
      · cases hat
        show dataOffset ≤ offset + _
        omega
      · cases hat
    · cases hat
  | none =>
    simp only [bind_eq_ok] at h
    obtain ⟨before, hbefore, h⟩ := h
    cases before with
    | some descriptor =>
      cases h
      obtain ⟨offset, hoffset, hat⟩ := mem_of_findSomeM? hbefore
      have hstart := (mem_positions.1 hoffset).1
      simp only [descriptorBeforeHeader, bind_eq_ok] at hat
      obtain ⟨signature, -, hat⟩ := hat
      split at hat
      · cases hsub : checkedSubU64 offset (descriptorLen zip64) with
        | none =>
          rw [hsub] at hat
          cases hat
        | some descriptorOffset =>
          rw [hsub] at hat
          rw [readUnsignedDataDescriptor_next hat]
          omega
      · cases hat
    | none =>
      dsimp only at h
      split at h
      · rename_i hroom
        rw [readUnsignedDataDescriptor_next h]
        rw [Option.any_eq_true] at hroom
        obtain ⟨stop, hstop, hle⟩ := hroom
        have := (checkedAddU64_eq_some.1 hstop).1
        have := of_decide_eq_true hle
        omega
      · cases h

theorem localSizes_next {file extra : List UInt8} {dataOffset flags crc compressedSize size : Nat} {found : Found}
    (h : localSizes file extra dataOffset flags crc compressedSize size = .ok (some found)) : dataOffset ≤ found.2 := by
  unfold localSizes at h
  split at h
  · exact findDataDescriptor_next h
  · split at h
    · cases h
    · split at h
      · cases h
      · rename_i nextOffset hnext
        split at h
        · cases h
        · cases h
          have := (checkedAddU64_eq_some.1 hnext).1
          show dataOffset ≤ nextOffset
          omega

/-- The position of a round, if there is one more. -/
def Round.next : Round → Option Nat
  | stop => none
  | skip next => some next
  | found _ next => some next

theorem headerRound_next {file fixed : List UInt8} {offset next : Nat} {round : Round}
    (h : headerRound tryFromMsdos fromZipDatetime file fixed offset = .ok round) (hnext : round.next = some next) :
    offset < next := by
  unfold headerRound at h
  dsimp only at h
  split at h
  · cases h
    cases hnext
  · rename_i nameOffset hname
    split at h
    · cases h
      cases hnext
    · rename_i extraOffset hextra
      split at h
      · cases h
        cases hnext
      · rename_i dataOffset hdata
        have hplace : offset + 30 ≤ dataOffset := by
          have := (checkedAddU64_eq_some.1 hname).1
          have := (checkedAddU64_eq_some.1 hextra).1
          have := (checkedAddU64_eq_some.1 hdata).1
          omega
        split at h
        · cases h
          cases hnext
          exact Nat.lt_succ_self _
        · simp only [bind_eq_ok] at h
          obtain ⟨rawName, -, extra, -, sizes, hsizes, h⟩ := h
          cases sizes with
          | none =>
            cases h
            cases hnext
          | some found =>
            cases h
            cases hnext
            have := localSizes_next hsizes
            omega

/-- A round that is not the last one goes on from a later position. -/
theorem scanRound_next {file : List UInt8} {offset next : Nat} {round : Round}
    (h : scanRound tryFromMsdos fromZipDatetime file offset = .ok round) (hnext : round.next = some next) :
    offset < next ∧ offset + 30 ≤ file.length := by
  simp only [scanRound, bind_eq_ok] at h
  obtain ⟨room, hroom, h⟩ := h
  have hoffset : room = offset + 30 := by
    unfold addU64 at hroom
    split at hroom
    · cases hroom
      rfl
    · cases hroom
  split at h
  · cases h
    cases hnext
  · refine ⟨?_, by omega⟩
    simp only [bind_eq_ok] at h
    obtain ⟨fixed, -, h⟩ := h
    split at h
    · cases h
      cases hnext
      exact Nat.lt_succ_self _
    · exact headerRound_next h hnext

/-- There are no more rounds than bytes, and one. -/
theorem scanRounds_isSome {file : List UInt8} {rounds offset : Nat} (hrounds : file.length - offset < rounds) :
    (scanRounds tryFromMsdos fromZipDatetime file rounds offset).isSome := by
  induction rounds generalizing offset with
  | zero => omega
  | succ rounds ih =>
    rw [scanRounds]
    cases hround : scanRound tryFromMsdos fromZipDatetime file offset with
    | error fault => rfl
    | ok round =>
      cases round with
      | stop => rfl
      | skip next =>
        have hlater := scanRound_next hround rfl
        exact ih (by omega)
      | found candidate next =>
        have hlater := scanRound_next hround rfl
        dsimp only
        rw [Option.isSome_map]
        exact ih (by omega)

/-! ## Entries one behind the other -/

def encodeAll (signed : Bool) (entries : List LocalEntry) : List UInt8 := entries.flatMap (·.encode signed)

theorem encodeAll_cons (signed : Bool) (e : LocalEntry) (entries : List LocalEntry) (tail : List UInt8) :
    encodeAll signed (e :: entries) ++ tail = e.encode signed ++ (encodeAll signed entries ++ tail) := by
  rw [encodeAll, List.flatMap_cons, List.append_assoc]
  rfl

/-- The candidates of entries that stand from an offset on. -/
def LocalEntry.candidates (tryFromMsdos : Nat → Nat → Option DosTime) (fromZipDatetime : DosTime → Option SystemTime)
    (signed : Bool) : Nat → List LocalEntry → List LocalCandidate
  | _, [] => []
  | offset, e :: entries =>
    e.candidate tryFromMsdos fromZipDatetime offset e.description ::
      candidates tryFromMsdos fromZipDatetime signed (offset + (e.encode signed).length) entries

theorem slice_infix {l bytes : List UInt8} {off n : Nat} (h : slice l off n = bytes) : bytes <:+: l := by
  rw [← h]
  exact (List.take_prefix _ _).isInfix.trans (List.drop_suffix _ _).isInfix

theorem scanRounds_entries {entries : List LocalEntry} {front tail : List UInt8} {rounds : Nat}
    (hsized : ∀ e ∈ entries, e.Sized) (hfalse : ∀ e ∈ entries, e.hasDescriptor = true → e.NoFalseDescriptor)
    (htail : ¬ localHeaderSignature <:+: tail) (hlen : (front ++ (encodeAll true entries ++ tail)).length + 30 < 2 ^ 64)
    (hrounds : (encodeAll true entries ++ tail).length < rounds) :
    scanRounds tryFromMsdos fromZipDatetime (front ++ (encodeAll true entries ++ tail)) rounds front.length =
      some (.ok (LocalEntry.candidates tryFromMsdos fromZipDatetime true front.length entries)) := by
  induction entries generalizing front rounds with
  | nil =>
    apply scanRounds_tail hlen (by rw [List.length_append]; exact Nat.le_add_right _ _)
    · intro i hi hslice
      rw [slice_append_right hi] at hslice
      exact htail ( slice_infix hslice)
    · rw [List.length_append, Nat.add_sub_cancel_left]
      exact hrounds
  | cons e entries ih =>
    rw [encodeAll_cons] at hlen hrounds ⊢
    obtain ⟨rounds, rfl⟩ := Nat.exists_eq_add_of_lt hrounds
    have hsizes := LocalEntry.localSizes_entry (hsized e List.mem_cons_self) (hfalse e List.mem_cons_self)
      (show (front ++ (e.encode true ++ (encodeAll true entries ++ tail))).length < 2 ^ 64 by omega)
    have hfront : (front ++ e.encode true).length = front.length + (e.encode true).length := List.length_append
    rw [scanRounds, scanRound_entry hlen hsizes]
    dsimp only [LocalEntry.round]
    rw [← hfront, ← List.append_assoc, ih (fun b hb => hsized b (List.mem_cons_of_mem e hb))
      (fun b hb => hfalse b (List.mem_cons_of_mem e hb)) (by rw [List.append_assoc]; exact hlen)]
    · rw [hfront]
      rfl
    · have hencode := @LocalEntry.length_encode e true
      simp only [List.length_append]
      omega

/-! ## What is listed -/

/-- What is recovered of an entry: its raw name, its CRC, its sizes and where its data begins. -/
structure RecoveredEntry where
  rawName : List UInt8
  crc : Option Nat
  compressedSize : Option Nat
  size : Nat
  dataOffset : Nat
deriving DecidableEq, Repr

def LocalZipEntry.recovered (entry : LocalZipEntry) : RecoveredEntry :=
  ⟨entry.metadata.path.raw, entry.metadata.crc32.map (·.toNat), entry.metadata.compressedSize.map (·.toNat),
    entry.metadata.size.toNat, entry.dataOffset⟩

def LocalEntry.recovered (e : LocalEntry) (offset : Nat) : RecoveredEntry :=
  ⟨e.name, some e.crc.toNat, some e.payload.length, e.size, e.dataOffset offset⟩

/-- Entries that stand from an offset on, as they are to be recovered. -/
def LocalEntry.listed (signed : Bool) : Nat → List LocalEntry → List RecoveredEntry
  | _, [] => []
  | offset, e :: entries => e.recovered offset :: listed signed (offset + (e.encode signed).length) entries

theorem LocalEntry.Sized.fits {e : LocalEntry} (h : e.Sized) : e.payload.length < 2 ^ 64 ∧ e.size < 2 ^ 64 := by
  have hcompressed := e.headerCompressedSize.toNat_lt
  have hsize := e.headerSize.toNat_lt
  cases h with
  | header _ _ hc hs _ => omega
  | extra _ _ _ _ _ _ _ _ _ _ _ _ _ hfits => exact hfits
  | descriptor _ hfits =>
    have hwidth : 256 ^ e.sizeWidth ≤ 256 ^ 8 := Nat.pow_le_pow_right (by decide) (sizeWidth_le e.zip64).2
    omega

section Listed

variable {Encoding Glob : Type} {crates : Crates Encoding Glob} {fallback : Option Encoding}

theorem LocalEntry.recovered_candidate {e : LocalEntry} {offset : Nat} (h : e.payload.length < 2 ^ 64 ∧ e.size < 2 ^ 64) :
    ((e.candidate tryFromMsdos fromZipDatetime offset e.description).entry crates fallback).recovered =
      e.recovered offset := by
  show RecoveredEntry.mk (decodeEntryName crates e.name fallback).raw (some (UInt32.ofNat e.crc.toNat).toNat)
    (some (UInt64.ofNat e.payload.length).toNat) (UInt64.ofNat e.size).toNat (e.dataOffset offset) = _
  rw [decodeEntryName_raw, UInt32.ofNat_toNat, UInt64.toNat_ofNat_of_lt' h.1, UInt64.toNat_ofNat_of_lt' h.2]
  rfl

theorem LocalEntry.recovered_candidates {entries : List LocalEntry} {signed : Bool} {offset : Nat}
    (h : ∀ e ∈ entries, e.payload.length < 2 ^ 64 ∧ e.size < 2 ^ 64) :
    ((LocalEntry.candidates tryFromMsdos fromZipDatetime signed offset entries).map (·.entry crates fallback)).map
      (·.recovered) = LocalEntry.listed signed offset entries := by
  induction entries generalizing offset with
  | nil => rfl
  | cons e entries ih =>
    rw [LocalEntry.candidates, List.map_cons, List.map_cons, recovered_candidate (h e List.mem_cons_self),
      ih fun b hb => h b (List.mem_cons_of_mem e hb)]
    rfl

end Listed

theorem scanLocalHeaders_eq {Encoding Glob : Type} (crates : Crates Encoding Glob) (encodingOverride : Option String)
    {file : List UInt8} {rounds : Nat} {candidates : List LocalCandidate}
    (h : scanRounds tryFromMsdos fromZipDatetime file rounds 0 = some (.ok candidates)) :
    scanLocalHeaders tryFromMsdos fromZipDatetime crates encodingOverride file rounds =
      some (.ok (candidates.map (·.entry crates
        (resolveFallbackEncoding crates (candidates.map (·.rawName)) encodingOverride)))) := by
  rw [scanLocalHeaders, h]
  rfl

/-- Entries that stand one behind the other, before bytes without the signature of a header, are all found as they were
written; and the scan of any bytes ends within as many rounds as there are bytes, and one. -/
theorem scanLocalHeaders_entries {Encoding Glob : Type} (crates : Crates Encoding Glob) (encodingOverride : Option String)
    (entries : List LocalEntry) (tail : List UInt8) (hsized : ∀ e ∈ entries, e.Sized)
    (hfalse : ∀ e ∈ entries, e.hasDescriptor = true → e.NoFalseDescriptor) (htail : ¬ localHeaderSignature <:+: tail)
    (hlen : (encodeAll true entries ++ tail).length + 30 < 2 ^ 64) :
    (∃ found : List LocalZipEntry, (∀ rounds, (encodeAll true entries ++ tail).length < rounds →
      scanLocalHeaders tryFromMsdos fromZipDatetime crates encodingOverride (encodeAll true entries ++ tail) rounds =
        some (.ok found)) ∧ found.map (·.recovered) = LocalEntry.listed true 0 entries) ∧
    ∀ (file : List UInt8) (rounds : Nat), file.length < rounds →
      (scanLocalHeaders tryFromMsdos fromZipDatetime crates encodingOverride file rounds).isSome := by
  refine ⟨⟨_, fun rounds hrounds => scanLocalHeaders_eq crates encodingOverride
    (@scanRounds_entries _ _ _ entries [] tail rounds hsized hfalse htail hlen hrounds),
    LocalEntry.recovered_candidates fun e he => (hsized e he).fits⟩, fun file rounds hrounds => ?_⟩
  rw [scanLocalHeaders, Option.isSome_map]
  exact scanRounds_isSome (by omega)

/-- A stored entry of one byte and one behind which its sizes stand. -/
def storedEntry : LocalEntry where
  version := 20
  flags := 0
  method := 0
  time := 0
  date := 0
  headerCrc := 0xE8B7BE43
  headerCompressedSize := 1
  headerSize := 1
  name := [97]
  extra := []
  payload := [97]
  crc := 0xE8B7BE43
  size := 1
  name_ne := by decide
  name_lt := by decide
  extra_lt := by decide

def describedEntry : LocalEntry :=
  { storedEntry with
    flags := 8
    headerCrc := 0
    headerCompressedSize := 0
    headerSize := 0
    name := [98]
    name_ne := by decide
    name_lt := by decide }

theorem describedEntry_noFalseDescriptor : describedEntry.NoFalseDescriptor := by
  intro k h
  have hlength := congrArg List.length h
  rw [length_slice] at hlength
  have : describedEntry.payload.length = 1 := rfl
  have : descriptorSignature.length = 4 := rfl
  omega

theorem scanLocalHeaders_two_entries : ∃ found : List LocalZipEntry,
    (∀ rounds, (encodeAll true [storedEntry, describedEntry] ++ [0x50, 0x4B, 1, 2]).length < rounds →
      scanLocalHeaders (fun _ _ => some ()) (fun _ => none) plainCrates none
        (encodeAll true [storedEntry, describedEntry] ++ [0x50, 0x4B, 1, 2]) rounds = some (.ok found)) ∧
      found.map (·.recovered) = LocalEntry.listed true 0 [storedEntry, describedEntry] :=
  (scanLocalHeaders_entries plainCrates none [storedEntry, describedEntry] [0x50, 0x4B, 1, 2]
    (by
      intro e he
      rcases List.mem_pair.1 he with rfl | rfl
      · exact .header rfl rfl rfl rfl ⟨by decide, by decide⟩
      · exact .descriptor rfl ⟨by decide, by decide⟩)
    (by
      intro e he h
      rcases List.mem_pair.1 he with rfl | rfl
      · cases h
      · exact describedEntry_noFalseDescriptor)
    (by decide) (by decide)).1

end Scan

end Squallz.Zip
