/-
Data descriptors with and without their signature: a descriptor without one is found before the next local header and at
the end of the file, so that the last entry before a central directory is not recovered as it was written.
-/
import Squallz.Zip.LocalRecovery

namespace Squallz.Zip

open Squallz.Api Squallz.Bytes

def centralHeaderSignature : List UInt8 := [0x50, 0x4B, 0x01, 0x02]

/-! ## Searches without a signature -/

section Search

variable {file : List UInt8} {dataOffset : Nat} {zip64 : Bool}

theorem descriptorBeforeHeader_skip {nextHeader : Nat} (hroom : nextHeader + 4 ≤ file.length)
    (hsignature : slice file nextHeader 4 ≠ localHeaderSignature) :
    descriptorBeforeHeader file dataOffset zip64 nextHeader = .ok none := by
  rw [descriptorBeforeHeader, readExactAt_eq hroom, ok_bind, if_neg hsignature]
  rfl

theorem findDataDescriptor_of_unsigned (hlen : file.length < 2 ^ 64)
    (hsignature : ∀ i, dataOffset ≤ i → slice file i 4 ≠ descriptorSignature) :
    findDataDescriptor file dataOffset zip64 = (do
      match ← (positions file (dataOffset + descriptorLen zip64) 4).findSomeM?
          (descriptorBeforeHeader file dataOffset zip64) with
      | some found => pure (some found)
      | none =>
        if (checkedAddU64 dataOffset (descriptorLen zip64)).any (· ≤ file.length) then
          readUnsignedDataDescriptor file dataOffset (file.length - descriptorLen zip64) file.length zip64
        else pure none) := by
  have hsigned : (positions file dataOffset (descriptorLen zip64 + 4)).findSomeM?
      (signedDescriptorAt file dataOffset zip64) = .ok none := by
    apply findSomeM?_none
    intro offset hoffset
    have hplace := mem_positions.1 hoffset
    rw [signedDescriptorAt_eq hlen hplace.2, if_neg fun h => hsignature offset hplace.1 h.1]
  rw [findDataDescriptor, hsigned]
  rfl

/-- A descriptor without a signature is found before the next header. -/
theorem findDataDescriptor_before {n : Nat} (hlen : file.length < 2 ^ 64)
    (hsignature : ∀ i, dataOffset ≤ i → slice file i 4 ≠ descriptorSignature)
    (hroom : dataOffset + n + descriptorLen zip64 + 4 ≤ file.length)
    (hheader : slice file (dataOffset + n + descriptorLen zip64) 4 = localHeaderSignature)
    (hsize : (fieldsAt file zip64 (dataOffset + n)).compressedSize = n)
    (hfirst : ∀ i, dataOffset + descriptorLen zip64 ≤ i → i < dataOffset + n + descriptorLen zip64 →
      slice file i 4 ≠ localHeaderSignature) :
    findDataDescriptor file dataOffset zip64 =
      .ok (some (fieldsAt file zip64 (dataOffset + n), dataOffset + n + descriptorLen zip64)) := by
  have hfound : (positions file (dataOffset + descriptorLen zip64) 4).findSomeM?
      (descriptorBeforeHeader file dataOffset zip64) =
        .ok (some (fieldsAt file zip64 (dataOffset + n), dataOffset + n + descriptorLen zip64)) := by
    apply search_positions (dataOffset + n + descriptorLen zip64) (by omega) hroom
    · intro i hstart hbefore
      exact descriptorBeforeHeader_skip (by omega) (hfirst i hstart hbefore)
    · have hsub : checkedSubU64 (dataOffset + n + descriptorLen zip64) (descriptorLen zip64) = some (dataOffset + n) := by
        rw [checkedSubU64, if_pos (Nat.le_add_left _ _), Nat.add_sub_cancel]
      rw [descriptorBeforeHeader, readExactAt_eq hroom, ok_bind, if_pos hheader, hsub]
      dsimp only
      rw [readUnsignedDataDescriptor_eq _ hlen (by omega), if_pos (by rw [hsize])]
  rw [findDataDescriptor_of_unsigned hlen hsignature, hfound]
  rfl

/-- Where no header follows, the descriptor is looked for at the end of the file only. -/
theorem findDataDescriptor_end (hlen : file.length < 2 ^ 64)
    (hsignature : ∀ i, dataOffset ≤ i → slice file i 4 ≠ descriptorSignature)
    (hheader : ∀ i, dataOffset + descriptorLen zip64 ≤ i → slice file i 4 ≠ localHeaderSignature)
    (hroom : dataOffset + descriptorLen zip64 ≤ file.length) :
    findDataDescriptor file dataOffset zip64 =
      .ok (if dataOffset + (fieldsAt file zip64 (file.length - descriptorLen zip64)).compressedSize =
          file.length - descriptorLen zip64
        then some (fieldsAt file zip64 (file.length - descriptorLen zip64), file.length) else none) := by
  have hnone : (positions file (dataOffset + descriptorLen zip64) 4).findSomeM?
      (descriptorBeforeHeader file dataOffset zip64) = .ok none := by
    apply findSomeM?_none
    intro i hi
    have hplace := mem_positions.1 hi
    exact descriptorBeforeHeader_skip hplace.2 (hheader i hplace.1)
  have hchecked : (checkedAddU64 dataOffset (descriptorLen zip64)).any (· ≤ file.length) = true := by
    rw [checkedAddU64_eq (by omega), Option.any_some, decide_eq_true_eq]
    exact hroom
  rw [findDataDescriptor_of_unsigned hlen hsignature, hnone]
  show (if _ then _ else _) = _
  rw [if_pos hchecked, readUnsignedDataDescriptor_eq _ hlen (by omega)]

end Search

/-! ## Where signatures stand -/

namespace LocalEntry

/-- Where the headers of entries stand. -/
def headerOffsets (signed : Bool) : Nat → List LocalEntry → List Nat
  | _, [] => []
  | offset, e :: entries => offset :: headerOffsets signed (offset + (e.encode signed).length) entries

/-- Where the descriptors of entries stand. -/
def descriptorOffsets (signed : Bool) : Nat → List LocalEntry → List Nat
  | _, [] => []
  | offset, e :: entries =>
    (if e.hasDescriptor then [e.dataOffset offset + e.payload.length] else []) ++
      descriptorOffsets signed (offset + (e.encode signed).length) entries

variable {signed : Bool} {entries : List LocalEntry} {offset i : Nat}

theorem headerOffsets_bounds (h : i ∈ headerOffsets signed offset entries) :
    offset ≤ i ∧ i < offset + (encodeAll signed entries).length := by
  induction entries generalizing offset with
  | nil => cases h
  | cons e entries ih =>
    have hencode := @length_encode e signed
    have hall : (encodeAll signed (e :: entries)).length = (e.encode signed).length + (encodeAll signed entries).length :=
      List.length_append
    rcases List.mem_cons.1 h with rfl | h
    · omega
    · have := ih h
      omega

theorem descriptorOffsets_ge (h : i ∈ descriptorOffsets signed offset entries) : offset ≤ i := by
  induction entries generalizing offset with
  | nil => cases h
  | cons e entries ih =>
    rcases List.mem_append.1 h with h | h
    · split at h
      · rw [List.mem_singleton.1 h, dataOffset]
        omega
      · cases h
    · have := ih h
      omega

end LocalEntry

/-- From an offset on, the signatures stand only where entries have them. -/
structure SignaturesFrom (signed : Bool) (file : List UInt8) (offset : Nat) (entries : List LocalEntry) : Prop where
  header : ∀ i, offset ≤ i → slice file i 4 = localHeaderSignature → i ∈ LocalEntry.headerOffsets signed offset entries
  descriptor : ∀ i, offset ≤ i → slice file i 4 = descriptorSignature →
    signed = true ∧ i ∈ LocalEntry.descriptorOffsets signed offset entries

/-- The signatures of local headers and of descriptors stand only where the encoding puts them. -/
def SignaturesPlaced (signed : Bool) (entries : List LocalEntry) (tail : List UInt8) : Prop :=
  SignaturesFrom signed (encodeAll signed entries ++ tail) 0 entries

section Placed

variable {signed : Bool} {e : LocalEntry} {entries : List LocalEntry} {front tail : List UInt8}

theorem SignaturesFrom.behind {file : List UInt8} {offset : Nat} (h : SignaturesFrom signed file offset (e :: entries)) :
    SignaturesFrom signed file (offset + (e.encode signed).length) entries := by
  have hencode := @LocalEntry.length_encode e signed
  refine ⟨fun i hi hslice => ?_, fun i hi hslice => ?_⟩
  · rcases List.mem_cons.1 (h.header i (by omega) hslice) with rfl | hmem
    · omega
    · exact hmem
  · obtain ⟨hsigned, hmem⟩ := h.descriptor i (by omega) hslice
    refine ⟨hsigned, ?_⟩
    rcases List.mem_append.1 hmem with hmem | hmem
    · -- a signed descriptor is longer than its signature, so it does not begin behind the entry
      split at hmem
      · rename_i hd
        have hdescriptor := @LocalEntry.length_descriptor e signed hd
        rw [hsigned, if_pos rfl] at hdescriptor
        rw [hsigned] at hi hencode
        rw [List.mem_singleton.1 hmem, LocalEntry.dataOffset] at hi
        omega
      · cases hmem
    · exact hmem

/-- The data of an entry holds no signature of a descriptor. -/
theorem SignaturesFrom.noFalseDescriptor
    (h : SignaturesFrom true (front ++ (encodeAll true (e :: entries) ++ tail)) front.length (e :: entries))
    (hd : e.hasDescriptor = true) : e.NoFalseDescriptor := by
  intro k hk
  have hinside : k + 4 ≤ e.payload.length := by
    have hlength := congrArg List.length hk
    rw [length_slice] at hlength
    have : descriptorSignature.length = 4 := rfl
    omega
  have hslice : slice (front ++ (encodeAll true (e :: entries) ++ tail)) (e.dataOffset front.length + k) 4 =
      descriptorSignature := by
    rw [encodeAll_cons, LocalEntry.slice_data, slice_append_left hinside, hk]
  have hencode := @LocalEntry.length_encode e true
  obtain ⟨-, hmem⟩ := h.descriptor _ (by rw [LocalEntry.dataOffset]; omega) hslice
  rw [LocalEntry.descriptorOffsets, if_pos hd] at hmem
  rcases List.mem_append.1 hmem with hmem | hmem
  · have := List.mem_singleton.1 hmem
    omega
  · have hlater := LocalEntry.descriptorOffsets_ge hmem
    rw [LocalEntry.dataOffset] at hlater
    omega

theorem SignaturesFrom.noFalseDescriptors {entries : List LocalEntry} {front tail : List UInt8}
    (h : SignaturesFrom true (front ++ (encodeAll true entries ++ tail)) front.length entries) :
    ∀ e ∈ entries, e.hasDescriptor = true → e.NoFalseDescriptor := by
  induction entries generalizing front with
  | nil =>
    intro e he
    cases he
  | cons e entries ih =>
    intro b hb hd
    rcases List.mem_cons.1 hb with rfl | hb
    · exact h.noFalseDescriptor hd
    · have hbehind := h.behind
      rw [encodeAll_cons, ← List.append_assoc, ← List.length_append] at hbehind
      exact ih hbehind b hb hd

theorem SignaturesPlaced.not_infix (h : SignaturesPlaced signed entries tail) : ¬ localHeaderSignature <:+: tail := by
  rintro ⟨before, after, rfl⟩
  have hslice : slice (encodeAll signed entries ++ (before ++ localHeaderSignature ++ after))
      ((encodeAll signed entries).length + before.length) 4 = localHeaderSignature := by
    rw [List.append_assoc, ← List.append_assoc]
    exact slice_middle List.length_append.symm rfl
  have hbounds := LocalEntry.headerOffsets_bounds (h.header _ (Nat.zero_le _) hslice)
  omega

end Placed

/-! ## The scan of entries without signatures -/

section Unsigned

variable {e b : LocalEntry} {entries : List LocalEntry} {front tail : List UInt8}

/-- An entry that is followed by another one is found. -/
theorem findDataDescriptor_followed (hd : e.hasDescriptor = true) (hsized : e.Sized)
    (hplaced : SignaturesFrom false (front ++ (encodeAll false (e :: b :: entries) ++ tail)) front.length (e :: b :: entries))
    (hlen : (front ++ (encodeAll false (e :: b :: entries) ++ tail)).length < 2 ^ 64) :
    findDataDescriptor (front ++ (encodeAll false (e :: b :: entries) ++ tail)) (e.dataOffset front.length) e.zip64 =
      .ok (some (e.description, front.length + (e.encode false).length)) := by
  obtain ⟨hpayload, hsize⟩ := hsized.widths hd
  have hdescriptor := @LocalEntry.length_descriptor e false hd
  rw [if_neg Bool.false_ne_true, Nat.zero_add] at hdescriptor
  have hnext : front.length + (e.encode false).length =
      e.dataOffset front.length + e.payload.length + descriptorLen e.zip64 := by
    rw [LocalEntry.length_encode, hdescriptor, LocalEntry.dataOffset]
    omega
  have hfields := @LocalEntry.fieldsAt_descriptor e front (encodeAll false (b :: entries) ++ tail) false hd hpayload hsize
  rw [if_neg Bool.false_ne_true, Nat.add_zero, ← encodeAll_cons] at hfields
  have hbehind : (front ++ e.encode false).length = front.length + (e.encode false).length := List.length_append
  have hfile : front ++ (encodeAll false (e :: b :: entries) ++ tail) =
      (front ++ e.encode false) ++ (b.encode false ++ (encodeAll false entries ++ tail)) := by
    rw [encodeAll_cons, encodeAll_cons, List.append_assoc]
  have hencode := @LocalEntry.length_encode b false
  rw [hnext, ← hfields]
  apply findDataDescriptor_before hlen
  · intro i hi hslice
    cases (hplaced.descriptor i (by rw [LocalEntry.dataOffset] at hi; omega) hslice).1
  · rw [hfile, List.length_append, hbehind, List.length_append]
    omega
  · rw [← hnext, ← hbehind, hfile]
    exact LocalEntry.slice_signature
  · rw [hfields]
    rfl
  · intro i hlow hhigh hslice
    rw [LocalEntry.dataOffset] at hlow
    rcases List.mem_cons.1 (hplaced.header i (by omega) hslice) with rfl | hmem
    · omega
    · have := (LocalEntry.headerOffsets_bounds hmem).1
      omega

/-- The last entry is looked for at the end of the file. -/
theorem findDataDescriptor_last (hd : e.hasDescriptor = true)
    (hplaced : SignaturesFrom false (front ++ (encodeAll false [e] ++ tail)) front.length [e])
    (hlen : (front ++ (encodeAll false [e] ++ tail)).length < 2 ^ 64) :
    findDataDescriptor (front ++ (encodeAll false [e] ++ tail)) (e.dataOffset front.length) e.zip64 =
      .ok (if (fieldsAt (front ++ (encodeAll false [e] ++ tail)) e.zip64
            (e.dataOffset front.length + e.payload.length + tail.length)).compressedSize = e.payload.length + tail.length
        then some (fieldsAt (front ++ (encodeAll false [e] ++ tail)) e.zip64
            (e.dataOffset front.length + e.payload.length + tail.length), (front ++ (encodeAll false [e] ++ tail)).length)
        else none) := by
  have hdescriptor := @LocalEntry.length_descriptor e false hd
  rw [if_neg Bool.false_ne_true, Nat.zero_add] at hdescriptor
  have hlength := @LocalEntry.length_file e front tail false
  rw [hdescriptor] at hlength
  have hfile : front ++ (encodeAll false [e] ++ tail) = front ++ (e.encode false ++ tail) := by
    rw [encodeAll_cons]
    rfl
  have hend : (front ++ (encodeAll false [e] ++ tail)).length - descriptorLen e.zip64 =
      e.dataOffset front.length + e.payload.length + tail.length := by
    rw [hfile, hlength]
    omega
  rw [findDataDescriptor_end hlen, hend]
  · simp only [Nat.add_assoc, Nat.add_left_cancel_iff]
  · intro i hi hslice
    cases (hplaced.descriptor i (by rw [LocalEntry.dataOffset] at hi; omega) hslice).1
  · intro i hi hslice
    rw [LocalEntry.dataOffset] at hi
    rcases List.mem_cons.1 (hplaced.header i (by omega) hslice) with rfl | hmem
    · omega
    · cases hmem
  · rw [hfile, hlength]
    omega

variable {DosTime : Type} {tryFromMsdos : Nat → Nat → Option DosTime} {fromZipDatetime : DosTime → Option SystemTime}
  {rounds : Nat}

/-- At the end of the file the scan is over. -/
theorem scanRounds_end {file : List UInt8} (hlen : file.length + 30 < 2 ^ 64) :
    scanRounds tryFromMsdos fromZipDatetime file (rounds + 1) file.length = some (.ok []) := by
  apply scanRounds_tail hlen (Nat.le_refl _)
  · intro i hi hslice
    have hlength := congrArg List.length hslice
    rw [length_slice] at hlength
    have : localHeaderSignature.length = 4 := rfl
    omega
  · omega

/-- The compressed sizes of what the scan finds. -/
def compressedSizes (found : List LocalCandidate) : List UInt64 := found.map fun candidate => .ofNat candidate.compressedSize

theorem compressedSizes_candidates (signed : Bool) (offset : Nat) (entries : List LocalEntry) :
    compressedSizes (LocalEntry.candidates tryFromMsdos fromZipDatetime signed offset entries) =
      entries.map fun e => UInt64.ofNat e.payload.length := by
  induction entries generalizing offset with
  | nil => rfl
  | cons e entries ih =>
    rw [LocalEntry.candidates, List.map_cons, ← ih]
    rfl

theorem scanRounds_last (hd : e.hasDescriptor = true) (hsized : e.Sized)
    (hplaced : SignaturesFrom false (front ++ (encodeAll false [e] ++ tail)) front.length [e])
    (hlen : (front ++ (encodeAll false [e] ++ tail)).length + 30 < 2 ^ 64) :
    ∃ found, scanRounds tryFromMsdos fromZipDatetime (front ++ (encodeAll false [e] ++ tail)) (rounds + 2) front.length =
        some (.ok found) ∧
      (tail = [] → found = LocalEntry.candidates tryFromMsdos fromZipDatetime false front.length [e]) ∧
      (tail ≠ [] → compressedSizes found ≠ [UInt64.ofNat e.payload.length]) := by
  have hfile : front ++ (encodeAll false [e] ++ tail) = front ++ (e.encode false ++ tail) := by
    rw [encodeAll_cons]
    rfl
  have hlast := findDataDescriptor_last hd hplaced (by omega)
  rw [← LocalEntry.localSizes_of_descriptor hd, hfile] at hlast
  rw [hfile] at hlen ⊢
  have hround := @scanRound_entry _ tryFromMsdos fromZipDatetime e front tail false hlen _ hlast
  have hlength := @LocalEntry.length_file e front tail false
  rw [scanRounds, hround]
  by_cases hsize : (fieldsAt (front ++ (e.encode false ++ tail)) e.zip64
      (e.dataOffset front.length + e.payload.length + tail.length)).compressedSize = e.payload.length + tail.length
  · rw [if_pos hsize]
    dsimp only [LocalEntry.round]
    rw [scanRounds_end hlen]
    refine ⟨_, rfl, ?_, ?_⟩
    · rintro rfl
      have hfields := @LocalEntry.fieldsAt_descriptor e front [] false hd (hsized.widths hd).1 (hsized.widths hd).2
      rw [if_neg Bool.false_ne_true] at hfields
      rw [List.length_nil, hfields]
      rfl
    · intro htail hsizes
      have hpos : 0 < tail.length := List.length_pos_iff.2 htail
      have hhead := congrArg (fun sizes => (sizes.headD 0).toNat) hsizes
      have hleft : (UInt64.ofNat (e.payload.length + tail.length)).toNat = (UInt64.ofNat e.payload.length).toNat := by
        rw [← hsize]
        exact hhead
      rw [UInt64.toNat_ofNat_of_lt' (show e.payload.length + tail.length < 2 ^ 64 by omega),
        UInt64.toNat_ofNat_of_lt' (show e.payload.length < 2 ^ 64 by omega)] at hleft
      omega
  · rw [if_neg hsize]
    refine ⟨[], rfl, ?_, ?_⟩
    · rintro rfl
      have hfields := @LocalEntry.fieldsAt_descriptor e front [] false hd (hsized.widths hd).1 (hsized.widths hd).2
      rw [if_neg Bool.false_ne_true] at hfields
      rw [List.length_nil, hfields] at hsize
      exact absurd rfl hsize
    · intro _ hsizes
      cases hsizes

/-- All entries are found, as long as nothing follows the last one; if something does, the sizes are not the same. -/
theorem scanRounds_unsigned (hd : ∀ e ∈ entries, e.hasDescriptor = true ∧ e.Sized)
    (hplaced : SignaturesFrom false (front ++ (encodeAll false entries ++ tail)) front.length entries)
    (hlen : (front ++ (encodeAll false entries ++ tail)).length + 30 < 2 ^ 64)
    (hrounds : (encodeAll false entries ++ tail).length < rounds) :
    ∃ found, scanRounds tryFromMsdos fromZipDatetime (front ++ (encodeAll false entries ++ tail)) rounds front.length =
        some (.ok found) ∧
      (tail = [] ∨ entries = [] → found = LocalEntry.candidates tryFromMsdos fromZipDatetime false front.length entries) ∧
      (tail ≠ [] → entries ≠ [] → compressedSizes found ≠ entries.map fun e => UInt64.ofNat e.payload.length) := by
  induction entries generalizing front rounds with
  | nil =>
    refine ⟨[], ?_, fun _ => rfl, fun _ h => absurd rfl h⟩
    apply scanRounds_tail hlen (by rw [List.length_append]; exact Nat.le_add_right _ _)
    · intro i hi hslice
      cases hplaced.header i hi hslice
    · rw [List.length_append, Nat.add_sub_cancel_left]
      exact hrounds
  | cons e entries ih =>
    obtain ⟨hdescriptor, hsized⟩ := hd e List.mem_cons_self
    have hencode := @LocalEntry.length_encode e false
    have hcons : (encodeAll false (e :: entries) ++ tail).length =
        (e.encode false).length + (encodeAll false entries ++ tail).length := by
      rw [encodeAll_cons, List.length_append]
    cases entries with
    | nil =>
      obtain ⟨more, rfl⟩ := Nat.exists_eq_add_of_lt (show 1 < rounds by omega)
      rw [show 1 + more + 1 = more + 2 by omega]
      obtain ⟨found, hfound, hsame, hother⟩ := scanRounds_last hdescriptor hsized hplaced hlen
      exact ⟨found, hfound, fun h => hsame (h.resolve_right (List.cons_ne_nil _ _)), fun h _ => hother h⟩
    | cons b entries =>
      obtain ⟨more, rfl⟩ := Nat.exists_eq_add_of_lt (show 0 < rounds by omega)
      have hfollowed := findDataDescriptor_followed hdescriptor hsized hplaced (by omega)
      rw [← LocalEntry.localSizes_of_descriptor hdescriptor] at hfollowed
      have hbehind := hplaced.behind
      have hfront : (front ++ e.encode false).length = front.length + (e.encode false).length := List.length_append
      rw [encodeAll_cons] at hfollowed hlen hbehind
      rw [← hfront, ← List.append_assoc] at hbehind
      obtain ⟨found, hfound, hsame, hother⟩ := ih (fun x hx => hd x (List.mem_cons_of_mem e hx)) hbehind
        (by rw [List.append_assoc]; exact hlen) (show _ < 0 + more by omega)
      rw [hfront, List.append_assoc] at hfound
      rw [encodeAll_cons, scanRounds, scanRound_entry hlen hfollowed]
      dsimp only [LocalEntry.round]
      rw [hfound]
      refine ⟨_, rfl, ?_, ?_⟩
      · intro h
        rw [hsame (Or.inl (h.resolve_right (List.cons_ne_nil _ _))), hfront]
        rfl
      · intro htail _ hsizes
        exact hother htail (List.cons_ne_nil _ _) (List.tail_eq_of_cons_eq hsizes)

end Unsigned

/-! ## Both encodings -/

/-- The name, the sizes and the CRC of an entry. -/
structure EntrySummary where
  path : EntryPath
  size : UInt64
  compressedSize : Option UInt64
  crc : Option UInt32
deriving DecidableEq, Repr

def LocalZipEntry.summary (entry : LocalZipEntry) : EntrySummary :=
  ⟨entry.metadata.path, entry.metadata.size, entry.metadata.compressedSize, entry.metadata.crc32⟩

section Both

variable {DosTime Encoding Glob : Type} (tryFromMsdos : Nat → Nat → Option DosTime)
  (fromZipDatetime : DosTime → Option SystemTime) (crates : Crates Encoding Glob) (encodingOverride : Option String)

/-- The entries that a scan recovers, as far as they are compared. -/
def recoveredEntries (file : List UInt8) (rounds : Nat) : Option (Res (List EntrySummary)) :=
  (scanLocalHeaders tryFromMsdos fromZipDatetime crates encodingOverride file rounds).map fun scanned =>
    (·.map (·.summary)) <$> scanned

/-- What the two scans have in common: names, sizes and CRCs do not depend on where the entries stand. -/
theorem summaries_candidates (signed signed' : Bool) (offset offset' : Nat) (fallback : Option Encoding)
    (entries : List LocalEntry) :
    ((LocalEntry.candidates tryFromMsdos fromZipDatetime signed offset entries).map (·.entry crates fallback)).map
      (·.summary) =
    ((LocalEntry.candidates tryFromMsdos fromZipDatetime signed' offset' entries).map (·.entry crates fallback)).map
      (·.summary) := by
  induction entries generalizing offset offset' with
  | nil => rfl
  | cons e entries ih =>
    rw [LocalEntry.candidates, LocalEntry.candidates, List.map_cons, List.map_cons, List.map_cons, List.map_cons, ih]
    rfl

theorem rawNames_candidates (signed : Bool) (offset : Nat) (entries : List LocalEntry) :
    (LocalEntry.candidates tryFromMsdos fromZipDatetime signed offset entries).map (·.rawName) = entries.map (·.name) := by
  induction entries generalizing offset with
  | nil => rfl
  | cons e entries ih =>
    rw [LocalEntry.candidates, List.map_cons, ih]
    rfl

variable {tryFromMsdos fromZipDatetime}

theorem recoveredEntries_eq {file : List UInt8} {rounds : Nat} {candidates : List LocalCandidate}
    (h : scanRounds tryFromMsdos fromZipDatetime file rounds 0 = some (.ok candidates)) :
    recoveredEntries tryFromMsdos fromZipDatetime crates encodingOverride file rounds =
      some (.ok ((candidates.map (·.entry crates
        (resolveFallbackEncoding crates (candidates.map (·.rawName)) encodingOverride))).map (·.summary))) := by
  rw [recoveredEntries, scanLocalHeaders_eq crates encodingOverride h]
  rfl

/-- The compressed sizes are part of what is compared. -/
theorem compressedSizes_of_summaries {candidates candidates' : List LocalCandidate} {fallback fallback' : Option Encoding}
    (h : (candidates.map (·.entry crates fallback)).map (·.summary) =
      (candidates'.map (·.entry crates fallback')).map (·.summary)) :
    compressedSizes candidates = compressedSizes candidates' := by
  have hsizes := congrArg (List.map fun summary : EntrySummary => summary.compressedSize.getD 0) h
  simp only [List.map_map] at hsizes
  exact hsizes

variable (tryFromMsdos fromZipDatetime)

/-- Entries with signed and with unsigned descriptors are recovered alike exactly when nothing follows them, or there
are none: before a central directory the last unsigned descriptor is not found. -/
theorem recoveredEntries_unsigned_iff (entries : List LocalEntry) (tail tail' : List UInt8)
    (hentries : ∀ e ∈ entries, e.hasDescriptor = true ∧ e.Sized)
    (htail : tail = [] ∧ tail' = [] ∨ centralHeaderSignature <+: tail ∧ centralHeaderSignature <+: tail')
    (hsigned : SignaturesPlaced true entries tail) (hunsigned : SignaturesPlaced false entries tail')
    (hlen : (encodeAll true entries ++ tail).length + 30 < 2 ^ 64)
    (hlen' : (encodeAll false entries ++ tail').length + 30 < 2 ^ 64) (rounds rounds' : Nat)
    (hrounds : (encodeAll true entries ++ tail).length < rounds)
    (hrounds' : (encodeAll false entries ++ tail').length < rounds') :
    recoveredEntries tryFromMsdos fromZipDatetime crates encodingOverride (encodeAll true entries ++ tail) rounds =
      recoveredEntries tryFromMsdos fromZipDatetime crates encodingOverride (encodeAll false entries ++ tail') rounds' ↔
    tail = [] ∨ entries = [] := by
  have hempty : tail = [] ↔ tail' = [] := by
    obtain ⟨rfl, rfl⟩ | ⟨⟨a, rfl⟩, ⟨b, rfl⟩⟩ := htail
    · exact Iff.rfl
    · exact ⟨fun h => (List.cons_ne_nil _ _ h).elim, fun h => (List.cons_ne_nil _ _ h).elim⟩
  have hfound := @scanRounds_entries _ tryFromMsdos fromZipDatetime entries [] tail rounds (fun e he => (hentries e he).2)
    (@SignaturesFrom.noFalseDescriptors entries [] tail hsigned) hsigned.not_infix hlen hrounds
  obtain ⟨found', hfound', hsame, hother⟩ := @scanRounds_unsigned entries [] tail' _ tryFromMsdos fromZipDatetime rounds'
    hentries hunsigned hlen' hrounds'
  rw [List.nil_append] at hfound hfound'
  rw [recoveredEntries_eq crates encodingOverride hfound, recoveredEntries_eq crates encodingOverride hfound']
  constructor
  · intro h
    by_contra hnot
    rw [not_or, hempty] at hnot
    apply hother hnot.1 hnot.2
    rw [← compressedSizes_candidates true 0 entries]
    exact (compressedSizes_of_summaries crates (Except.ok.inj (Option.some.inj h))).symm
  · intro h
    rw [hsame (h.imp_left hempty.1), rawNames_candidates, rawNames_candidates,
      summaries_candidates tryFromMsdos fromZipDatetime crates true false]

end Both

/-- The central directory of the described entry, and the record at its end. -/
def describedDirectory (offset : Nat) : List UInt8 :=
  centralHeaderSignature ++ leBytes 2 20 ++ leBytes 2 20 ++ leBytes 2 8 ++ leBytes 2 0 ++ leBytes 4 0 ++
    leBytes 4 0xE8B7BE43 ++ leBytes 4 1 ++ leBytes 4 1 ++ leBytes 2 1 ++ leBytes 8 0 ++ leBytes 4 0 ++ leBytes 4 0 ++ [98] ++
    [0x50, 0x4B, 0x05, 0x06] ++ leBytes 4 0 ++ leBytes 2 1 ++ leBytes 2 1 ++ leBytes 4 47 ++ leBytes 4 offset ++ leBytes 2 0

/-- Signatures stand inside a file only. -/
theorem signaturesPlaced_of_lt {signed : Bool} {entries : List LocalEntry} {tail : List UInt8}
    (hheader : ∀ i, i < (encodeAll signed entries ++ tail).length →
      slice (encodeAll signed entries ++ tail) i 4 = localHeaderSignature → i ∈ LocalEntry.headerOffsets signed 0 entries)
    (hdescriptor : ∀ i, i < (encodeAll signed entries ++ tail).length →
      slice (encodeAll signed entries ++ tail) i 4 = descriptorSignature →
        signed = true ∧ i ∈ LocalEntry.descriptorOffsets signed 0 entries) : SignaturesPlaced signed entries tail := by
  have hinside : ∀ i (signature : List UInt8), slice (encodeAll signed entries ++ tail) i 4 = signature →
      signature.length = 4 → i < (encodeAll signed entries ++ tail).length := by
    intro i signature hslice hlength
    rw [← hslice, length_slice] at hlength
    omega
  exact ⟨fun i _ h => hheader i (hinside i _ h rfl) h, fun i _ h => hdescriptor i (hinside i _ h rfl) h⟩

theorem describedEntry_placed :
    SignaturesPlaced true [describedEntry] (describedDirectory 48) ∧
      SignaturesPlaced false [describedEntry] (describedDirectory 44) :=
  ⟨signaturesPlaced_of_lt (by decide +kernel) (by decide +kernel),
    signaturesPlaced_of_lt (by decide +kernel) (by decide +kernel)⟩

theorem describedEntry_unsigned :
    recoveredEntries (fun _ _ => some ()) (fun _ => none) plainCrates none
        (encodeAll true [describedEntry] ++ describedDirectory 48) 200 =
      recoveredEntries (fun _ _ => some ()) (fun _ => none) plainCrates none
        (encodeAll false [describedEntry] ++ describedDirectory 44) 200 ↔
    describedDirectory 48 = [] ∨ [describedEntry] = [] :=
  recoveredEntries_unsigned_iff _ _ plainCrates none [describedEntry] (describedDirectory 48) (describedDirectory 44)
    (by
      intro e he
      rw [List.mem_singleton.1 he]
      exact ⟨rfl, .descriptor rfl ⟨by decide, by decide⟩⟩)
    (.inr ⟨⟨_, rfl⟩, ⟨_, rfl⟩⟩) describedEntry_placed.1 describedEntry_placed.2 (by decide +kernel) (by decide +kernel) 200 200
    (by decide +kernel) (by decide +kernel)

/-- Without its signature the descriptor of the only entry is not found before the central directory. -/
theorem unsigned_entry_lost :
    SignaturesPlaced true [describedEntry] (describedDirectory 48) ∧
      SignaturesPlaced false [describedEntry] (describedDirectory 44) ∧
      recoveredEntries (fun _ _ => some ()) (fun _ => none) plainCrates none
          (encodeAll true [describedEntry] ++ describedDirectory 48) 200 ≠
        recoveredEntries (fun _ _ => some ()) (fun _ => none) plainCrates none
          (encodeAll false [describedEntry] ++ describedDirectory 44) 200 := by
  refine ⟨describedEntry_placed.1, describedEntry_placed.2, fun h => ?_⟩
  have hcount := congrArg (fun listed => (listed.bind Except.toOption).map List.length) h
  have hsigned : ((recoveredEntries (fun _ _ => some ()) (fun _ => none) plainCrates none
      (encodeAll true [describedEntry] ++ describedDirectory 48) 200).bind Except.toOption).map List.length = some 1 := by
    decide +kernel
  have hunsigned : ((recoveredEntries (fun _ _ => some ()) (fun _ => none) plainCrates none
      (encodeAll false [describedEntry] ++ describedDirectory 44) 200).bind Except.toOption).map List.length = some 0 := by
    decide +kernel
  rw [hsigned, hunsigned] at hcount
  cases hcount

end Squallz.Zip
