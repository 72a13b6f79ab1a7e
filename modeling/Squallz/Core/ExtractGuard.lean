/-
The guard of an extraction: the bytes that its digest is taken of, and that they tell the source, the entries and what is
selected of them.
-/
import Squallz.Api.Times

namespace Squallz.Core

open Squallz.Api Squallz.Bytes

/-! ## What is hashed -/

/-- `update_entry_type`. -/
def entryTypeField : EntryType → List UInt8
  | .file => [1]
  | .dir => [2]
  | .symlink target => 3 :: bytesField target
  | .hardlink target => 4 :: bytesField target
  | .other => [5]

def boolField (b : Bool) : List UInt8 := [if b then 1 else 0]

def u64Field (n : UInt64) : List UInt8 := leBytes 8 n.toNat

def u32Field (n : UInt32) : List UInt8 := leBytes 4 n.toNat

/-- An entry with whether it is selected. -/
def guardedEntryField (guarded : EntryMeta × Bool) : List UInt8 :=
  let (entry, selected) := guarded
  bytesField entry.path.raw ++ (bytesField (utf8Bytes entry.path.display) ++ (bytesField (utf8Bytes entry.path.encoding) ++
    (entryTypeField entry.entryType ++ (u64Field entry.size ++ (optionField u64Field entry.compressedSize ++
    (systemTimeField entry.modified ++ (optionField u32Field entry.unixMode ++ (optionField u32Field entry.crc32 ++
    (boolField entry.encrypted ++ boolField selected)))))))))

def isSelected (selection : Option (List EntryPath)) (entry : EntryMeta) : Bool :=
  selection.all fun paths => (paths.map (·.raw)).contains entry.path.raw

/-- Byte strings whose length is a number of 64 bits, as that of every slice is. -/
def Sized (bytes : List UInt8) : Prop := bytes.length < 256 ^ 8

instance (bytes : List UInt8) : Decidable (Sized bytes) := inferInstanceAs (Decidable (bytes.length < 256 ^ 8))

structure EntryFits (entry : EntryMeta) : Prop where
  raw : Sized entry.path.raw
  display : Sized (utf8Bytes entry.path.display)
  encoding : Sized (utf8Bytes entry.path.encoding)
  target : ∀ target, entry.entryType = .symlink target ∨ entry.entryType = .hardlink target → Sized target

/-- What an extraction is asked for: `ArchiveSourceState` of the archive, its entries and the paths that are selected. -/
structure ExtractInput where
  source : List UInt8
  entries : List EntryMeta
  selection : Option (List EntryPath)
  source_length : source.length = 32
  entries_lt : entries.length < 256 ^ 8
  entries_fit : ∀ entry ∈ entries, EntryFits entry

namespace ExtractInput

def guarded (input : ExtractInput) : List (EntryMeta × Bool) :=
  input.entries.map fun entry => (entry, isSelected input.selection entry)

/-- The bytes that `build_extract_input_guard` hashes. -/
def stream (input : ExtractInput) : List UInt8 :=
  utf8Bytes "squallz-extract-input-guard-v1" ++ (0 :: (input.source ++ (boolField input.selection.isSome ++
    (leBytes 8 input.entries.length ++ input.guarded.flatMap guardedEntryField))))

/-- `build_extract_input_guard`. -/
def guard {D : Type} (blake3 : List UInt8 → D) (input : ExtractInput) : D := blake3 input.stream

end ExtractInput

/-! ## What the fields tell -/

theorem delimited_boolField : Delimited (fun _ => True) boolField := by
  refine delimited_of_length (fun _ => rfl) fun a b _ _ h => ?_
  revert h
  cases a
  · cases b
    · exact fun _ => rfl
    · exact fun h => absurd h (by decide)
  · cases b
    · exact fun h => absurd h (by decide)
    · exact fun _ => rfl

theorem delimited_u64Field : Delimited (fun _ => True) u64Field := by
  intro a b x y _ _ heq
  obtain ⟨hab, hxy⟩ := delimited_leBytes 8 _ _ x y a.toNat_lt b.toNat_lt heq
  exact ⟨UInt64.toNat_inj.1 hab, hxy⟩

theorem delimited_u32Field : Delimited (fun _ => True) u32Field := by
  intro a b x y _ _ heq
  obtain ⟨hab, hxy⟩ := delimited_leBytes 4 _ _ x y a.toNat_lt b.toNat_lt heq
  exact ⟨UInt32.toNat_inj.1 hab, hxy⟩

theorem delimited_textField : Delimited (fun text : String => Sized (utf8Bytes text)) fun text => bytesField (utf8Bytes text) := by
  refine delimited_bytesField.comap fun a b h => ?_
  have := congrArg fromUtf8 h
  rw [fromUtf8_utf8Bytes, fromUtf8_utf8Bytes] at this
  exact Option.some.inj this

theorem delimited_entryTypeField :
    Delimited (fun entryType => ∀ target, entryType = .symlink target ∨ entryType = .hardlink target → Sized target)
      entryTypeField := by
  intro a b x y ha hb heq
  -- the tags tell the kinds apart
  have htag := congrArg List.head? heq
  cases a <;> cases b <;> simp [entryTypeField] at htag <;> simp only [entryTypeField, List.cons_append] at heq
  case symlink.symlink s t =>
    obtain ⟨rfl, hxy⟩ := delimited_bytesField s t x y (ha s (.inl rfl)) (hb t (.inl rfl)) (List.cons.inj heq).2
    exact ⟨rfl, hxy⟩
  case hardlink.hardlink s t =>
    obtain ⟨rfl, hxy⟩ := delimited_bytesField s t x y (ha s (.inr rfl)) (hb t (.inr rfl)) (List.cons.inj heq).2
    exact ⟨rfl, hxy⟩
  all_goals exact ⟨rfl, (List.cons.inj heq).2⟩

/-- Every field of an entry is told from the ones behind it. -/
theorem delimited_guardedEntryField :
    Delimited (fun guarded : EntryMeta × Bool => EntryFits guarded.1) guardedEntryField := by
  rintro ⟨⟨apath, atype, asize, acompressed, amodified, amode, acrc, aencrypted⟩, aselected⟩
    ⟨⟨bpath, btype, bsize, bcompressed, bmodified, bmode, bcrc, bencrypted⟩, bselected⟩ x y ha hb heq
  obtain ⟨araw, adisplay, aencoding⟩ := apath
  obtain ⟨braw, bdisplay, bencoding⟩ := bpath
  simp only [guardedEntryField, List.append_assoc] at heq
  obtain ⟨rfl, hdisplay⟩ := delimited_bytesField _ _ _ _ ha.raw hb.raw heq
  obtain ⟨rfl, hencoding⟩ := delimited_textField _ _ _ _ ha.display hb.display hdisplay
  obtain ⟨rfl, htype⟩ := delimited_textField _ _ _ _ ha.encoding hb.encoding hencoding
  obtain ⟨rfl, hsize⟩ := delimited_entryTypeField _ _ _ _ ha.target hb.target htype
  obtain ⟨rfl, hcompressed⟩ := delimited_u64Field _ _ _ _ trivial trivial hsize
  obtain ⟨rfl, hmodified⟩ := delimited_u64Field.option _ _ _ _ (fun _ _ => trivial) (fun _ _ => trivial) hcompressed
  obtain ⟨rfl, hmode⟩ := delimited_systemTimeField _ _ _ _ trivial trivial hmodified
  obtain ⟨rfl, hcrc⟩ := delimited_u32Field.option _ _ _ _ (fun _ _ => trivial) (fun _ _ => trivial) hmode
  obtain ⟨rfl, hencrypted⟩ := delimited_u32Field.option _ _ _ _ (fun _ _ => trivial) (fun _ _ => trivial) hcrc
  obtain ⟨rfl, hselected⟩ := delimited_boolField _ _ _ _ trivial trivial hencrypted
  obtain ⟨rfl, hxy⟩ := delimited_boolField _ _ _ _ trivial trivial hselected
  exact ⟨rfl, hxy⟩

/-! ## What the guard tells -/

/-- Inputs that are hashed alike have the same source and the same entries in the same order, both or neither have a
selection, and the same entries are selected. -/
theorem extract_guard_identifies_plan (a b : ExtractInput) (h : a.stream = b.stream) :
    a.source = b.source ∧ a.selection.isSome = b.selection.isSome ∧ a.entries = b.entries ∧
      ∀ entry ∈ a.entries, isSelected a.selection entry = isSelected b.selection entry := by
  have heq := (List.cons.inj (List.append_cancel_left h)).2
  obtain ⟨hsource, heq⟩ := delimited_fixed 32 _ _ _ _ a.source_length b.source_length heq
  obtain ⟨hselection, heq⟩ := delimited_boolField _ _ _ _ trivial trivial heq
  obtain ⟨hlength, heq⟩ := delimited_leBytes 8 _ _ _ _ a.entries_lt b.entries_lt heq
  have hfits : ∀ input : ExtractInput, ∀ guarded ∈ input.guarded, EntryFits guarded.1 := by
    intro input guarded hmem
    obtain ⟨entry, hentry, rfl⟩ := List.mem_map.1 hmem
    exact input.entries_fit entry hentry
  have hguarded : a.guarded = b.guarded ∧ ([] : List UInt8) = [] := by
    refine delimited_guardedEntryField.list ?_ (hfits a) (hfits b) (by rw [List.append_nil, List.append_nil]; exact heq)
    rw [ExtractInput.guarded, ExtractInput.guarded, List.length_map, List.length_map, hlength]
  have hentries : a.entries = b.entries := by
    have := congrArg (List.map Prod.fst) hguarded.1
    simpa [ExtractInput.guarded, Function.comp_def] using this
  refine ⟨hsource, hselection, hentries, fun entry hentry => ?_⟩
  have hmasks := hguarded.1
  rw [ExtractInput.guarded, ExtractInput.guarded, ← hentries, List.map_inj_left] at hmasks
  exact (Prod.mk.inj (hmasks entry hentry)).2

/-- A link and a file, of which some paths select the file. -/
def sampleInput (selection : List EntryPath) : ExtractInput where
  source := List.replicate 32 7
  entries := [⟨.fromUtf8 "a", .symlink [98], 1, none, none, some 0o777, none, false⟩,
    ⟨.fromUtf8 "b", .file, 3, some 2, some .beforeEpoch, none, some 9, true⟩]
  selection := some selection
  source_length := List.length_replicate
  entries_lt := by decide
  entries_fit := by
    intro entry hentry
    rcases List.mem_cons.1 hentry with rfl | hentry
    · refine ⟨by decide, by decide, by decide, fun target h => ?_⟩
      rcases h with h | h
      · cases h
        decide
      · cases h
    · rw [List.mem_singleton.1 hentry]
      refine ⟨by decide, by decide, by decide, fun target h => ?_⟩
      rcases h with h | h
      · cases h
      · cases h

/-- Paths that select nothing more make no difference. -/
theorem extract_guard_sample :
    (sampleInput [.fromUtf8 "b"]).stream = (sampleInput [.fromUtf8 "b", .fromUtf8 "c"]).stream ∧
      ∀ entry ∈ (sampleInput []).entries,
        isSelected (some [.fromUtf8 "b"]) entry = isSelected (some [.fromUtf8 "b", .fromUtf8 "c"]) entry :=
  have hstream : (sampleInput [.fromUtf8 "b"]).stream = (sampleInput [.fromUtf8 "b", .fromUtf8 "c"]).stream := by
    decide +kernel
  ⟨hstream, (extract_guard_identifies_plan _ _ hstream).2.2.2⟩

end Squallz.Core
