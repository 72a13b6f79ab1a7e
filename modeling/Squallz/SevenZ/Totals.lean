/-
When the listing of an archive and the totals of its extraction do not panic, for TAR and for 7z: the fields of the headers
go unchecked into a time and into sums.
-/
import Squallz.SevenZ.Listing
import Squallz.Tar.Totals

namespace Squallz.SevenZ

open Squallz.Api Squallz.System

/-- The listing does not panic and keeps the times of the table, whatever the decoder and the control token do; nor does the
total of an extraction, which is what the sizes add up to. -/
structure ListsSafely (archive : Archive) (selection : Option (List EntryPath)) : Prop where
  listing : ∀ (D W : Type) (dec : Decoder D) (fromNtTime : UInt64 → SystemTime) (control : W → Except FormatError Unit × W)
    (passwordSupplied : Bool) (t : Listing W × Source D), Safe (entries dec fromNtTime archive control passwordSupplied)
      (fun items _ => (∃ error, items = [.error error]) ∨ List.Forall₂ (fun item (file : ArchiveEntry × Nat) =>
        ∀ listed, item = .ok listed → Describes fromNtTime file.1 listed) items archive.files.zipIdx) t
  total : Sound (extractTotal archive selection) fun total => ∀ sum, total = some sum → sum < 2 ^ 64 ∧
    sum = (totalledSizes archive (selection.map fun paths => paths.map (·.raw))).sum

/-- Where something is selected, its sizes fit 64 bits. -/
def SizesFit (archive : Archive) (selection : Option (List EntryPath)) : Prop :=
  selection ≠ some [] → (totalledSizes archive (selection.map fun paths => paths.map (·.raw))).sum < 2 ^ 64

theorem listsSafely_iff (archive : Archive) (selection : Option (List EntryPath)) :
    ListsSafely archive selection ↔ SizesFit archive selection := by
  obtain ⟨sizes, hsizes⟩ : ∃ sizes, totalledSizes archive (selection.map fun paths => paths.map (·.raw)) = sizes := ⟨_, rfl⟩
  have hsum : sizes.foldlM addU64 0 = if sizes.sum < 2 ^ 64 then .ok sizes.sum else Api.panic "attempt to add with overflow" := by
    rw [foldlM_addU64 (by decide), Nat.zero_add]
  constructor
  · rintro ⟨-, htotal⟩ hselection
    rw [extractTotal, if_neg hselection, hsizes, hsum] at htotal
    rw [hsizes]
    by_contra hlarge
    rw [if_neg hlarge] at htotal
    exact htotal
  · intro hfits
    refine ⟨fun D W dec fromNtTime control passwordSupplied t => safe_entries t, ?_⟩
    refine sound_ite (fun _ sum hnone => by cases hnone) fun hselection => ?_
    have hlt := hfits hselection
    rw [hsizes] at hlt ⊢
    rw [hsum, if_pos hlt]
    rintro _ ⟨⟩
    exact ⟨hlt, rfl⟩

end Squallz.SevenZ

namespace Squallz

open Squallz.Api

/-- The listing and the totals are safe for exactly the archives whose times and sizes fit. -/
theorem untrusted_headers_safe_iff (tarball : Tar.Archive) (seekable : Bool) (archive : SevenZ.Archive)
    (selection : Option (List EntryPath)) :
    (Tar.ListsSafely tarball seekable selection ↔ Tar.HeadersFit tarball seekable selection) ∧
      (SevenZ.ListsSafely archive selection ↔ SevenZ.SizesFit archive selection) :=
  ⟨Tar.listsSafely_iff tarball seekable selection, SevenZ.listsSafely_iff archive selection⟩

/-- An empty file named a, changed in the first second that a signed number does not hold. -/
def lateEntry : Tar.TarEntry := ⟨[0x61], none, .regular, 0, some 0x8000000000000000, none⟩

/-- A sparse file that is half as large as 64 bits can say. -/
def vastEntry : Tar.TarEntry := ⟨[0x61], none, .gnuSparse, 0x8000000000000000, some 0, none⟩

/-- Two files that are half as large as 64 bits can say, each in a block of its own. -/
def vastTable : SevenZ.Archive where
  files := List.replicate 2 ⟨"a", false, true, 0x8000000000000000, 0, none, none, none⟩
  blocks := [⟨[]⟩, ⟨[]⟩]
  fileBlockIndex := [some 0, some 1]
  blockFirstFileIndex := [0, 1]

/-- The time makes the listing panic; the sizes of two files make the sum overflow, in TAR and in 7z. -/
theorem untrusted_headers_panic : ¬ Tar.ListsSafely (.ok [.ok lateEntry]) true none ∧
    ¬ Tar.ListsSafely (.ok [.ok vastEntry, .ok vastEntry]) true none ∧ ¬ SevenZ.ListsSafely vastTable none := by
  refine ⟨fun h => ?_, fun h => ?_, fun h => ?_⟩
  · exact h.listing (Api.panic "overflow when adding duration to instant") (by decide +kernel)
  · have hpanic : Tar.extractTotal (.ok [.ok vastEntry, .ok vastEntry]) true none =
        Api.panic "attempt to add with overflow" := by decide +kernel
    exact (hpanic ▸ h.total :)
  · have hpanic : SevenZ.extractTotal vastTable none = Api.panic "attempt to add with overflow" := by decide +kernel
    exact (hpanic ▸ h.total :)

end Squallz
