/-
When the listing of a TAR archive and the totals of its extraction do not panic: the times of its entries have to fit a
signed number, and the sizes that are added up 64 bits.
-/
import Squallz.Tar.Reader

namespace Squallz.Tar

open Squallz.Api

/-! ## The entries that are read -/

/-- A link with its target, or no link. -/
def TarEntry.hasTarget (entry : TarEntry) : Bool :=
  match entry.headerType with
  | .symlink | .link => entry.linkNameBytes.isSome
  | _ => true

/-- A time that can be added to the epoch, or none. -/
def TarEntry.TimeFits (entry : TarEntry) : Prop := ∀ secs ∈ entry.mtime, secs.toNat < 2 ^ 63

def TarEntry.isFile (entry : TarEntry) : Bool :=
  match entry.headerType with
  | .regular | .continuous | .gnuSparse => true
  | _ => false

/-- The entries up to the first error. -/
def readable : List (Except FormatError TarEntry) → List TarEntry
  | .ok entry :: rest => if entry.hasTarget then entry :: readable rest else []
  | _ => []

/-- What the sizes of the files that are asked for add up to. -/
def declaredTotal (wanted : Option (List (List UInt8))) (read : List TarEntry) : Nat :=
  ((read.filter fun entry => entry.isFile && wanted.all fun paths => paths.contains entry.pathBytes).map
    (·.size.toNat)).sum

/-- The time of an entry is kept or left out. -/
def TimeKept (entry : TarEntry) (listed : EntryMeta) : Prop :=
  listed.modified = none ∨ ∃ secs time, entry.mtime = some secs ∧ listed.modified = some time ∧ time.secs = secs.toNat ∧
    time.nanos = 0

/-! ## Metadata -/

theorem ofUnixSecs_eq {secs : Nat} (h : secs < 2 ^ 63) :
    ∃ time, SystemTime.ofUnixSecs secs = .ok time ∧ time.secs = secs ∧ time.nanos = 0 :=
  ⟨_, dif_pos h, rfl, rfl⟩

theorem ofUnixSecs_panics {secs : Nat} (h : ¬ secs < 2 ^ 63) :
    SystemTime.ofUnixSecs secs = panic "overflow when adding duration to instant" := dif_neg h

theorem linkTarget_of_some {entry : TarEntry} (kind : String) (h : entry.linkNameBytes.isSome = true) :
    ∃ target, linkTarget entry kind = .ok target := by
  obtain ⟨target, htarget⟩ := Option.isSome_iff_exists.1 h
  exact ⟨target, by rw [linkTarget, htarget]⟩

theorem linkTarget_of_none {entry : TarEntry} (kind : String) (h : entry.linkNameBytes.isSome = false) :
    ∃ message, linkTarget entry kind = corrupt message := by
  unfold linkTarget
  rw [Option.not_isSome_iff_eq_none.1 (Bool.eq_false_iff.1 h)]
  exact ⟨_, rfl⟩

/-- The kind of an entry is known if it has the target it needs. -/
theorem entryTypeOf_of_hasTarget {entry : TarEntry} (h : entry.hasTarget = true) :
    ∃ entryType, entryTypeOf entry = .ok entryType ∧ (entryType = .file ↔ entry.isFile = true) := by
  unfold TarEntry.hasTarget at h
  unfold entryTypeOf TarEntry.isFile
  cases htype : entry.headerType with
  | regular => exact ⟨.file, rfl, by decide⟩
  | continuous => exact ⟨.file, rfl, by decide⟩
  | gnuSparse => exact ⟨.file, rfl, by decide⟩
  | directory => exact ⟨.dir, rfl, by decide⟩
  | other => exact ⟨.other, rfl, by decide⟩
  | link =>
    rw [htype] at h
    obtain ⟨target, htarget⟩ := linkTarget_of_some "hardlink" h
    exact ⟨.hardlink target, congrArg (EntryType.hardlink <$> ·) htarget, by simp⟩
  | symlink =>
    rw [htype] at h
    obtain ⟨target, htarget⟩ := linkTarget_of_some "symlink" h
    exact ⟨.symlink target, congrArg (EntryType.symlink <$> ·) htarget, by simp⟩

theorem entryTypeOf_of_not_hasTarget {entry : TarEntry} (h : entry.hasTarget = false) :
    ∃ message, entryTypeOf entry = corrupt message := by
  unfold TarEntry.hasTarget at h
  unfold entryTypeOf
  cases htype : entry.headerType with
  | link =>
    rw [htype] at h
    obtain ⟨message, hmessage⟩ := linkTarget_of_none "hardlink" h
    exact ⟨message, congrArg (EntryType.hardlink <$> ·) hmessage⟩
  | symlink =>
    rw [htype] at h
    obtain ⟨message, hmessage⟩ := linkTarget_of_none "symlink" h
    exact ⟨message, congrArg (EntryType.symlink <$> ·) hmessage⟩
  | _ =>
    rw [htype] at h
    cases h

theorem modifiedOf_panics {entry : TarEntry} (h : ¬ entry.TimeFits) :
    modifiedOf entry = panic "overflow when adding duration to instant" := by
  unfold TarEntry.TimeFits at h
  push Not at h
  obtain ⟨secs, hsecs, hlarge⟩ := h
  rw [modifiedOf, hsecs]
  show some <$> SystemTime.ofUnixSecs secs.toNat = _
  rw [ofUnixSecs_panics (Nat.not_lt.2 hlarge)]
  rfl

theorem modifiedOf_eq {entry : TarEntry} (h : entry.TimeFits) : ∃ modified, modifiedOf entry = .ok modified ∧
    (modified = none ∨ ∃ secs time, entry.mtime = some secs ∧ modified = some time ∧ time.secs = secs.toNat ∧
      time.nanos = 0) := by
  unfold modifiedOf
  cases hmtime : entry.mtime with
  | none => exact ⟨none, rfl, .inl rfl⟩
  | some secs =>
    obtain ⟨time, htime, hsecs, hnanos⟩ := ofUnixSecs_eq (h secs hmtime)
    exact ⟨_, congrArg (some <$> ·) htime, .inr ⟨secs, time, rfl, rfl, hsecs, hnanos⟩⟩

/-- The metadata of an entry that has the target it needs and whose time fits. -/
theorem metaOf_eq {entry : TarEntry} (htarget : entry.hasTarget = true) (htime : entry.TimeFits) :
    ∃ listed, metaOf entry = .ok listed ∧ TimeKept entry listed ∧ listed.path.raw = entry.pathBytes ∧
      listed.size = entry.size ∧ (listed.entryType = .file ↔ entry.isFile = true) := by
  obtain ⟨entryType, htype, hfile⟩ := entryTypeOf_of_hasTarget htarget
  obtain ⟨modified, hmodified, hkept⟩ := modifiedOf_eq htime
  have hmeta : metaOf entry = .ok ⟨⟨entry.pathBytes, fromUtf8Lossy entry.pathBytes, "utf-8"⟩, entryType, entry.size, none,
      modified, entry.mode, none, false⟩ := by
    rw [metaOf, htype, ok_bind, hmodified]
    rfl
  exact ⟨_, hmeta, hkept, rfl, rfl, hfile⟩

theorem metaOf_of_not_hasTarget {entry : TarEntry} (h : entry.hasTarget = false) :
    ∃ message, metaOf entry = corrupt message := by
  obtain ⟨message, hmessage⟩ := entryTypeOf_of_not_hasTarget h
  refine ⟨message, ?_⟩
  rw [metaOf, hmessage]
  rfl

theorem metaOf_panics {entry : TarEntry} (htarget : entry.hasTarget = true) (htime : ¬ entry.TimeFits) :
    metaOf entry = panic "overflow when adding duration to instant" := by
  obtain ⟨entryType, htype, -⟩ := entryTypeOf_of_hasTarget htarget
  rw [metaOf, htype, ok_bind, modifiedOf_panics htime]
  rfl

/-! ## Items -/

theorem listedItem_error (error : FormatError) : listedItem (.error error) = some (raise error) := rfl

theorem listedItem_of_not_hasTarget {entry : TarEntry} (h : entry.hasTarget = false) :
    ∃ message, listedItem (.ok entry) = some (corrupt message) := by
  obtain ⟨message, hmessage⟩ := metaOf_of_not_hasTarget h
  exact ⟨message, by rw [listedItem, hmessage]; rfl⟩

/-- An entry of the root is left out, and is no file. -/
theorem listedItem_of_ok {entry : TarEntry} {listed : EntryMeta} (h : metaOf entry = .ok listed) :
    listedItem (.ok entry) = some (.ok listed) ∨ listedItem (.ok entry) = none ∧ listed.entryType = .dir := by
  rw [listedItem, h]
  show (if isTarRootDirectory listed then none else some (Except.ok listed)) = _ ∨
    (if isTarRootDirectory listed then none else some (Except.ok listed)) = none ∧ _
  by_cases hroot : isTarRootDirectory listed
  · rw [if_pos hroot]
    rw [isTarRootDirectory, Bool.and_eq_true] at hroot
    exact .inr ⟨rfl, of_decide_eq_true hroot.1⟩
  · rw [if_neg hroot]
    exact .inl rfl

/-! ## Sums -/

theorem declaredTotal_cons (wanted : Option (List (List UInt8))) (entry : TarEntry) (read : List TarEntry) :
    declaredTotal wanted (entry :: read) =
      (if entry.isFile && wanted.all fun paths => paths.contains entry.pathBytes then entry.size.toNat else 0) +
        declaredTotal wanted read := by
  unfold declaredTotal
  rw [List.filter_cons]
  split
  · rfl
  · exact (Nat.zero_add _).symm

/-- The total of a listing without panics is reached if the sizes up to the first error fit. -/
theorem sound_totalFileBytesFrom {wanted : Option (List (List UInt8))} {items : List (Except FormatError TarEntry)}
    {total : Nat} (htotal : total < 2 ^ 64)
    (hfits : ∀ entry, .ok entry ∈ items → entry.hasTarget = true → entry.TimeFits) :
    Sound (totalFileBytesFrom wanted total (items.filterMap listedItem))
        (fun sum => sum = total + declaredTotal wanted (readable items) ∧ sum < 2 ^ 64) ↔
      total + declaredTotal wanted (readable items) < 2 ^ 64 := by
  induction items generalizing total with
  | nil => exact ⟨fun _ => htotal, fun _ => ⟨rfl, htotal⟩⟩
  | cons item rest ih =>
    have hrest : ∀ entry, .ok entry ∈ rest → entry.hasTarget = true → entry.TimeFits := fun entry hentry =>
      hfits entry (List.mem_cons_of_mem _ hentry)
    cases item with
    | error error =>
      -- the loop ends with the error, and no size behind it counts
      rw [List.filterMap_cons_some (listedItem_error error)]
      exact ⟨fun _ => htotal, fun _ => trivial⟩
    | ok entry =>
      cases htarget : entry.hasTarget with
      | false =>
        obtain ⟨message, hitem⟩ := listedItem_of_not_hasTarget htarget
        have hread : readable (.ok entry :: rest) = [] := by
          rw [readable, htarget]
          rfl
        rw [List.filterMap_cons_some hitem, hread]
        exact ⟨fun _ => htotal, fun _ => trivial⟩
      | true =>
        obtain ⟨listed, hlisted, -, hpath, hsize, hfile⟩ := metaOf_eq htarget (hfits entry List.mem_cons_self htarget)
        have hread : readable (.ok entry :: rest) = entry :: readable rest := by rw [readable, if_pos htarget]
        have hwanted : isWantedFile wanted listed =
            (entry.isFile && wanted.all fun paths => paths.contains entry.pathBytes) := by
          rw [isWantedFile, hpath]
          congr 1
          rw [Bool.eq_iff_iff, decide_eq_true_iff]
          exact hfile
        rw [hread, declaredTotal_cons, ← hwanted]
        rcases listedItem_of_ok hlisted with hitem | ⟨hitem, hdir⟩
        · rw [List.filterMap_cons_some hitem, totalFileBytesFrom, ok_bind]
          by_cases hw : isWantedFile wanted listed
          · rw [if_pos hw, if_pos hw, hsize, ← Nat.add_assoc]
            by_cases hsum : total + entry.size.toNat < 2 ^ 64
            · rw [addU64_eq hsum, ok_bind]
              exact ih hsum hrest
            · rw [addU64, if_neg hsum]
              exact ⟨fun h => h.elim, fun h => absurd h (by omega)⟩
          · rw [if_neg hw, if_neg hw, Nat.zero_add]
            exact ih htotal hrest
        · have hw : ¬ isWantedFile wanted listed := by
            rw [isWantedFile, hdir]
            exact Bool.false_ne_true
          rw [List.filterMap_cons_none hitem, if_neg hw, Nat.zero_add]
          exact ih htotal hrest

/-! ## Archives -/

/-- The listing does not panic, and keeps each time or leaves it out; nor does the total of an extraction, which is what
the sizes that are read add up to. -/
structure ListsSafely (archive : Archive) (seekable : Bool) (selection : Option (List EntryPath)) : Prop where
  listing : ∀ item ∈ entries archive, Sound item fun _ => True
  times : ∀ items, archive = .ok items → ∀ entry, .ok entry ∈ items → ∀ listed, metaOf entry = .ok listed →
    TimeKept entry listed
  total : Sound (extractTotal archive seekable selection) fun total => ∀ sum, total = some sum → sum < 2 ^ 64 ∧
    (seekable = true → ∀ items, archive = .ok items →
      sum = declaredTotal (selection.map fun paths => paths.map (·.raw)) (readable items))

/-- The times of all entries that have the target they need fit a signed number, and where the sizes are added up they fit
64 bits. -/
def HeadersFit (archive : Archive) (seekable : Bool) (selection : Option (List EntryPath)) : Prop :=
  ∀ items, archive = .ok items → (∀ entry, .ok entry ∈ items → entry.hasTarget = true → entry.TimeFits) ∧
    (seekable = true → selection ≠ some [] →
      declaredTotal (selection.map fun paths => paths.map (·.raw)) (readable items) < 2 ^ 64)

theorem sound_listedItem {item : Except FormatError TarEntry} {listed : Res EntryMeta} (h : listedItem item = some listed)
    (hfits : ∀ entry, item = .ok entry → entry.hasTarget = true → entry.TimeFits) : Sound listed fun _ => True := by
  cases item with
  | error error =>
    cases h
    exact sound_raise error
  | ok entry =>
    cases htarget : entry.hasTarget with
    | false =>
      obtain ⟨message, hitem⟩ := listedItem_of_not_hasTarget htarget
      rw [hitem] at h
      cases h
      exact sound_raise _
    | true =>
      obtain ⟨_, hlisted, -⟩ := metaOf_eq htarget (hfits entry rfl htarget)
      rcases listedItem_of_ok hlisted with hitem | ⟨hitem, -⟩
      · rw [hitem] at h
        cases h
        exact sound_ok trivial
      · rw [hitem] at h
        cases h

/-- An entry whose time does not fit makes the listing panic. -/
theorem timeFits_of_listing {items : List (Except FormatError TarEntry)} {entry : TarEntry}
    (h : ∀ item ∈ items.filterMap listedItem, Sound item fun _ => True) (hentry : .ok entry ∈ items)
    (htarget : entry.hasTarget = true) : entry.TimeFits := by
  by_contra htime
  have hitem : listedItem (.ok entry) = some (panic "overflow when adding duration to instant") := by
    rw [listedItem, metaOf_panics htarget htime]
    rfl
  exact h _ (List.mem_filterMap.2 ⟨.ok entry, hentry, hitem⟩)

theorem listsSafely_iff (archive : Archive) (seekable : Bool) (selection : Option (List EntryPath)) :
    ListsSafely archive seekable selection ↔ HeadersFit archive seekable selection := by
  have hsome : ∀ {r : Res Nat} {P : Nat → Prop},
      Sound (some <$> r) (fun total => ∀ sum, total = some sum → P sum) ↔ Sound r P := by
    intro r P
    match r with
    | .ok sum =>
      exact ⟨fun h => h sum rfl, fun h _ heq => (by cases heq; exact h)⟩
    | .error (.raised _) => exact Iff.rfl
    | .error (.panicked _) => exact Iff.rfl
  cases archive with
  | error error =>
    refine ⟨fun _ items h => (by cases h), fun _ => ⟨fun item hitem => ?_, fun items h => (by cases h), ?_⟩⟩
    · cases List.mem_singleton.1 hitem
      exact sound_raise error
    · unfold extractTotal
      refine sound_ite (fun _ sum hsum => by cases hsum) fun _ => sound_ite (fun _ => ?_) fun hseekable => ?_
      · exact hsome.2 trivial
      · rintro sum ⟨⟩
        exact ⟨by decide, fun h => absurd h hseekable⟩
  | ok items =>
    constructor
    · rintro ⟨hlisting, -, htotal⟩ _ ⟨⟩
      have hfits := fun (entry : TarEntry) (hentry : .ok entry ∈ items) htarget => timeFits_of_listing hlisting hentry htarget
      refine ⟨hfits, fun hseekable hselection => ?_⟩
      rw [extractTotal, if_neg hselection, if_pos hseekable, hsome] at htotal
      have hsum : Sound (totalFileBytesFrom (selection.map fun paths => paths.map (·.raw)) 0 (items.filterMap listedItem))
          fun sum => sum = 0 + declaredTotal (selection.map fun paths => paths.map (·.raw)) (readable items) ∧
            sum < 2 ^ 64 := by
        refine Sound.mono htotal fun sum ⟨hlt, heq⟩ => ⟨?_, hlt⟩
        rw [Nat.zero_add]
        exact heq hseekable items rfl
      rw [sound_totalFileBytesFrom (by decide) hfits, Nat.zero_add] at hsum
      exact hsum
    · intro h
      obtain ⟨hfits, hsum⟩ := h items rfl
      refine ⟨fun item hitem => ?_, ?_, ?_⟩
      · obtain ⟨raw, hraw, hlisted⟩ := List.mem_filterMap.1 hitem
        exact sound_listedItem hlisted fun entry heq htarget => hfits entry (heq ▸ hraw) htarget
      · rintro _ ⟨⟩ entry hentry listed hlisted
        cases htarget : entry.hasTarget with
        | false =>
          obtain ⟨message, hmessage⟩ := metaOf_of_not_hasTarget htarget
          rw [hmessage] at hlisted
          cases hlisted
        | true =>
          obtain ⟨listed', hlisted', hkept, -⟩ := metaOf_eq htarget (hfits entry hentry htarget)
          rw [hlisted] at hlisted'
          cases hlisted'
          exact hkept
      · unfold extractTotal
        refine sound_ite (fun _ sum hnone => by cases hnone) fun hselection => sound_ite (fun hseekable => ?_) fun hstream => ?_
        · rw [hsome]
          refine ((sound_totalFileBytesFrom (by decide) hfits).2 ?_).mono ?_
          · rw [Nat.zero_add]
            exact hsum hseekable hselection
          · rintro sum ⟨heq, hlt⟩
            refine ⟨hlt, ?_⟩
            rintro - _ ⟨⟩
            rwa [Nat.zero_add] at heq
        · rintro sum ⟨⟩
          exact ⟨by decide, fun h => absurd h hstream⟩

end Squallz.Tar
