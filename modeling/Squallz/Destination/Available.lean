/-
The numbered name that stands in for a taken one: it is the lowest free one exactly where, up to that number, the
numbers that entries take are those that the entries are read back as.
-/
import Squallz.Destination.Readable

namespace Squallz.Destination

open Squallz.Api Squallz.Text

/-! ## Numbers read back -/

section Matching

variable {entriesMatch : Path → Path → Bool} {snapshot : DirectorySnapshot} {parent base : Path}
  {kind : CreateArtifactKind}

theorem ownNumbers_eq (name : List Char) (entry : Path) : ∃ numbers,
    ownNumbers entriesMatch parent base name entry = .ok numbers ∧ numbers.length ≤ 1 ∧
    ∀ number, number ∈ numbers ↔
      numberedCreateDestinationIndex name = some number ∧ entriesMatch (candidate parent base number) entry = true := by
  unfold ownNumbers
  cases hindex : numberedCreateDestinationIndex name with
  | none => exact ⟨[], rfl, by simp, by simp⟩
  | some index =>
    simp only [canonicalNumberedCandidate_eq, ok_bind]
    by_cases hmatch : entriesMatch (candidate parent base index) entry = true
    · refine ⟨[index], by rw [if_pos hmatch]; rfl, by simp, fun number => ?_⟩
      rw [List.mem_singleton, Option.some.injEq]
      constructor
      · rintro rfl
        exact ⟨rfl, hmatch⟩
      · rintro ⟨rfl, -⟩
        rfl
    · refine ⟨[], by rw [if_neg hmatch]; rfl, by simp, fun number => ?_⟩
      rw [Option.some.injEq]
      constructor
      · intro h
        cases h
      · rintro ⟨rfl, h⟩
        exact absurd h hmatch

theorem memberNumbers_eq {name : List Char} {entry : Path} (hname : (fileName entry).bind toStr = some name) :
    ∃ numbers, memberNumbers entriesMatch parent base (isSqzBase base) name entry = .ok numbers ∧ numbers.length ≤ 1 ∧
      ∀ number, number ∈ numbers ↔
        (managedBaseName name (isSqzBase base)).bind numberedCreateDestinationIndex = some number ∧
          matchesMember entriesMatch (candidate parent base number) (isSqzBase base) entry = true := by
  unfold memberNumbers matchesMember
  rw [hname]
  cases hindex : (managedBaseName name (isSqzBase base)).bind numberedCreateDestinationIndex with
  | none => exact ⟨[], rfl, by simp, by simp⟩
  | some index =>
    simp only [canonicalNumberedCandidate_eq, ok_bind, Option.bind_some]
    by_cases hmatch : (expectedManagedSplitOutputPath (candidate parent base index) name (isSqzBase base)).any
        (entriesMatch · entry) = true
    · refine ⟨[index], ?_, by simp, fun number => ?_⟩
      · obtain ⟨expected, hexpected, hmatch⟩ := (Option.any_eq_true _ _).1 hmatch
        rw [hexpected]
        simp only [if_pos hmatch]
        rfl
      · rw [List.mem_singleton, Option.some.injEq]
        constructor
        · rintro rfl
          exact ⟨rfl, hmatch⟩
        · rintro ⟨rfl, -⟩
          rfl
    · refine ⟨[], ?_, by simp, fun number => ?_⟩
      · cases hexpected : expectedManagedSplitOutputPath (candidate parent base index) name (isSqzBase base) with
        | none => rfl
        | some expected =>
          rw [hexpected, Option.any_some] at hmatch
          simp only [if_neg hmatch]
          rfl
      · rw [Option.some.injEq]
        constructor
        · intro h
          cases h
        · rintro ⟨rfl, h⟩
          exact absurd h hmatch

/-- What one entry is read back as. -/
theorem entryNumbers_eq (entry : Path) : ∃ numbers,
    entryNumbers entriesMatch parent base kind (isSqzBase base) entry = .ok numbers ∧ numbers.length ≤ 2 ∧
    ∀ number, number ∈ numbers ↔ ReadsAs entriesMatch parent base kind entry number := by
  unfold entryNumbers ReadsAs
  cases hname : (fileName entry).bind toStr with
  | none => exact ⟨[], rfl, by simp, by simp⟩
  | some name =>
    obtain ⟨own, hown, hownLength, hmemOwn⟩ :=
      @ownNumbers_eq entriesMatch parent base name entry
    obtain ⟨members, hmembers, hmembersLength, hmemMembers⟩ :=
      @memberNumbers_eq entriesMatch parent base name entry hname
    simp only [hown, hmembers, ok_bind, Option.some.injEq, exists_eq_left']
    by_cases hkind : kind = .splitArchive
    · refine ⟨own ++ members, by rw [if_neg (not_not.2 hkind)]; rfl, ?_, fun number => ?_⟩
      · rw [List.length_append]
        omega
      · rw [List.mem_append, hmemOwn, hmemMembers]
        exact or_congr_right ⟨fun h => ⟨hkind, h⟩, fun h => h.2⟩
    · refine ⟨own, by rw [if_pos hkind]; rfl, by omega, fun number => ?_⟩
      rw [hmemOwn]
      exact ⟨.inl, fun h => h.resolve_right fun h => hkind h.1⟩

/-- The occupied numbers are those that the entries are read back as. -/
theorem numberedConflictsWith_eq : ∃ numbers,
    snapshot.numberedConflictsWith entriesMatch parent base kind = .ok numbers ∧
    numbers.length ≤ 2 * maxDirectorySnapshotEntries ∧
    ∀ number, number ∈ numbers ↔ ReadBack entriesMatch snapshot parent base kind number := by
  have hall : ∀ entries : List Path, ∃ numbers,
      entries.mapM (entryNumbers entriesMatch parent base kind (isSqzBase base)) = .ok numbers ∧
      numbers.flatten.length ≤ 2 * entries.length ∧
      ∀ number, number ∈ numbers.flatten ↔ ∃ entry ∈ entries, ReadsAs entriesMatch parent base kind entry number := by
    intro entries
    induction entries with
    | nil => exact ⟨[], rfl, by simp, by simp⟩
    | cons entry entries ih =>
      obtain ⟨rest, hrest, hrestLength, hmemRest⟩ := ih
      obtain ⟨first, hfirst, hfirstLength, hmemFirst⟩ :=
        @entryNumbers_eq entriesMatch parent base kind entry
      refine ⟨first :: rest, ?_, ?_, fun number => ?_⟩
      · rw [List.mapM_cons, hfirst, hrest]
        rfl
      · rw [List.flatten_cons, List.length_append, List.length_cons]
        omega
      · rw [List.flatten_cons, List.mem_append, hmemFirst, hmemRest, List.exists_mem_cons_iff]
  obtain ⟨numbers, hnumbers, hlength, hmem⟩ := hall snapshot.entries
  refine ⟨numbers.flatten, ?_, ?_, hmem⟩
  · unfold DirectorySnapshot.numberedConflictsWith
    dsimp only
    rw [hnumbers]
    rfl
  · have := snapshot.bounded
    omega

/-- The search stops at the first number that is not occupied. -/
theorem freeNumber_eq_ok {occupied : List Nat} {left number : Nat} (hleft : occupied.length < left) :
    ∃ free, freeNumber occupied left number = .ok free ∧ number ≤ free ∧ free < number + left ∧ free ∉ occupied ∧
      ∀ below, number ≤ below → below < free → below ∈ occupied := by
  have hsearch : ∀ left number, (∃ free, freeNumber occupied left number = .ok free ∧ number ≤ free ∧
      free < number + left ∧ free ∉ occupied ∧ ∀ below, number ≤ below → below < free → below ∈ occupied) ∨
      ∀ below, number ≤ below → below < number + left → below ∈ occupied := by
    intro left
    induction left with
    | zero => exact fun number => .inr fun below hle hlt => by omega
    | succ left ih =>
      intro number
      rw [freeNumber]
      by_cases hmem : number ∈ occupied
      · rw [if_pos hmem]
        rcases ih (number + 1) with ⟨free, hfree, hle, hlt, hnot, hbelow⟩ | hall
        · refine .inl ⟨free, hfree, by omega, by omega, hnot, fun below hge hless => ?_⟩
          rcases Nat.eq_or_lt_of_le hge with rfl | hgt
          · exact hmem
          · exact hbelow below hgt hless
        · refine .inr fun below hge hless => ?_
          rcases Nat.eq_or_lt_of_le hge with rfl | hgt
          · exact hmem
          · exact hall below hgt (by omega)
      · rw [if_neg hmem]
        exact .inl ⟨number, rfl, Nat.le_refl _, by omega, hmem, fun below hge hless => by omega⟩
  rcases hsearch left number with h | hall
  · exact h
  · have := @numbers_le_of_taken Nat _ id (fun a b h => h) occupied number left hall
    omega

/-- A number below which all are read back, and that is not, is the lowest free one exactly where reading agrees. -/
theorem lowest_iff {free : Nat} (hle : 2 ≤ free) (hlt : free < 2 ^ 64)
    (hfree : ¬ ReadBack entriesMatch snapshot parent base kind free)
    (hbelow : ∀ below, 2 ≤ below → below < free → ReadBack entriesMatch snapshot parent base kind below) :
    (¬ Taken entriesMatch snapshot parent base kind free ∧
      ∀ below, 2 ≤ below → below < free → Taken entriesMatch snapshot parent base kind below) ↔
    ReadsTaken entriesMatch snapshot parent base kind := by
  constructor
  · rintro ⟨hnot, htaken⟩ number hge hbound hall
    rcases Nat.lt_trichotomy number free with hless | rfl | hmore
    · exact ⟨fun _ => hbelow number hge hless, fun _ => htaken number hge hless⟩
    · exact ⟨fun h => absurd h hnot, fun h => absurd h hfree⟩
    · exact absurd (hall free hle hmore) hnot
  · intro hreads
    have htaken : ∀ below, 2 ≤ below → below < free → Taken entriesMatch snapshot parent base kind below := by
      intro below
      induction below using Nat.strong_induction_on with
      | _ below ih =>
        intro hge hless
        exact (hreads below hge (by omega) fun other hother hlower => ih other hlower hother (by omega)).2
          (hbelow below hge hless)
    exact ⟨fun h => hfree ((hreads free hle hlt htaken).1 h), htaken⟩

end Matching

theorem fileName_concat {path directory : Path} {name : List UInt8} (h : fileName path = some name) :
    fileName (directory ++ [name]) = some name := by
  unfold fileName at h ⊢
  rw [List.getLast?_concat]
  split at h
  · split at h
    · cases h
    · rename_i hdots
      cases h
      exact if_neg hdots
  · cases h

/-- The returned path is free, and the requested one or the lowest numbered one, exactly where the requested name is
free or reading numbers back agrees with the conflicts; on a case-sensitive file system it does for every snapshot when
the base is readable. -/
theorem findAvailableCreateDestination_lowestFree_iff {entriesMatch : Path → Path → Bool}
    {canonicalize : Path → Res Path} {readSnapshot : Path → Res DirectorySnapshot} {destination base : Path}
    {kind : CreateArtifactKind} {requested : List UInt8} {directory : Path} {snapshot : DirectorySnapshot}
    (hname : (fileName destination).filter (· ≠ []) = some requested)
    (hbase : normalizedDestination destination kind = .ok base)
    (hparent : canonicalize (parent destination) = .ok directory) (hread : readSnapshot directory = .ok snapshot) :
    (∃ path, findAvailableCreateDestination entriesMatch canonicalize readSnapshot destination kind = .ok path ∧
      (LowestFree entriesMatch snapshot directory base kind destination path ↔
        snapshot.hasConflictWith entriesMatch (directory ++ [requested]) kind = .ok false ∨
          ReadsTaken entriesMatch snapshot directory base kind)) ∧
    (Readable base kind → ReadsTaken samePath snapshot directory base kind) := by
  refine ⟨?_, readsTaken_of_readable⟩
  have hfileName : fileName destination = some requested := (Option.filter_eq_some_iff.1 hname).1
  obtain ⟨normal, hnormal⟩ := @normalizedDestination_of_text kind (directory ++ [requested])
    fun hkind => by
      rw [fileName_concat hfileName, ← hfileName]
      exact text_of_normalizedDestination hbase hkind
  have hchecked := @hasConflictWith_eq entriesMatch snapshot kind _ normal hnormal
  generalize (if kind ≠ .splitArchive then snapshot.entries.any (entriesMatch normal ·)
    else snapshot.entries.any fun entry =>
      entriesMatch normal entry || matchesMember entriesMatch normal (isSqzBase normal) entry) = conflict at hchecked
  obtain ⟨numbers, hnumbers, hlength, hmem⟩ :=
    @numberedConflictsWith_eq entriesMatch snapshot directory base kind
  obtain ⟨free, hfree, hle, hlt, hnot, hbelow⟩ :=
    @freeNumber_eq_ok numbers (2 ^ 64 - 2) 2 (by unfold maxDirectorySnapshotEntries at hlength; omega)
  unfold findAvailableCreateDestination
  rw [hname]
  dsimp only [pure, Except.pure]
  simp only [hbase, hparent, hread, hchecked, ok_bind]
  cases conflict with
  | false => exact ⟨destination, rfl, fun _ => .inl rfl, fun _ => ⟨⟨requested, hfileName, hchecked⟩, .inl rfl⟩⟩
  | true =>
    refine ⟨numberedCreateDestination base free, ?_, ?_⟩
    · simp only [hnumbers, hfree, ok_bind]
      rfl
    · have hiff := @lowest_iff entriesMatch snapshot directory base kind free hle (by omega) (fun h => hnot ((hmem free).2 h))
        fun below hge hless => (hmem below).1 (hbelow below hge hless)
      have hpath : fileName (numberedCreateDestination base free) = some (osStr (numberedName base free)) := by
        rw [numberedCreateDestination_eq, fileName_candidate]
      constructor
      · rintro ⟨⟨name, hfile, hclear⟩, hlowest⟩
        rw [hpath, Option.some.injEq] at hfile
        subst hfile
        refine .inr (hiff.1 ⟨not_taken_iff.2 hclear, ?_⟩)
        rcases hlowest with heq | ⟨number, -, heq, htaken⟩
        · -- the requested path is not free, the returned one is
          rw [heq, hfileName, Option.some.injEq] at hpath
          rw [hpath, hclear] at hchecked
          cases hchecked
        · rw [numberedCreateDestination_eq, numberedCreateDestination_eq] at heq
          have hsame := numberedName_injective base (osStr_injective (List.singleton_inj.1 (List.append_cancel_left heq)))
          rw [hsame]
          exact htaken
      · rintro (h | hreads)
        · cases h
        · obtain ⟨hclear, htaken⟩ := hiff.2 hreads
          exact ⟨⟨_, hpath, not_taken_iff.1 hclear⟩, .inr ⟨free, hle, rfl, htaken⟩⟩

/-! ## Runs -/

def sampleDirectory : Path := [[0x64]]

def sampleSnapshot (names : List String) (h : names.length ≤ maxDirectorySnapshotEntries) : DirectorySnapshot where
  entries := names.map fun name => sampleDirectory ++ [utf8Bytes name]
  bounded := by rwa [List.length_map]

def sampleFind (names : List String) (h : names.length ≤ maxDirectorySnapshotEntries) (name : String)
    (kind : CreateArtifactKind) : Res Path :=
  findAvailableCreateDestination samePath .ok (fun _ => .ok (sampleSnapshot names h))
    (sampleDirectory ++ [utf8Bytes name]) kind

/-- A split archive whose base and whose second numbered family are taken. -/
theorem findAvailableCreateDestination_lowestFree_iff_sample :
    ∃ path, sampleFind ["a.7z", "a (2).7z.001"] (by decide) "a.7z" .splitArchive = .ok path ∧
      LowestFree samePath (sampleSnapshot ["a.7z", "a (2).7z.001"] (by decide)) sampleDirectory
        (sampleDirectory ++ [utf8Bytes "a.7z"]) .splitArchive (sampleDirectory ++ [utf8Bytes "a.7z"]) path := by
  obtain ⟨⟨path, hfind, hiff⟩, hreads⟩ := @findAvailableCreateDestination_lowestFree_iff samePath .ok
    (fun _ => .ok (sampleSnapshot ["a.7z", "a (2).7z.001"] (by decide)))
    (sampleDirectory ++ [utf8Bytes "a.7z"]) (sampleDirectory ++ [utf8Bytes "a.7z"]) .splitArchive (utf8Bytes "a.7z")
    sampleDirectory (sampleSnapshot ["a.7z", "a (2).7z.001"] (by decide))
    (by decide +kernel) (by decide +kernel) rfl rfl
  have htext : (fileName (sampleDirectory ++ [utf8Bytes "a.7z"])).bind toStr = some "a.7z".toList := by decide +kernel
  refine ⟨path, hfind, hiff.2 (.inr (hreads ⟨by decide +kernel, fun _ => by rw [htext]; rfl, ?_, ?_⟩))⟩
  · intro _ name hname
    rw [htext] at hname
    cases hname
    decide +kernel
  · intro _ name extension hname hext
    rw [htext] at hname
    cases hname
    rw [show extensionOf '.' "a.7z".toList = some "7z".toList by decide +kernel] at hext
    cases hext
    decide +kernel

/-- A native data volume stands in the way of the number that is returned. -/
theorem native_volume_not_read_back :
    sampleFind ["foo.zip", "foo (2).z01"] (by decide) "foo.zip" .splitArchive =
      .ok (sampleDirectory ++ [utf8Bytes "foo (2).zip"]) ∧
    (sampleSnapshot ["foo.zip", "foo (2).z01"] (by decide)).hasConflictWith samePath
      (sampleDirectory ++ [utf8Bytes "foo (2).zip"]) .splitArchive = .ok true := by
  constructor
  · decide +kernel
  · decide +kernel

/-- So does a name with a parenthesis in its extension. -/
example : sampleFind ["foo.a)b", "foo (2).a)b"] (by decide) "foo.a)b" .archive =
    .ok (sampleDirectory ++ [utf8Bytes "foo (2).a)b"]) := by
  decide +kernel

end Squallz.Destination
