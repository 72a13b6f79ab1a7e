/-
Exactness of ZIP selections: a displayed name deletes the entries that bear it or lie below it, exactly where the bytes of
names and the names that are shown agree.
-/
import Squallz.Zip.NameTable
import Squallz.Zip.Update

namespace Squallz.Zip

open Squallz.Api

/-! ## Directories of the ZIP library -/

/-- The upper half of codepage 437. -/
def cp437Upper : List Nat :=
  [0x00c7, 0x00fc, 0x00e9, 0x00e2, 0x00e4, 0x00e0, 0x00e5, 0x00e7, 0x00ea, 0x00eb, 0x00e8, 0x00ef, 0x00ee, 0x00ec,
    0x00c4, 0x00c5, 0x00c9, 0x00e6, 0x00c6, 0x00f4, 0x00f6, 0x00f2, 0x00fb, 0x00f9, 0x00ff, 0x00d6, 0x00dc, 0x00a2,
    0x00a3, 0x00a5, 0x20a7, 0x0192, 0x00e1, 0x00ed, 0x00f3, 0x00fa, 0x00f1, 0x00d1, 0x00aa, 0x00ba, 0x00bf, 0x2310,
    0x00ac, 0x00bd, 0x00bc, 0x00a1, 0x00ab, 0x00bb, 0x2591, 0x2592, 0x2593, 0x2502, 0x2524, 0x2561, 0x2562, 0x2556,
    0x2555, 0x2563, 0x2551, 0x2557, 0x255d, 0x255c, 0x255b, 0x2510, 0x2514, 0x2534, 0x252c, 0x251c, 0x2500, 0x253c,
    0x255e, 0x255f, 0x255a, 0x2554, 0x2569, 0x2566, 0x2560, 0x2550, 0x256c, 0x2567, 0x2568, 0x2564, 0x2565, 0x2559,
    0x2558, 0x2552, 0x2553, 0x256b, 0x256a, 0x2518, 0x250c, 0x2588, 0x2584, 0x258c, 0x2590, 0x2580, 0x03b1, 0x00df,
    0x0393, 0x03c0, 0x03a3, 0x03c3, 0x00b5, 0x03c4, 0x03a6, 0x0398, 0x03a9, 0x03b4, 0x221e, 0x03c6, 0x03b5, 0x2229,
    0x2261, 0x00b1, 0x2265, 0x2264, 0x2320, 0x2321, 0x00f7, 0x2248, 0x00b0, 0x2219, 0x00b7, 0x221a, 0x207f, 0x00b2,
    0x25a0, 0x00a0]

/-- `to_char`. -/
def cp437Char (input : UInt8) : Char :=
  Char.ofNat (if input.toNat < 0x80 then input.toNat else cp437Upper.getD (input.toNat - 0x80) 0)

/-- `from_cp437`: ASCII bytes stand for themselves, whether there are others or not. -/
def fromCp437 (raw : List UInt8) : String := .ofList (raw.map cp437Char)

/-- A name of the central directory, and whether it is marked as UTF-8. -/
structure CentralName where
  raw : List UInt8
  utf8 : Bool

/-- The name that the library decodes. -/
def CentralName.fileName (name : CentralName) : String :=
  if name.utf8 then fromUtf8Lossy name.raw else fromCp437 name.raw

/-- `is_dir`: what the last byte of the decoded name is. -/
def isDir (fileName : String) : Bool :=
  match (utf8Bytes fileName).getLast? with
  | some byte => byte == slash || byte == backslash
  | none => false

section

variable {Encoding Glob : Type} (crates : Crates Encoding Glob)

/-- The entries as an update sees them. -/
def archiveEntries (names : List CentralName) (encoding : Option String) : List Presented :=
  let fallback := resolveFallbackEncoding crates (names.map (·.raw)) encoding
  names.map fun name => (decodeEntryName crates name.raw fallback, isDir name.fileName)

end

/-! ## Names in a browser -/

/-- `normalized_display` on characters. -/
def browserChars (directory : Bool) (display : List Char) : List Char :=
  let trimmed := (display.map fun c => if c = '\\' then '/' else c).dropWhile (· == '/')
  if directory && !(trimmed.getLast? == some '/') then trimmed ++ ['/'] else trimmed

theorem normalizedDisplay_toList (path : EntryPath) (directory : Bool) :
    (path.normalizedDisplay directory).toList = browserChars directory path.display.toList := by
  rw [normalizedDisplay_eq]
  unfold browserChars endsWithSlash trimStartSlashes replaceBackslashes
  simp only [String.toList_ofList]
  split
  · rw [String.toList_append, String.toList_ofList]
    rfl
  · rw [String.toList_ofList]

theorem getLast?_browserChars (display : List Char) : (browserChars true display).getLast? = some '/' := by
  unfold browserChars
  simp only [Bool.true_and, Bool.not_eq_true', beq_eq_false_iff_ne, ne_eq, ite_not]
  split
  · assumption
  · exact List.getLast?_concat

/-- The name of a directory is its own name in a browser. -/
theorem browserChars_browserChars (display : List Char) :
    browserChars true (browserChars true display) = browserChars true display := by
  have hlast := getLast?_browserChars display
  have hclean : ∀ c ∈ browserChars true display, c ≠ '\\' := by
    unfold browserChars
    intro c hc
    have hmapped : ∀ c ∈ (display.map fun c => if c = '\\' then '/' else c).dropWhile (· == '/'), c ≠ '\\' := by
      intro c hc
      obtain ⟨d, -, rfl⟩ := List.mem_map.1 ((List.dropWhile_sublist _).mem hc)
      split
      · decide
      · assumption
    simp only at hc
    split at hc
    · rcases List.mem_append.1 hc with hc | hc
      · exact hmapped c hc
      · rw [List.mem_singleton.1 hc]
        decide
    · exact hmapped c hc
  have hmap : (browserChars true display).map (fun c => if c = '\\' then '/' else c) = browserChars true display := by
    rw [List.map_congr_left fun c hc => if_neg (hclean c hc), List.map_id']
  -- only the name of the root starts with a slash
  have hhead : (browserChars true display).dropWhile (· == '/') = browserChars true display ∨
      browserChars true display = ['/'] := by
    unfold browserChars
    generalize htrim : (display.map fun c => if c = '\\' then '/' else c).dropWhile (· == '/') = trimmed
    cases trimmed with
    | nil => exact .inr rfl
    | cons c rest =>
      have hc : (c == '/') = false := by
        have hne : (display.map fun c => if c = '\\' then '/' else c).dropWhile (· == '/') ≠ [] := by
          rw [htrim]
          exact List.cons_ne_nil c rest
        have hnot := List.head_dropWhile_not _ hne
        simpa [htrim] using hnot
      simp only
      split
      · exact .inl (List.dropWhile_cons_of_neg (by simpa using hc))
      · exact .inl (List.dropWhile_cons_of_neg (by simpa using hc))
  rcases hhead with hhead | hroot
  · rw [browserChars, hmap, hhead, hlast]
    rfl
  · rw [hroot]
    rfl

/-- The separator of the listing is none of its own. -/
theorem browserChars_concat {display : List Char} (h : display.getLast? ≠ some '/')
    (h' : display.getLast? ≠ some '\\') : browserChars true (display ++ ['/']) = browserChars true display := by
  unfold browserChars
  rw [List.map_append]
  have hmapped : (display.map fun c => if c = '\\' then '/' else c).getLast? ≠ some '/' := by
    rw [List.getLast?_map]
    cases hlast : display.getLast? with
    | none => simp
    | some c =>
      rw [hlast] at h h'
      have hc : c ≠ '\\' := fun hc => h' (by rw [hc])
      rw [Option.map_some, if_neg hc]
      exact h
  generalize display.map (fun c => if c = '\\' then '/' else c) = mapped at hmapped
  have hslash : ['/'].map (fun c => if c = '\\' then '/' else c) = ['/'] := by decide
  simp only [hslash]
  by_cases hnil : mapped.dropWhile (· == '/') = []
  · -- only slashes, and none at the end
    have hempty : mapped = [] := by
      by_contra hne
      have hall := List.dropWhile_eq_nil_iff.1 hnil _ (List.getLast_mem hne)
      rw [List.getLast?_eq_some_getLast hne] at hmapped
      exact hmapped (congrArg some (by simpa using hall))
    rw [hempty]
    rfl
  · have happend : (mapped ++ ['/']).dropWhile (· == '/') = mapped.dropWhile (· == '/') ++ ['/'] := by
      rw [List.dropWhile_append, if_neg (by simpa using hnil)]
    have hlast : (mapped.dropWhile (· == '/')).getLast? ≠ some '/' := by
      obtain ⟨before, hbefore⟩ := List.dropWhile_suffix (l := mapped) (· == '/')
      rw [← hbefore, List.getLast?_append_of_ne_nil _ hnil] at hmapped
      exact hmapped
    rw [happend, List.getLast?_concat]
    simp [hlast]

/-- A name of a directory that is a browser's is its own name in a browser. -/
theorem normalized_of_name {item other : Presented} (hitem : item.2 = true) (hother : other.2 = true)
    (h : item.normalized ∈ other.names) : other.normalized = item.normalized := by
  have hnormalized : ∀ item : Presented, item.2 = true →
      item.normalized.toList = browserChars true item.1.display.toList := by
    intro item hitem
    unfold Presented.normalized
    rw [normalizedDisplay_toList, hitem]
  unfold Presented.names at h
  rcases List.mem_cons.1 h with hlisted | h
  · apply String.toList_inj.1
    have hown : browserChars true item.normalized.toList = item.normalized.toList := by
      rw [hnormalized item hitem, browserChars_browserChars]
    rw [hnormalized other hother, ← hown, hlisted]
    unfold Presented.listed
    rw [hother, Bool.true_and]
    split
    · rename_i hend
      unfold endsWithSeparator at hend
      simp only [Bool.not_eq_true', Bool.or_eq_false_iff, beq_eq_false_iff_ne] at hend
      rw [String.toList_append]
      exact (browserChars_concat hend.1 hend.2).symm
    · rfl
  · exact (List.mem_singleton.1 h).symm

/-! ## Exact selections -/

section

variable {Encoding Glob : Type} (crates : Crates Encoding Glob)

/-- What a selection is for: its own name, and for a directory what lies below it. -/
def Selects (selected : SelectedName) (entry : Presented) : Prop :=
  entry.normalized = selected.path.normalizedDisplay selected.directory ∨
    selected.directory = true ∧ (selected.path.normalizedDisplay true).toList <+: entry.normalized.toList

/-- No other entry has the name of an entry in a browser. -/
def OnlyOfItsName (entries : List Presented) (entry : Presented) : Prop :=
  ∀ other ∈ entries, other.1.raw ≠ entry.1.raw → other.normalized ≠ entry.normalized

/-- Every displayed name that is accepted deletes what it is for, and files can be selected by their names. -/
structure SelectionExact (entries : List Presented) : Prop where
  deleted : ∀ display selected, (NameLookup.new crates entries).resolve (.display display) false = .ok selected →
    ∃ deletes, Deletions.new crates [.deleteEntry (.display display)] (NameLookup.new crates entries) = .ok deletes ∧
      ∀ entry ∈ entries, deletes.«matches» entry.1 = true ↔ Selects selected entry
  selectable : ∀ entry ∈ entries, entry.2 = false → OnlyOfItsName entries entry →
    (NameLookup.new crates entries).resolve (.display entry.1.display) false = .ok ⟨entry.1, false⟩

/-- The bytes of an item are those of an entry, or a directory that its bytes go through. -/
def Covers (item entry : Presented) : Prop :=
  entry.1.raw = item.1.raw ∨ item.1.raw ∈ Deletions.directories entry.1.raw

/-- The bytes of names and the names that are shown agree. -/
structure NamesAgree (entries : List Presented) : Prop where
  directories : ∀ item ∈ presented crates entries, item.2 = true →
    Unambiguous (bindings (presented crates entries)) item → ∀ entry ∈ entries,
      (Covers item entry ↔ item.normalized.toList <+: entry.normalized.toList)
  files : ∀ entry ∈ entries, entry.2 = false → ∀ name ∈ entry.names, name ≠ "" →
    ¬ Shared (bindings (presented crates entries)) name → ∀ other ∈ entries,
      (other.1.raw = entry.1.raw ↔ other.normalized = entry.normalized)
  named : ∀ entry ∈ entries, entry.2 = false → OnlyOfItsName entries entry →
    entry.1.display ≠ "" ∧ ¬ Shared (bindings (presented crates entries)) entry.1.display

theorem deletions_new_deleteEntry {table : NameLookup} {display : String} {selected : SelectedName}
    (h : table.resolve (.display display) false = .ok selected) (hraw : selected.path.raw ≠ []) :
    Deletions.new crates [.deleteEntry (.display display)] table =
      .ok ⟨none, [(selected.path.raw, ⟨selected.path.display, selected.directory, false⟩)]⟩ := by
  unfold Deletions.new Deletions.collect Deletions.collect
  rw [h]
  simp only [ok_bind, if_neg hraw]
  rfl

/-- One literal deletion matches its bytes, and as a directory what they lead to. -/
theorem matches_literal {raw : List UInt8} {display : String} {directory : Bool} {path : EntryPath} :
    Deletions.«matches» ⟨none, [(raw, ⟨display, directory, false⟩)]⟩ path = true ↔
      path.raw = raw ∨ directory = true ∧ raw ∈ Deletions.directories path.raw := by
  have hlookup : ∀ key, [(raw, LiteralSelection.mk display directory false)].lookup key =
      if key = raw then some ⟨display, directory, false⟩ else none := by
    intro key
    rw [List.lookup_cons]
    by_cases hkey : key = raw
    · rw [if_pos hkey, hkey, beq_self_eq_true]
    · rw [if_neg hkey, beq_eq_false_iff_ne.2 hkey]
      rfl
  unfold Deletions.«matches»
  simp only [hlookup, Option.any_none, Bool.or_false]
  simp only [bne_iff_ne, ne_eq, reduceCtorEq, not_false_eq_true, Bool.and_eq_true, Bool.or_eq_true, true_and,
    List.any_eq_true]
  refine or_congr ?_ ⟨?_, ?_⟩
  · by_cases hkey : path.raw = raw
    · simp [hkey]
    · simp [hkey]
  · rintro ⟨parent, hparent, hany⟩
    split at hany
    · rename_i hkey
      rw [← hkey]
      exact ⟨hany, hparent⟩
    · cases hany
  · rintro ⟨hdirectory, hmem⟩
    refine ⟨raw, hmem, ?_⟩
    rw [if_pos rfl]
    exact hdirectory

variable {crates} {entries : List Presented}

theorem mem_presented {entry : Presented} (h : entry ∈ entries) : entry ∈ presented crates entries := by
  unfold presented
  exact List.mem_flatMap.2 ⟨entry, h, List.mem_cons_self⟩

/-- An item is an entry or a directory with some bytes. -/
theorem of_mem_presented {item : Presented} (h : item ∈ presented crates entries) :
    item ∈ entries ∨ item.2 = true ∧ item.1.raw ≠ [] := by
  unfold presented at h
  obtain ⟨entry, hentry, hmem⟩ := List.mem_flatMap.1 h
  rcases List.mem_cons.1 hmem with rfl | hmem
  · exact .inl hentry
  · unfold impliedDirectories at hmem
    obtain ⟨index, -, hsome⟩ := List.mem_filterMap.1 hmem
    split at hsome
    · rename_i hindex
      simp only at hsome
      split at hsome
      · cases hsome
        refine .inr ⟨rfl, List.ne_nil_of_length_pos ?_⟩
        rw [List.length_take]
        omega
      · cases hsome
    · cases hsome

/-- Entries whose path depends on their bytes only, and which are no directories without bytes. -/
structure Decoded (entries : List Presented) : Prop where
  path_eq : ∀ a ∈ entries, ∀ b ∈ entries, a.1.raw = b.1.raw → a.1 = b.1
  of_nil : ∀ a ∈ entries, a.1.raw = [] → a.1.display = "" ∧ a.2 = false

theorem archiveEntries_decoded (names : List CentralName) (encoding : Option String) :
    Decoded (archiveEntries crates names encoding) where
  path_eq := by
    intro a ha b hb hraw
    unfold archiveEntries at ha hb
    obtain ⟨name, -, rfl⟩ := List.mem_map.1 ha
    obtain ⟨name', -, rfl⟩ := List.mem_map.1 hb
    simp only [decodeEntryName_raw] at hraw ⊢
    rw [hraw]
  of_nil := by
    intro a ha hraw
    unfold archiveEntries at ha
    obtain ⟨⟨raw, utf8⟩, -, rfl⟩ := List.mem_map.1 ha
    simp only [decodeEntryName_raw] at hraw
    subst hraw
    refine ⟨?_, ?_⟩
    · have hempty : fromUtf8 [] = some "" := fromUtf8_utf8Bytes ""
      unfold decodeEntryName
      simp only [hempty]
    · cases utf8 with
      | false => exact (by decide : isDir (CentralName.fileName ⟨[], false⟩) = false)
      | true => exact (by decide +kernel : isDir (CentralName.fileName ⟨[], true⟩) = false)

/-- A name that differing items do not share finds an item with the bytes and the kind of each of its items. -/
theorem first_of_name {item : Presented} {name : String} (hitem : item ∈ presented crates entries)
    (hname : name ∈ item.names) (hclear : ¬ Shared (bindings (presented crates entries)) name) :
    ∃ first ∈ presented crates entries, (bindings (presented crates entries)).lookup name = some first ∧
      name ∈ first.names ∧ first.1.raw = item.1.raw ∧ first.2 = item.2 := by
  have hmem : (name, item) ∈ bindings (presented crates entries) := mem_bindings.2 ⟨hitem, hname⟩
  obtain ⟨first, hfirst⟩ : ∃ first, (bindings (presented crates entries)).lookup name = some first := by
    rw [← Option.isSome_iff_exists, Option.isSome_iff_ne_none]
    intro hnone
    have := List.lookup_eq_none_iff.1 hnone _ hmem
    simp at this
  have hfirstMem := mem_bindings.1 (mem_of_lookup hfirst)
  refine ⟨first, hfirstMem.1, hfirst, hfirstMem.2, ?_⟩
  by_contra hdiffer
  refine hclear ⟨first, item, mem_of_lookup hfirst, hmem, ?_⟩
  unfold Differ
  by_contra hsame
  push Not at hsame
  exact hdiffer hsame

/-- An entry that is a file is found under each of its own names. -/
theorem resolve_file (hdecoded : Decoded entries) {entry : Presented} (hentry : entry ∈ entries) (hfile : entry.2 = false)
    {name : String} (hname : name ∈ entry.names) (hne : name ≠ "")
    (hclear : ¬ Shared (bindings (presented crates entries)) name) :
    (NameLookup.new crates entries).resolve (.display name) false = .ok ⟨entry.1, false⟩ := by
  obtain ⟨first, hfirst, hlookup, -, hraw, hkind⟩ := first_of_name (mem_presented hentry) hname hclear
  have hfirstFile : first.2 = false := by rw [hkind, hfile]
  have hpath : first.1 = entry.1 := by
    rcases of_mem_presented hfirst with hmem | ⟨hdirectory, -⟩
    · exact hdecoded.path_eq first hmem entry hentry hraw
    · rw [hfirstFile] at hdirectory
      cases hdirectory
  refine (new_represents crates entries).resolve_eq_ok.2 ⟨hne, first, hlookup, ?_, hclear, fun h => ?_⟩
  · rw [hpath, hfirstFile]
  · rw [hfirstFile] at h
    cases h

/-- A directory is found under its name in a browser, as an item with its bytes. -/
theorem resolve_directory {item : Presented} (hitem : item ∈ presented crates entries) (hdirectory : item.2 = true)
    (hclear : Unambiguous (bindings (presented crates entries)) item) :
    ∃ path : EntryPath, (NameLookup.new crates entries).resolve (.display item.normalized) false = .ok ⟨path, true⟩ ∧
      path.raw = item.1.raw ∧ path.normalizedDisplay true = item.normalized := by
  have hnormalized : item.1.normalizedDisplay true = item.normalized := by
    unfold Presented.normalized
    rw [hdirectory]
  have hnotShared : ¬ Shared (bindings (presented crates entries)) item.normalized := fun hshared =>
    hclear _ hshared (hnormalized ▸ List.prefix_refl _)
  obtain ⟨first, hfirst, hlookup, hname, hraw, hkind⟩ :=
    first_of_name hitem (List.mem_cons_of_mem _ List.mem_cons_self) hnotShared
  rw [hdirectory] at hkind
  have hsame : first.1.normalizedDisplay true = item.normalized := by
    have := normalized_of_name hdirectory hkind hname
    unfold Presented.normalized at this ⊢
    rw [← this, hkind]
  have hne : item.normalized ≠ "" := by
    intro hempty
    have hlast := getLast?_browserChars item.1.display.toList
    rw [← normalizedDisplay_toList, hnormalized, hempty] at hlast
    cases hlast
  refine ⟨first.1, (new_represents crates entries).resolve_eq_ok.2 ⟨hne, first, hlookup, ?_, hnotShared, fun _ => ?_⟩,
    hraw, hsame⟩
  · rw [hkind]
  · intro name hshared
    rw [hsame, ← hnormalized]
    exact hclear name hshared

theorem prefix_of_selects {selected : SelectedName} {entry : Presented} (h : selected.directory = true) :
    Selects selected entry ↔ (selected.path.normalizedDisplay true).toList <+: entry.normalized.toList := by
  unfold Selects
  rw [h]
  constructor
  · rintro (heq | ⟨-, hbelow⟩)
    · exact heq ▸ List.prefix_refl _
    · exact hbelow
  · exact fun hbelow => .inr ⟨rfl, hbelow⟩

theorem selects_file {selected : SelectedName} {entry : Presented} (h : selected.directory = false) :
    Selects selected entry ↔ entry.normalized = selected.path.normalizedDisplay false := by
  unfold Selects
  rw [h]
  simp

/-- Exact selections make the names agree. -/
theorem SelectionExact.agree (hdecoded : Decoded entries) (h : SelectionExact crates entries) :
    NamesAgree crates entries where
  directories := by
    intro item hitem hdirectory hclear entry hentry
    obtain ⟨path, hok, hraw, hsame⟩ := resolve_directory hitem hdirectory hclear
    obtain ⟨deletes, hnew, hdeleted⟩ := h.deleted _ _ hok
    have hmatch := hdeleted entry hentry
    have hne : path.raw ≠ [] := by
      intro hnil
      unfold Deletions.new Deletions.collect at hnew
      rw [hok] at hnew
      simp only [ok_bind, hnil] at hnew
      cases hnew
    rw [deletions_new_deleteEntry crates hok hne] at hnew
    cases hnew
    rw [matches_literal, prefix_of_selects rfl, hsame, hraw] at hmatch
    unfold Covers
    simpa using hmatch
  files := by
    intro entry hentry hfile name hname hne hclear other hother
    have hok := resolve_file hdecoded hentry hfile hname hne hclear
    obtain ⟨deletes, hnew, hdeleted⟩ := h.deleted _ _ hok
    have hmatch := hdeleted other hother
    have hraw : entry.1.raw ≠ [] := by
      intro hnil
      unfold Deletions.new Deletions.collect at hnew
      rw [hok] at hnew
      simp only [ok_bind, hnil] at hnew
      cases hnew
    rw [deletions_new_deleteEntry crates hok hraw] at hnew
    cases hnew
    rw [matches_literal, selects_file rfl] at hmatch
    unfold Presented.normalized at hmatch ⊢
    rw [hfile]
    simpa using hmatch
  named := by
    intro entry hentry hfile hlone
    obtain ⟨hne, item, -, -, hclear, -⟩ :=
      (new_represents crates entries).resolve_eq_ok.1 (h.selectable entry hentry hfile hlone)
    exact ⟨hne, hclear⟩

/-- Where the names agree selections are exact. -/
theorem NamesAgree.exact (hdecoded : Decoded entries) (h : NamesAgree crates entries) : SelectionExact crates entries where
  deleted := by
    intro display selected hok
    obtain ⟨hne, item, hlookup, rfl, hclear, hbelow⟩ := (new_represents crates entries).resolve_eq_ok.1 hok
    obtain ⟨hitem, hname⟩ := mem_bindings.1 (mem_of_lookup hlookup)
    have hraw : item.1.raw ≠ [] := by
      rcases of_mem_presented hitem with hentry | ⟨-, hraw⟩
      · intro hnil
        obtain ⟨hdisplay, hkind⟩ := hdecoded.of_nil item hentry hnil
        have hempty : ∀ name ∈ item.names, name = "" := by
          obtain ⟨path, directory⟩ := item
          simp only at hdisplay hkind
          unfold Presented.names Presented.listed Presented.normalized
          simp only [normalizedDisplay_eq, hdisplay, hkind]
          decide
        exact hne (hempty display hname)
      · exact hraw
    refine ⟨_, deletions_new_deleteEntry crates hok hraw, fun entry hentry => ?_⟩
    rw [matches_literal]
    cases hkind : item.2 with
    | true =>
      rw [prefix_of_selects rfl]
      have hagree := h.directories item hitem hkind (hbelow hkind) entry hentry
      unfold Covers Presented.normalized at hagree
      rw [hkind] at hagree
      simpa [Presented.normalized] using hagree
    | false =>
      rw [selects_file rfl]
      rcases of_mem_presented hitem with hmem | ⟨hdirectory, -⟩
      · have hagree := h.files item hmem hkind display hname hne hclear entry hentry
        unfold Presented.normalized at hagree ⊢
        rw [hkind] at hagree
        simpa using hagree
      · rw [hkind] at hdirectory
        cases hdirectory
  selectable := by
    intro entry hentry hfile hlone
    obtain ⟨hne, hclear⟩ := h.named entry hentry hfile hlone
    refine resolve_file hdecoded hentry hfile ?_ hne hclear
    unfold Presented.names Presented.listed
    rw [hfile]
    exact List.mem_cons_self

end

/-- A decoder that knows one character of two bytes, the second of which is that of the backslash. -/
def shiftJisTable : List UInt8 → List Char
  | 0x95 :: 0x5C :: rest => '表' :: shiftJisTable rest
  | byte :: rest => Char.ofNat byte.toNat :: shiftJisTable rest
  | [] => []

def shiftJisCrates : Crates Unit Unit where
  forLabel _ := some ()
  encodingName _ := "Shift_JIS"
  utf8 := ()
  decode _ raw := .ofList (shiftJisTable raw)
  decodeWithoutBomHandling _ raw := (.ofList (shiftJisTable raw), false)
  guess _ := ()
  buildGlob _ := .ok ()
  buildGlobSet _ := .ok fun _ => false

end Squallz.Zip
