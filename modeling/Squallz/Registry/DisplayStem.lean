/-
The folder name for an archive: its file name without the suffix of its format and of its volumes. The suffix is looked
for in the lowercased name, and its place is then taken for one in the name itself.
-/
import Squallz.Destination.Names
import Squallz.Text.Lowercase

namespace Squallz.Registry

open Squallz.Api Squallz.Text Squallz.Destination

/-- The extensions of the registered formats, and the aliases of compound suffixes. -/
structure FormatRegistry where
  archives : List (List String)
  compressors : List (List String)
  aliases : List (String × String)

/-- A native ZIP volume: the name of its base and its disk number. -/
def splitZipVolumeName (name : List Char) : Option (List Char × Nat) :=
  match rsplitOnce '.' name with
  | none => none
  | some (base, suffix) =>
    if base = [] ∨ suffix.length < 3 ∨ ¬ (suffix.head?.any fun c => c = 'z' ∨ c = 'Z') ∨
        ¬ (suffix.drop 1).all Char.isDigit then none
    else
      match parseUnsigned (2 ^ 64) (suffix.drop 1) with
      | none => none
      | some number => if number = 0 then none else some (base, number)

/-- `strip_suffix`. -/
def stripSuffix (suffix text : List Char) : Option (List Char) :=
  if suffix <:+ text then some (text.take (text.length - suffix.length)) else none

/-- The name without the suffix of a split volume. -/
def volumeBase (filename : List Char) : List Char := ((splitVolumeName filename).map (·.1)).getD filename

/-- `&name[..len]`, at a byte position. -/
def sliceTo (name : List Char) (len : Nat) : Res (List Char) :=
  match takeBytes name len with
  | some front => .ok front
  | none => Api.panic "byte index is not a char boundary"

namespace FormatRegistry

variable (registry : FormatRegistry)

/-- The first of some extensions that a text ends with is taken off it. -/
def stripExtension (extensions : List String) (text : List Char) : Option (List Char) :=
  extensions.findSome? fun ext => stripSuffix ('.' :: ext.toList) text

/-- What `display_stem` leaves of the lowercased name. -/
def lowerStem (lower : List Char) : Option (List Char) :=
  match stripExtension (registry.aliases.map (·.1)) lower with
  | some stem => some stem
  | none =>
    match stripExtension registry.archives.flatten lower with
    | some stem => some stem
    | none =>
      match stripExtension registry.compressors.flatten lower with
      | some inner => some ((stripExtension registry.archives.flatten inner).getD inner)
      | none => none

variable (unicode : UnicodeData)

def displayStem (filename : List Char) : Res (List Char) :=
  match splitZipVolumeName filename with
  | some (base, _) => .ok base
  | none =>
    let name := volumeBase filename
    match registry.lowerStem (toLowercase unicode name) with
    | some stem => sliceTo name (utf8Len stem)
    | none => .ok name

end FormatRegistry

/-! ## What may be removed -/

/-- The suffixes of volumes. -/
inductive VolumeSuffix : List Char → Prop
  | split {digits : List Char} (hlen : 3 ≤ digits.length) (hdigits : digits.all Char.isDigit = true)
      (hpos : 0 < ofDecimal digits) (hlt : ofDecimal digits < 2 ^ 32) : VolumeSuffix ('.' :: digits)
  | zip {z : Char} {digits : List Char} (hz : z = 'z' ∨ z = 'Z') (hlen : 2 ≤ digits.length)
      (hdigits : digits.all Char.isDigit = true) (hpos : 0 < ofDecimal digits) (hlt : ofDecimal digits < 2 ^ 64) :
      VolumeSuffix ('.' :: z :: digits)

/-- The lowercase suffixes that the registered extensions stand for. -/
inductive Listed (registry : FormatRegistry) : List Char → Prop
  | aliased {ext : String} (h : ext ∈ registry.aliases.map (·.1)) : Listed registry ('.' :: ext.toList)
  | archive {ext : String} (h : ext ∈ registry.archives.flatten) : Listed registry ('.' :: ext.toList)
  | compressor {ext : String} (h : ext ∈ registry.compressors.flatten) : Listed registry ('.' :: ext.toList)
  | compound {inner ext : String} (hinner : inner ∈ registry.archives.flatten)
      (h : ext ∈ registry.compressors.flatten) : Listed registry ('.' :: inner.toList ++ '.' :: ext.toList)

/-- A suffix that equals, case apart, a listed one, the suffix of a volume, or the one before the other. -/
structure Recognised (registry : FormatRegistry) (unicode : UnicodeData) (suffix : List Char) : Prop where
  ne_nil : suffix ≠ []
  parts : ∃ extension volume, suffix = extension ++ volume ∧
    (extension = [] ∨ Listed registry (toLowercase unicode extension)) ∧ (volume = [] ∨ VolumeSuffix volume)

/-- A name without a suffix of either kind. -/
structure Bare (registry : FormatRegistry) (unicode : UnicodeData) (name : List Char) : Prop where
  zipVolume : splitZipVolumeName name = none
  volume : splitVolumeName name = none
  extension : ∀ lower, Listed registry lower → ¬ lower <:+ toLowercase unicode name

/-- What `display_stem` should give: the name without a recognised suffix, or the whole name if it has none. -/
def Stem (registry : FormatRegistry) (unicode : UnicodeData) (name : List Char) (result : Res (List Char)) : Prop :=
  ∃ front suffix, result = .ok front ∧ name = front ++ suffix ∧
    (Recognised registry unicode suffix ∨ suffix = [] ∧ Bare registry unicode name)

/-- What stands before the suffix takes as many bytes as the lowercased text before it, or as what stands before another
recognised suffix. -/
def CutsWell (registry : FormatRegistry) (unicode : UnicodeData) (name : List Char) : Prop :=
  splitZipVolumeName name = none → ∀ stem, registry.lowerStem (toLowercase unicode (volumeBase name)) = some stem →
    ∃ front suffix, name = front ++ suffix ∧ front <+: volumeBase name ∧ utf8Len front = utf8Len stem ∧
      Recognised registry unicode suffix

/-! ## Volumes -/

theorem parseUnsigned_digits {bound n : Nat} {digits : List Char} (hdigits : digits.all Char.isDigit = true)
    (h : parseUnsigned bound digits = some n) : ofDecimal digits = n ∧ n < bound := by
  have hhead : digits.head? ≠ some '+' := by
    intro hplus
    have hmem : '+' ∈ digits := List.mem_of_mem_head? hplus
    exact absurd (List.all_eq_true.1 hdigits _ hmem) (by decide)
  unfold parseUnsigned at h
  simp only [if_neg hhead] at h
  split at h
  · rename_i hok
    cases h
    exact ⟨rfl, hok.2.2⟩
  · cases h

theorem splitZipVolumeName_eq_some {name base : List Char} {number : Nat}
    (h : splitZipVolumeName name = some (base, number)) : ∃ suffix, name = base ++ suffix ∧ VolumeSuffix suffix := by
  unfold splitZipVolumeName at h
  split at h
  · cases h
  · rename_i base' suffix hcut
    split at h
    · cases h
    · rename_i hguard
      obtain ⟨-, hlen, hz, hdigits⟩ := by simpa only [not_or, not_not] using hguard
      cases suffix with
      | nil => exact absurd hz (by simp)
      | cons z digits =>
        rw [List.drop_one, List.tail_cons] at hdigits h
        rw [List.head?_cons, Option.any_some, decide_eq_true_eq] at hz
        split at h
        · cases h
        · rename_i number' hnumber
          split at h
          · cases h
          · rename_i hpos
            cases h
            obtain ⟨hvalue, hlt⟩ := parseUnsigned_digits hdigits hnumber
            subst hvalue
            refine ⟨_, (rsplitOnce_eq_some hcut).1, .zip hz ?_ hdigits (Nat.pos_of_ne_zero hpos) hlt⟩
            rw [List.length_cons] at hlen
            omega

theorem splitVolumeName_eq_some {name base : List Char} {index : Nat}
    (h : splitVolumeName name = some (base, index)) : ∃ suffix, name = base ++ suffix ∧ VolumeSuffix suffix := by
  unfold splitVolumeName at h
  split at h
  · cases h
  · rename_i base' digits hcut
    split at h
    · cases h
    · rename_i hguard
      obtain ⟨-, hlen, hdigits⟩ := by simpa only [not_or, not_not] using hguard
      split at h
      · cases h
      · rename_i number hnumber
        split at h
        · cases h
        · rename_i hpos
          cases h
          obtain ⟨hvalue, hlt⟩ := parseUnsigned_digits hdigits hnumber
          subst hvalue
          exact ⟨_, (rsplitOnce_eq_some hcut).1, .split (Nat.not_lt.1 hlen) hdigits (Nat.pos_of_ne_zero hpos) hlt⟩

theorem VolumeSuffix.ne_nil {suffix : List Char} (h : VolumeSuffix suffix) : suffix ≠ [] := by
  cases h with
  | split => exact List.cons_ne_nil _ _
  | zip => exact List.cons_ne_nil _ _

theorem VolumeSuffix.recognised {registry : FormatRegistry} {unicode : UnicodeData} {suffix : List Char}
    (h : VolumeSuffix suffix) : Recognised registry unicode suffix :=
  ⟨h.ne_nil, [], suffix, rfl, .inl rfl, .inr h⟩

/-- Either there is no suffix of a volume, or it is all that stands behind the base. -/
theorem volumeBase_cases (name : List Char) : splitVolumeName name = none ∧ volumeBase name = name ∨
    ∃ suffix, name = volumeBase name ++ suffix ∧ VolumeSuffix suffix := by
  unfold volumeBase
  cases hvolume : splitVolumeName name with
  | none => exact .inl ⟨rfl, rfl⟩
  | some volume =>
    obtain ⟨suffix, hname, hsuffix⟩ := splitVolumeName_eq_some hvolume
    exact .inr ⟨suffix, hname, hsuffix⟩

/-! ## Extensions -/

theorem stripSuffix_eq_some {suffix text stem : List Char} :
    stripSuffix suffix text = some stem ↔ text = stem ++ suffix := by
  unfold stripSuffix
  constructor
  · intro h
    split at h
    · rename_i hsuffix
      obtain ⟨front, rfl⟩ := hsuffix
      cases h
      simp
    · cases h
  · rintro rfl
    rw [if_pos (List.suffix_append stem suffix)]
    simp

theorem stripSuffix_eq_none {suffix text : List Char} : stripSuffix suffix text = none ↔ ¬ suffix <:+ text := by
  unfold stripSuffix
  simp

namespace FormatRegistry

variable {registry : FormatRegistry} {extensions : List String} {text stem : List Char}

theorem stripExtension_eq_some (h : stripExtension extensions text = some stem) :
    ∃ ext ∈ extensions, text = stem ++ '.' :: ext.toList := by
  obtain ⟨ext, hext, hstem⟩ := List.exists_of_findSome?_eq_some h
  exact ⟨ext, hext, stripSuffix_eq_some.1 hstem⟩

theorem stripExtension_eq_none (h : stripExtension extensions text = none) {ext : String} (hext : ext ∈ extensions) :
    ¬ '.' :: ext.toList <:+ text :=
  stripSuffix_eq_none.1 (List.findSome?_eq_none_iff.1 h ext hext)

/-- What is left stands before a listed suffix. -/
theorem lowerStem_eq_some (h : registry.lowerStem text = some stem) :
    ∃ lower, Listed registry lower ∧ text = stem ++ lower := by
  unfold lowerStem at h
  split at h
  · rename_i halias
    cases h
    obtain ⟨ext, hext, htext⟩ := stripExtension_eq_some halias
    exact ⟨_, .aliased hext, htext⟩
  · split at h
    · rename_i harchive
      cases h
      obtain ⟨ext, hext, htext⟩ := stripExtension_eq_some harchive
      exact ⟨_, .archive hext, htext⟩
    · split at h
      · rename_i inner hcompressor
        obtain ⟨ext, hext, htext⟩ := stripExtension_eq_some hcompressor
        rw [Option.some.injEq] at h
        cases hinner : stripExtension registry.archives.flatten inner with
        | none =>
          rw [hinner, Option.getD_none] at h
          subst h
          exact ⟨_, .compressor hext, htext⟩
        | some front =>
          rw [hinner, Option.getD_some] at h
          subst h
          obtain ⟨innerExt, hinnerExt, rfl⟩ := stripExtension_eq_some hinner
          exact ⟨_, .compound hinnerExt hext, by rw [htext, List.append_assoc]⟩
      · cases h

/-- When nothing is taken off, the text ends with none of the listed suffixes. -/
theorem lowerStem_eq_none (h : registry.lowerStem text = none) {lower : List Char} (hlisted : Listed registry lower) :
    ¬ lower <:+ text := by
  unfold lowerStem at h
  split at h
  · cases h
  · rename_i halias
    split at h
    · cases h
    · rename_i harchive
      split at h
      · cases h
      · rename_i hcompressor
        cases hlisted with
        | aliased hext => exact stripExtension_eq_none halias hext
        | archive hext => exact stripExtension_eq_none harchive hext
        | compressor hext => exact stripExtension_eq_none hcompressor hext
        | compound _ hext => exact fun hsuffix =>
            stripExtension_eq_none hcompressor hext ((List.suffix_append _ _).trans hsuffix)

end FormatRegistry

/-! ## When the stem is right -/

theorem sliceTo_eq_ok {name front : List Char} {len : Nat} :
    sliceTo name len = .ok front ↔ front <+: name ∧ utf8Len front = len := by
  unfold sliceTo
  rw [← takeBytes_eq_some]
  cases takeBytes name len with
  | none => simp [Api.panic]
  | some front' => simp

/-- Lowercasing keeps the places of ASCII names. -/
theorem cutsWell_of_ascii {registry : FormatRegistry} {unicode : UnicodeData} (h : unicode.AsciiLower) {name : List Char}
    (hname : ∀ c ∈ name, c.toNat < 128) : CutsWell registry unicode name := by
  intro _ stem hstem
  obtain ⟨volume, hsplit, hvolume⟩ : ∃ volume, name = volumeBase name ++ volume ∧ (volume = [] ∨ VolumeSuffix volume) := by
    rcases volumeBase_cases name with ⟨-, hbase⟩ | ⟨suffix, hsplit, hsuffix⟩
    · exact ⟨[], by rw [hbase, List.append_nil], .inl rfl⟩
    · exact ⟨suffix, hsplit, .inr hsuffix⟩
  have hbase : ∀ c ∈ volumeBase name, c.toNat < 128 := fun c hc =>
    hname c (by rw [hsplit]; exact List.mem_append_left _ hc)
  obtain ⟨lower, hlisted, htext⟩ := FormatRegistry.lowerStem_eq_some hstem
  rw [toLowercase_ascii h hbase] at htext
  obtain ⟨front, rest, hcut, rfl, hrest⟩ := List.map_eq_append_iff.1 htext
  have hfront : ∀ c ∈ front, c.toNat < 128 := fun c hc => hbase c (by rw [hcut]; exact List.mem_append_left _ hc)
  have hextension : ∀ c ∈ rest, c.toNat < 128 := fun c hc => hbase c (by rw [hcut]; exact List.mem_append_right _ hc)
  have hlower : ∀ c ∈ front.map Char.toLower, c.toNat < 128 := by
    intro c hc
    obtain ⟨c', hc', rfl⟩ := List.mem_map.1 hc
    exact toNat_toLower_lt (hfront c' hc')
  refine ⟨front, rest ++ volume, ?_, ⟨rest, hcut.symm⟩, ?_, ?_, rest, volume, rfl, .inr ?_, hvolume⟩
  · rw [← List.append_assoc, ← hcut]
    exact hsplit
  · rw [utf8Len_ascii hfront, utf8Len_ascii hlower, List.length_map]
  · intro hnil
    rw [(List.append_eq_nil_iff.1 hnil).1] at hrest
    subst hrest
    cases hlisted
  · rw [toLowercase_ascii h hextension, hrest]
    exact hlisted

/-- `embedded_preview_registry`. -/
def embeddedPreviewRegistry : FormatRegistry where
  archives := [["zip", "jar", "apk", "cbz", "ipa"], ["tar"], ["7z"], ["sqz"]]
  compressors := [["gz"], ["bz2"], ["xz"], ["zst"], ["lz4"], ["br"]]
  aliases := [("tgz", "tar.gz"), ("tbz2", "tar.bz2"), ("txz", "tar.xz"), ("tzst", "tar.zst")]

/-- The tables on ASCII and on the two characters whose lowercase form is shorter or longer. -/
def basicUnicode : UnicodeData where
  lowercase := fun c => if c = '\u212A' then ['k'] else if c = '\u0130' then ['i', '\u0307'] else [c.toLower]
  cased := fun c => c.isAlpha || c = '\u212A' || c = '\u0130'
  caseIgnorable := fun c => c = '.' || c = '\u0307'

example : embeddedPreviewRegistry.displayStem basicUnicode "Notes.Tar.GZ.002".toList = .ok "Notes".toList := by
  decide +kernel

-- the lowercased stem is longer by a byte, so the dot is taken for a part of the name
example : embeddedPreviewRegistry.displayStem basicUnicode "\u0130.tgz".toList = .ok "\u0130.".toList := by
  decide +kernel

end Squallz.Registry
