/-
Names whose numbers are read back: without a closing parenthesis in the extension, and for a split output without
native volumes, the taken numbers are those that the entries are read back as.
-/
import Squallz.Api.Lossy
import Squallz.Destination.Candidates

namespace Squallz.Destination

open Squallz.Api Squallz.Text

/-! ## Reading a number back -/

theorem head?_numberedTail (extension : Option (List Char)) :
    numberedTail extension = [] ∨ (numberedTail extension).head? = some '.' := by
  cases extension with
  | none => exact .inl rfl
  | some extension =>
    simp only [numberedTail]
    by_cases h : extension = []
    · rw [if_pos h]
      exact .inl rfl
    · rw [if_neg h]
      exact .inr rfl

theorem parseUnsigned_decimal {bound number : Nat} (h : number < bound) :
    parseUnsigned bound (decimal number) = some number := by
  have hplus : (decimal number).head? ≠ some '+' := by
    intro hhead
    have := isDigit_of_mem_decimal (List.mem_of_mem_head? hhead)
    revert this
    decide
  have hall : (decimal number).all Char.isDigit = true := List.all_eq_true.2 fun c hc => isDigit_of_mem_decimal hc
  unfold parseUnsigned
  rw [if_neg hplus]
  simp only
  rw [if_pos ⟨decimal_ne_nil number, hall, by rw [ofDecimal_decimal]; exact h⟩, ofDecimal_decimal]

theorem numberedName_eq (base : Path) (number : Nat) : numberedName base number =
    (createDestinationNameParts base).1 ++ " (".toList ++ decimal number ++
      ')' :: numberedTail (createDestinationNameParts base).2 := rfl

/-- The number of a numbered name is read back where nothing closes a parenthesis behind it. -/
theorem numberedCreateDestinationIndex_numberedName {base : Path} {number : Nat}
    (hclose : ')' ∉ numberedTail (createDestinationNameParts base).2) (hle : 2 ≤ number) (hlt : number < 2 ^ 64) :
    numberedCreateDestinationIndex (numberedName base number) = some number := by
  have hall : (decimal number).all Char.isDigit = true := List.all_eq_true.2 fun c hc => isDigit_of_mem_decimal hc
  have hopen : afterLast " (".toList ((createDestinationNameParts base).1 ++ " (".toList ++ decimal number) =
      some (decimal number) := by
    have hspace : ' ' ∉ '(' :: decimal number := by
      intro hmem
      rcases List.mem_cons.1 hmem with h | h
      · revert h
        decide
      · have := isDigit_of_mem_decimal h
        revert this
        decide
    rw [List.append_assoc]
    refine afterLast_append ?_
    show afterLast [' ', '('] (' ' :: '(' :: decimal number) = _
    rw [afterLast, afterLast_eq_none hspace]
    simp
  unfold numberedCreateDestinationIndex
  rw [numberedName_eq, rsplitOnce_append hclose]
  simp only
  rw [if_neg, hopen]
  · simp only
    rw [if_neg (not_or.2 ⟨decimal_ne_nil number, not_not.2 hall⟩), parseUnsigned_decimal hlt]
    simp [hle]
  · rintro ⟨hne, hdot⟩
    rcases head?_numberedTail (createDestinationNameParts base).2 with h | h
    · exact hne h
    · exact hdot h

/-! ## Names as bytes -/

theorem dot_mem_osStr {text : List Char} (h : dot ∈ osStr text) : '.' ∈ text := by
  unfold osStr at h
  rw [utf8Bytes_ofList] at h
  obtain ⟨c, hc, hbyte⟩ := List.mem_flatMap.1 h
  have : c = '.' := Char.ext (UInt32.toNat_inj.1 (val_of_mem_utf8EncodeChar (by decide) hbyte))
  exact this ▸ hc

theorem osStr_eq_nil {text : List Char} : osStr text = [] ↔ text = [] :=
  ⟨fun h => osStr_injective (h.trans (show [] = osStr [] from rfl)), fun h => by rw [h]; rfl⟩

theorem rsplitOnce_osStr (text : List Char) :
    rsplitOnce dot (osStr text) = (rsplitOnce '.' text).map fun parts => (osStr parts.1, osStr parts.2) := by
  cases h : rsplitOnce '.' text with
  | none => exact rsplitOnce_of_not_mem fun hmem => rsplitOnce_eq_none h (dot_mem_osStr hmem)
  | some parts =>
    obtain ⟨htext, hdot⟩ := rsplitOnce_eq_some h
    rw [htext, osStr_append]
    have hcons : osStr ('.' :: parts.2) = dot :: osStr parts.2 := osStr_append ['.'] parts.2
    rw [hcons]
    exact rsplitOnce_append fun hmem => hdot (dot_mem_osStr hmem)

theorem stemOf_osStr (text : List Char) : stemOf dot (osStr text) = osStr (stemOf '.' text) := by
  unfold stemOf
  rw [rsplitOnce_osStr]
  rcases rsplitOnce '.' text with _ | ⟨_ | ⟨c, before⟩, after⟩
  · rfl
  · rfl
  · simp only [Option.map_some]
    split
    · rename_i heq
      cases heq
    · rename_i heq
      rw [Option.some.injEq, Prod.mk.injEq, osStr_eq_nil] at heq
      exact absurd heq.1 (by simp)
    · rename_i heq
      rw [Option.some.injEq, Prod.mk.injEq] at heq
      exact heq.1.symm

theorem extensionOf_osStr (text : List Char) : extensionOf dot (osStr text) = (extensionOf '.' text).map osStr := by
  unfold extensionOf
  rw [rsplitOnce_osStr]
  rcases rsplitOnce '.' text with _ | ⟨_ | ⟨c, before⟩, after⟩
  · rfl
  · rfl
  · simp only [Option.map_some]
    split
    · rename_i heq
      cases heq
    · rename_i heq
      rw [Option.some.injEq, Prod.mk.injEq, osStr_eq_nil] at heq
      exact absurd heq.1 (by simp)
    · rename_i heq
      rw [Option.some.injEq, Prod.mk.injEq] at heq
      rw [heq.2]

theorem toStringLossy_osStr (text : List Char) : toStringLossy (osStr text) = text := by
  unfold toStringLossy osStr
  rw [fromUtf8Lossy_utf8Bytes, String.toList_ofList]

/-! ## The ends of a name and of its numbered names -/

/-- Behind one separator texts are cut alike, whatever stands before it. -/
theorem rsplitOnce_behind (text : List Char) : ∃ last, ∀ front : List Char, front ≠ [] →
    ∃ before ≠ [], rsplitOnce '.' (front ++ '.' :: text) = some (before, last) := by
  cases h : rsplitOnce '.' text with
  | none => exact ⟨text, fun front hfront => ⟨front, hfront, rsplitOnce_append (rsplitOnce_eq_none h)⟩⟩
  | some parts =>
    obtain ⟨htext, hdot⟩ := rsplitOnce_eq_some h
    refine ⟨parts.2, fun front hfront => ⟨front ++ '.' :: parts.1, by simp, ?_⟩⟩
    rw [htext, ← List.cons_append, ← List.append_assoc]
    exact rsplitOnce_append hdot

/-- Two names that agree from a dot on: they have one extension, and are volumes or not alike. -/
structure SameEnd (a b : List Char) : Prop where
  extension : extensionOf '.' a = extensionOf '.' b
  volume : (splitVolumeName a).isSome = (splitVolumeName b).isSome

theorem volume_congr {a b before before' last : List Char} (h : rsplitOnce '.' a = some (before, last))
    (h' : rsplitOnce '.' b = some (before', last)) (hbefore : before ≠ []) (hbefore' : before' ≠ []) :
    (splitVolumeName a).isSome = (splitVolumeName b).isSome := by
  unfold splitVolumeName
  rw [h, h']
  simp only [hbefore, hbefore', false_or]
  split
  · rfl
  · cases parseUnsigned (2 ^ 32) last with
    | none => rfl
    | some index =>
      by_cases hzero : index = 0
      · simp [hzero]
      · simp [hzero]

theorem sameEnd_of_dot {front other : List Char} (hfront : front ≠ []) (hother : other ≠ []) (text : List Char) :
    SameEnd (front ++ '.' :: text) (other ++ '.' :: text) := by
  obtain ⟨last, hlast⟩ := rsplitOnce_behind text
  obtain ⟨before, hbefore, h⟩ := hlast front hfront
  obtain ⟨before', hbefore', h'⟩ := hlast other hother
  constructor
  · unfold extensionOf
    rw [h, h']
    cases before with
    | nil => exact absurd rfl hbefore
    | cons c before =>
      cases before' with
      | nil => exact absurd rfl hbefore'
      | cons c' before' => rfl
  · exact volume_congr h h' hbefore hbefore'

/-- A name that ends with a parenthesis has one in its extension. -/
theorem closes_last {front before last : List Char} (h : rsplitOnce '.' (front ++ [')']) = some (before, last)) :
    ')' ∈ last := by
  obtain ⟨htext, -⟩ := rsplitOnce_eq_some h
  rcases List.eq_nil_or_concat last with rfl | ⟨last, c, rfl⟩
  · have := (List.append_inj' htext rfl).2
    simp at this
  · rw [List.concat_eq_append] at htext ⊢
    have hend : front ++ [')'] = (before ++ '.' :: last) ++ [c] := by rw [htext]; simp
    have := List.singleton_inj.1 (List.append_inj' hend rfl).2
    rw [← this]
    simp

theorem toLower_eq_dot {c : Char} (h : c.toLower = '.') : c = '.' := by
  rcases toLower_cases h with heq | ⟨hlow, -, hval⟩
  · exact heq
  · have hdot : '.'.val.toNat = 46 := rfl
    omega

/-- A compound extension is cut off behind a dot. -/
theorem compoundParts_eq_some {name : List Char} {extensions : List (List Char)} {stem extension : List Char}
    (hne : ∀ e ∈ extensions, e ≠ []) (h : compoundParts name extensions = some (stem, extension)) :
    stem ≠ [] ∧ extension ≠ [] ∧ name = stem ++ '.' :: extension := by
  induction extensions with
  | nil => cases h
  | cons ext rest ih =>
    rw [compoundParts] at h
    split at h
    · rename_i hend
      obtain ⟨⟨front, hfront⟩, hlength⟩ := hend
      cases h
      have hsplit := List.take_append_drop (name.length - ('.' :: ext).length) name
      have hlower : (name.drop (name.length - ('.' :: ext).length)).map Char.toLower = '.' :: ext := by
        rw [List.map_drop, ← hfront]
        have : (front ++ '.' :: ext).length = name.length := by rw [hfront, List.length_map]
        rw [List.length_append] at this
        rw [show name.length - ('.' :: ext).length = front.length by omega, List.drop_left]
      generalize hback : name.drop (name.length - ('.' :: ext).length) = back at hlower hsplit
      have hrest : name.drop (name.length - ('.' :: ext).length + 1) = back.drop 1 := by rw [← hback, List.drop_drop]
      rw [hrest]
      cases back with
      | nil => cases hlower
      | cons c back =>
        rw [List.map_cons, List.cons.injEq] at hlower
        refine ⟨?_, ?_, ?_⟩
        · intro hnil
          have := congrArg List.length hnil
          rw [List.length_take, List.length_nil] at this
          omega
        · intro hnil
          rw [List.drop_one, List.tail_cons] at hnil
          rw [hnil] at hlower
          exact hne ext List.mem_cons_self hlower.2.symm
        · rw [List.drop_one, List.tail_cons, ← toLower_eq_dot hlower.1]
          exact hsplit.symm
    · exact ih (fun e he => hne e (List.mem_cons_of_mem _ he)) h

/-- The parts of a name that is text: they agree with the name from a dot on, or the name has no extension. -/
theorem nameParts_cases {base : Path} {name : List Char} (hname : (fileName base).bind toStr = some name) :
    (∃ front extension, front ≠ [] ∧ extension ≠ [] ∧ createDestinationNameParts base = (front, some extension) ∧
      name = front ++ '.' :: extension) ∨
    (numberedTail (createDestinationNameParts base).2 = [] ∧
      (extensionOf '.' name = none ∨ extensionOf '.' name = some [])) := by
  obtain ⟨bytes, hbytes, htext⟩ := Option.bind_eq_some_iff.1 hname
  rw [osStr_of_toStr htext] at hbytes
  unfold createDestinationNameParts
  rw [hbytes]
  simp only [Option.map_some, Option.getD_some, toStringLossy_osStr, Option.bind_some, stemOf_osStr, extensionOf_osStr,
    Option.map_map]
  cases hcompound : compoundParts name compoundCreateExtensions with
  | some parts =>
    obtain ⟨hstem, hext, hsplit⟩ := compoundParts_eq_some (by decide) hcompound
    exact .inl ⟨parts.1, parts.2, hstem, hext, rfl, hsplit⟩
  | none =>
    have hlossy : toStringLossy ∘ osStr = id := funext toStringLossy_osStr
    rw [hlossy, Option.map_id, id]
    simp only
    unfold stemOf extensionOf
    cases hcut : rsplitOnce '.' name with
    | none => exact .inr ⟨rfl, .inl rfl⟩
    | some parts =>
      obtain ⟨before, after⟩ := parts
      obtain ⟨htext, -⟩ := rsplitOnce_eq_some hcut
      cases before with
      | nil => exact .inr ⟨rfl, .inl rfl⟩
      | cons c before =>
        cases after with
        | nil => exact .inr ⟨rfl, .inr rfl⟩
        | cons d after => exact .inl ⟨c :: before, d :: after, by simp, by simp, rfl, htext⟩

/-- A base whose numbered names are read back. -/
structure Readable (base : Path) (kind : CreateArtifactKind) : Prop where
  closes : ')' ∉ numberedTail (createDestinationNameParts base).2
  text : kind = .splitArchive → ((fileName base).bind toStr).isSome
  volume : kind = .splitArchive → ∀ name, (fileName base).bind toStr = some name → splitVolumeName name = none
  native : kind = .splitArchive → ∀ name extension, (fileName base).bind toStr = some name →
    extensionOf '.' name = some extension →
      eqIgnoreAsciiCase extension "zip".toList = false ∧ eqIgnoreAsciiCase extension "swm".toList = false

/-- What ends with a parenthesis is no volume, and its extension is none of those without one. -/
theorem closed_name {front : List Char} :
    splitVolumeName (front ++ [')']) = none ∧ ∀ extension, extensionOf '.' (front ++ [')']) = some extension →
      ∀ other : List Char, ')' ∉ other.map Char.toLower → eqIgnoreAsciiCase extension other = false := by
  cases hcut : rsplitOnce '.' (front ++ [')']) with
  | none =>
    unfold splitVolumeName extensionOf
    rw [hcut]
    exact ⟨rfl, fun extension h => by cases h⟩
  | some parts =>
    obtain ⟨before, last⟩ := parts
    have hclose := closes_last hcut
    constructor
    · unfold splitVolumeName
      rw [hcut]
      have hdigits : ¬ last.all Char.isDigit = true := by
        intro hall
        have := List.all_eq_true.1 hall _ hclose
        revert this
        decide
      exact if_pos (.inr (.inr hdigits))
    · intro extension h other hother
      unfold extensionOf at h
      rw [hcut] at h
      have hlast : extension = last := by
        cases before with
        | nil => cases h
        | cons c before => exact (Option.some.inj h).symm
      rw [hlast]
      refine decide_eq_false fun heq => hother ?_
      rw [← heq]
      exact List.mem_map.2 ⟨')', hclose, by decide⟩

/-- A numbered name and its base are volumes, SQZ files and native volumes alike. -/
theorem numberedName_ends {base : Path} {name : List Char} (hname : (fileName base).bind toStr = some name)
    (hvolume : splitVolumeName name = none) (number : Nat) : splitVolumeName (numberedName base number) = none ∧
      ∀ other : List Char, other ≠ [] → ')' ∉ other.map Char.toLower →
        (extensionOf '.' (numberedName base number)).any (eqIgnoreAsciiCase · other) =
          (extensionOf '.' name).any (eqIgnoreAsciiCase · other) := by
  rcases nameParts_cases hname with ⟨front, extension, hfront, hext, hparts, hsplit⟩ | ⟨htail, hnone⟩
  · have hnumbered : numberedName base number =
        (front ++ " (".toList ++ decimal number ++ [')']) ++ '.' :: extension := by
      rw [numberedName_eq, hparts]
      simp [numberedTail, hext]
    have hend : SameEnd (numberedName base number) name := by
      rw [hnumbered, hsplit]
      exact sameEnd_of_dot (by simp) hfront extension
    refine ⟨?_, fun other _ _ => by rw [hend.extension]⟩
    have := hend.volume
    rw [hvolume] at this
    exact Option.isNone_iff_eq_none.1 (by simpa using this)
  · have hnumbered : numberedName base number =
        (createDestinationNameParts base).1 ++ " (".toList ++ decimal number ++ [')'] := by
      rw [numberedName_eq, htail]
    rw [hnumbered]
    obtain ⟨hclosed, hclose⟩ :=
      @closed_name ((createDestinationNameParts base).1 ++ " (".toList ++ decimal number)
    refine ⟨hclosed, fun other hne hother => ?_⟩
    have hleft : (extensionOf '.' ((createDestinationNameParts base).1 ++ " (".toList ++ decimal number ++ [')'])).any
        (eqIgnoreAsciiCase · other) = false := by
      cases hext : extensionOf '.' ((createDestinationNameParts base).1 ++ " (".toList ++ decimal number ++ [')']) with
      | none => rfl
      | some extension => exact hclose extension hext other hother
    rw [hleft]
    rcases hnone with h | h
    · rw [h]
      rfl
    · rw [h, Option.any_some]
      refine (decide_eq_false fun heq => hne ?_).symm
      rw [List.map_nil] at heq
      exact List.map_eq_nil_iff.1 heq.symm

theorem isSqzBase_of_text {path : Path} {name : List Char} (h : (fileName path).bind toStr = some name) :
    isSqzBase path = (extensionOf '.' name).any (eqIgnoreAsciiCase · "sqz".toList) := by
  obtain ⟨bytes, hbytes, htext⟩ := Option.bind_eq_some_iff.1 h
  unfold isSqzBase
  rw [hbytes, osStr_of_toStr htext, Option.bind_some, extensionOf_osStr]
  cases extensionOf '.' name with
  | none => rfl
  | some extension =>
    rw [Option.map_some, Option.bind_some, toStr_osStr]
    rfl

/-! ## Members of a numbered family -/

/-- On a case-sensitive file system only the path itself is the entry. -/
def samePath (expected observed : Path) : Bool := expected = observed

theorem withFileName_candidate (parent base : Path) (number : Nat) {text : List Char} (h : '(' ∈ text) :
    withFileName (candidate parent base number) (osStr text) = parent ++ [osStr text] := by
  unfold withFileName
  rw [fileName_candidate]
  simp only [Option.isSome_some, if_true]
  rw [joinName_osStr _ h]
  unfold candidate Destination.parent
  rw [List.dropLast_concat]

theorem splitVolumeName_base {name : List Char} {volume : List Char × Nat} {parts : List Char × List Char}
    (h : splitVolumeName name = some volume) (hcut : rsplitOnce '.' name = some parts) : volume.1 = parts.1 := by
  unfold splitVolumeName at h
  rw [hcut] at h
  simp only at h
  split at h
  · cases h
  · split at h
    · cases h
    · split at h
      · cases h
      · cases h
        rfl

/-- A member of the split family of a numbered name is read back as its number. -/
theorem managedBaseName_of_member {parent base entry : Path} {number : Nat} {name : List Char} {includeRecovery : Bool}
    (hnative : ∀ extension, extensionOf '.' (numberedName base number) = some extension →
      eqIgnoreAsciiCase extension "zip".toList = false ∧ eqIgnoreAsciiCase extension "swm".toList = false)
    (hname : (fileName entry).bind toStr = some name)
    (h : expectedManagedSplitOutputPath (candidate parent base number) name includeRecovery = some entry) :
    entry = candidate parent base number ∨ managedBaseName name includeRecovery = some (numberedName base number) := by
  have hread : ∀ {text : List Char}, '(' ∈ text →
      withFileName (candidate parent base number) (osStr text) = entry → name = text := by
    intro text hmem heq
    rw [withFileName_candidate _ _ _ hmem] at heq
    rw [← heq, fileName_osStr _ hmem, Option.bind_some, toStr_osStr, Option.some.injEq] at hname
    exact hname.symm
  have hzip : nativeZipVolumeName (numberedName base number) name = false := by
    unfold nativeZipVolumeName
    cases hext : extensionOf '.' (numberedName base number) with
    | none => rfl
    | some extension => rw [Option.any_some, (hnative extension hext).1]; rfl
  have hwim : nativeWimVolumeNumber (numberedName base number) name = none := by
    unfold nativeWimVolumeNumber
    cases hext : extensionOf '.' (numberedName base number) with
    | none => rfl
    | some extension => rw [Option.any_some, (hnative extension hext).2]; rfl
  have hparen := mem_numberedName base number
  unfold expectedManagedSplitOutputPath at h
  rw [text_candidate] at h
  simp only at h
  split at h
  · exact .inl (Option.some.inj h).symm
  · split at h
    · -- a split volume
      rename_i hvolume
      obtain ⟨parts, hcut, hentry⟩ := Option.map_eq_some_iff.1 h
      have htext := hread (List.mem_append_left _ hparen) hentry
      right
      unfold managedBaseName
      obtain ⟨volume, hvolume⟩ := Option.isSome_iff_exists.1 hvolume
      rw [hvolume]
      simp only
      have hbase := splitVolumeName_base hvolume hcut
      have hname := (rsplitOnce_eq_some hcut).1
      rw [htext] at hname
      rw [hbase, ← List.append_cancel_right hname]
    · rename_i hvolume
      rw [hzip, hwim] at h
      simp only [Bool.false_eq_true, if_false] at h
      split at h
      · -- a recovery volume
        rename_i hinclude
        obtain ⟨suffix, hsuffix, hentry⟩ := Option.map_eq_some_iff.1 h
        have htext := hread (List.mem_append_left _ hparen) hentry
        right
        unfold managedBaseName
        rw [Option.not_isSome_iff_eq_none.1 hvolume]
        simp only [hinclude, if_true]
        rw [hsuffix, Option.bind_some, htext, if_pos (List.suffix_append _ _), List.length_append, Nat.add_sub_cancel,
          List.take_left]
      · cases h

theorem normalizedDestination_candidate {parent base : Path} {kind : CreateArtifactKind} (h : Readable base kind)
    (number : Nat) : normalizedDestination (candidate parent base number) kind = .ok (candidate parent base number) := by
  unfold normalizedDestination
  by_cases hkind : kind = .splitArchive
  · obtain ⟨name, hname⟩ := Option.isSome_iff_exists.1 (h.text hkind)
    rw [if_neg (not_not.2 hkind), text_candidate]
    simp only
    rw [(numberedName_ends hname (h.volume hkind name hname) number).1]
    rfl
  · exact if_pos hkind

/-- The taken numbers of a readable base are those that the entries are read back as. -/
theorem readsTaken_of_readable {snapshot : DirectorySnapshot} {parent base : Path} {kind : CreateArtifactKind}
    (h : Readable base kind) : ReadsTaken samePath snapshot parent base kind := by
  intro number hle hlt _
  have hindex := numberedCreateDestinationIndex_numberedName h.closes hle hlt
  have hreads : candidate parent base number ∈ snapshot.entries → ReadBack samePath snapshot parent base kind number :=
    fun hmem => ⟨_, hmem, _, text_candidate number, .inl ⟨hindex, decide_eq_true rfl⟩⟩
  unfold Taken
  rw [hasConflictWith_eq (normalizedDestination_candidate h number), Except.ok.injEq]
  by_cases hkind : kind = .splitArchive
  · obtain ⟨base', hbase⟩ := Option.isSome_iff_exists.1 (h.text hkind)
    obtain ⟨-, hends⟩ := numberedName_ends hbase (h.volume hkind base' hbase) number
    have hsqz : isSqzBase (candidate parent base number) = isSqzBase base := by
      rw [isSqzBase_of_text (text_candidate number), isSqzBase_of_text hbase]
      exact hends _ (by decide) (by decide)
    have hnative : ∀ extension, extensionOf '.' (numberedName base number) = some extension →
        eqIgnoreAsciiCase extension "zip".toList = false ∧ eqIgnoreAsciiCase extension "swm".toList = false := by
      intro extension hext
      have hzip := hends "zip".toList (by decide) (by decide)
      have hswm := hends "swm".toList (by decide) (by decide)
      rw [hext, Option.any_some] at hzip hswm
      rw [hzip, hswm]
      cases hown : extensionOf '.' base' with
      | none => exact ⟨rfl, rfl⟩
      | some own => exact h.native hkind base' own hbase hown
    rw [if_neg (not_not.2 hkind), hsqz, List.any_eq_true]
    constructor
    · rintro ⟨entry, hmem, hmatch⟩
      rcases Bool.or_eq_true _ _ ▸ hmatch with hsame | hmember
      · exact hreads (of_decide_eq_true hsame ▸ hmem)
      · unfold matchesMember at hmember
        obtain ⟨expected, hexpected, hsame⟩ := (Option.any_eq_true _ _).1 hmember
        obtain ⟨name, hname, hexpected⟩ := Option.bind_eq_some_iff.1 hexpected
        rw [of_decide_eq_true hsame] at hexpected
        rcases managedBaseName_of_member hnative hname hexpected with heq | hmanaged
        · exact hreads (heq ▸ hmem)
        · refine ⟨entry, hmem, name, hname, .inr ⟨hkind, ?_, hmember⟩⟩
          rw [hmanaged, Option.bind_some, hindex]
    · rintro ⟨entry, hmem, name, hname, ⟨-, hsame⟩ | ⟨-, -, hmember⟩⟩
      · exact ⟨entry, hmem, Bool.or_eq_true _ _ ▸ .inl hsame⟩
      · exact ⟨entry, hmem, Bool.or_eq_true _ _ ▸ .inr hmember⟩
  · rw [if_pos hkind, List.any_eq_true]
    constructor
    · rintro ⟨entry, hmem, hsame⟩
      exact hreads (of_decide_eq_true hsame ▸ hmem)
    · rintro ⟨entry, hmem, name, hname, ⟨-, hsame⟩ | ⟨hsplit, -⟩⟩
      · exact ⟨entry, hmem, hsame⟩
      · exact absurd hsplit hkind

end Squallz.Destination
