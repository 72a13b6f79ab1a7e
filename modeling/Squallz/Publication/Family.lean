/-
The names of a split family: no working name of a member and no journal is a member, as their dots tell; and what is collected
of a directory.
-/
import Squallz.Destination.Readable
import Squallz.Publication.Transaction
import Squallz.System.Moves

namespace Squallz.Publication

open Squallz.Api Squallz.Core Squallz.System Squallz.Text
open Squallz.Destination (dot toStr osStr toStringLossy fileName stemOf extensionOf parseUnsigned withFileName withExtension
  joinName splitVolumeName sqzRecoverySuffix isSqzBase nativeZipVolumeName nativeWimVolumeNumber stripFront
  expectedManagedSplitOutputPath toStr_osStr osStr_of_toStr osStr_injective osStr_append)
open Squallz.Volumes (workingName writerIdentity not_mem_writerIdentity)

/-! ## Members -/

/-- A name at which the family of a base expects a member. -/
def Member (base : Name) (includeRecovery : Bool) (name : Name) : Prop :=
  ((toStr name).bind fun text => (expectedManagedSplitOutputPath [base] text includeRecovery).bind fileName) = some name

instance (base : Name) (includeRecovery : Bool) (name : Name) : Decidable (Member base includeRecovery name) :=
  inferInstanceAs (Decidable (_ = _))

variable {base name : Name} {baseText text : List Char} {includeRecovery : Bool}

theorem fileName_one (name : Name) : fileName [name] = if name = [dot, dot] then none else some name := rfl

theorem fileName_withFileName {expected : Name} (h : fileName (withFileName [base] expected) = some name)
    (hbase : fileName [base] = some base) : expected = name := by
  unfold withFileName joinName at h
  rw [hbase, Option.isSome_some, if_pos rfl] at h
  split at h
  · cases h
  · rw [Squallz.Destination.parent, List.dropLast_singleton, List.nil_append, fileName_one] at h
    split at h
    · cases h
    · exact Option.some.inj h

theorem stripBack_append (front back : List Char) : stripBack back (front ++ back) = some front := by
  unfold stripBack
  rw [if_pos (List.suffix_append front back), List.length_append, Nat.add_sub_cancel, List.take_left]

theorem eq_of_stripBack {back : List Char} (h : stripBack back text = some baseText) : text = baseText ++ back := by
  unfold stripBack at h
  split at h
  · rename_i hback
    obtain ⟨front, rfl⟩ := hback
    rw [List.length_append, Nat.add_sub_cancel, List.take_left] at h
    rw [Option.some.inj h]
  · cases h

theorem fileName_base (h : ((fileName [base]).bind toStr) = some baseText) :
    fileName [base] = some base ∧ toStr base = some baseText := by
  rw [fileName_one] at h ⊢
  split at h
  · cases h
  · rename_i hdots
    rw [if_neg hdots]
    exact ⟨rfl, h⟩

/-- A member has a name that the journal accepts. -/
theorem Member.managed (h : Member base includeRecovery name) : ∃ baseText text, toStr base = some baseText ∧
    toStr name = some text ∧ managedSplitOutputName baseText text includeRecovery = true := by
  unfold Member at h
  cases htext : toStr name with
  | none =>
    rw [htext] at h
    cases h
  | some text =>
    rw [htext, Option.bind_some, expectedManagedSplitOutputPath] at h
    cases hbase : (fileName [base]).bind toStr with
    | none =>
      rw [hbase] at h
      cases h
    | some baseText =>
      rw [hbase] at h
      obtain ⟨hfile, hstr⟩ := fileName_base hbase
      refine ⟨baseText, text, hstr, rfl, ?_⟩
      -- the text that the expected name spells
      have hspelled : ∀ expected, fileName (withFileName [base] (osStr expected)) = some name → text = expected := by
        intro expected hexpected
        have heq := fileName_withFileName hexpected hfile
        rw [← heq, toStr_osStr, Option.some.injEq] at htext
        exact htext.symm
      unfold managedSplitOutputName
      dsimp only at h
      split at h
      · rename_i heq
        rw [heq, decide_eq_true rfl]
        rfl
      · split at h
        · rename_i hvolume
          obtain ⟨volume, hvolume⟩ := Option.isSome_iff_exists.1 hvolume
          cases hsplit : rsplitOnce '.' text with
          | none =>
            rw [hsplit] at h
            cases h
          | some parts =>
            rw [hsplit, Option.map_some, Option.bind_some] at h
            have hfirst := (rsplitOnce_eq_some hsplit).2
            have heq := hspelled _ h
            have hparts : rsplitOnce '.' text = some (baseText, parts.2) := by
              rw [heq]
              exact rsplitOnce_append hfirst
            have hname : volume.1 = baseText := by
              unfold splitVolumeName at hvolume
              rw [hparts] at hvolume
              dsimp only at hvolume
              split at hvolume
              · cases hvolume
              · split at hvolume
                · cases hvolume
                · split at hvolume
                  · cases hvolume
                  · cases hvolume
                    rfl
            rw [hvolume, Option.any_some, hname, decide_eq_true rfl, Bool.or_true]
            rfl
        · split at h
          · rename_i hzip
            rw [hzip, Bool.or_true]
            rfl
          · split at h
            · rename_i number hwim
              rw [hwim, Option.isSome_some, Bool.or_true]
              rfl
            · split at h
              · rename_i hrecovery
                cases hsuffix : sqzRecoverySuffix text with
                | none =>
                  rw [hsuffix] at h
                  cases h
                | some suffix =>
                  rw [hsuffix, Option.map_some, Option.bind_some] at h
                  have hstrip : stripBack suffix.1 text = some baseText := by
                    rw [hspelled _ h]
                    exact stripBack_append _ _
                  rw [hrecovery, Option.any_some, hstrip, decide_eq_true rfl, Bool.true_and, Bool.or_true]
              · cases h

/-! ## Dots -/

/-- How many dots a text has. -/
def dots (text : List Char) : Nat := text.count '.'

@[simp] theorem dots_append (a b : List Char) : dots (a ++ b) = dots a + dots b := List.count_append
@[simp] theorem dots_cons_dot (text : List Char) : dots ('.' :: text) = dots text + 1 := List.count_cons_self

theorem dots_eq_zero (h : '.' ∉ text) : dots text = 0 := List.count_eq_zero.2 h

theorem dots_of_rsplit {before after : List Char} (h : rsplitOnce '.' text = some (before, after)) :
    dots text = dots before + 1 := by
  obtain ⟨heq, hafter⟩ := rsplitOnce_eq_some h
  rw [heq, dots_append, dots_cons_dot, dots_eq_zero hafter]

theorem dots_of_extension {extension : List Char} (h : extensionOf '.' text = some extension) :
    dots text = dots (stemOf '.' text) + 1 := by
  unfold extensionOf at h
  unfold stemOf
  split at h
  · cases h
  · cases h
  · rename_i hsplit
    exact dots_of_rsplit hsplit

theorem dot_not_mem_digits {digits : List Char} (h : digits.all Char.isDigit = true) : '.' ∉ digits := by
  intro hmem
  have hdigit : ('.' : Char).isDigit = true := List.all_eq_true.1 h '.' hmem
  exact absurd hdigit (by decide)

theorem dots_of_parseUnsigned {bound number : Nat} (h : parseUnsigned bound text = some number) : dots text = 0 := by
  unfold parseUnsigned at h
  generalize hdigits : (if text.head? = some '+' then text.tail else text) = digits at h
  dsimp only at h
  split at h
  · rename_i hparsed
    have hdot := dot_not_mem_digits hparsed.2.1
    apply dots_eq_zero
    by_cases hplus : text.head? = some '+'
    · rw [if_pos hplus] at hdigits
      cases text with
      | nil => cases hplus
      | cons c rest =>
        rw [List.head?_cons, Option.some.injEq] at hplus
        rw [List.tail_cons] at hdigits
        rw [hplus, hdigits, List.mem_cons]
        exact not_or.2 ⟨by decide, hdot⟩
    · rw [if_neg hplus] at hdigits
      rwa [hdigits]
  · cases h

theorem dots_of_splitVolumeName {volume : List Char × Nat} (h : splitVolumeName text = some volume) :
    dots text = dots volume.1 + 1 := by
  unfold splitVolumeName at h
  split at h
  · cases h
  · rename_i before suffix hsplit
    split at h
    · cases h
    · split at h
      · cases h
      · split at h
        · cases h
        · cases h
          exact dots_of_rsplit hsplit

theorem dots_of_sqzRecoverySuffix {suffix : List Char × Nat} (h : sqzRecoverySuffix text = some suffix) :
    dots suffix.1 = 1 := by
  unfold sqzRecoverySuffix at h
  split at h
  · cases h
  · rename_i before after hsplit
    dsimp only at h
    split at h
    · cases h
    · split at h
      · cases h
      · split at h
        · cases h
          rw [dots_cons_dot, dots_eq_zero (rsplitOnce_eq_some hsplit).2]
        · cases h

theorem dots_of_nativeZip (h : nativeZipVolumeName baseText text = true) : dots text = dots baseText := by
  unfold nativeZipVolumeName at h
  rw [Bool.and_eq_true, Bool.and_eq_true, decide_eq_true_iff] at h
  obtain ⟨⟨hbase, hstem⟩, hname⟩ := h
  cases hext : extensionOf '.' baseText with
  | none =>
    rw [hext] at hbase
    cases hbase
  | some baseExt =>
    cases hext' : extensionOf '.' text with
    | none =>
      rw [hext'] at hname
      cases hname
    | some ext => rw [dots_of_extension hext, dots_of_extension hext', hstem]

theorem dots_of_nativeWim {number : Nat} (h : nativeWimVolumeNumber baseText text = some number) :
    dots text = dots baseText := by
  unfold nativeWimVolumeNumber at h
  split at h
  · cases h
  · rename_i hbase
    split at h
    · cases h
    · rename_i hname
      cases hext : extensionOf '.' baseText with
      | none =>
        rw [hext] at hbase
        exact absurd rfl hbase
      | some baseExt =>
        cases hext' : extensionOf '.' text with
        | none =>
          rw [hext'] at hname
          exact absurd rfl hname
        | some ext =>
          split at h
          · cases h
          · rename_i suffix hstrip
            split at h
            · cases h
            · obtain ⟨hparse, -⟩ := Option.filter_eq_some_iff.1 h
              unfold stripFront at hstrip
              split at hstrip
              · rename_i hfront
                have hstem := drop_of_prefix hfront
                rw [Option.some.inj hstrip] at hstem
                rw [dots_of_extension hext, dots_of_extension hext', hstem, dots_append, dots_of_parseUnsigned hparse,
                  Nat.add_zero]
              · cases hstrip

/-- A member has as many dots as the base, or one more. -/
theorem dots_of_managed (h : managedSplitOutputName baseText text includeRecovery = true) :
    dots baseText ≤ dots text ∧ dots text ≤ dots baseText + 1 := by
  unfold managedSplitOutputName at h
  rw [Bool.or_eq_true, Bool.or_eq_true, Bool.or_eq_true, Bool.or_eq_true, decide_eq_true_iff, Bool.and_eq_true] at h
  obtain (((rfl | hvolume) | hzip) | hwim) | ⟨-, hrecovery⟩ := h
  · omega
  · obtain ⟨volume, hsome, hbase⟩ := Option.any_eq_true _ _ |>.1 hvolume
    have hdots := dots_of_splitVolumeName hsome
    rw [of_decide_eq_true hbase] at hdots
    omega
  · have hdots := dots_of_nativeZip hzip
    omega
  · obtain ⟨number, hnumber⟩ := Option.isSome_iff_exists.1 hwim
    have hdots := dots_of_nativeWim hnumber
    omega
  · obtain ⟨suffix, hsome, hstrip⟩ := Option.any_eq_true _ _ |>.1 hrecovery
    have hdots := dots_of_sqzRecoverySuffix hsome
    rw [eq_of_stripBack (of_decide_eq_true hstrip), dots_append]
    omega

/-- How many dots a working name has. -/
theorem dots_workingName {marker : List Char} (hmarker : dots marker = 1) (numbers : List Nat) (name : List Char) :
    dots (workingName marker numbers name) = 2 * dots name + 4 := by
  have hnumbers : dots (writerIdentity numbers) = 0 :=
    dots_eq_zero (not_mem_writerIdentity (by decide) (by decide) numbers)
  have htmp : dots ".tmp.".toList = 2 := by decide
  unfold workingName
  rw [dots_cons_dot, dots_append, dots_append, dots_append, dots_append, hmarker, hnumbers, htmp]
  omega

/-- A text with more dots than any member. -/
theorem not_member_osStr (hbase : toStr base = some baseText) (h : dots baseText + 1 < dots text) :
    ¬ Member base includeRecovery (osStr text) := by
  intro hmember
  obtain ⟨baseText', text', hbase', htext, hmanaged⟩ := hmember.managed
  rw [hbase, Option.some.injEq] at hbase'
  rw [toStr_osStr, Option.some.injEq] at htext
  subst hbase' htext
  have hdots := dots_of_managed hmanaged
  omega

/-! ## Working names -/

/-- The candidates of `sibling_temp_path`. -/
def siblingName (name : Name) (purpose : String) (process attempt : Nat) : Name :=
  osStr (Squallz.Volumes.siblingTempName (toStringLossy name) purpose process attempt)

theorem siblingTempPath_eq_ok {formats : Formats} {s : FileSystem} {d : Identity} {process : Nat} {dest candidate : Name}
    {purpose : String} (h : siblingTempPath formats s d process dest purpose = .ok candidate) :
    s.find d candidate = none ∧ ∃ attempt, candidate = siblingName dest purpose process attempt := by
  unfold siblingTempPath at h
  dsimp only at h
  split at h
  · rename_i attempt hfind
    cases h
    have hvacant := List.find?_some hfind
    exact ⟨Option.isNone_iff_eq_none.1 hvacant, attempt, rfl⟩
  · cases h

/-- Some candidate is vacant. -/
def Room (s : FileSystem) (d : Identity) (dest : Name) (purpose : String) (process : Nat) : Prop :=
  ∃ attempt < 1000, s.find d (siblingName dest purpose process attempt) = none

theorem siblingTempPath_of_room {formats : Formats} {s : FileSystem} {d : Identity} {process : Nat} {dest : Name}
    {purpose : String} (h : Room s d dest purpose process) :
    ∃ candidate, siblingTempPath formats s d process dest purpose = .ok candidate := by
  obtain ⟨attempt, hlt, hvacant⟩ := h
  unfold siblingTempPath
  dsimp only
  split
  · exact ⟨_, rfl⟩
  · rename_i hfind
    have hnone := List.find?_eq_none.1 hfind attempt (List.mem_range.2 hlt)
    exact absurd (Option.isNone_iff_eq_none.2 hvacant) hnone

theorem siblingName_eq (h : toStr name = some text) (purpose : String) (process attempt : Nat) :
    siblingName name purpose process attempt = osStr (Squallz.Volumes.siblingTempName text purpose process attempt) := by
  unfold siblingName
  rw [osStr_of_toStr h, Squallz.Destination.toStringLossy_osStr]

theorem dots_splitBackup : dots (Squallz.Volumes.purposeMarker "split-backup") = 1 := by decide
theorem dots_splitCleanup : dots (Squallz.Volumes.purposeMarker "split-cleanup") = 1 := by decide

theorem journal_eq (h : toStr base = some baseText) :
    splitTransactionJournalPath base = osStr ('.' :: (baseText ++ ".split-transaction.json".toList)) := by
  have hcons : '.' :: (baseText ++ ".split-transaction.json".toList) =
      ".".toList ++ (baseText ++ ".split-transaction.json".toList) := rfl
  unfold splitTransactionJournalPath
  have htexts : ∀ text : String, utf8Bytes text = osStr text.toList := fun text => by rw [osStr, String.ofList_toList]
  rw [osStr_of_toStr h, hcons, osStr_append, osStr_append, htexts, htexts, List.append_assoc]

theorem dots_journal (baseText : List Char) :
    dots ('.' :: (baseText ++ ".split-transaction.json".toList)) = dots baseText + 3 := by
  have hsuffix : dots ".split-transaction.json".toList = 2 := by decide
  rw [dots_cons_dot, dots_append, hsuffix]

/-- The backup of a member is no member, and it is not the journal. -/
theorem Member.backup (h : Member base includeRecovery name) (process attempt : Nat) :
    ¬ Member base includeRecovery (siblingName name "split-backup" process attempt) ∧
      siblingName name "split-backup" process attempt ≠ splitTransactionJournalPath base := by
  obtain ⟨baseText, text, hbase, htext, hmanaged⟩ := h.managed
  obtain ⟨hle, -⟩ := dots_of_managed hmanaged
  have hdots : dots (Squallz.Volumes.siblingTempName text "split-backup" process attempt) = 2 * dots text + 4 :=
    dots_workingName dots_splitBackup _ _
  rw [siblingName_eq htext]
  refine ⟨not_member_osStr hbase (by omega), fun heq => ?_⟩
  rw [journal_eq hbase] at heq
  have hjournal := dots_journal baseText
  rw [← osStr_injective heq] at hjournal
  omega

theorem journal_not_member (hbase : toStr base = some baseText) :
    ¬ Member base includeRecovery (splitTransactionJournalPath base) := by
  rw [journal_eq hbase]
  refine not_member_osStr hbase ?_
  rw [dots_journal]
  omega

/-- The name under which the journal goes is no member. -/
theorem quarantine_not_member (hbase : toStr base = some baseText) (process attempt : Nat) :
    ¬ Member base includeRecovery (siblingName (splitTransactionJournalPath base) "split-cleanup" process attempt) := by
  have htext : toStr (splitTransactionJournalPath base) = some ('.' :: (baseText ++ ".split-transaction.json".toList)) := by
    rw [journal_eq hbase, toStr_osStr]
  have hdots := dots_workingName dots_splitCleanup [process, attempt] ('.' :: (baseText ++ ".split-transaction.json".toList))
  have hjournal := dots_journal baseText
  rw [siblingName_eq htext]
  refine not_member_osStr hbase ?_
  show _ < dots (workingName _ _ _)
  omega

/-! ## What is collected -/

theorem samePathEntry_eq (s : FileSystem) (d : Identity) (a b : Name) : samePathEntry s d a b = decide (a = b) := by
  unfold samePathEntry
  split
  · rename_i heq
    rw [decide_eq_true heq]
  · rename_i hne
    rw [decide_eq_false hne]
    split
    · rfl
    · split
      · -- a directory lists both names
        rename_i i j hi hj
        have ha : (s.children d).contains a = true :=
          List.contains_iff_mem.2 ((FileSystem.mem_children s d a).2 ⟨i, hi⟩)
        have hb : (s.children d).contains b = true :=
          List.contains_iff_mem.2 ((FileSystem.mem_children s d b).2 ⟨j, hj⟩)
        rw [ha, hb, Bool.and_self, Bool.not_true, Bool.and_false]
      · rfl

theorem mem_destutter {α : Type} [DecidableEq α] {l : List α} {a : α} : a ∈ l.destutter (· ≠ ·) ↔ a ∈ l := by
  have h : ∀ (l : List α) (b : α), a ∈ l.destutter' (· ≠ ·) b ↔ a ∈ b :: l := by
    intro l
    induction l with
    | nil => exact fun b => Iff.rfl
    | cons c l ih =>
      intro b
      by_cases hne : b ≠ c
      · rw [List.destutter'_cons_pos _ hne, List.mem_cons, ih c, ← List.mem_cons]
      · rw [List.destutter'_cons_neg _ hne, ih b, ← not_not.1 hne]
        simp
  cases l with
  | nil => exact Iff.rfl
  | cons b l => exact h l b

theorem nodup_destutter {l : List Name} (h : l.Pairwise (· ≤ ·)) : (l.destutter (· ≠ ·)).Nodup := by
  have hsorted := h.sublist (List.destutter_sublist (· ≠ ·) l)
  have hchain := List.isChain_destutter (· ≠ ·) l
  have hstrict : (l.destutter (· ≠ ·)).IsChain fun a b => a ≤ b ∧ a ≠ b := by
    rw [List.isChain_iff_getElem] at hchain ⊢
    intro i hi
    exact ⟨List.pairwise_iff_getElem.1 hsorted i (i + 1) (by omega) hi (by omega), hchain i hi⟩
  have : IsTrans Name fun a b => a ≤ b ∧ a ≠ b := by
    refine ⟨fun a b third hab hbc => ⟨List.le_trans hab.1 hbc.1, ?_⟩⟩
    rintro rfl
    exact hab.2 (List.le_antisymm hab.1 hbc.1)
  exact hstrict.pairwise.imp fun hab => hab.2

/-- The results of a traversal, one by one. -/
theorem forall₂_of_mapM {ε α β : Type} {f : α → Except ε β} {l : List α} {out : List β} (h : l.mapM f = .ok out) :
    List.Forall₂ (fun a b => f a = .ok b) l out := by
  induction l generalizing out with
  | nil =>
    cases h
    exact .nil
  | cons a l ih =>
    simp only [List.mapM_cons, bind_eq_ok, pure_eq_ok] at h
    obtain ⟨b, hb, rest, hrest, heq⟩ := h
    cases heq
    exact .cons hb (ih hrest)

section Collect

variable {formats : Formats} {s : FileSystem} {d i : Identity} {l : List Name}

theorem managedEntry_of_not (h : ¬ Member base includeRecovery name) :
    managedEntry formats s d base includeRecovery name = .ok none := by
  unfold managedEntry
  split
  · rfl
  · rename_i expected hexpected
    rw [samePathEntry_eq, if_neg]
    intro heq
    rw [of_decide_eq_true heq] at hexpected
    exact h hexpected

theorem managedEntry_of_member (h : Member base includeRecovery name) :
    managedEntry formats s d base includeRecovery name = (do
      let metadata ← ofErrno (s.metadata (entryAt d name))
      validateManagedSplitOutput formats name metadata
      .ok (some name)) := by
  have hexpected : ((toStr name).bind fun text => (expectedManagedSplitOutputPath [base] text includeRecovery).bind fileName) =
      some name := h
  unfold managedEntry
  rw [hexpected]
  dsimp only
  rw [samePathEntry_eq, decide_eq_true rfl, if_pos rfl]

theorem metadata_entryAt (s : FileSystem) (d : Identity) (name : Name) :
    s.metadata (entryAt d name) = (FileSystem.found (s.find d name)).map s.inodes := rfl

theorem validate_of_file (hfile : (s.inodes i).isFile = true) :
    validateManagedSplitOutput formats name (s.inodes i) = .ok () := by
  unfold validateManagedSplitOutput
  unfold Inode.isFile at hfile
  split at hfile
  · rename_i hcontent
    rw [hcontent]
  · cases hfile

theorem managedEntry_of_file (hi : s.find d name = some i) (hfile : (s.inodes i).isFile = true) :
    managedEntry formats s d base includeRecovery name = .ok (if Member base includeRecovery name then some name else none) := by
  by_cases h : Member base includeRecovery name
  · rw [managedEntry_of_member h, metadata_entryAt, hi, FileSystem.found_some, Except.map, ofErrno_ok, ok_bind,
      validate_of_file hfile, ok_bind, if_pos h]
  · rw [managedEntry_of_not h, if_neg h]

theorem managedEntry_eq_ok {o : Option Name} (h : managedEntry formats s d base includeRecovery name = .ok o) :
    o = if Member base includeRecovery name then some name else none := by
  by_cases hmember : Member base includeRecovery name
  · rw [managedEntry_of_member hmember] at h
    obtain ⟨metadata, -, h⟩ := bind_eq_ok.1 h
    obtain ⟨_, -, h⟩ := bind_eq_ok.1 h
    cases h
    rw [if_pos hmember]
  · rw [managedEntry_of_not hmember] at h
    cases h
    rw [if_neg hmember]

theorem readDir_of_directory (hdir : (s.inodes d).content = .directory) : s.readDir ⟨d, []⟩ = .ok (s.children d) := by
  unfold FileSystem.readDir
  have hid : s.identity ⟨d, []⟩ = .ok d := rfl
  rw [hid]
  dsimp only
  rw [FileSystem.enter_of_directory hdir]

theorem managedBase_of_none (h : s.find d base = none) : managedBase formats s d base = .ok [] := by
  unfold managedBase
  rw [metadata_entryAt, h, FileSystem.found_none, Except.map]

theorem managedBase_of_some (h : s.find d base = some i) : managedBase formats s d base =
    (validateManagedSplitOutput formats base (s.inodes i)).map fun _ => [base] := by
  unfold managedBase
  rw [metadata_entryAt, h, FileSystem.found_some, Except.map]

theorem managedBase_eq_ok (h : managedBase formats s d base = .ok l) :
    l = if (s.find d base).isSome then [base] else [] := by
  cases hfind : s.find d base with
  | none =>
    rw [managedBase_of_none hfind] at h
    cases h
    rfl
  | some i =>
    rw [managedBase_of_some hfind] at h
    cases hvalid : validateManagedSplitOutput formats base (s.inodes i) with
    | error e =>
      rw [hvalid] at h
      cases h
    | ok u =>
      rw [hvalid] at h
      cases h
      rfl

/-- What is found of the family before the names are put in order. -/
def familyEntries (s : FileSystem) (d : Identity) (base : Name) (includeRecovery : Bool) : List Name :=
  (if (s.find d base).isSome then [base] else []) ++ (s.children d).filter fun name => Member base includeRecovery name

theorem mem_familyEntries : name ∈ familyEntries s d base includeRecovery ↔
    (∃ i, s.find d name = some i) ∧ (name = base ∨ Member base includeRecovery name) := by
  unfold familyEntries
  rw [List.mem_append, List.mem_filter, FileSystem.mem_children, decide_eq_true_iff]
  constructor
  · rintro (hfirst | ⟨hi, hmember⟩)
    · split at hfirst
      · rename_i hsome
        rw [List.mem_singleton.1 hfirst]
        exact ⟨Option.isSome_iff_exists.1 hsome, .inl rfl⟩
      · cases hfirst
    · exact ⟨hi, .inr hmember⟩
  · rintro ⟨hi, rfl | hmember⟩
    · rw [if_pos (Option.isSome_iff_exists.2 hi)]
      exact .inl List.mem_cons_self
    · exact .inr ⟨hi, hmember⟩

theorem filterMap_eq (l : List Name) :
    (l.map fun name => if Member base includeRecovery name then some name else none).filterMap id =
      l.filter fun name => Member base includeRecovery name := by
  induction l with
  | nil => rfl
  | cons name l ih =>
    rw [List.map_cons, List.filter_cons]
    by_cases h : Member base includeRecovery name
    · rw [if_pos h, if_pos (decide_eq_true h), List.filterMap_cons]
      dsimp only [id]
      rw [ih]
    · rw [if_neg h, if_neg (fun hd => h (of_decide_eq_true hd)), List.filterMap_cons]
      dsimp only [id]
      rw [ih]

/-- The names of the family in order. -/
def familyNames (s : FileSystem) (d : Identity) (base : Name) (includeRecovery : Bool) : List Name :=
  ((familyEntries s d base includeRecovery).insertionSort fun left right => left ≤ right).destutter (· ≠ ·)

theorem mem_familyNames : name ∈ familyNames s d base includeRecovery ↔
    (∃ i, s.find d name = some i) ∧ (name = base ∨ Member base includeRecovery name) := by
  unfold familyNames
  rw [mem_destutter, List.mem_insertionSort, mem_familyEntries]

theorem nodup_familyNames (s : FileSystem) (d : Identity) (base : Name) (includeRecovery : Bool) :
    (familyNames s d base includeRecovery).Nodup := by
  unfold familyNames
  have : Std.Total fun left right : Name => left ≤ right := ⟨fun a b => List.le_total a b⟩
  have : IsTrans Name fun left right => left ≤ right := ⟨fun _ _ _ hab hbc => List.le_trans hab hbc⟩
  exact nodup_destutter (List.pairwise_insertionSort (fun left right : Name => left ≤ right) _)

/-- What is collected of a directory, if anything is. -/
theorem collect_eq_ok (hdir : (s.inodes d).content = .directory)
    (h : collectManagedSplitOutputs formats s d base includeRecovery = .ok l) :
    l = familyNames s d base includeRecovery := by
  unfold collectManagedSplitOutputs at h
  obtain ⟨first, hfirst, h⟩ := bind_eq_ok.1 h
  obtain ⟨entries, hentries, h⟩ := bind_eq_ok.1 h
  obtain ⟨members, hmembers, h⟩ := bind_eq_ok.1 h
  rw [readDir_of_directory hdir, ofErrno_ok] at hentries
  cases Except.ok.inj h
  cases Except.ok.inj hentries
  have hmapped : members = (s.children d).map fun name => if Member base includeRecovery name then some name else none := by
    have hresults := (forall₂_of_mapM hmembers).imp fun name o ho => managedEntry_eq_ok ho
    refine List.ext_getElem (by rw [List.length_map, hresults.length_eq]) fun n hn hn' => ?_
    rw [List.getElem_map]
    exact (List.forall₂_iff_get.1 hresults).2 n _ hn
  rw [managedBase_eq_ok hfirst, hmapped, filterMap_eq]
  rfl

/-- A family of regular files is collected. -/
theorem collect_of_files (hdir : (s.inodes d).content = .directory)
    (hfiles : ∀ name i, s.find d name = some i → name = base ∨ Member base includeRecovery name →
      (s.inodes i).isFile = true) :
    collectManagedSplitOutputs formats s d base includeRecovery = .ok (familyNames s d base includeRecovery) := by
  have hfirst : managedBase formats s d base = .ok (if (s.find d base).isSome then [base] else []) := by
    cases hfind : s.find d base with
    | none => exact managedBase_of_none hfind
    | some i =>
      rw [managedBase_of_some hfind, validate_of_file (hfiles base i hfind (.inl rfl))]
      rfl
  have hmembers : (s.children d).mapM (managedEntry formats s d base includeRecovery) =
      .ok ((s.children d).map fun name => if Member base includeRecovery name then some name else none) := by
    refine mapM_eq_ok fun name hname => ?_
    obtain ⟨i, hi⟩ := (FileSystem.mem_children s d name).1 hname
    by_cases h : Member base includeRecovery name
    · exact managedEntry_of_file hi (hfiles name i hi (.inr h))
    · rw [managedEntry_of_not h, if_neg h]
  unfold collectManagedSplitOutputs
  rw [hfirst, ok_bind, readDir_of_directory hdir, ofErrno_ok, ok_bind, hmembers, ok_bind, filterMap_eq]
  rfl

end Collect

end Squallz.Publication
