/-
The lookup of displayed names as a table: it holds the first entry or implied directory of every name, and knows the names
that differing ones share.
-/
import Squallz.Zip.Selection

namespace Squallz.Zip

open Squallz.Api

/-! ## Names and what they stand for -/

/-- An entry or an implied directory, and whether it is a directory. -/
abbrev Presented := EntryPath × Bool

/-- The name in the listing, with a separator at the end of a directory. -/
def Presented.listed (item : Presented) : String :=
  if item.2 && !endsWithSeparator item.1.display then item.1.display ++ "/" else item.1.display

/-- The name in a browser. -/
def Presented.normalized (item : Presented) : String := item.1.normalizedDisplay item.2

def Presented.names (item : Presented) : List String := [item.listed, item.normalized]

/-- The items that an update must tell apart. -/
def Differ (a b : Presented) : Prop := a.1.raw ≠ b.1.raw ∨ a.2 ≠ b.2

/-- Every name with its item, in the order of insertion. -/
def bindings (items : List Presented) : List (String × Presented) :=
  items.flatMap fun item => item.names.map fun name => (name, item)

theorem mem_bindings {items : List Presented} {name : String} {item : Presented} :
    (name, item) ∈ bindings items ↔ item ∈ items ∧ name ∈ item.names := by
  unfold bindings
  rw [List.mem_flatMap]
  constructor
  · rintro ⟨other, hother, hmem⟩
    obtain ⟨name', hname, heq⟩ := List.mem_map.1 hmem
    cases heq
    exact ⟨hother, hname⟩
  · rintro ⟨hitem, hname⟩
    exact ⟨item, hitem, List.mem_map.2 ⟨name, hname, rfl⟩⟩

/-- A name of differing items. -/
def Shared (bound : List (String × Presented)) (name : String) : Prop :=
  ∃ a b, (name, a) ∈ bound ∧ (name, b) ∈ bound ∧ Differ a b

theorem mem_of_lookup {bound : List (String × Presented)} {name : String} {item : Presented}
    (h : bound.lookup name = some item) : (name, item) ∈ bound := by
  obtain ⟨before, after, rfl, -⟩ := List.lookup_eq_some_iff.1 h
  exact List.mem_append_right _ List.mem_cons_self

/-- A shared name is shared with its first item. -/
theorem shared_iff {bound : List (String × Presented)} {name : String} {first : Presented}
    (h : bound.lookup name = some first) : Shared bound name ↔ ∃ b, (name, b) ∈ bound ∧ Differ first b := by
  have hfirst : (name, first) ∈ bound := mem_of_lookup h
  constructor
  · rintro ⟨a, b, ha, hb, hdiffer⟩
    by_cases hfirsta : Differ first a
    · exact ⟨a, ha, hfirsta⟩
    · refine ⟨b, hb, ?_⟩
      unfold Differ at hfirsta hdiffer ⊢
      push Not at hfirsta
      rw [hfirsta.1, hfirsta.2]
      exact hdiffer
  · rintro ⟨b, hb, hdiffer⟩
    exact ⟨first, b, hfirst, hb, hdiffer⟩

/-! ## The table -/

/-- A lookup after some insertions. -/
structure Represents (bound : List (String × Presented)) (table : NameLookup) : Prop where
  found : ∀ name item, bound.lookup name = some item →
    ∃ ambiguous, table.names.lookup name = some ⟨item.1, item.2, ambiguous⟩ ∧ (ambiguous = true ↔ Shared bound name)
  missing : ∀ name, bound.lookup name = none → table.names.lookup name = none
  ambiguous : ∀ name, name ∈ table.ambiguous ↔ Shared bound name

theorem represents_nil : Represents [] ⟨[], []⟩ where
  found := fun name item h => by cases h
  missing := fun _ _ => rfl
  ambiguous := fun name => by
    constructor
    · intro h
      cases h
    · rintro ⟨a, b, ha, -, -⟩
      cases ha

theorem lookup_of_ne {α : Type} {key name : String} (h : name ≠ key) (value : α) (rest : List (String × α)) :
    ((key, value) :: rest).lookup name = rest.lookup name := by
  have hne : (name == key) = false := beq_eq_false_iff_ne.2 h
  rw [List.lookup_cons, hne]

/-- Marking a name leaves the others. -/
theorem lookup_mark (names : List (String × Candidate)) (marked name : String) :
    (names.map fun entry => if entry.1 = marked then (marked, { entry.2 with ambiguous := true }) else entry).lookup name =
      if name = marked then (names.lookup name).map fun found => { found with ambiguous := true } else names.lookup name := by
  induction names with
  | nil => simp
  | cons entry names ih =>
    obtain ⟨key, candidate⟩ := entry
    rw [List.map_cons]
    by_cases hkey : key = marked
    · rw [if_pos hkey, hkey]
      by_cases hname : name = marked
      · rw [hname, if_pos rfl, List.lookup_cons_self, List.lookup_cons_self]
        rfl
      · rw [if_neg hname, lookup_of_ne hname, lookup_of_ne hname, ih, if_neg hname]
    · rw [if_neg hkey]
      by_cases hname : name = key
      · rw [hname, if_neg hkey, List.lookup_cons_self, List.lookup_cons_self]
      · rw [lookup_of_ne hname, lookup_of_ne hname, ih]

variable {bound : List (String × Presented)} {table : NameLookup}

/-- A name is inserted: the first item keeps it, and a differing one makes it ambiguous. -/
theorem Represents.insertName (h : Represents bound table) (item : Presented) (name : String) :
    Represents (bound ++ [(name, item)]) (table.insertName item.1 item.2 name) := by
  have hshared : ∀ other, other ≠ name → (Shared (bound ++ [(name, item)]) other ↔ Shared bound other) := by
    intro other hother
    unfold Shared
    simp [hother]
  have hlookup : ∀ other, (bound ++ [(name, item)]).lookup other =
      (bound.lookup other).or (if other = name then some item else none) := by
    intro other
    rw [List.lookup_append]
    by_cases hother : other = name
    · rw [hother, if_pos rfl, List.lookup_cons_self]
    · rw [if_neg hother, lookup_of_ne hother, List.lookup_nil]
  unfold NameLookup.insertName
  cases hfirst : bound.lookup name with
  | none =>
    -- a new name
    have hfresh : ¬ Shared (bound ++ [(name, item)]) name := by
      rw [shared_iff (by rw [hlookup, hfirst, if_pos rfl]; rfl)]
      rintro ⟨b, hb, hdiffer⟩
      rcases List.mem_append.1 hb with hb | hb
      · have := List.lookup_eq_none_iff.1 hfirst _ hb
        simp at this
      · cases List.mem_singleton.1 hb
        exact hdiffer.elim (absurd rfl) (absurd rfl)
    have hold : ¬ Shared bound name := fun ⟨a, b, ha, hb, hdiffer⟩ =>
      hfresh ⟨a, b, List.mem_append_left _ ha, List.mem_append_left _ hb, hdiffer⟩
    rw [h.missing name hfirst]
    refine ⟨fun other found hother => ?_, fun other hother => ?_, fun other => ?_⟩
    · rw [hlookup] at hother
      rw [List.lookup_append]
      by_cases heq : other = name
      · rw [heq, hfirst, if_pos rfl, Option.none_or] at hother
        cases hother
        refine ⟨false, ?_, ?_⟩
        · rw [heq, h.missing name hfirst, List.lookup_cons_self, Option.none_or]
        · rw [heq]
          simpa using hfresh
      · rw [if_neg heq, Option.or_none] at hother
        obtain ⟨ambiguous, hfound, hiff⟩ := h.found other found hother
        refine ⟨ambiguous, ?_, by rw [hiff, hshared other heq]⟩
        rw [hfound]
        rfl
    · rw [hlookup] at hother
      by_cases heq : other = name
      · rw [if_pos heq] at hother
        simp at hother
      · rw [if_neg heq, Option.or_none] at hother
        rw [List.lookup_append, h.missing other hother, lookup_of_ne heq]
        rfl
    · show other ∈ table.ambiguous ↔ _
      by_cases heq : other = name
      · rw [heq, h.ambiguous]
        exact ⟨fun hs => absurd hs hold, fun hs => absurd hs hfresh⟩
      · rw [h.ambiguous, hshared other heq]
  | some first =>
    obtain ⟨ambiguous, hfound, hiff⟩ := h.found name first hfirst
    have hstill : (bound ++ [(name, item)]).lookup name = some first := by rw [hlookup, hfirst, Option.some_or]
    have hnow : Shared (bound ++ [(name, item)]) name ↔ Shared bound name ∨ Differ first item := by
      rw [shared_iff hstill, shared_iff hfirst]
      simp [or_and_right, exists_or]
    have hothers : ∀ other, other ≠ name → (bound ++ [(name, item)]).lookup other = bound.lookup other := by
      intro other hother
      rw [hlookup, if_neg hother, Option.or_none]
    rw [hfound]
    simp only
    split
    · rename_i hmark
      have hdiffer : Differ first item := by
        unfold Differ
        simp only [Bool.and_eq_true, Bool.or_eq_true, bne_iff_ne] at hmark
        exact hmark.2
      refine ⟨fun other found hother => ?_, fun other hother => ?_, fun other => ?_⟩
      · rw [lookup_mark]
        by_cases heq : other = name
        · rw [heq, hstill] at hother
          cases hother
          rw [if_pos heq, heq, hfound]
          exact ⟨true, rfl, by simp [hnow, hdiffer]⟩
        · rw [hothers other heq] at hother
          rw [if_neg heq, hshared other heq]
          exact h.found other found hother
      · rw [lookup_mark]
        by_cases heq : other = name
        · rw [heq, hstill] at hother
          cases hother
        · rw [hothers other heq] at hother
          rw [if_neg heq]
          exact h.missing other hother
      · show other ∈ table.ambiguous ++ [name] ↔ _
        by_cases heq : other = name
        · rw [heq, hnow]
          simp [hdiffer]
        · rw [hshared other heq, ← h.ambiguous]
          simp [heq]
    · rename_i hmark
      have hsame : Shared (bound ++ [(name, item)]) name ↔ Shared bound name := by
        rw [hnow, ← hiff]
        constructor
        · rintro (hambiguous | hdiffer)
          · exact hambiguous
          · by_contra hclear
            unfold Differ at hdiffer
            simp only [Bool.and_eq_true, Bool.or_eq_true, bne_iff_ne, Bool.not_eq_true'] at hmark
            exact hmark ⟨Bool.eq_false_of_not_eq_true hclear, hdiffer⟩
        · exact .inl
      have hall : ∀ other, Shared (bound ++ [(name, item)]) other ↔ Shared bound other := by
        intro other
        by_cases heq : other = name
        · rw [heq, hsame]
        · exact hshared other heq
      have hkeeps : ∀ other, (bound ++ [(name, item)]).lookup other = bound.lookup other := by
        intro other
        by_cases heq : other = name
        · rw [heq, hstill, hfirst]
        · exact hothers other heq
      refine ⟨fun other found hother => ?_, fun other hother => ?_, fun other => ?_⟩
      · rw [hkeeps] at hother
        rw [hall]
        exact h.found other found hother
      · rw [hkeeps] at hother
        exact h.missing other hother
      · rw [hall]
        exact h.ambiguous other

theorem Represents.insert (h : Represents bound table) (item : Presented) :
    Represents (bound ++ bindings [item]) (table.insert item.1 item.2) := by
  have hbindings : bindings [item] = [(item.listed, item)] ++ [(item.normalized, item)] := by
    unfold bindings
    rw [List.flatMap_singleton]
    rfl
  rw [hbindings, ← List.append_assoc]
  exact (h.insertName item item.listed).insertName item item.normalized

/-- Inserting items one after the other. -/
theorem Represents.foldl_insert {items : List Presented} (h : Represents bound table) :
    Represents (bound ++ bindings items) (items.foldl (fun table item => table.insert item.1 item.2) table) := by
  induction items generalizing bound table with
  | nil =>
    unfold bindings
    rw [List.flatMap_nil, List.append_nil]
    exact h
  | cons item items ih =>
    have hcons : bindings (item :: items) = bindings [item] ++ bindings items := by
      unfold bindings
      rw [List.flatMap_singleton, List.flatMap_cons]
    rw [hcons, ← List.append_assoc, List.foldl_cons]
    exact ih (h.insert item)

/-! ## The lookup of an archive -/

section Lookup

variable {Encoding Glob : Type} (crates : Crates Encoding Glob)

/-- The directories that the separators inside a raw name imply, in the encoding of the whole name. -/
def impliedDirectories (path : EntryPath) : List Presented :=
  (List.range path.raw.length).filterMap fun index =>
    if (path.raw[index]? = some slash ∨ path.raw[index]? = some backslash) ∧ index + 1 < path.raw.length then
      let raw := path.raw.take (index + 1)
      let display := (crates.decodeWithoutBomHandling ((crates.forLabel path.encoding).getD crates.utf8) raw).1
      if endsWithSeparator display then some (⟨raw, display, path.encoding⟩, true) else none
    else none

/-- The entries of an archive, each before the directories that it implies. -/
def presented (entries : List Presented) : List Presented :=
  entries.flatMap fun entry => entry :: impliedDirectories crates entry.1

theorem insertParents_eq (table : NameLookup) (path : EntryPath) :
    table.insertParents crates path =
      (impliedDirectories crates path).foldl (fun table item => table.insert item.1 item.2) table := by
  unfold NameLookup.insertParents impliedDirectories
  rw [List.foldl_filterMap]
  refine List.foldl_ext _ _ table fun table index _ => ?_
  simp only
  split
  · split
    · rfl
    · rfl
  · rfl

theorem new_represents (entries : List Presented) :
    Represents (bindings (presented crates entries)) (NameLookup.new crates entries) := by
  have hnew : NameLookup.new crates entries =
      (presented crates entries).foldl (fun table item => table.insert item.1 item.2) ⟨[], []⟩ := by
    unfold NameLookup.new presented
    rw [List.foldl_flatMap]
    congr 1
    funext table entry
    rw [List.foldl_cons, insertParents_eq]
  rw [hnew]
  exact represents_nil.foldl_insert

end Lookup

/-! ## Selections -/

/-- No shared name lies below a directory. -/
def Unambiguous (bound : List (String × Presented)) (item : Presented) : Prop :=
  ∀ name, Shared bound name → ¬ (item.1.normalizedDisplay true).toList <+: name.toList

/-- A displayed name selects its first item, where no other one bears it and no name below a directory is shared. -/
theorem Represents.resolve_eq_ok (h : Represents bound table) {display : String} {selected : SelectedName} :
    table.resolve (.display display) false = .ok selected ↔
      display ≠ "" ∧ ∃ item, bound.lookup display = some item ∧ selected = ⟨item.1, item.2⟩ ∧ ¬ Shared bound display ∧
        (item.2 = true → Unambiguous bound item) := by
  unfold NameLookup.resolve
  simp only [Bool.false_and, Bool.false_eq_true, if_false, Option.or_none]
  by_cases hempty : display = ""
  · rw [if_pos (by simpa [String.isEmpty_iff] using hempty)]
    constructor
    · intro hok
      cases hok
    · rintro ⟨hne, -⟩
      exact absurd hempty hne
  rw [if_neg (by simpa [String.isEmpty_iff] using hempty)]
  rw [if_neg (by simp)]
  cases hitem : bound.lookup display with
  | none =>
    rw [h.missing display hitem]
    constructor
    · intro hok
      cases hok
    · rintro ⟨-, item, hfound, -⟩
      cases hfound
  | some item =>
    obtain ⟨ambiguous, hfound, hiff⟩ := h.found display item hitem
    rw [hfound]
    simp only
    cases ambiguous with
    | true =>
      rw [if_pos rfl]
      constructor
      · intro hok
        cases hok
      · rintro ⟨-, item', -, -, hclear, -⟩
        exact absurd (hiff.1 rfl) hclear
    | false =>
      have hclear : ¬ Shared bound display := fun hshared => absurd (hiff.2 hshared) (by decide)
      rw [if_neg (by decide)]
      have hshadow : (if item.2 = true then
          table.ambiguous.find? fun name => (item.1.normalizedDisplay true).toList.isPrefixOf name.toList
        else none) = none ↔ (item.2 = true → Unambiguous bound item) := by
        cases item.2 with
        | false => simp
        | true =>
          rw [if_pos rfl, List.find?_eq_none]
          unfold Unambiguous
          simp only [h.ambiguous, List.isPrefixOf_iff_prefix, forall_const]
      constructor
      · intro hok
        split at hok
        · cases hok
        · rename_i hnone
          cases hok
          exact ⟨hempty, item, rfl, rfl, hclear, hshadow.1 hnone⟩
      · rintro ⟨-, item', heq, rfl, -, hbelow⟩
        cases heq
        rw [hshadow.2 hbelow]
        rfl

end Squallz.Zip
