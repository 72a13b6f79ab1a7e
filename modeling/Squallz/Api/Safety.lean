/-
The safe names: which names `sanitize_entry_path` accepts, what the paths that it returns are made of, and that it does
not matter which of the two separators a name is written with.
-/
import Squallz.Api.Names
import Squallz.Text.Separators

namespace Squallz.Api

open Squallz.Text

/-! ## Paths -/

/-- `std::path::Component`, without the prefixes of Windows. -/
inductive Component
  | rootDir | curDir | parentDir
  | normal (name : List Char)
deriving DecidableEq

/-- The separators of entry names, which are those of Windows. -/
def isSeparator (c : Char) : Bool := c == '/' || c == '\\'

/-- The components behind the first one: empty ones and single dots are left out. -/
def laterComponents (pieces : List (List Char)) : List Component :=
  pieces.filterMap fun piece =>
    if piece = [] ∨ piece = ['.'] then none
    else if piece = ['.', '.'] then some .parentDir
    else some (.normal piece)

/-- `Path::components` of a path without a prefix. -/
def components (separator : Char → Bool) (path : List Char) : List Component :=
  if path.head?.any separator then .rootDir :: laterComponents (path.splitOnP separator)
  else
    match path.splitOnP separator with
    | ['.'] :: pieces => .curDir :: laterComponents pieces
    | pieces => laterComponents pieces

/-- The prefixes of Windows: a drive, or what begins with two separators. -/
def windowsPrefix (path : List Char) : Bool :=
  drivePrefix path || match path with
    | first :: second :: _ => isSeparator first && isSeparator second
    | _ => false

/-! ## Safe names -/

/-- A component that leads out of the destination. -/
def escapes (piece : List Char) : Bool := piece == ['.', '.'] || drivePrefix piece

/-- A component that says something. -/
def shown (piece : List Char) : Bool := !piece.isEmpty && piece != ['.']

structure SafeName (name : List Char) : Prop where
  relative : name.head?.any isSeparator = false
  stays : ∀ piece ∈ name.splitOnP isSeparator, escapes piece = false
  named : ∃ piece ∈ name.splitOnP isSeparator, shown piece = true

/-- One text written with one or the other separator in each place. -/
def SameUpToSeparators (a b : String) : Prop :=
  List.Forall₂ (fun c c' => c = c' ∨ isSeparator c = true ∧ isSeparator c' = true) a.toList b.toList

/-! ## What is accepted -/

theorem splitOn_replaceBackslashes (s : String) :
    (replaceBackslashes s).toList.splitOn '/' = s.toList.splitOnP isSeparator := by
  unfold replaceBackslashes List.splitOn
  rw [String.toList_ofList]
  induction s.toList with
  | nil => rfl
  | cons c rest ih =>
    rw [List.map_cons, List.splitOnP_cons_eq_if_modifyHead, List.splitOnP_cons_eq_if_modifyHead, ih]
    by_cases hback : c = '\\'
    · simp [hback, isSeparator]
    · simp [hback, isSeparator]

theorem head?_replaceBackslashes (s : String) :
    (replaceBackslashes s).toList.head? = some '/' ↔ s.toList.head?.any isSeparator = true := by
  unfold replaceBackslashes
  rw [String.toList_ofList, List.head?_map]
  cases s.toList.head? with
  | none => simp
  | some c =>
    by_cases hback : c = '\\'
    · simp [hback, isSeparator]
    · simp [hback, isSeparator]

/-- The loop keeps what says something, as long as nothing leads out. -/
theorem sanitizeComponents_eq (display : String) (pieces : List (List Char)) : sanitizeComponents display pieces =
    if pieces.any escapes then raise (.pathTraversal display) else .ok ((pieces.filter shown).map .ofList) := by
  induction pieces with
  | nil => rfl
  | cons piece pieces ih =>
    rw [sanitizeComponents, ih]
    by_cases hskip : piece = [] ∨ piece = ['.']
    · have hpiece : escapes piece = false ∧ shown piece = false := by rcases hskip with rfl | rfl <;> decide
      simp [hskip, hpiece]
    · obtain ⟨hnil, hdot⟩ := not_or.1 hskip
      have hshown : shown piece = true := by simp [shown, hnil, hdot]
      rw [if_neg hskip]
      by_cases hparent : piece = ['.', '.']
      · simp [hparent, escapes]
      · rw [if_neg hparent]
        by_cases hdrive : drivePrefix piece = true
        · simp [hdrive, escapes]
        · have hescapes : escapes piece = false := by simp [escapes, hparent, hdrive]
          rw [if_neg hdrive, List.any_cons, hescapes, Bool.false_or, List.filter_cons_of_pos hshown, List.map_cons]
          split
          · rfl
          · rfl

/-- The whole function, with the components of the name as it stands. -/
theorem sanitizeEntryPath_eq (path : EntryPath) : sanitizeEntryPath path =
    if path.display.toList.head?.any isSeparator = true ∨
        (path.display.toList.splitOnP isSeparator).any escapes = true then raise (.pathTraversal path.display)
    else if (path.display.toList.splitOnP isSeparator).filter shown = [] then raise (.unsafeFileName path.display)
    else .ok (((path.display.toList.splitOnP isSeparator).filter shown).map .ofList) := by
  unfold sanitizeEntryPath
  simp only [head?_replaceBackslashes, splitOn_replaceBackslashes, sanitizeComponents_eq]
  by_cases hhead : path.display.toList.head?.any isSeparator = true
  · rw [if_pos hhead, if_pos (.inl hhead)]
  · rw [if_neg hhead]
    by_cases hescapes : (path.display.toList.splitOnP isSeparator).any escapes = true
    · rw [if_pos hescapes, if_pos (.inr hescapes)]
      rfl
    · rw [if_neg hescapes, if_neg (not_or.2 ⟨hhead, hescapes⟩)]
      simp only [ok_bind, List.map_eq_nil_iff]
      rfl

theorem sanitizeEntryPath_eq_ok {path : EntryPath} {comps : List String} : sanitizeEntryPath path = .ok comps ↔
    SafeName path.display.toList ∧ comps = ((path.display.toList.splitOnP isSeparator).filter shown).map .ofList := by
  rw [sanitizeEntryPath_eq]
  constructor
  · intro h
    split at h
    · cases h
    · rename_i hno
      obtain ⟨hhead, hescapes⟩ := not_or.1 hno
      split at h
      · cases h
      · rename_i hne
        cases h
        refine ⟨⟨by simpa using hhead, by simpa using hescapes, ?_⟩, rfl⟩
        obtain ⟨piece, hpiece⟩ := List.exists_mem_of_ne_nil _ hne
        exact ⟨piece, List.mem_of_mem_filter hpiece, (List.mem_filter.1 hpiece).2⟩
  · rintro ⟨⟨hrelative, hstays, piece, hpiece, hshown⟩, rfl⟩
    have hescapes : ¬ (path.display.toList.splitOnP isSeparator).any escapes = true := by simpa using hstays
    rw [if_neg (not_or.2 ⟨by simp [hrelative], hescapes⟩), if_neg]
    exact List.ne_nil_of_mem (List.mem_filter.2 ⟨hpiece, hshown⟩)

/-! ## What a sanitised path is made of -/

/-- A component that stands in a sanitised path. -/
structure Plain (piece : List Char) : Prop where
  shown : shown piece = true
  stays : escapes piece = false
  whole : ∀ c ∈ piece, isSeparator c = false

theorem Plain.ne_nil {piece : List Char} (h : Plain piece) : piece ≠ [] := by
  rintro rfl
  exact absurd h.shown (by decide)

theorem Plain.ne_dot {piece : List Char} (h : Plain piece) : piece ≠ ['.'] := by
  rintro rfl
  exact absurd h.shown (by decide)

theorem Plain.ne_parent {piece : List Char} (h : Plain piece) : piece ≠ ['.', '.'] := by
  rintro rfl
  exact absurd h.stays (by decide)

theorem joinPath_pieces_cons (piece : List Char) (pieces : List (List Char)) :
    (joinPath ((piece :: pieces).map .ofList)).toList =
      piece ++ if pieces = [] then [] else '/' :: (joinPath (pieces.map .ofList)).toList := by
  by_cases h : pieces = []
  · subst h
    simp [joinPath]
  · rw [if_neg h, List.map_cons, joinPath_cons _ (by simpa using h)]
    simp

theorem splitOnP_joinPath {separator : Char → Bool} (hslash : separator '/' = true) {pieces : List (List Char)}
    (hne : pieces ≠ []) (h : ∀ piece ∈ pieces, ∀ c ∈ piece, separator c = false) :
    (joinPath (pieces.map .ofList)).toList.splitOnP separator = pieces := by
  induction pieces with
  | nil => exact absurd rfl hne
  | cons piece pieces ih =>
    rw [joinPath_pieces_cons]
    by_cases hnil : pieces = []
    · rw [if_pos hnil, List.append_nil, List.splitOnP_eq_singleton (h piece List.mem_cons_self), hnil]
    · rw [if_neg hnil, List.splitOnP_append_cons_of_forall_mem (h piece List.mem_cons_self) '/' hslash,
        ih hnil fun other hother => h other (List.mem_cons_of_mem _ hother)]

theorem laterComponents_of_plain {pieces : List (List Char)} (h : ∀ piece ∈ pieces, Plain piece) :
    laterComponents pieces = pieces.map .normal := by
  induction pieces with
  | nil => rfl
  | cons piece pieces ih =>
    have hpiece := h piece List.mem_cons_self
    have hrest := ih fun other hother => h other (List.mem_cons_of_mem _ hother)
    unfold laterComponents at hrest ⊢
    rw [List.filterMap_cons, hrest]
    simp [hpiece.ne_nil, hpiece.ne_dot, hpiece.ne_parent]

section Joined

variable {pieces : List (List Char)} (hne : pieces ≠ []) (h : ∀ piece ∈ pieces, Plain piece)

include hne h

theorem head?_joinPath {separator : Char → Bool} (hle : ∀ c, separator c = true → isSeparator c = true) :
    (joinPath (pieces.map .ofList)).toList.head?.any separator = false := by
  obtain ⟨piece, pieces, rfl⟩ := List.exists_cons_of_ne_nil hne
  have hpiece := h piece List.mem_cons_self
  obtain ⟨c, piece, rfl⟩ := List.exists_cons_of_ne_nil hpiece.ne_nil
  rw [joinPath_pieces_cons, List.cons_append, List.head?_cons, Option.any_some]
  by_contra hc
  have hsep := hle c (by simpa using hc)
  rw [hpiece.whole c List.mem_cons_self] at hsep
  cases hsep

theorem components_joinPath {separator : Char → Bool} (hslash : separator '/' = true)
    (hle : ∀ c, separator c = true → isSeparator c = true) :
    components separator (joinPath (pieces.map .ofList)).toList = pieces.map .normal := by
  have hwhole : ∀ piece ∈ pieces, ∀ c ∈ piece, separator c = false := by
    intro piece hpiece c hc
    have hnot := (h piece hpiece).whole c hc
    by_contra hsep
    rw [hle c (by simpa using hsep)] at hnot
    cases hnot
  unfold components
  rw [if_neg (by simp [head?_joinPath hne h hle]), splitOnP_joinPath hslash hne hwhole]
  split
  · exact absurd rfl (h ['.'] List.mem_cons_self).ne_dot
  · exact laterComponents_of_plain h

theorem windowsPrefix_joinPath : windowsPrefix (joinPath (pieces.map .ofList)).toList = false := by
  obtain ⟨piece, pieces, rfl⟩ := List.exists_cons_of_ne_nil hne
  have hpiece := h piece List.mem_cons_self
  have hdrive : drivePrefix piece = false := by
    have := hpiece.stays
    unfold escapes at this
    exact (Bool.or_eq_false_iff.1 this).2
  rw [joinPath_pieces_cons]
  rcases piece with _ | ⟨first, _ | ⟨second, piece⟩⟩
  · exact absurd rfl hpiece.ne_nil
  · have hfirst := hpiece.whole first List.mem_cons_self
    by_cases hnil : pieces = []
    · simp [hnil, windowsPrefix, drivePrefix]
    · simp [hnil, windowsPrefix, drivePrefix, hfirst]
  · have hfirst := hpiece.whole first List.mem_cons_self
    have hsame : drivePrefix (first :: second :: piece ++
        if pieces = [] then [] else '/' :: (joinPath (pieces.map .ofList)).toList) =
        drivePrefix (first :: second :: piece) := by
      unfold drivePrefix
      by_cases hcolon : second = ':' <;> simp [hcolon]
    unfold windowsPrefix
    rw [hsame, hdrive]
    simp [hfirst]

theorem sanitizeEntryPath_joinPath :
    sanitizeEntryPath (.fromUtf8 (joinPath (pieces.map .ofList))) = .ok (pieces.map .ofList) := by
  have hsplit : (EntryPath.fromUtf8 (joinPath (pieces.map .ofList))).display.toList.splitOnP isSeparator = pieces :=
    splitOnP_joinPath rfl hne fun piece hpiece => (h piece hpiece).whole
  have hshown : pieces.filter shown = pieces := List.filter_eq_self.2 fun piece hpiece => (h piece hpiece).shown
  rw [sanitizeEntryPath_eq_ok, hsplit, hshown]
  refine ⟨⟨head?_joinPath hne h fun _ hc => hc, ?_, ?_⟩, rfl⟩
  · rw [hsplit]
    exact fun piece hpiece => (h piece hpiece).stays
  · obtain ⟨piece, hpiece⟩ := List.exists_mem_of_ne_nil _ hne
    exact ⟨piece, by rwa [hsplit], (h piece hpiece).shown⟩

end Joined

/-! ## Either separator -/

theorem SameUpToSeparators.splitOnP {a b : String} (h : SameUpToSeparators a b) :
    a.toList.splitOnP isSeparator = b.toList.splitOnP isSeparator := by
  unfold SameUpToSeparators at h
  generalize a.toList = text at h
  generalize b.toList = text' at h
  induction h with
  | nil => rfl
  | cons hc _ ih =>
    rw [List.splitOnP_cons_eq_if_modifyHead, List.splitOnP_cons_eq_if_modifyHead, ih]
    rcases hc with rfl | ⟨hc, hc'⟩
    · rfl
    · rw [if_pos hc, if_pos hc']

theorem SameUpToSeparators.head? {a b : String} (h : SameUpToSeparators a b) :
    a.toList.head?.any isSeparator = b.toList.head?.any isSeparator := by
  unfold SameUpToSeparators at h
  generalize a.toList = text at h
  generalize b.toList = text' at h
  cases h with
  | nil => rfl
  | cons hc _ =>
    rcases hc with rfl | ⟨hc, hc'⟩
    · rfl
    · simp [hc, hc']

/-! ## The contract -/

/-- A path is accepted just for a safe name, and is then made of nothing but ordinary components, on either kind of
platform; sanitising it again gives the path itself, and so does the name with other separators. -/
theorem sanitizeEntryPath_safe (path : EntryPath) :
    (∀ comps, sanitizeEntryPath path = .ok comps → comps ≠ [] ∧
      components (· == '/') (joinPath comps).toList = comps.map (.normal ·.toList) ∧
      components isSeparator (joinPath comps).toList = comps.map (.normal ·.toList) ∧
      windowsPrefix (joinPath comps).toList = false ∧
      sanitizeEntryPath (.fromUtf8 (joinPath comps)) = .ok comps) ∧
    ((∃ comps, sanitizeEntryPath path = .ok comps) ↔ SafeName path.display.toList) ∧
    ∀ other : EntryPath, SameUpToSeparators path.display other.display →
      (∃ comps, sanitizeEntryPath path = .ok comps ∧ sanitizeEntryPath other = .ok comps) ∨
      ∃ error ∈ [FormatError.pathTraversal, .unsafeFileName],
        sanitizeEntryPath path = raise (error path.display) ∧ sanitizeEntryPath other = raise (error other.display) := by
  refine ⟨fun comps h => ?_, ?_, fun other h => ?_⟩
  · obtain ⟨hsafe, rfl⟩ := sanitizeEntryPath_eq_ok.1 h
    generalize hpieces : (path.display.toList.splitOnP isSeparator).filter shown = pieces
    have hplain : ∀ piece ∈ pieces, Plain piece := by
      intro piece hpiece
      rw [← hpieces, List.mem_filter] at hpiece
      exact ⟨hpiece.2, hsafe.stays piece hpiece.1, fun c hc => separator_eq_false_of_mem hpiece.1 hc⟩
    have hne : pieces ≠ [] := by
      obtain ⟨piece, hpiece, hshown⟩ := hsafe.named
      rw [← hpieces]
      exact List.ne_nil_of_mem (List.mem_filter.2 ⟨hpiece, hshown⟩)
    have hnormal : (pieces.map String.ofList).map (Component.normal ·.toList) = pieces.map .normal := by simp
    refine ⟨by simpa using hne, ?_, ?_, windowsPrefix_joinPath hne hplain, sanitizeEntryPath_joinPath hne hplain⟩
    · rw [hnormal]
      exact components_joinPath hne hplain rfl fun c hc => by simp_all [isSeparator]
    · rw [hnormal]
      exact components_joinPath hne hplain rfl fun c hc => hc
  · constructor
    · rintro ⟨comps, h⟩
      exact (sanitizeEntryPath_eq_ok.1 h).1
    · intro h
      exact ⟨_, sanitizeEntryPath_eq_ok.2 ⟨h, rfl⟩⟩
  · rw [sanitizeEntryPath_eq, sanitizeEntryPath_eq, ← h.splitOnP, ← h.head?]
    split
    · exact .inr ⟨_, by simp, rfl, rfl⟩
    · split
      · exact .inr ⟨_, by simp, rfl, rfl⟩
      · exact .inl ⟨_, rfl, rfl⟩

/-- Three dots are a name of their own. -/
theorem dots_accepted : ¬ ∀ path : EntryPath, (∀ c ∈ path.display.toList, isSeparator c = true ∨ c = '.') →
    ∀ comps, sanitizeEntryPath path ≠ .ok comps := by
  intro h
  have hall : "...".toList.all (· == '.') = true := by decide +kernel
  exact h (.fromUtf8 "...") (fun c hc => .inr (eq_of_beq (List.all_eq_true.1 hall c hc))) ["..."] (by decide +kernel)

end Squallz.Api
