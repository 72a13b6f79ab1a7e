/-
Entry names as text and as bytes: what an archive browser shows, the sanitised path that extraction
uses, and the byte keys of paths.
-/
import Squallz.Api.Entry
import Mathlib.Data.List.DropRight

namespace Squallz.Api

/-! ## Text -/

/-- The byte of `/`. -/
def slash : UInt8 := 0x2F

/-- The byte of the backslash. -/
def backslash : UInt8 := 0x5C

def endsWithSlash (s : String) : Bool := s.toList.getLast? == some '/'

/-- `ends_with(['/', '\\'])`. -/
def endsWithSeparator (s : String) : Bool := s.toList.getLast? == some '/' || s.toList.getLast? == some '\\'

/-- `replace('\\', "/")`. -/
def replaceBackslashes (s : String) : String := .ofList (s.toList.map fun c => if c = '\\' then '/' else c)

/-- `trim_start_matches('/')`. -/
def trimStartSlashes (s : String) : String := .ofList (s.toList.dropWhile (· == '/'))

/-- `trim_end_matches('/')`. -/
def trimEndSlashes (s : String) : String := .ofList (s.toList.rdropWhile (· == '/'))

/-- How many bytes the sequence at the head of a byte string takes, and whether it is a character: a bad
sequence is as long as the part of it that could still have become one. -/
def utf8Chunk : UInt8 → List UInt8 → Bool × Nat
  | b, rest =>
    let continues (i : Nat) := rest[i]?.any fun c => 0x80 ≤ c && c ≤ 0xBF
    if b < 0x80 then (true, 1)
    else if 0xC2 ≤ b && b ≤ 0xDF then if continues 0 then (true, 2) else (false, 1)
    else if 0xE0 ≤ b && b ≤ 0xEF then
      let low : UInt8 := if b = 0xE0 then 0xA0 else 0x80
      let high : UInt8 := if b = 0xED then 0x9F else 0xBF
      if !(rest[0]?.any fun c => low ≤ c && c ≤ high) then (false, 1)
      else if continues 1 then (true, 3) else (false, 2)
    else if 0xF0 ≤ b && b ≤ 0xF4 then
      let low : UInt8 := if b = 0xF0 then 0x90 else 0x80
      let high : UInt8 := if b = 0xF4 then 0x8F else 0xBF
      if !(rest[0]?.any fun c => low ≤ c && c ≤ high) then (false, 1)
      else if !continues 1 then (false, 2)
      else if continues 2 then (true, 4) else (false, 3)
    else (false, 1)

/-- The bytes with every bad sequence replaced by the replacement character. -/
def replaceBadSequences : Nat → List UInt8 → List UInt8
  | 0, _ => []
  | _, [] => []
  | fuel + 1, b :: rest =>
    let (good, len) := utf8Chunk b rest
    (if good then (b :: rest).take len else [0xEF, 0xBF, 0xBD]) ++ replaceBadSequences fuel ((b :: rest).drop len)

/-- `String::from_utf8_lossy`. -/
def fromUtf8Lossy (bytes : List UInt8) : String := (fromUtf8 (replaceBadSequences bytes.length bytes)).getD ""

example : fromUtf8Lossy [0x61, 0xE4, 0xB8, 0x2F, 0xFF] = "a\uFFFD/\uFFFD" := by decide +kernel

/-! ## Entry paths -/

/-- `normalized_display`: forward slashes, no leading slash, and a trailing one for directories. -/
def EntryPath.normalizedDisplay (path : EntryPath) (directory : Bool) : String :=
  if path.display.toList.contains '\\' then
    let normalized := trimStartSlashes (replaceBackslashes path.display)
    if directory && !endsWithSlash normalized then normalized ++ "/" else normalized
  else
    let normalized := trimStartSlashes path.display
    if directory && !endsWithSlash normalized then normalized ++ "/" else normalized

/-- A component that starts like a drive, `C:`. -/
def drivePrefix : List Char → Bool
  | first :: ':' :: _ => first.isAlpha
  | _ => false

/-- The loop of `sanitize_entry_path` over the components of a name. -/
def sanitizeComponents (display : String) : List (List Char) → Res (List String)
  | [] => pure []
  | comp :: rest =>
    if comp = [] ∨ comp = ['.'] then sanitizeComponents display rest
    else if comp = ['.', '.'] then raise (.pathTraversal display)
    else if drivePrefix comp then raise (.pathTraversal display)
    else do
      let out ← sanitizeComponents display rest
      pure (.ofList comp :: out)

/-- `sanitize_entry_path`: the components of the safe relative path. -/
def sanitizeEntryPath (path : EntryPath) : Res (List String) :=
  let name := (replaceBackslashes path.display).toList
  if name.head? = some '/' then raise (.pathTraversal path.display)
  else do
    let out ← sanitizeComponents path.display (name.splitOn '/')
    if out = [] then raise (.unsafeFileName path.display) else pure out

/-- Components joined by slashes. -/
def joinPath : List String → String
  | [] => ""
  | [comp] => comp
  | comp :: rest => comp ++ "/" ++ joinPath rest

/-! ## Byte keys -/

/-- The paths above a path: what stands before each of its slashes. -/
def parents (path : List UInt8) : List (List UInt8) :=
  (List.range path.length).filterMap fun index => if path[index]? = some slash then some (path.take index) else none

/-- A path without the slashes at its end. -/
def pathKey (path : List UInt8) : List UInt8 := path.rdropWhile (· == slash)

theorem mem_parents (path rest : List UInt8) : path ∈ parents (path ++ slash :: rest) := by
  unfold parents
  refine List.mem_filterMap.2 ⟨path.length, ?_, ?_⟩
  · rw [List.mem_range, List.length_append, List.length_cons]
    omega
  · simp

theorem utf8Bytes_append (s t : String) : utf8Bytes (s ++ t) = utf8Bytes s ++ utf8Bytes t := by
  unfold utf8Bytes
  rw [String.toByteArray_append, ByteArray.data_append, Array.toList_append]

theorem joinPath_cons (comp : String) {rest : List String} (h : rest ≠ []) :
    joinPath (comp :: rest) = comp ++ "/" ++ joinPath rest := by
  cases rest with
  | nil => exact absurd rfl h
  | cons other rest => rfl

theorem joinPath_append {above below : List String} (habove : above ≠ []) (hbelow : below ≠ []) :
    joinPath (above ++ below) = joinPath above ++ "/" ++ joinPath below := by
  induction above with
  | nil => exact absurd rfl habove
  | cons comp above ih =>
    rw [List.cons_append]
    by_cases hnil : above = []
    · rw [hnil, List.nil_append, joinPath_cons comp hbelow]
      rfl
    · rw [joinPath_cons comp (List.append_ne_nil_of_left_ne_nil hnil below), ih hnil, joinPath_cons comp hnil]
      simp only [String.append_assoc]

/-- A proper prefix of the components of a path is the path above one of its slashes. -/
theorem mem_parents_of_components {above below : List String} (habove : above ≠ []) (hbelow : below ≠ []) :
    utf8Bytes (joinPath above) ∈ parents (utf8Bytes (joinPath (above ++ below))) := by
  rw [joinPath_append habove hbelow, utf8Bytes_append, utf8Bytes_append, List.append_assoc]
  exact mem_parents _ _

/-! ## Names without hidden parts -/

/-- A name with a component that sanitising drops, the slashes at its end apart. -/
def hiddenPart (path : EntryPath) : Bool :=
  ((trimEndSlashes (replaceBackslashes path.display)).toList.splitOn '/').any fun comp => comp = [] || comp = ['.']

theorem utf8Bytes_ofList (l : List Char) : utf8Bytes (.ofList l) = l.flatMap String.utf8EncodeChar := by
  unfold utf8Bytes
  rw [String.toByteArray_ofList, List.utf8Encode]
  exact List.toList_data_toByteArray

/-- A byte below 0x80 stands only in the encoding of its own character. -/
theorem val_of_mem_utf8EncodeChar {c : Char} {b : UInt8} (hb : b.toNat < 0x80) (h : b ∈ String.utf8EncodeChar c) :
    c.val.toNat = b.toNat := by
  have hbyte : ∀ n : Nat, b = UInt8.ofNat n → n % 256 = b.toNat := fun n heq => by
    have := congrArg UInt8.toNat heq
    rw [UInt8.toNat_ofNat'] at this
    exact this.symm
  unfold String.utf8EncodeChar at h
  simp only at h
  split at h
  · have := hbyte _ (List.mem_singleton.1 h)
    omega
  · exfalso
    split at h
    · simp only [List.mem_cons, List.not_mem_nil, or_false] at h
      rcases h with h | h
      · have := hbyte _ h
        omega
      · have := hbyte _ h
        omega
    · split at h
      · simp only [List.mem_cons, List.not_mem_nil, or_false] at h
        rcases h with h | h | h
        · have := hbyte _ h
          omega
        · have := hbyte _ h
          omega
        · have := hbyte _ h
          omega
      · simp only [List.mem_cons, List.not_mem_nil, or_false] at h
        rcases h with h | h | h | h
        · have := hbyte _ h
          omega
        · have := hbyte _ h
          omega
        · have := hbyte _ h
          omega
        · have := hbyte _ h
          omega

/-- Only the slash itself has the byte of a slash in its encoding. -/
theorem slash_of_mem_utf8EncodeChar {c : Char} (h : slash ∈ String.utf8EncodeChar c) : c = '/' :=
  Char.ext (UInt32.toNat_inj.1 (val_of_mem_utf8EncodeChar (by decide) h))

/-- Trimming takes off slashes. -/
theorem exists_slashes (l : List Char) : ∃ k, l = l.rdropWhile (· == '/') ++ List.replicate k '/' := by
  refine ⟨(l.rtakeWhile (· == '/')).length, ?_⟩
  have hall : ∀ c ∈ l.rtakeWhile (· == '/'), c = '/' := fun c hc => by
    simpa using List.mem_rtakeWhile_imp hc
  rw [← List.eq_replicate_of_mem hall, List.rdropWhile_append_rtakeWhile]

theorem splitOn_append_slashes (l : List Char) (k : Nat) :
    (l ++ List.replicate k '/').splitOn '/' = l.splitOn '/' ++ List.replicate k [] := by
  induction k with
  | zero => simp
  | succ k ih =>
    rw [List.replicate_succ', List.replicate_succ', ← List.append_assoc, List.splitOn_append_cons_self, ih,
      List.splitOn_nil, List.append_assoc]

theorem sanitizeComponents_append_nil (display : String) (comps : List (List Char)) (k : Nat) :
    sanitizeComponents display (comps ++ List.replicate k []) = sanitizeComponents display comps := by
  induction comps with
  | nil =>
    induction k with
    | zero => rfl
    | succ k ih => exact ih
  | cons comp comps ih => rw [List.cons_append, sanitizeComponents, sanitizeComponents, ih]

/-- Components of which none is dropped. -/
theorem sanitizeComponents_eq_ok {display : String} {comps : List (List Char)} {out : List String}
    (hshown : ∀ comp ∈ comps, comp ≠ [] ∧ comp ≠ ['.']) (h : sanitizeComponents display comps = .ok out) :
    out = comps.map .ofList := by
  induction comps generalizing out with
  | nil =>
    cases h
    rfl
  | cons comp comps ih =>
    obtain ⟨hnil, hdot⟩ := hshown comp List.mem_cons_self
    rw [sanitizeComponents, if_neg (not_or.2 ⟨hnil, hdot⟩)] at h
    split at h
    · cases h
    · split at h
      · cases h
      · obtain ⟨rest, hrest, h⟩ := bind_eq_ok.1 h
        cases h
        rw [ih (fun other hother => hshown other (List.mem_cons_of_mem _ hother)) hrest]
        rfl

theorem joinPath_ofList (comps : List (List Char)) :
    joinPath (comps.map .ofList) = .ofList (List.intercalate ['/'] comps) := by
  induction comps with
  | nil => rfl
  | cons comp comps ih =>
    cases comps with
    | nil => simp [joinPath, List.intercalate]
    | cons other comps =>
      rw [List.map_cons, joinPath_cons _ (by simp), ih]
      apply String.toList_inj.1
      simp [List.intercalate]

/-- The key of a name with slashes at its end. -/
theorem pathKey_slashes {l : List Char} (hlast : ∀ h : l ≠ [], l.getLast h ≠ '/') (k : Nat) :
    pathKey (utf8Bytes (.ofList (l ++ List.replicate k '/'))) = utf8Bytes (.ofList l) := by
  have hslashes : (List.replicate k '/').flatMap String.utf8EncodeChar = List.replicate k slash := by
    induction k with
    | zero => rfl
    | succ k ih =>
      rw [List.replicate_succ, List.replicate_succ, List.flatMap_cons, ih]
      rfl
  have hdrop : ∀ bytes : List UInt8, (bytes ++ List.replicate k slash).rdropWhile (· == slash) =
      bytes.rdropWhile (· == slash) := by
    intro bytes
    clear hslashes
    induction k with
    | zero => simp
    | succ k ih =>
      rw [List.replicate_succ', ← List.append_assoc,
        List.rdropWhile_concat_pos (fun b => b == slash) _ _ (beq_self_eq_true slash), ih]
  rw [utf8Bytes_ofList, utf8Bytes_ofList, List.flatMap_append, hslashes, pathKey, hdrop, List.rdropWhile_eq_self_iff]
  intro hne hbyte
  have hl : l ≠ [] := fun hnil => hne (by rw [hnil]; rfl)
  have hmem : slash ∈ String.utf8EncodeChar (l.getLast hl) := by
    have hsplit : l.flatMap String.utf8EncodeChar =
        l.dropLast.flatMap String.utf8EncodeChar ++ String.utf8EncodeChar (l.getLast hl) := by
      rw [← List.flatMap_singleton String.utf8EncodeChar (l.getLast hl), ← List.flatMap_append,
        List.dropLast_append_getLast hl]
    rw [← eq_of_beq hbyte]
    simp only [hsplit]
    rw [List.getLast_append_of_ne_nil _ String.utf8EncodeChar_ne_nil]
    exact List.getLast_mem _
  exact hlast hl (slash_of_mem_utf8EncodeChar hmem)

theorem normalizedDisplay_eq (path : EntryPath) (directory : Bool) :
    path.normalizedDisplay directory =
      if directory && !endsWithSlash (trimStartSlashes (replaceBackslashes path.display)) then
        trimStartSlashes (replaceBackslashes path.display) ++ "/"
      else trimStartSlashes (replaceBackslashes path.display) := by
  unfold EntryPath.normalizedDisplay
  split
  · rfl
  · rename_i hnone
    have hsame : replaceBackslashes path.display = path.display := by
      unfold replaceBackslashes
      have hmap : path.display.toList.map (fun c => if c = '\\' then '/' else c) = path.display.toList.map id := by
        refine List.map_congr_left fun c hc => if_neg ?_
        rintro rfl
        exact hnone (by simpa using hc)
      rw [hmap, List.map_id, String.ofList_toList]
    rw [hsame]

/-- Without a hidden part the key of the displayed path is that of the sanitised one. -/
theorem pathKey_normalizedDisplay {path : EntryPath} {comps : List String} (hhidden : hiddenPart path = false)
    (h : sanitizeEntryPath path = .ok comps) (directory : Bool) :
    pathKey (utf8Bytes (path.normalizedDisplay directory)) = utf8Bytes (joinPath comps) := by
  unfold sanitizeEntryPath at h
  simp only at h
  split at h
  · cases h
  rename_i hhead
  obtain ⟨out, hout, h⟩ := bind_eq_ok.1 h
  have hcomps : out = comps := by
    split at h
    · cases h
    · cases h
      rfl
  rw [hcomps] at hout
  rw [normalizedDisplay_eq]
  unfold hiddenPart trimEndSlashes at hhidden
  unfold trimStartSlashes
  generalize hname : replaceBackslashes path.display = name at *
  rw [String.toList_ofList] at hhidden
  obtain ⟨k, hk⟩ := exists_slashes name.toList
  generalize htrim : name.toList.rdropWhile (· == '/') = trimmed at *
  rw [hk, splitOn_append_slashes, sanitizeComponents_append_nil] at hout
  have hjoin : joinPath comps = .ofList trimmed := by
    rw [sanitizeComponents_eq_ok ?_ hout, joinPath_ofList, List.intercalate_splitOn]
    intro comp hcomp
    have := List.any_eq_false.1 hhidden comp hcomp
    simpa using this
  have hstart : name.toList.dropWhile (· == '/') = name.toList := by
    cases hchars : name.toList with
    | nil => rfl
    | cons c rest =>
      rw [hchars, List.head?_cons, Option.some.injEq] at hhead
      exact List.dropWhile_cons_of_neg (by simpa using hhead)
  have hlast : ∀ h : trimmed ≠ [], trimmed.getLast h ≠ '/' := by
    subst htrim
    intro hne heq
    exact List.rdropWhile_last_not _ _ hne (by simp [heq])
  rw [hjoin, hstart, String.ofList_toList]
  have hnamed : name = .ofList (trimmed ++ List.replicate k '/') := by rw [← hk, String.ofList_toList]
  split
  · have hslash : name ++ "/" = .ofList (trimmed ++ List.replicate (k + 1) '/') := by
      apply String.toList_inj.1
      have hone : "/".toList = ['/'] := rfl
      simp only [String.toList_append, hk, hone, String.toList_ofList, List.replicate_succ', ← List.append_assoc]
    rw [hslash]
    exact pathKey_slashes hlast _
  · rw [hnamed]
    exact pathKey_slashes hlast _

end Squallz.Api
