/-
The lines of a text, and white space around and inside a line.
-/
import Mathlib.Data.List.DropRight

namespace Squallz.Text

/-! ## White space -/

/-- The Unicode property `White_Space`. -/
def isWhitespace (c : Char) : Bool :=
  (0x09 ≤ c.toNat && c.toNat ≤ 0x0D) || c.toNat == 0x20 || c.toNat == 0x85 || c.toNat == 0xA0 || c.toNat == 0x1680 ||
    (0x2000 ≤ c.toNat && c.toNat ≤ 0x200A) || c.toNat == 0x2028 || c.toNat == 0x2029 || c.toNat == 0x202F ||
    c.toNat == 0x205F || c.toNat == 0x3000

/-- `trim`. -/
def trim (text : List Char) : List Char := (text.dropWhile isWhitespace).rdropWhile isWhitespace

/-- `split_once` at the first character of a kind. -/
def splitOnceAt (separator : Char → Bool) (text : List Char) : Option (List Char × List Char) :=
  match text.dropWhile (fun c => !separator c) with
  | [] => none
  | _ :: after => some (text.takeWhile fun c => !separator c, after)

/-! ## Lines -/

/-- The end of a line without its line feed loses a carriage return. -/
def stripReturn (line : List Char) : List Char := if line.getLast? = some '\r' then line.dropLast else line

/-- The rest of the lines of a text, behind the beginning of a line. -/
def linesFrom (line : List Char) : List Char → List (List Char)
  | [] => if line = [] then [] else [line]
  | c :: text => if c = '\n' then stripReturn line :: linesFrom [] text else linesFrom (line ++ [c]) text

/-- `str::lines`. -/
def lines (text : List Char) : List (List Char) := linesFrom [] text

theorem linesFrom_line {line : List Char} (h : '\n' ∉ line) (front text : List Char) :
    linesFrom front (line ++ '\n' :: text) = stripReturn (front ++ line) :: lines text := by
  induction line generalizing front with
  | nil =>
    rw [List.nil_append, linesFrom, if_pos rfl, List.append_nil]
    rfl
  | cons c line ih =>
    rw [List.mem_cons, not_or] at h
    rw [List.cons_append, linesFrom, if_neg (Ne.symm h.1), ih h.2, List.append_assoc, List.singleton_append]

/-- Lines that are printed one after another are the lines of the text. -/
theorem lines_flatMap {printed : List (List Char)} (h : ∀ line ∈ printed, '\n' ∉ line) :
    lines (printed.flatMap (· ++ ['\n'])) = printed.map stripReturn := by
  induction printed with
  | nil => rfl
  | cons line printed ih =>
    rw [List.flatMap_cons, List.append_assoc, List.singleton_append, lines, linesFrom_line (h line List.mem_cons_self),
      List.nil_append, ih fun line hline => h line (List.mem_cons_of_mem _ hline), List.map_cons]

/-! ## Trimming -/

theorem rdropWhile_stripReturn (line : List Char) :
    (stripReturn line).rdropWhile isWhitespace = line.rdropWhile isWhitespace := by
  unfold stripReturn
  split
  · rename_i hlast
    obtain ⟨front, rfl⟩ := List.getLast?_eq_some_iff.1 hlast
    rw [List.dropLast_concat, List.rdropWhile_concat_pos isWhitespace front '\r' (by decide)]
  · rfl

/-- A text that begins with no white space is trimmed at its end only. -/
theorem trim_of_head {c : Char} {text : List Char} (h : isWhitespace c = false) :
    trim (c :: text) = (c :: text).rdropWhile isWhitespace := by
  rw [trim, List.dropWhile_cons_of_neg (by rw [h]; decide)]

theorem rdropWhile_append {p : Char → Bool} (front text : List Char) : (front ++ text).rdropWhile p =
    if text.rdropWhile p = [] then front.rdropWhile p else front ++ text.rdropWhile p := by
  induction text using List.reverseRecOn with
  | nil => rw [List.append_nil, List.rdropWhile_nil, if_pos rfl]
  | append_singleton text c ih =>
    rw [← List.append_assoc]
    cases hc : p c with
    | true => rw [List.rdropWhile_concat_pos _ _ _ hc, List.rdropWhile_concat_pos _ _ _ hc, ih]
    | false =>
      rw [List.rdropWhile_concat_neg _ _ _ (by rw [hc]; decide), List.rdropWhile_concat_neg _ _ _ (by rw [hc]; decide),
        if_neg (by simp), List.append_assoc]

theorem rdropWhile_eq_self {p : Char → Bool} {text : List Char} (h : ∀ c ∈ text.getLast?, p c = false) :
    text.rdropWhile p = text := by
  induction text using List.reverseRecOn with
  | nil => rfl
  | append_singleton text c ih =>
    have hc : p c = false := h c (by rw [List.getLast?_concat]; rfl)
    exact List.rdropWhile_concat_neg _ _ _ (by rw [hc]; decide)

theorem splitOnceAt_append {separator : Char → Bool} {front : List Char} (h : ∀ c ∈ front, separator c = false)
    {c : Char} (hc : separator c = true) (text : List Char) :
    splitOnceAt separator (front ++ c :: text) = some (front, text) := by
  have hfront : ∀ c ∈ front, (!separator c) = true := fun c hmem => by rw [h c hmem]; rfl
  unfold splitOnceAt
  rw [List.dropWhile_append_of_pos hfront, List.dropWhile_cons_of_neg (by rw [hc]; decide)]
  dsimp only
  rw [List.takeWhile_append_of_pos hfront, List.takeWhile_cons_of_neg (by rw [hc]; decide), List.append_nil]

theorem splitOnceAt_eq_none {separator : Char → Bool} {text : List Char} (h : ∀ c ∈ text, separator c = false) :
    splitOnceAt separator text = none := by
  unfold splitOnceAt
  rw [List.dropWhile_eq_nil_iff.2 fun c hc => by rw [h c hc]; rfl]

end Squallz.Text
