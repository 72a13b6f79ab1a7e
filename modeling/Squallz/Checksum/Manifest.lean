/-
Checksum manifests: the lines that the checksum command prints in the classic format, and the parser that reads them.
-/
import Squallz.Api.Error
import Squallz.Destination.Readable
import Squallz.Text.Lines

namespace Squallz.Checksum

open Squallz.Api Squallz.Destination Squallz.Text

/-! ## Algorithms -/

inductive ChecksumAlgorithm
  | blake3 | md5 | sha1 | sha224 | sha256 | sha384 | sha512 | crc32
deriving DecidableEq, Repr

namespace ChecksumAlgorithm

def id : ChecksumAlgorithm → String
  | blake3 => "blake3"
  | md5 => "md5"
  | sha1 => "sha1"
  | sha224 => "sha224"
  | sha256 => "sha256"
  | sha384 => "sha384"
  | sha512 => "sha512"
  | crc32 => "crc32"

def digestLen : ChecksumAlgorithm → Nat
  | blake3 | sha256 => 64
  | md5 => 32
  | sha1 => 40
  | sha224 => 56
  | sha384 => 96
  | sha512 => 128
  | crc32 => 8

end ChecksumAlgorithm

/-! ## Printing -/

/-- A path as the operating system spells it. -/
abbrev PathBuf := List UInt8

structure ChecksumItem where
  path : PathBuf
  size : Nat
  digest : List Char
deriving DecidableEq

/-- `path.display().to_string()`. -/
def pathString (path : PathBuf) : List Char := toStringLossy path

def printClassic (items : List ChecksumItem) : List Char :=
  items.flatMap fun item => item.digest ++ "  ".toList ++ pathString item.path ++ ['\n']

/-! ## Parsing -/

structure ExpectedChecksum where
  path : PathBuf
  expected : List Char
deriving DecidableEq

def isAsciiHexdigit (c : Char) : Bool := c.isDigit || ('a' ≤ c && c ≤ 'f') || ('A' ≤ c && c ≤ 'F')

def isAbsolute (path : PathBuf) : Bool := path.head? == some slash

/-- `Path::join`, for a path that is not absolute. -/
def joinDir (dir path : PathBuf) : PathBuf :=
  if dir = [] ∨ dir.getLast? = some slash then dir ++ path else dir ++ slash :: path

/-- A path of the manifest, as seen from its directory. -/
def resolved (baseDir path : PathBuf) : PathBuf := if isAbsolute path then path else joinDir baseDir path

/-- One line of a manifest: nothing, or a file and its digest. -/
def parseLine (baseDir : PathBuf) (algorithm : ChecksumAlgorithm) (idx : Nat) (rawLine : List Char) :
    Res (Option ExpectedChecksum) :=
  let line := trim rawLine
  if line = [] ∨ line.head? = some '#' then .ok none
  else
    match splitOnceAt isWhitespace line with
    | none => raise (.other s!"invalid checksum manifest line {idx + 1}: expected '<digest>  <path>'")
    | some (digest, path) =>
      let digest := (trim digest).map Char.toLower
      if digest.length ≠ algorithm.digestLen ∨ ¬ digest.all isAsciiHexdigit then
        raise (.other s!"invalid {algorithm.id} digest on manifest line {idx + 1}")
      else
        let path := path.dropWhile fun c => isWhitespace c || c == '*'
        if path = [] then raise (.other s!"invalid checksum manifest line {idx + 1}: missing path")
        else .ok (some ⟨resolved baseDir (osStr path), digest⟩)

/-- The loop over the lines, from the line `idx` on. -/
def parseLines (baseDir : PathBuf) (algorithm : ChecksumAlgorithm) (idx : Nat) :
    List (List Char) → Res (List ExpectedChecksum)
  | [] => .ok []
  | rawLine :: rawLines => do
    let item ← parseLine baseDir algorithm idx rawLine
    let items ← parseLines baseDir algorithm (idx + 1) rawLines
    return item.toList ++ items

def parseManifest (text : List Char) (baseDir : PathBuf) (algorithm : ChecksumAlgorithm) : Res (List ExpectedChecksum) := do
  let out ← parseLines baseDir algorithm 0 (lines text)
  if out = [] then raise (.other "checksum manifest did not contain any entries") else return out

/-! ## Digests and paths that are printed -/

/-- A digest as the hashers spell it. -/
structure IsDigest (algorithm : ChecksumAlgorithm) (digest : List Char) : Prop where
  length : digest.length = algorithm.digestLen
  lower : ∀ c ∈ digest, c.isDigit = true ∨ ('a' ≤ c ∧ c ≤ 'f')

/-- A text that begins and ends with no mark that the parser removes. -/
structure Unmarked (text : List Char) : Prop where
  nonempty : text ≠ []
  head : ∀ c ∈ text.head?, isWhitespace c = false ∧ c ≠ '*'
  last : ∀ c ∈ text.getLast?, isWhitespace c = false

/-- What the parser takes for the path of a line. -/
def readPath (text : List Char) : List Char :=
  (text.rdropWhile isWhitespace).dropWhile fun c => isWhitespace c || c == '*'

theorem readPath_infix (text : List Char) : readPath text <:+: text := by
  have hfront : text.rdropWhile isWhitespace <+: text := List.rdropWhile_prefix _ _
  have hback : readPath text <:+ text.rdropWhile isWhitespace := List.dropWhile_suffix _
  exact hback.isInfix.trans hfront.isInfix

/-- Exactly the unmarked texts are read as they are. -/
theorem readPath_eq_self {text : List Char} (hne : text ≠ []) : readPath text = text ↔ Unmarked text := by
  constructor
  · intro h
    have hle : text.length ≤ (text.rdropWhile isWhitespace).length := by
      have := (List.dropWhile_suffix (l := text.rdropWhile isWhitespace) fun c => isWhitespace c || c == '*').length_le
      rwa [← readPath, h] at this
    have hfull : text.rdropWhile isWhitespace = text := (List.rdropWhile_prefix isWhitespace text).eq_of_length_le hle
    rw [readPath, hfull] at h
    refine ⟨hne, fun c hc => ?_, fun c hc => ?_⟩
    · obtain ⟨rest, rfl⟩ := List.head?_eq_some_iff.1 hc
      have hd := List.dropWhile_eq_self_iff.1 h (Nat.succ_pos _)
      simpa using hd
    · obtain ⟨front, rfl⟩ := List.getLast?_eq_some_iff.1 hc
      have hd := List.rdropWhile_eq_self_iff.1 hfull hne
      simpa using hd
  · intro h
    have hfull : text.rdropWhile isWhitespace = text := rdropWhile_eq_self h.last
    rw [readPath, hfull]
    cases text with
    | nil => rfl
    | cons c text =>
      obtain ⟨hspace, hstar⟩ := h.head c rfl
      exact List.dropWhile_cons_of_neg (by simp [hspace, hstar])

/-! ## Digests -/

section Digests

variable {algorithm : ChecksumAlgorithm} {digest : List Char}

theorem hex_lower {c : Char} (h : c.isDigit = true ∨ ('a' ≤ c ∧ c ≤ 'f')) :
    c.toLower = c ∧ isAsciiHexdigit c = true ∧ isWhitespace c = false ∧ c ≠ '#' ∧ c ≠ '\n' := by
  have hval : (48 ≤ c.toNat ∧ c.toNat ≤ 57) ∨ (97 ≤ c.toNat ∧ c.toNat ≤ 102) := by
    rcases h with h | ⟨hlow, hhigh⟩
    · left
      simpa [Char.isDigit, UInt32.le_iff_toNat_le] using h
    · exact .inr ⟨hlow, hhigh⟩
  have hne : ∀ d : Char, c.toNat ≠ d.toNat → c ≠ d := fun d hd heq => hd (heq ▸ rfl)
  refine ⟨?_, ?_, ?_, hne _ (by change c.toNat ≠ 35; omega), hne _ (by change c.toNat ≠ 10; omega)⟩
  · unfold Char.toLower
    rw [dif_neg]
    rintro ⟨hlow, hhigh⟩
    have hlow : 65 ≤ c.toNat := hlow
    have hhigh : c.toNat ≤ 90 := hhigh
    omega
  · unfold isAsciiHexdigit
    rcases h with h | h
    · rw [h, Bool.true_or, Bool.true_or]
    · rw [decide_eq_true h.1, decide_eq_true h.2, Bool.and_self, Bool.or_true, Bool.true_or]
  · unfold isWhitespace
    simp only [Bool.or_eq_false_iff, Bool.and_eq_false_iff, decide_eq_false_iff_not, beq_eq_false_iff_ne]
    omega

theorem IsDigest.ne_nil (h : IsDigest algorithm digest) : digest ≠ [] := by
  rintro rfl
  have := h.length
  cases algorithm <;> cases this

theorem IsDigest.whitespace (h : IsDigest algorithm digest) : ∀ c ∈ digest, isWhitespace c = false :=
  fun c hc => (hex_lower (h.lower c hc)).2.2.1

theorem IsDigest.rdropWhile (h : IsDigest algorithm digest) : digest.rdropWhile isWhitespace = digest :=
  rdropWhile_eq_self fun c hc => h.whitespace c (List.mem_of_mem_getLast? hc)

theorem IsDigest.trim (h : IsDigest algorithm digest) : Text.trim digest = digest := by
  cases digest with
  | nil => rfl
  | cons c digest =>
    rw [trim_of_head (h.whitespace c List.mem_cons_self)]
    exact h.rdropWhile

theorem IsDigest.map_toLower (h : IsDigest algorithm digest) : digest.map Char.toLower = digest := by
  refine (List.map_congr_left fun c hc => ?_).trans (List.map_id digest)
  exact (hex_lower (h.lower c hc)).1

theorem IsDigest.all_hexdigit (h : IsDigest algorithm digest) : digest.all isAsciiHexdigit = true :=
  List.all_eq_true.2 fun c hc => (hex_lower (h.lower c hc)).2.1

end Digests

/-! ## Lines that are printed -/

section Lines

variable {baseDir : PathBuf} {algorithm : ChecksumAlgorithm} {digest text : List Char}

/-- What the parser makes of a line that was printed. -/
theorem parseLine_printed (h : IsDigest algorithm digest) (idx : Nat) :
    parseLine baseDir algorithm idx (stripReturn (digest ++ "  ".toList ++ text)) =
      if text.rdropWhile isWhitespace = [] then
        raise (.other s!"invalid checksum manifest line {idx + 1}: expected '<digest>  <path>'")
      else if readPath text = [] then raise (.other s!"invalid checksum manifest line {idx + 1}: missing path")
      else .ok (some ⟨resolved baseDir (osStr (readPath text)), digest⟩) := by
  obtain ⟨c, rest, hcons⟩ := List.exists_cons_of_ne_nil h.ne_nil
  have hc : c ∈ digest := hcons ▸ List.mem_cons_self
  obtain ⟨-, -, hspace, hhash, -⟩ := hex_lower (h.lower c hc)
  have hline : trim (stripReturn (digest ++ "  ".toList ++ text)) =
      if text.rdropWhile isWhitespace = [] then digest else digest ++ "  ".toList ++ text.rdropWhile isWhitespace := by
    have hdrop : (digest ++ "  ".toList ++ text).rdropWhile isWhitespace = _ := rdropWhile_append _ _
    have hspaces : (digest ++ "  ".toList).rdropWhile isWhitespace = digest := by
      have hblank : ("  ".toList).rdropWhile isWhitespace = [] := by decide
      rw [rdropWhile_append, hblank, if_pos rfl, h.rdropWhile]
    have hhead : ∀ line : List Char, line.head? = some c → trim line = line.rdropWhile isWhitespace := by
      intro line hline
      obtain ⟨back, rfl⟩ := List.head?_eq_some_iff.1 hline
      exact trim_of_head hspace
    have hstrip : (stripReturn (digest ++ "  ".toList ++ text)).head? = some c := by
      unfold stripReturn
      split
      · rw [List.head?_dropLast, if_pos (by simp; omega), hcons]
        rfl
      · rw [hcons]
        rfl
    rw [hhead _ hstrip, rdropWhile_stripReturn, hdrop, hspaces]
  unfold parseLine
  dsimp only
  rw [hline]
  by_cases hblank : text.rdropWhile isWhitespace = []
  · have hcut : splitOnceAt isWhitespace digest = none := splitOnceAt_eq_none h.whitespace
    rw [if_pos hblank, if_pos hblank, if_neg, hcut]
    rintro (hnil | hmark)
    · exact h.ne_nil hnil
    · rw [hcons] at hmark
      exact hhash (Option.some.inj hmark)
  · have hcut : splitOnceAt isWhitespace (digest ++ "  ".toList ++ text.rdropWhile isWhitespace) =
        some (digest, ' ' :: text.rdropWhile isWhitespace) := by
      rw [List.append_assoc]
      exact splitOnceAt_append h.whitespace (by decide) _
    have hpath : (' ' :: text.rdropWhile isWhitespace).dropWhile (fun c => isWhitespace c || c == '*') = readPath text :=
      List.dropWhile_cons_of_pos (by decide)
    rw [if_neg hblank, if_neg hblank, if_neg, hcut]
    · dsimp only
      rw [h.trim, h.map_toLower, hpath, if_neg]
      rintro (hlen | hhex)
      · exact hlen h.length
      · exact hhex h.all_hexdigit
    · rintro (hnil | hmark)
      · simp [h.ne_nil] at hnil
      · rw [hcons] at hmark
        exact hhash (Option.some.inj hmark)

theorem parseLine_unmarked (h : IsDigest algorithm digest) (htext : Unmarked text) (idx : Nat) :
    parseLine baseDir algorithm idx (stripReturn (digest ++ "  ".toList ++ text)) =
      .ok (some ⟨resolved baseDir (osStr text), digest⟩) := by
  have hread := (readPath_eq_self htext.nonempty).2 htext
  have hfull : text.rdropWhile isWhitespace = text := rdropWhile_eq_self htext.last
  rw [parseLine_printed h, hfull, if_neg htext.nonempty, hread, if_neg htext.nonempty]

theorem parseLine_eq_ok {idx : Nat} {item : Option ExpectedChecksum} (h : IsDigest algorithm digest)
    (hok : parseLine baseDir algorithm idx (stripReturn (digest ++ "  ".toList ++ text)) = .ok item) :
    readPath text ≠ [] ∧ item = some ⟨resolved baseDir (osStr (readPath text)), digest⟩ := by
  rw [parseLine_printed h] at hok
  split at hok
  · cases hok
  · split at hok
    · cases hok
    · rename_i hne
      cases hok
      exact ⟨hne, rfl⟩

end Lines

/-! ## Paths that are resolved -/

section Resolved

variable {baseDir : PathBuf} {text : List Char}

theorem isAbsolute_osStr : isAbsolute (osStr text) = true ↔ text.head? = some '/' := by
  cases text with
  | nil => decide
  | cons c text =>
    have hcons : osStr (c :: text) = String.utf8EncodeChar c ++ osStr text := by
      unfold osStr
      rw [utf8Bytes_ofList, utf8Bytes_ofList, List.flatMap_cons]
    rw [List.head?_cons, Option.some.injEq, isAbsolute, beq_iff_eq, hcons]
    constructor
    · intro h
      have hne : String.utf8EncodeChar c ≠ [] := String.utf8EncodeChar_ne_nil
      rw [List.head?_append_of_ne_nil _ hne] at h
      exact slash_of_mem_utf8EncodeChar (List.mem_of_mem_head? h)
    · rintro rfl
      rfl

theorem isAbsolute_readPath (h : isAbsolute (osStr text) = true) : isAbsolute (osStr (readPath text)) = true := by
  rw [isAbsolute_osStr] at h ⊢
  obtain ⟨rest, rfl⟩ := List.head?_eq_some_iff.1 h
  obtain ⟨front, hfront⟩ : ∃ front, ('/' :: rest).rdropWhile isWhitespace = '/' :: front := by
    have hne : ('/' :: rest).rdropWhile isWhitespace ≠ [] := fun hnil =>
      absurd (List.rdropWhile_eq_nil_iff.1 hnil '/' List.mem_cons_self) (by decide)
    obtain ⟨c, front, hcons⟩ := List.exists_cons_of_ne_nil hne
    have hle := List.rdropWhile_prefix isWhitespace ('/' :: rest)
    rw [hcons] at hle
    obtain ⟨rfl, -⟩ := List.cons_prefix_cons.1 hle
    exact ⟨front, hcons⟩
  rw [readPath, hfront, List.dropWhile_cons_of_neg (by decide)]
  rfl

theorem length_joinDir (dir path : PathBuf) : (joinDir dir path).length + (joinDir dir []).length =
    (joinDir dir []).length + path.length + (joinDir dir []).length := by
  unfold joinDir
  split <;> simp only [List.length_append, List.length_cons, List.length_nil] <;> omega

theorem length_osStr_lt {inner text : List Char} (h : inner <:+: text) (hne : inner ≠ text) :
    (osStr inner).length < (osStr text).length := by
  obtain ⟨front, back, rfl⟩ := h
  rw [osStr_append, osStr_append, List.length_append, List.length_append]
  by_contra hle
  have hfront : osStr front = [] := List.eq_nil_of_length_eq_zero (by omega)
  have hback : osStr back = [] := List.eq_nil_of_length_eq_zero (by omega)
  rw [osStr_eq_nil.1 hfront, osStr_eq_nil.1 hback, List.nil_append, List.append_nil] at hne
  exact hne rfl

/-- A path that is read in parts is another path. -/
theorem readPath_of_resolved (h : resolved baseDir (osStr (readPath text)) = resolved baseDir (osStr text)) :
    readPath text = text := by
  by_contra hne
  have hlt := length_osStr_lt ( readPath_infix text) hne
  have hlen := congrArg List.length h
  unfold resolved at hlen
  have hjoin := length_joinDir baseDir (osStr text)
  have hjoin' := length_joinDir baseDir (osStr (readPath text))
  by_cases habs : isAbsolute (osStr text) = true
  · rw [if_pos habs, if_pos (isAbsolute_readPath habs)] at hlen
    omega
  · rw [if_neg habs] at hlen
    split at hlen <;> omega

end Resolved

/-! ## Manifests that are printed -/

/-- A file whose name is a text of one line, with its digest. -/
structure Printable (algorithm : ChecksumAlgorithm) (item : ChecksumItem) : Prop where
  digest : IsDigest algorithm item.digest
  utf8 : (toStr item.path).isSome = true
  line : '\n' ∉ pathString item.path

/-- What a manifest is to say of a file. -/
def expectedOf (baseDir : PathBuf) (item : ChecksumItem) : ExpectedChecksum :=
  ⟨resolved baseDir item.path, item.digest⟩

def printedLine (item : ChecksumItem) : List Char := item.digest ++ "  ".toList ++ pathString item.path

section Manifests

variable {baseDir : PathBuf} {algorithm : ChecksumAlgorithm} {items : List ChecksumItem}

theorem Printable.osStr_pathString {item : ChecksumItem} (h : Printable algorithm item) :
    osStr (pathString item.path) = item.path := by
  obtain ⟨text, htext⟩ := Option.isSome_iff_exists.1 h.utf8
  rw [osStr_of_toStr htext, pathString, toStringLossy_osStr]

theorem lines_printClassic (h : ∀ item ∈ items, Printable algorithm item) :
    lines (printClassic items) = items.map fun item => stripReturn (printedLine item) := by
  have hprint : printClassic items = (items.map printedLine).flatMap (· ++ ['\n']) := by
    rw [List.flatMap_map]
    rfl
  rw [hprint, lines_flatMap, List.map_map]
  · rfl
  · intro line hline
    obtain ⟨item, hitem, rfl⟩ := List.mem_map.1 hline
    have hdigest : '\n' ∉ item.digest := fun hmem =>
      (hex_lower ((h item hitem).digest.lower _ hmem)).2.2.2.2 rfl
    simp [printedLine, hdigest, (h item hitem).line]

/-- Unmarked names are read back. -/
theorem parseLines_unmarked (h : ∀ item ∈ items, Printable algorithm item)
    (hunmarked : ∀ item ∈ items, Unmarked (pathString item.path)) (idx : Nat) :
    parseLines baseDir algorithm idx (items.map fun item => stripReturn (printedLine item)) =
      .ok (items.map (expectedOf baseDir)) := by
  induction items generalizing idx with
  | nil => rfl
  | cons item items ih =>
    have hitem := h item List.mem_cons_self
    rw [List.map_cons, parseLines, printedLine, parseLine_unmarked hitem.digest (hunmarked item List.mem_cons_self),
      hitem.osStr_pathString, ok_bind, ih (fun item hmem => h item (List.mem_cons_of_mem _ hmem))
      fun item hmem => hunmarked item (List.mem_cons_of_mem _ hmem)]
    rfl

/-- Only unmarked names are read back. -/
theorem unmarked_of_parseLines (h : ∀ item ∈ items, Printable algorithm item) {idx : Nat}
    (hok : parseLines baseDir algorithm idx (items.map fun item => stripReturn (printedLine item)) =
      .ok (items.map (expectedOf baseDir))) : ∀ item ∈ items, Unmarked (pathString item.path) := by
  induction items generalizing idx with
  | nil => exact fun item hitem => absurd hitem List.not_mem_nil
  | cons item items ih =>
    have hitem := h item List.mem_cons_self
    rw [List.map_cons, parseLines] at hok
    obtain ⟨first, hfirst, hok⟩ := bind_eq_ok.1 hok
    obtain ⟨rest, hrest, hok⟩ := bind_eq_ok.1 hok
    obtain ⟨hread, rfl⟩ := parseLine_eq_ok hitem.digest hfirst
    have hcons := List.cons.inj (Except.ok.inj hok)
    have hpath : resolved baseDir (osStr (readPath (pathString item.path))) =
        resolved baseDir (osStr (pathString item.path)) := by
      rw [hitem.osStr_pathString]
      exact congrArg ExpectedChecksum.path hcons.1
    have hsame := readPath_of_resolved hpath
    have hunmarked : Unmarked (pathString item.path) := (readPath_eq_self (hsame ▸ hread)).1 hsame
    have hrest : parseLines baseDir algorithm (idx + 1) (items.map fun item => stripReturn (printedLine item)) =
        .ok (items.map (expectedOf baseDir)) := by
      rw [hrest]
      exact congrArg Except.ok hcons.2
    intro other hother
    rcases List.mem_cons.1 hother with rfl | hother
    · exact hunmarked
    · exact ih (fun item hmem => h item (List.mem_cons_of_mem _ hmem)) hrest other hother

/-- A manifest that was printed is read back exactly if it names a file and no name begins with white space or a star or
ends with white space. -/
theorem parseManifest_printClassic_iff (h : ∀ item ∈ items, Printable algorithm item) :
    parseManifest (printClassic items) baseDir algorithm = .ok (items.map (expectedOf baseDir)) ↔
      items ≠ [] ∧ ∀ item ∈ items, Unmarked (pathString item.path) := by
  unfold parseManifest
  rw [lines_printClassic h]
  constructor
  · intro hok
    obtain ⟨out, hout, hok⟩ := bind_eq_ok.1 hok
    split at hok
    · cases hok
    · rename_i hne
      cases hok
      exact ⟨fun hnil => hne (by rw [hnil]; rfl), unmarked_of_parseLines h hout⟩
  · rintro ⟨hne, hunmarked⟩
    rw [parseLines_unmarked h hunmarked, ok_bind, if_neg fun hnil => hne (List.map_eq_nil_iff.1 hnil)]
    rfl

theorem parseManifest_printClassic_iff_plain :
    let items : List ChecksumItem := [⟨osStr "a b".toList, 1, "00c0ffee".toList⟩]
    parseManifest (printClassic items) (osStr ".".toList) .crc32 = .ok (items.map (expectedOf (osStr ".".toList))) ↔
      items ≠ [] ∧ ∀ item ∈ items, Unmarked (pathString item.path) := by
  intro items
  refine parseManifest_printClassic_iff fun item hitem => ?_
  obtain rfl := List.mem_singleton.1 hitem
  exact ⟨⟨by decide, by simp⟩, by decide +kernel, by decide +kernel⟩

/-- The star of a name is taken for a mark. -/
theorem star_lost :
    let items : List ChecksumItem := [⟨osStr "*a".toList, 1, "00c0ffee".toList⟩]
    (∀ item ∈ items, Printable .crc32 item) ∧
      parseManifest (printClassic items) (osStr ".".toList) .crc32 =
        .ok [⟨osStr "./a".toList, "00c0ffee".toList⟩] ∧
      parseManifest (printClassic items) (osStr ".".toList) .crc32 ≠
        .ok (items.map (expectedOf (osStr ".".toList))) := by
  intro items
  refine ⟨fun item hitem => ?_, by decide +kernel, by decide +kernel⟩
  obtain rfl := List.mem_singleton.1 hitem
  exact ⟨⟨by decide, by simp⟩, by decide +kernel, by decide +kernel⟩

end Manifests

end Squallz.Checksum
