/-
Names of created archives: the numbered name that stands in for a taken one, how a number is read back from a name,
and the names of the family that a split output manages.
-/
import Squallz.Api.Names
import Squallz.Text.Numbering
import Squallz.Text.Separators

namespace Squallz.Destination

open Squallz.Api Squallz.Text

/-! ## Paths -/

/-- A path: the bytes of its components. -/
abbrev Path := List (List UInt8)

def dot : UInt8 := 0x2E

/-- `OsStr::to_str`. -/
def toStr (name : List UInt8) : Option (List Char) := (fromUtf8 name).map String.toList

/-- The bytes of a text. -/
def osStr (text : List Char) : List UInt8 := utf8Bytes (.ofList text)

/-- `to_string_lossy`. -/
def toStringLossy (name : List UInt8) : List Char := (fromUtf8Lossy name).toList

/-- `file_name`: absent above the root and for a path that ends with `..`. -/
def fileName (path : Path) : Option (List UInt8) :=
  match path.getLast? with
  | some name => if name = [dot, dot] then none else some name
  | none => none

/-- `join` of one component: an empty one and `.` add nothing. -/
def joinName (path : Path) (name : List UInt8) : Path := if name = [] ∨ name = [dot] then path else path ++ [name]

def parent (path : Path) : Path := path.dropLast

def withFileName (path : Path) (name : List UInt8) : Path :=
  joinName (if (fileName path).isSome then parent path else path) name

section Dots

variable {α : Type} [DecidableEq α] (sep : α)

/-- `file_stem` of a name: what stands before its last dot, or all of it when that is nothing. -/
def stemOf (name : List α) : List α :=
  match rsplitOnce sep name with
  | none => name
  | some ([], _) => name
  | some (before, _) => before

/-- `extension` of a name. -/
def extensionOf (name : List α) : Option (List α) :=
  match rsplitOnce sep name with
  | none => none
  | some ([], _) => none
  | some (_, after) => some after

end Dots

/-- `with_extension`, for an extension that is not empty. -/
def withExtension (path : Path) (extension : List UInt8) : Path :=
  match fileName path with
  | none => path
  | some name => parent path ++ [stemOf dot name ++ dot :: extension]

/-! ## Texts -/

def eqIgnoreAsciiCase (a b : List Char) : Bool := a.map Char.toLower = b.map Char.toLower

/-- A character is its own lower case, or a capital letter. -/
theorem toLower_cases {c d : Char} (h : c.toLower = d) :
    c = d ∨ 65 ≤ c.val.toNat ∧ c.val.toNat ≤ 90 ∧ d.val.toNat = c.val.toNat + 32 := by
  unfold Char.toLower at h
  split at h
  · rename_i hupper
    have hval : (c.val + 32).toNat = d.val.toNat := congrArg (fun d : Char => d.val.toNat) h
    have hlow : 65 ≤ c.val.toNat := UInt32.le_iff_toNat_le.1 hupper.1
    have hhigh : c.val.toNat ≤ 90 := UInt32.le_iff_toNat_le.1 hupper.2
    have hadd : (c.val + 32).toNat = (c.val.toNat + 32) % 2 ^ 32 := UInt32.toNat_add _ _
    exact .inr ⟨hlow, hhigh, by omega⟩
  · exact .inl h

/-- `parse` of an unsigned number below a bound. -/
def parseUnsigned (bound : Nat) (text : List Char) : Option Nat :=
  let digits := if text.head? = some '+' then text.tail else text
  if digits ≠ [] ∧ digits.all Char.isDigit ∧ ofDecimal digits < bound then some (ofDecimal digits) else none

/-- A split volume: the name of its base and its index. -/
def splitVolumeName (name : List Char) : Option (List Char × Nat) :=
  match rsplitOnce '.' name with
  | none => none
  | some (base, suffix) =>
    if base = [] ∨ suffix.length < 3 ∨ ¬ suffix.all Char.isDigit then none
    else
      match parseUnsigned (2 ^ 32) suffix with
      | none => none
      | some index => if index = 0 then none else some (base, index)

/-- The suffix of an SQZ recovery volume, with its dot. -/
def sqzRecoverySuffix (name : List Char) : Option (List Char × Nat) :=
  match rsplitOnce '.' name with
  | none => none
  | some (_, after) =>
    let suffix := '.' :: after
    let digits := suffix.drop 4
    if ¬ eqIgnoreAsciiCase (suffix.take 4) ".rev".toList ∨ digits.length < 3 ∨ ¬ digits.all Char.isDigit then none
    else
      match parseUnsigned (2 ^ 64) digits with
      | none => none
      | some index => if 0 < index then some (suffix, index) else none

/-! ## Numbered names -/

def compoundCreateExtensions : List (List Char) :=
  ["tar.gz", "tar.bz2", "tar.xz", "tar.zst", "tar.lz4", "tar.br", "tar.lzma"].map String.toList

/-- The loop of `create_destination_name_parts` over the compound extensions. -/
def compoundParts (name : List Char) : List (List Char) → Option (List Char × List Char)
  | [] => none
  | ext :: rest =>
    let suffix := '.' :: ext
    if suffix <:+ name.map Char.toLower ∧ suffix.length < name.length then
      some (name.take (name.length - suffix.length), name.drop (name.length - suffix.length + 1))
    else compoundParts name rest

def createDestinationNameParts (path : Path) : List Char × Option (List Char) :=
  let name := ((fileName path).map toStringLossy).getD []
  match compoundParts name compoundCreateExtensions with
  | some (stem, extension) => (stem, some extension)
  | none =>
    (((fileName path).map fun name => toStringLossy (stemOf dot name)).getD [],
      (fileName path).bind fun name => (extensionOf dot name).map toStringLossy)

/-- What follows the number in a numbered name. -/
def numberedTail : Option (List Char) → List Char
  | some extension => if extension = [] then [] else '.' :: extension
  | none => []

def numberedName (path : Path) (number : Nat) : List Char :=
  let (stem, extension) := createDestinationNameParts path
  stem ++ " (".toList ++ decimal number ++ ')' :: numberedTail extension

def numberedCreateDestination (path : Path) (number : Nat) : Path :=
  joinName (parent path) (osStr (numberedName path number))

/-- The number of a name, read backwards from its last closing parenthesis. -/
def numberedCreateDestinationIndex (name : List Char) : Option Nat :=
  match rsplitOnce ')' name with
  | none => none
  | some (before, suffix) =>
    if suffix ≠ [] ∧ suffix.head? ≠ some '.' then none
    else
      match afterLast " (".toList before with
      | none => none
      | some digits =>
        if digits = [] ∨ ¬ digits.all Char.isDigit then none
        else (parseUnsigned (2 ^ 64) digits).filter (2 ≤ ·)

/-! ## Split families -/

def isSqzBase (base : Path) : Bool :=
  match ((fileName base).bind (extensionOf dot)).bind toStr with
  | some ext => eqIgnoreAsciiCase ext "sqz".toList
  | none => false

def nativeZipVolumeName (baseName name : List Char) : Bool :=
  (extensionOf '.' baseName).any (eqIgnoreAsciiCase · "zip".toList) && stemOf '.' name = stemOf '.' baseName &&
    match extensionOf '.' name with
    | none => false
    | some extension =>
      3 ≤ extension.length && eqIgnoreAsciiCase (extension.take 1) ['z'] && (extension.drop 1).all Char.isDigit &&
        (parseUnsigned (2 ^ 64) (extension.drop 1)).any (0 < ·)

/-- `strip_prefix`. -/
def stripFront (front text : List Char) : Option (List Char) :=
  if front <+: text then some (text.drop front.length) else none

def nativeWimVolumeNumber (baseName name : List Char) : Option Nat :=
  if !(extensionOf '.' baseName).any (eqIgnoreAsciiCase · "swm".toList) then none
  else if !(extensionOf '.' name).any (eqIgnoreAsciiCase · "swm".toList) then none
  else
    match stripFront (stemOf '.' baseName) (stemOf '.' name) with
    | none => none
    | some suffix =>
      if suffix = [] ∨ (1 < suffix.length ∧ suffix.head? = some '0') then none
      else (parseUnsigned (2 ^ 32) suffix).filter fun number => 2 ≤ number ∧ number ≤ 65535

/-- Where the member of a split family stands that a name looks like. -/
def expectedManagedSplitOutputPath (base : Path) (name : List Char) (includeRecovery : Bool) : Option Path :=
  match (fileName base).bind toStr with
  | none => none
  | some baseName =>
    if name = baseName then some base
    else if (splitVolumeName name).isSome then
      (rsplitOnce '.' name).map fun parts => withFileName base (osStr (baseName ++ '.' :: parts.2))
    else if nativeZipVolumeName baseName name then
      (extensionOf '.' name).map fun extension => withExtension base (osStr extension)
    else
      match nativeWimVolumeNumber baseName name with
      | some number =>
        (extensionOf '.' baseName).map fun extension =>
          withFileName base (osStr (stemOf '.' baseName ++ decimal number ++ '.' :: extension))
      | none =>
        if includeRecovery then
          (sqzRecoverySuffix name).map fun suffix => withFileName base (osStr (baseName ++ suffix.1))
        else none

end Squallz.Destination
