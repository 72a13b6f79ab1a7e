/-
The names of RAR volumes: `base.partN.rar`, and `base.rar` with `base.rNN`. Of the widths that a number can be padded to,
those are considered that spell it as the name does.
-/
import Squallz.Api.Checked
import Squallz.Text.LeadingZeros
import Squallz.Volumes.Layout

namespace Squallz.Rar

open Squallz.Api Squallz.Destination Squallz.Text Squallz.Volumes

/-! ## Indices -/

def maxRarVolumeCount : Nat := 1000000

def volumeLimitError : FormatError := .resourceLimitExceeded s!"RAR volume count exceeds {maxRarVolumeCount}"

def ensureVolumeIndex (index : Nat) : Res Unit := if index < maxRarVolumeCount then .ok () else raise volumeLimitError

theorem ensureVolumeIndex_eq_ok {index : Nat} : ensureVolumeIndex index = .ok () ↔ index < maxRarVolumeCount := by
  unfold ensureVolumeIndex
  split
  · rename_i h
    exact ⟨fun _ => h, fun _ => rfl⟩
  · rename_i h
    exact ⟨fun hraise => (by cases hraise), fun hlt => absurd hlt h⟩

/-! ## Names -/

inductive ModernPadding
  | unpadded
  | fixed (width : Nat)
deriving DecidableEq

structure ModernNameShape where
  base : List UInt8
  digits : List Char
  partPrefix : List Char
  rarExtension : List Char
deriving DecidableEq

structure ModernName extends ModernNameShape where
  index : Nat
deriving DecidableEq

structure LegacyName where
  base : List UInt8
  index : Nat
  rarExtension : List Char
  rPrefix : List Char
deriving DecidableEq

def ModernName.paddingCandidates (name : ModernName) : List ModernPadding :=
  if 1 < name.digits.length ∧ name.digits.head? = some '0' then [.fixed name.digits.length]
  else .unpadded :: (List.range' 2 (name.digits.length - 1)).map .fixed

def formatVolumeNumber (number : Nat) : ModernPadding → List Char
  | .unpadded => decimal number
  | .fixed width => padded width number

def parseModernNameShape (fileName : List UInt8) : Option ModernNameShape := do
  let rarExtension ← (extensionOf dot fileName).bind toStr
  if ¬ eqIgnoreAsciiCase rarExtension "rar".toList then none
  else
    let stem := stemOf dot fileName
    let part ← (extensionOf dot stem).bind toStr
    if part.length ≤ 4 ∨ ¬ eqIgnoreAsciiCase (part.take 4) "part".toList then none
    else
      let digits := part.drop 4
      if digits = [] ∨ ¬ digits.all Char.isDigit then none
      else
        let base := stemOf dot stem
        if base = [] then none else some ⟨base, digits, part.take 4, rarExtension⟩

def checkedModernName (shape : ModernNameShape) : Res ModernName :=
  match parseUnsigned (2 ^ 64) shape.digits with
  | none => raise volumeLimitError
  | some number =>
    if number = 0 then corrupt "RAR volume numbering starts at part1"
    else do
      let index := number - 1
      ensureVolumeIndex index
      pure { shape with index := index }

def parseModernName (fileName : List UInt8) : Option ModernName :=
  (parseModernNameShape fileName).bind fun shape => (checkedModernName shape).toOption

/-- The index of a legacy name, the extension of its first volume, and the letter of the others. -/
def legacyExtension (extension : List Char) : Option (Nat × List Char × List Char) :=
  if eqIgnoreAsciiCase extension "rar".toList then some (0, extension, extension.take 1)
  else
    match extension with
    | [letter, tens, ones] =>
      if eqIgnoreAsciiCase [letter] ['r'] ∧ tens.isDigit ∧ ones.isDigit then do
        let number ← parseUnsigned (2 ^ 64) [tens, ones]
        let index ← checkedAddU64 number 1
        some (index, if letter.isUpper then "RAR".toList else "rar".toList, [letter])
      else none
    | _ => none

def parseLegacyName (fileName : List UInt8) : Option LegacyName := do
  let extension ← (extensionOf dot fileName).bind toStr
  let (index, rarExtension, rPrefix) ← legacyExtension extension
  let base := stemOf dot fileName
  if base = [] then none else some ⟨base, index, rarExtension, rPrefix⟩

example : (parseModernName (osStr "x.Part03.rar".toList)).map (·.index) = some 2 ∧
    (parseLegacyName (osStr "x.R00".toList)).map (fun name => (name.index, name.rarExtension)) = some (1, "RAR".toList) := by
  decide +kernel

/-! ## Paddings -/

/-- A padding that differs from the unpadded number somewhere, or the unpadded number. -/
def ModernPadding.Canonical : ModernPadding → Prop
  | .unpadded => True
  | .fixed width => 2 ≤ width

theorem digits_of_shape {fileName : List UInt8} {shape : ModernNameShape} (h : parseModernNameShape fileName = some shape) :
    shape.digits ≠ [] ∧ shape.digits.all Char.isDigit = true := by
  simp only [parseModernNameShape, Option.bind_eq_bind, Option.bind_eq_some_iff] at h
  obtain ⟨rarExtension, -, h⟩ := h
  split at h
  · cases h
  · simp only [Option.bind_eq_some_iff] at h
    obtain ⟨part, -, h⟩ := h
    split at h
    · cases h
    · split at h
      · cases h
      · rename_i hdigits
        split at h
        · cases h
        · cases h
          exact ⟨fun hnil => hdigits (.inl hnil), by_contra fun hall => hdigits (.inr hall)⟩

theorem parseUnsigned_digits {bound number : Nat} {digits : List Char} (hall : digits.all Char.isDigit = true)
    (h : parseUnsigned bound digits = some number) : ofDecimal digits = number := by
  have hplus : digits.head? ≠ some '+' := by
    intro hhead
    have := List.all_eq_true.1 hall _ (List.mem_of_mem_head? hhead)
    revert this
    decide
  simp only [parseUnsigned, if_neg hplus] at h
  split at h
  · exact Option.some.inj h
  · cases h

theorem checkedModernName_eq_ok {shape : ModernNameShape} {name : ModernName}
    (hall : shape.digits.all Char.isDigit = true) (h : checkedModernName shape = .ok name) :
    name.toModernNameShape = shape ∧ name.index < maxRarVolumeCount ∧ ofDecimal name.digits = name.index + 1 := by
  unfold checkedModernName at h
  split at h
  · cases h
  · rename_i number hnumber
    split at h
    · cases h
    · rename_i hpos
      obtain ⟨⟨⟩, hindex, h⟩ := bind_eq_ok.1 h
      cases h
      refine ⟨rfl, ensureVolumeIndex_eq_ok.1 hindex, ?_⟩
      show ofDecimal shape.digits = number - 1 + 1
      rw [parseUnsigned_digits hall hnumber]
      omega

theorem nodup_paddingCandidates (name : ModernName) : name.paddingCandidates.Nodup := by
  unfold ModernName.paddingCandidates
  split
  · exact List.nodup_singleton _
  · refine List.nodup_cons.2 ⟨?_, (List.nodup_range').map fun a b h => ModernPadding.fixed.inj h⟩
    intro hmem
    obtain ⟨width, -, h⟩ := List.mem_map.1 hmem
    cases h

theorem length_padded_eq (width number : Nat) : (padded width number).length = max width (decimal number).length := by
  rw [padded, List.length_append, List.length_replicate]
  omega

theorem padded_of_le {width number : Nat} (h : width ≤ (decimal number).length) : padded width number = decimal number := by
  rw [padded, Nat.sub_eq_zero_of_le h]
  rfl

/-- The paddings of a name are those in which its number is spelt as its digits are. -/
theorem mem_paddingCandidates {name : ModernName} {padding : ModernPadding} (hne : name.digits ≠ [])
    (hall : name.digits.all Char.isDigit = true) (hvalue : ofDecimal name.digits = name.index + 1) :
    padding ∈ name.paddingCandidates ↔
      padding.Canonical ∧ formatVolumeNumber (name.index + 1) padding = name.digits := by
  obtain ⟨zeros, hzeros⟩ := eq_zeros_decimal hne hall
  rw [hvalue] at hzeros
  have hhead : (decimal (name.index + 1)).head? ≠ some '0' := head?_decimal (Nat.succ_pos _)
  have hpos : 0 < (decimal (name.index + 1)).length := List.length_pos_of_ne_nil (decimal_ne_nil _)
  have hlength : name.digits.length = zeros + (decimal (name.index + 1)).length := by
    rw [hzeros, List.length_append, List.length_replicate]
  unfold ModernName.paddingCandidates
  cases zeros with
  | zero =>
    rw [List.replicate_zero, List.nil_append] at hzeros
    rw [if_neg fun h => hhead (hzeros ▸ h.2)]
    cases padding with
    | unpadded => simp [ModernPadding.Canonical, formatVolumeNumber, hzeros]
    | fixed width =>
      have hmem : ModernPadding.fixed width ∈ (List.range' 2 (name.digits.length - 1)).map ModernPadding.fixed ↔
          2 ≤ width ∧ width ≤ name.digits.length := by
        rw [List.mem_map_of_injective fun a b h => ModernPadding.fixed.inj h, List.mem_range'_1]
        omega
      rw [List.mem_cons, hmem]
      constructor
      · rintro (h | ⟨htwo, hle⟩)
        · cases h
        · refine ⟨htwo, ?_⟩
          rw [hzeros] at hle
          exact (padded_of_le hle).trans hzeros.symm
      · rintro ⟨htwo, hformat⟩
        have hwidth := congrArg List.length hformat
        rw [formatVolumeNumber, length_padded_eq] at hwidth
        exact .inr ⟨htwo, by omega⟩
  | succ zeros =>
    rw [if_pos ⟨by omega, by rw [hzeros, List.replicate_succ]; rfl⟩, List.mem_singleton]
    have hdecimal : decimal (name.index + 1) ≠ name.digits := by
      intro h
      have := congrArg List.length h
      omega
    constructor
    · rintro rfl
      refine ⟨show 2 ≤ name.digits.length by omega, ?_⟩
      rw [formatVolumeNumber, padded, hlength, Nat.add_sub_cancel, ← hzeros]
    · rintro ⟨-, hformat⟩
      cases padding with
      | unpadded => exact absurd hformat hdecimal
      | fixed width =>
        have hwidth := congrArg List.length hformat
        rw [formatVolumeNumber, length_padded_eq] at hwidth
        have heq : width = name.digits.length := by omega
        rw [heq]

end Squallz.Rar
