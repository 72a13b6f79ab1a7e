/-
The layout of a split archive: how many volumes there are, which recovery files stand next to them, how they are
named, and how many bytes are budgeted for all of them.
-/
import Squallz.Api.Error
import Squallz.Bytes.Slice
import Squallz.Destination.Names

namespace Squallz.Volumes

open Squallz.Api Squallz.Bytes Squallz.Destination Squallz.Text

/-! ## Sizes -/

def minSplitSize : Nat := 1024

def maxSplitVolumeCount : Nat := 1000000

def spaceSlack : Nat := 1024 * 1024

def sqzvHeaderLen : Nat := 32

def sqzrHeaderLen : Nat := 64

/-- `u64::MAX`. -/
def u64Max : Nat := 2 ^ 64 - 1

def saturatingAdd (a b : Nat) : Nat := min (a + b) u64Max

def saturatingMul (a b : Nat) : Nat := min (a * b) u64Max

structure SplitLayout where
  logicalVolumeSize : Nat
  count : Nat
  writeSqzv : Bool
  writeWeightedParity : Bool
  writeQuadraticParity : Bool
deriving DecidableEq, Repr

def splitLayout (base : Path) (total volumeSize : Nat) : Res SplitLayout :=
  if volumeSize < minSplitSize then
    unsupported s!"split size below the {minSplitSize}-byte minimum: {volumeSize}"
  else
    let writeSqzv := isSqzBase base
    if writeSqzv ∧ volumeSize ≤ sqzvHeaderLen then
      unsupported s!"split size must leave room for the {sqzvHeaderLen}-byte SQZV header: {volumeSize}"
    else
      let logicalVolumeSize := if writeSqzv then volumeSize - sqzvHeaderLen else volumeSize
      let count := max (divCeil total logicalVolumeSize) 1
      if maxSplitVolumeCount < count then raise (.resourceLimitExceeded "split archive would create too many volumes")
      else
        .ok {
          logicalVolumeSize := logicalVolumeSize
          count := count
          writeSqzv := writeSqzv
          writeWeightedParity := writeSqzv && 2 < count && count ≤ 255
          writeQuadraticParity := writeSqzv && 3 < count && count ≤ 255 }

/-! ## Names -/

/-- A number with zeros in front, at least `width` digits. -/
def padded (width n : Nat) : List Char := List.replicate (width - (decimal n).length) '0' ++ decimal n

def filenameOrEmpty (path : Path) : List Char := ((fileName path).map toStringLossy).getD []

def volumePath (base : Path) (index : Nat) : Path :=
  withFileName base (osStr (filenameOrEmpty base ++ '.' :: padded 3 index))

def recoveryVolumePath (base : Path) (index : Nat) : Path :=
  withFileName base (osStr (filenameOrEmpty base ++ ".rev".toList ++ padded 3 index))

def recoveryParityVolumePath (base : Path) : Path := recoveryVolumePath base 1

def recoveryWeightedParityVolumePath (base : Path) : Path := recoveryVolumePath base 2

def recoveryQuadraticParityVolumePath (base : Path) : Path := recoveryVolumePath base 3

/-! ## Budgets -/

structure SplitOutputBudget where
  finalOutputBytes : Nat
  additionalSpaceBytes : Nat
  volumeCount : Nat
deriving DecidableEq, Repr

/-- The part of the budget for a recovery file. -/
def parityFileBytes (volumeSize : Nat) : Nat := saturatingAdd sqzrHeaderLen volumeSize

def splitFinalOutputBytes (total volumeSize : Nat) (layout : SplitLayout) : Nat :=
  if ¬ layout.writeSqzv then total
  else
    let bytes := saturatingAdd total (saturatingMul layout.count sqzvHeaderLen)
    if layout.count ≤ 1 then bytes
    else
      let bytes := saturatingAdd (saturatingAdd bytes volumeSize) (parityFileBytes volumeSize)
      let bytes := if layout.writeWeightedParity then saturatingAdd bytes (parityFileBytes volumeSize) else bytes
      if layout.writeQuadraticParity then saturatingAdd bytes (parityFileBytes volumeSize) else bytes

def splitOutputBudget (base : Path) (total volumeSize : Nat) : Res SplitOutputBudget := do
  let layout ← splitLayout base total volumeSize
  let bytes := splitFinalOutputBytes total volumeSize layout
  let bytes ← if layout.writeSqzv ∧ 255 < layout.count then do
      let lastFullRecoverySet := min (saturatingMul layout.logicalVolumeSize 255) total
      let recoveryLayout ← splitLayout base lastFullRecoverySet volumeSize
      pure (max bytes (splitFinalOutputBytes lastFullRecoverySet volumeSize recoveryLayout))
    else pure bytes
  return {
    finalOutputBytes := bytes
    additionalSpaceBytes := saturatingAdd bytes spaceSlack
    volumeCount := layout.count }

end Squallz.Volumes
