/-
Archive entries as the format layer passes them around: paths with their raw bytes, kinds,
times and metadata, and the creation profile of an SQZ container.
-/
import Squallz.Api.Error
import Squallz.Bytes.Slice

namespace Squallz.Api

open Squallz.Bytes

/-! ## Text -/

/-- The UTF-8 bytes of a string. -/
def utf8Bytes (s : String) : List UInt8 := s.toByteArray.data.toList

/-- `String::from_utf8`. -/
def fromUtf8 (bytes : List UInt8) : Option String := String.fromUTF8? ⟨bytes.toArray⟩

@[simp] theorem fromUtf8_utf8Bytes (s : String) : fromUtf8 (utf8Bytes s) = some s := by
  have e : (⟨(utf8Bytes s).toArray⟩ : ByteArray) = s.toByteArray := by simp [utf8Bytes]
  unfold fromUtf8
  rw [e]
  exact dif_pos s.isValidUTF8

theorem utf8Bytes_of_fromUtf8 {bytes : List UInt8} {s : String} (h : fromUtf8 bytes = some s) : utf8Bytes s = bytes := by
  unfold fromUtf8 String.fromUTF8? at h
  split at h
  · cases h
    simp [utf8Bytes, String.fromUTF8]
  · cases h

/-- `to_ascii_lowercase`. -/
def toAsciiLowercase (s : String) : String := s.map Char.toLower

/-! ## Entries -/

structure EntryPath where
  raw : List UInt8
  display : String
  encoding : String
deriving DecidableEq, Repr

def EntryPath.fromUtf8 (s : String) : EntryPath := ⟨utf8Bytes s, s, "utf-8"⟩

inductive EntryType
  | file
  | dir
  | symlink (target : List UInt8)
  | hardlink (target : List UInt8)
  | other
deriving DecidableEq, Repr

/-- A point in time: whole seconds since the epoch, rounded down and held in a signed 64-bit
counter, and the nanoseconds after that. -/
structure SystemTime where
  secs : Int
  nanos : Nat
  secs_ge : -2 ^ 63 ≤ secs
  secs_lt : secs < 2 ^ 63
  nanos_lt : nanos < 1000000000
deriving DecidableEq, Repr

theorem zero_nanos_lt : 0 < 1000000000 := by decide

/-- `UNIX_EPOCH + Duration::from_secs(secs)`: the addition panics when the seconds overflow. -/
def SystemTime.ofUnixSecs (secs : Nat) : Res SystemTime :=
  if h : secs < 2 ^ 63 then .ok ⟨secs, 0, by omega, by omega, by decide⟩
  else panic "overflow when adding duration to instant"

/-- `duration_since(UNIX_EPOCH)` in whole seconds, absent before the epoch. -/
def SystemTime.secsSinceEpoch (t : SystemTime) : Option Nat :=
  if 0 ≤ t.secs then some t.secs.toNat else none

/-- A time just before the epoch. -/
def SystemTime.beforeEpoch : SystemTime := ⟨-1, 5, by decide, by decide, by decide⟩

structure EntryMeta where
  path : EntryPath
  entryType : EntryType
  size : UInt64
  compressedSize : Option UInt64
  modified : Option SystemTime
  unixMode : Option UInt32
  crc32 : Option UInt32
  encrypted : Bool
deriving DecidableEq, Repr

/-! ## Creation profile -/

inductive SqzInnerFormat
  | sqz | zip | tar | sevenZip | zstd
deriving DecidableEq, Repr

def SqzInnerFormat.asStr : SqzInnerFormat → String
  | .sqz => "sqz"
  | .zip => "zip"
  | .tar => "tar"
  | .sevenZip => "7z"
  | .zstd => "zstd"

structure SqzCreateOptions where
  innerFormat : SqzInnerFormat
  recoveryPercent : UInt8
deriving DecidableEq, Repr

/-- `SqzCreateOptions::DATA_SHARDS`. -/
def dataShards : Nat := 8

def parityShardsForPercent (percent : Nat) : Nat :=
  let percent := min (max percent 1) 100
  let shards := divCeil (dataShards * percent) 100
  min (max shards 1) (255 - dataShards)

def SqzCreateOptions.parityShards (opts : SqzCreateOptions) : Nat :=
  parityShardsForPercent opts.recoveryPercent.toNat

/-- Every profile has between one and eight parity shards. -/
theorem SqzCreateOptions.parityShards_bounds (opts : SqzCreateOptions) :
    1 ≤ opts.parityShards ∧ opts.parityShards ≤ 8 := by
  have h : divCeil (dataShards * min (max opts.recoveryPercent.toNat 1) 100) 100 ≤ 8 := by
    rw [divCeil_le_iff (by decide)]; unfold dataShards; omega
  unfold parityShards parityShardsForPercent
  simp only
  generalize divCeil _ 100 = n at h ⊢
  unfold dataShards
  omega

end Squallz.Api
