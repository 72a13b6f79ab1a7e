/-
UTC timestamps of ZIP entries: a time is written as Unix seconds and as NTFS ticks into extra fields, and read back from
the fields of the central header or from the bytes of the local one.
-/
import Squallz.Api.Entry
import Squallz.Bytes.LittleEndian

namespace Squallz.Zip

open Squallz.Api Squallz.Bytes

/-! ## Times -/

def nanosPerSecond : Nat := 1000000000

/-- The ticks of 100 ns from 1601 to 1970. -/
def ntfsUnixEpochTicks : Int := 116444736000000000

/-- `unix_nanos`: 128 bits hold every value. -/
def unixNanos (t : SystemTime) : Int := t.secs * nanosPerSecond + t.nanos

/-- `UNIX_EPOCH.checked_add` and `checked_sub`, with the seconds rounded down. -/
def checkedTime (secs : Int) (nanos : Nat) : Option SystemTime :=
  if h : -2 ^ 63 ≤ secs ∧ secs < 2 ^ 63 ∧ nanos < 1000000000 then some ⟨secs, nanos, h.1, h.2.1, h.2.2⟩ else none

def systemTimeFromNanos (nanos : Int) : Option SystemTime :=
  let magnitude := nanos.natAbs
  let secs := magnitude / nanosPerSecond
  let rest := magnitude % nanosPerSecond
  if 2 ^ 64 ≤ secs then none
  else if nanos < 0 then
    if rest = 0 then checkedTime (-secs) 0 else checkedTime (-secs - 1) (nanosPerSecond - rest)
  else checkedTime secs rest

/-! ## Extra fields -/

inductive ExtraField
  | ntfs (mtime atime ctime : Nat)
  | extendedTimestamp (modified accessed created : Option Nat)
deriving DecidableEq

/-- A little-endian number at the start of some bytes, and the bytes behind it. -/
def readLe (width : Nat) (bytes : List UInt8) : Option (Nat × List UInt8) :=
  if bytes.length < width then none else some (leNat (bytes.take width), bytes.drop width)

/-- `Ntfs::try_from_reader`. -/
def readNtfs (data : List UInt8) (len : Nat) : Option (ExtraField × List UInt8) :=
  if len ≠ 32 then none
  else do
    let (_, data) ← readLe 4 data
    let (tag, data) ← readLe 2 data
    if tag ≠ 1 then none
    else do
      let (size, data) ← readLe 2 data
      if size ≠ 24 then none
      else do
        let (mtime, data) ← readLe 8 data
        let (atime, data) ← readLe 8 data
        let (ctime, data) ← readLe 8 data
        pure (.ntfs mtime atime ctime, data)

def countOnes (flags : Nat) : Nat := (List.range 8).countP flags.testBit

/-- One time of an extended timestamp, with the bytes that are left of the field. -/
def readTime (flagged : Bool) (len left : Nat) (data : List UInt8) : Option (Option Nat × Nat × List UInt8) :=
  if (flagged && 4 ≤ left) || len == 13 then
    if left < 4 then none
    else do
      let (time, data) ← readLe 4 data
      pure (some time, left - 4, data)
  else some (none, left, data)

/-- `ExtendedTimestamp::try_from_reader`. -/
def readExtendedTimestamp (data : List UInt8) (len : Nat) : Option (ExtraField × List UInt8) :=
  if len = 0 then none
  else do
    let (flags, data) ← readLe 1 data
    if len ≠ 5 ∧ len ≠ 1 + 4 * countOnes flags then none
    else do
      let (modified, left, data) ← readTime (flags.testBit 0) len (len - 1) data
      let (accessed, left, data) ← readTime (flags.testBit 1) len left data
      let (created, left, data) ← readTime (flags.testBit 2) len left data
      if data.length < left then none else pure (.extendedTimestamp modified accessed created, data.drop left)

/-! ## Reading -/

/-- The bits of a number of 32 bits as a signed one. -/
def asI32 (seconds : Nat) : Int := if seconds < 2 ^ 31 then seconds else (seconds : Int) - 2 ^ 32

section Reading

variable {DosTime : Type} (fromZipDatetime : DosTime → Option SystemTime)

/-- The loop of `modified_time`, with the Unix time that it has come to. -/
def modifiedTimeFrom (dos : Option DosTime) : Option SystemTime → List ExtraField → Option SystemTime
  | unix, [] => unix.or (dos.bind fromZipDatetime)
  | unix, .ntfs mtime _ _ :: fields =>
    if mtime ≠ 0 then
      match systemTimeFromNanos ((mtime - ntfsUnixEpochTicks) * 100) with
      | some time => some time
      | none => modifiedTimeFrom dos unix fields
    else modifiedTimeFrom dos unix fields
  | _, .extendedTimestamp modified _ _ :: fields =>
    modifiedTimeFrom dos (modified.bind fun seconds => systemTimeFromNanos (asI32 seconds * nanosPerSecond)) fields

def modifiedTime (dos : Option DosTime) (fields : List ExtraField) : Option SystemTime :=
  modifiedTimeFrom fromZipDatetime dos none fields

/-- A field of a local header: an extended timestamp has all the times that its flags name. -/
def localField (tag len : Nat) (data : List UInt8) : Option ExtraField :=
  if tag = 0x000a then (readNtfs data len).map (·.1)
  else if tag = 0x5455 ∧ data.head?.any fun flags => flags.toNat < 8 ∧ len = 1 + 4 * countOnes flags.toNat then
    (readExtendedTimestamp data len).map (·.1)
  else none

/-- The fields in the bytes of a local header, up to the first that is longer than the bytes. -/
def localFields : Nat → List UInt8 → List ExtraField
  | 0, _ => []
  | fuel + 1, extra =>
    if extra.length < 4 then []
    else
      let tag := leNat (extra.take 2)
      let len := leNat ((extra.drop 2).take 2)
      let stop := 4 + len
      if extra.length < stop then []
      else
        match localField tag len ((extra.drop 4).take len) with
        | some field => field :: localFields fuel (extra.drop stop)
        | none => localFields fuel (extra.drop stop)

/-- Every field has four bytes at least, so there are no more of them than bytes. -/
def localModifiedTime (dos : Option DosTime) (extra : List UInt8) : Option SystemTime :=
  modifiedTime fromZipDatetime dos (localFields extra.length extra)

end Reading

/-! ## The fields of the ZIP library -/

/-- The fields of other kinds: which may be written, and what is left of the bytes behind one. -/
structure OtherFields where
  allowed : Nat → Bool
  known : Nat → Bool
  parse : Nat → Nat → List UInt8 → Option (List UInt8)

section Library

variable (others : OtherFields)

/-- `parse_single_extra_field`. -/
def parseSingleExtraField (bytes : List UInt8) : Option (Option ExtraField × List UInt8) :=
  match readLe 2 bytes with
  | none => some (none, [])
  | some (kind, rest) =>
    match readLe 2 rest with
    | none => if kind = 0x000a ∨ kind = 0x5455 ∨ others.known kind then none else some (none, [])
    | some (len, rest) =>
      if kind = 0x000a then (readNtfs rest len).map fun read => (some read.1, read.2)
      else if kind = 0x5455 then (readExtendedTimestamp rest len).map fun read => (some read.1, read.2)
      else (others.parse kind len rest).map fun rest => (none, rest)

/-- `parse_extra_field` of a central header, whose bytes grow shorter with every field. -/
def centralFields : Nat → List UInt8 → Option (List ExtraField)
  | 0, _ => some []
  | _, [] => some []
  | fuel + 1, bytes => do
    let (field, rest) ← parseSingleExtraField others bytes
    let fields ← centralFields fuel rest
    pure (field.toList ++ fields)

/-- `validate_extra_data`. -/
def validateExtraData : Nat → List UInt8 → Option Unit
  | 0, _ => some ()
  | _, [] => some ()
  | fuel + 1, bytes =>
    if bytes.length < 4 then none
    else
      let kind := leNat (bytes.take 2)
      if kind ≠ 0x000a ∧ kind ≠ 0x5455 ∧ !others.allowed kind then none
      else do
        let (_, rest) ← parseSingleExtraField others bytes
        validateExtraData fuel rest

structure FileOptions where
  extraData : List UInt8
  centralExtraData : List UInt8
deriving DecidableEq

/-- A field with its header. -/
def fieldBytes (headerId : Nat) (data : List UInt8) : List UInt8 := leBytes 2 headerId ++ leBytes 2 data.length ++ data

/-- `add_extra_data`, for the local and the central header. -/
def addExtraData (options : FileOptions) (headerId : Nat) (data : List UInt8) : Option FileOptions :=
  if 65535 < options.extraData.length + options.centralExtraData.length + (data.length + 4) then none
  else
    let extraData := options.extraData ++ fieldBytes headerId data
    (validateExtraData others extraData.length extraData).map fun _ => { options with extraData := extraData }

/-! ## Writing -/

/-- Unix seconds, where 32 bits hold them. -/
def unixSecondsData (t : SystemTime) : Option (List UInt8) :=
  let seconds := unixNanos t / nanosPerSecond
  if -2 ^ 31 ≤ seconds ∧ seconds < 2 ^ 31 then some (1 :: leBytes 4 (seconds % 2 ^ 32).toNat) else none

/-- The ticks since 1601. -/
def ntfsTicks (t : SystemTime) : Int := unixNanos t / 100 + ntfsUnixEpochTicks

/-- NTFS ticks, where 64 bits hold them; the times of access and creation stay zero. -/
def ntfsData (t : SystemTime) : Option (List UInt8) :=
  if 0 ≤ ntfsTicks t ∧ ntfsTicks t < 2 ^ 64 then
    some (leBytes 4 0 ++ leBytes 2 1 ++ leBytes 2 24 ++ leBytes 8 (ntfsTicks t).toNat ++ leBytes 8 0 ++ leBytes 8 0)
  else none

/-- A field whose data there may be. -/
def addIfSome (headerId : Nat) (options : FileOptions) : Option (List UInt8) → Option FileOptions
  | some data => addExtraData others options headerId data
  | none => some options

def addTimestamps (options : FileOptions) (t : SystemTime) : Option FileOptions :=
  (addIfSome others 0x5455 options (unixSecondsData t)).bind fun options =>
    addIfSome others 0x000a options (ntfsData t)

end Library

end Squallz.Zip
