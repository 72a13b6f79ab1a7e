/-
The SQZ v1 container on the byte level: constants, field readers, the file header, the payload
descriptor and the footer. BLAKE3, CRC-32C and the Reed–Solomon codec enter as `Primitives`.
-/
import Squallz.Api.Entry
import Squallz.Bytes.LittleEndian
import Squallz.Erasure.Code

namespace Squallz.Sqz

open Squallz.Api Squallz.Bytes Squallz.Erasure

/-! ## Primitives -/

/-- A 32-byte hash. -/
structure Digest where
  bytes : List UInt8
  width : bytes.length = 32
deriving DecidableEq

/-- The hash, checksum and erasure codec the container is built on. -/
structure Primitives where
  blake3 : List UInt8 → Digest
  crc32c : List UInt8 → UInt32
  reedSolomon : ErasureCodec UInt8

/-- `ReedSolomon::new`: the shard counts the codec accepts. -/
def reedSolomonNew (dataCount parityCount : Nat) : Except String Unit :=
  if dataCount = 0 then .error "too few data shards"
  else if parityCount = 0 then .error "too few parity shards"
  else if 256 < dataCount + parityCount then .error "too many shards"
  else .ok ()

/-- `ReedSolomon::encode`: the last `parityCount` of the shards are overwritten with parity. -/
def Primitives.encode (P : Primitives) (dataCount parityCount : Nat) (shards : List (List UInt8)) :
    List (List UInt8) :=
  shards.take dataCount ++ P.reedSolomon.parity dataCount parityCount (shards.take dataCount)

theorem reedSolomonNew_ok {d p : Nat} (hd : 0 < d) (hp : 0 < p) (h : d + p ≤ 256) :
    reedSolomonNew d p = .ok () := by
  unfold reedSolomonNew
  rw [if_neg (by omega), if_neg (by omega), if_neg (by omega)]

/-! ## Constants -/

/-- `b"SQZARCH\x1A"`. -/
def magic : List UInt8 := [83, 81, 90, 65, 82, 67, 72, 26]

/-- `b"\x1ASQZEND\n"`. -/
def tailMagic : List UInt8 := [26, 83, 81, 90, 69, 78, 68, 10]

/-- `b"FIDX"`. -/
def indexMagic : List UInt8 := [70, 73, 68, 88]

/-- `b"RSEC"`. -/
def recoveryMagic : List UInt8 := [82, 83, 69, 67]

/-- `b"RSPC"`. -/
def recoveryProtectionMagic : List UInt8 := [82, 83, 80, 67]

def headerLen : Nat := 64
def footerLen : Nat := 64
def recoveryHeaderLen : Nat := 84
def recoveryProtectionTrailerLen : Nat := 80
def versionMajor : Nat := 1
def versionMinor : Nat := 0
def blockSize : Nat := 64 * 1024
def recoveryVersion : Nat := 1
def recoveryProtectionVersion : Nat := 1
def recoveryAlgoRsGf8 : Nat := 1
def recoveryDataShards : Nat := 8
def recoveryParityShards : Nat := 2
def headerFlagRecovery : Nat := 1 <<< 2
def kindFile : UInt8 := 0
def kindDir : UInt8 := 1
def kindSymlink : UInt8 := 2
def kindHardlink : UInt8 := 3
def kindOther : UInt8 := 4
def absentTimestampSecs : Nat := 2 ^ 64 - 1
def absentUnixMode : Nat := 2 ^ 32 - 1

theorem blockSize_pos : 0 < blockSize := by decide

/-- `encoding_label`: the labels the reader knows, everything else read as UTF-8. -/
def encodingLabel (label : String) : String :=
  if label = "utf-8" ∨ label = "UTF-8" then "utf-8"
  else if label = "GBK" ∨ label = "gbk" ∨ label = "cp936" ∨ label = "CP936" then "GBK"
  else if label = "Shift_JIS" ∨ label = "shift_jis" ∨ label = "shift-jis" ∨ label = "SHIFT_JIS" then
    "Shift_JIS"
  else "utf-8"

/-! ## Field readers -/

def readExact (buf : List UInt8) (len : Nat) : Res (List UInt8 × List UInt8) :=
  if buf.length < len then corrupt "truncated sqz footer index"
  else .ok (buf.take len, buf.drop len)

/-- Byte arrays of a fixed width. -/
abbrev FixedArray (n : Nat) := { bytes : List UInt8 // bytes.length = n }

def fixedArray (n : Nat) (bytes : List UInt8) (context : String) : Res (FixedArray n) :=
  if h : bytes.length = n then .ok ⟨bytes, h⟩ else corrupt s!"{context} has invalid fixed width"

def readArray (n : Nat) (buf : List UInt8) : Res (FixedArray n × List UInt8) := do
  let (head, buf) ← readExact buf n
  let array ← fixedArray n head "truncated sqz fixed-width field"
  return (array, buf)

/-- The unsigned little-endian integer of `n` bytes at the front. -/
def readUInt (n : Nat) (buf : List UInt8) : Res (Nat × List UInt8) := do
  let (array, buf) ← readArray n buf
  return (leNat array.val, buf)

def readU8 (buf : List UInt8) : Res (UInt8 × List UInt8) := do
  let (head, buf) ← readExact buf 1
  return (head.headD 0, buf)

/-- A hash at the front. -/
def readDigest (buf : List UInt8) : Res (Digest × List UInt8) := do
  let (array, buf) ← readArray 32 buf
  return (⟨array.val, array.property⟩, buf)

def readU16 := readUInt 2
def readU32 := readUInt 4
def readU64 := readUInt 8

theorem readExact_append {a rest : List UInt8} {n : Nat} (h : n = a.length) :
    readExact (a ++ rest) n = .ok (a, rest) := by
  subst h
  rw [readExact, if_neg (by simp)]
  simp

theorem readExact_length {buf a rest : List UInt8} {n : Nat} (h : readExact buf n = .ok (a, rest)) :
    rest.length + n = buf.length := by
  unfold readExact at h
  split at h
  · cases h
  · cases h
    rw [List.length_drop]
    omega

theorem readUInt_length {buf rest : List UInt8} {n v : Nat} (h : readUInt n buf = .ok (v, rest)) :
    rest.length + n = buf.length := by
  unfold readUInt readArray at h
  simp only [bind_eq_ok, pure_eq_ok] at h
  obtain ⟨⟨a, r⟩, ⟨⟨a', r'⟩, hr, b, -, hb⟩, hv⟩ := h
  cases hb
  cases hv
  exact readExact_length hr

theorem readArray_append {a rest : List UInt8} {n : Nat} (h : a.length = n) :
    readArray n (a ++ rest) = .ok (⟨a, h⟩, rest) := by
  rw [readArray, readExact_append h.symm]
  simp [fixedArray, h]

theorem readUInt_append (n v : Nat) (rest : List UInt8) :
    readUInt n (leBytes n v ++ rest) = .ok (v % 256 ^ n, rest) := by
  simp [readUInt, readArray_append (length_leBytes n v), leNat_leBytes]

@[simp] theorem readU8_cons (b : UInt8) (rest : List UInt8) : readU8 (b :: rest) = .ok (b, rest) := by
  simp [readU8, readExact]

@[simp] theorem readU16_append (v : Nat) (rest : List UInt8) :
    readU16 (leBytes 2 v ++ rest) = .ok (v % 2 ^ 16, rest) := readUInt_append 2 v rest

@[simp] theorem readU32_append (v : Nat) (rest : List UInt8) :
    readU32 (leBytes 4 v ++ rest) = .ok (v % 2 ^ 32, rest) := readUInt_append 4 v rest

@[simp] theorem readU64_append (v : Nat) (rest : List UInt8) :
    readU64 (leBytes 8 v ++ rest) = .ok (v % 2 ^ 64, rest) := readUInt_append 8 v rest

@[simp] theorem readDigest_append (d : Digest) (rest : List UInt8) :
    readDigest (d.bytes ++ rest) = .ok (d, rest) := by
  rw [readDigest, readArray_append d.width]
  rfl

/-! ## The source -/

/-- `seek(SeekFrom::Start(pos))` and `read_exact` of `n` bytes. -/
def seekReadExact (src : List UInt8) (pos n : Nat) : Except IoError (List UInt8) :=
  if (slice src pos n).length = n then .ok (slice src pos n)
  else .error ⟨.unexpectedEof, "failed to fill whole buffer"⟩

theorem seekReadExact_ok {src : List UInt8} {pos n : Nat} (h : pos + n ≤ src.length) :
    seekReadExact src pos n = .ok (slice src pos n) :=
  if_pos (length_slice_of_le h)

/-! ## File header and descriptor -/

def buildHeader (P : Primitives) (uuidHi uuidLo descriptorLen : Nat) : List UInt8 :=
  let fields := magic ++ (leBytes 2 versionMajor ++ (leBytes 2 versionMinor ++
    (leBytes 4 headerFlagRecovery ++ (leBytes 8 uuidHi ++ (leBytes 8 uuidLo ++
    (leBytes 8 headerLen ++ (leBytes 8 descriptorLen ++ leBytes 4 blockSize)))))))
  fields ++ (leBytes 4 (P.crc32c fields).toNat ++ List.replicate 8 0)

def putTlv (tag : Nat) (value : List UInt8) : Res (List UInt8) :=
  if value.length < 2 ^ 32 then .ok (leBytes 2 tag ++ (leBytes 4 value.length ++ value))
  else unsupported "sqz descriptor value exceeds 4 GiB"

def descriptorTlv (opts : SqzCreateOptions) (createdSecs : Nat) : Res (List UInt8) := do
  let inner ← putTlv 0x0001 (utf8Bytes opts.innerFormat.asStr)
  let parity := opts.parityShards
  let percent := opts.recoveryPercent.toNat
  let hint := s!"transparent;recovery=rs-gf8-{dataShards}+{parity};requested-recovery={percent}%"
  let recovery ← putTlv 0x0006 (utf8Bytes hint)
  let created ← putTlv 0x0005 (leBytes 8 createdSecs)
  return inner ++ (recovery ++ created)

/-! ## Footer -/

def buildFooter (P : Primitives) (indexOffset indexLength recoveryOffset recoveryLength uuidHi uuidLo : Nat) :
    List UInt8 :=
  let fields := leBytes 8 indexOffset ++ (leBytes 8 indexLength ++ (leBytes 8 recoveryOffset ++
    (leBytes 8 recoveryLength ++ (leBytes 8 uuidHi ++ leBytes 8 uuidLo))))
  fields ++ (leBytes 4 (P.crc32c fields).toNat ++ (List.replicate 4 0 ++ tailMagic))

structure Footer where
  indexOffset : Nat
  indexLength : Nat
  recoveryOffset : Nat
  recoveryLength : Nat
  uuidHi : Nat
  uuidLo : Nat
deriving DecidableEq, Repr

/-- The fields of a 64-byte footer whose magic and CRC hold. -/
def readFooter (P : Primitives) (src : List UInt8) (len : Nat) : Res Footer := do
  let footer ← ofIo (seekReadExact src (len - footerLen) footerLen)
  if slice footer 56 8 ≠ tailMagic then
    corrupt "missing sqz footer magic"
  else if leNat (slice footer 48 4) ≠ (P.crc32c (slice footer 0 48)).toNat then
    corrupt "sqz footer CRC-32C mismatch"
  else
    return {
      indexOffset := leNat (slice footer 0 8)
      indexLength := leNat (slice footer 8 8)
      recoveryOffset := leNat (slice footer 16 8)
      recoveryLength := leNat (slice footer 24 8)
      uuidHi := leNat (slice footer 32 8)
      uuidLo := leNat (slice footer 40 8) }

/-- The container UUID of a readable file header. -/
def validHeaderUuid (P : Primitives) (src : List UInt8) : Res (Option (Nat × Nat)) := do
  let header ← ofIo (seekReadExact src 0 headerLen)
  if slice header 0 8 ≠ magic then return none
  else if leNat (slice header 52 4) ≠ (P.crc32c (slice header 0 52)).toNat then return none
  else
    let major := leNat (slice header 8 2)
    if major ≠ versionMajor then unsupported s!"unsupported sqz major version: {major}"
    else return some (leNat (slice header 16 8), leNat (slice header 24 8))

/-- `SqzDescriptor::default().inner_format`. -/
def defaultInnerFormat : String := "sqz"

/-- The tag and the value of the next descriptor field. -/
def readField (bytes : List UInt8) : Res (Nat × List UInt8 × List UInt8) := do
  let (tag, bytes) ← readU16 bytes
  let (len, bytes) ← readU32 bytes
  let (value, bytes) ← readExact bytes len
  return (tag, value, bytes)

theorem readField_length {bytes value rest : List UInt8} {tag : Nat}
    (h : readField bytes = .ok (tag, value, rest)) : rest.length < bytes.length := by
  simp only [readField, bind_eq_ok, pure_eq_ok] at h
  obtain ⟨⟨t, r₁⟩, h₁, ⟨l, r₂⟩, h₂, ⟨v, r₃⟩, h₃, h₄⟩ := h
  cases h₄
  have h₁ := readUInt_length h₁
  have h₂ := readUInt_length h₂
  have h₃ := readExact_length h₃
  simp only at h₁ h₂ h₃ ⊢
  omega

/-- `parse_descriptor` from a descriptor read so far, on the bytes left. -/
def parseDescriptorFrom (innerFormat : String) (bytes : List UInt8) : Res String :=
  if bytes = [] then .ok innerFormat
  else
    match _h : readField bytes with
    | .error e => .error e
    | .ok (tag, value, rest) =>
      if tag = 0x0001 then
        match fromUtf8 value with
        | none => corrupt "sqz inner format is not UTF-8"
        | some inner => parseDescriptorFrom (toAsciiLowercase inner) rest
      else parseDescriptorFrom innerFormat rest
termination_by bytes.length
decreasing_by all_goals exact readField_length _h

def parseDescriptor (bytes : List UInt8) : Res String := parseDescriptorFrom defaultInnerFormat bytes

/-- The inner format the descriptor names, the default one where the header is not readable. -/
def readDescriptorIfPresent (P : Primitives) (src : List UInt8) (footer : Footer) : Res String := do
  let header ← ofIo (seekReadExact src 0 headerLen)
  if slice header 0 8 ≠ magic then return defaultInnerFormat
  else if leNat (slice header 52 4) ≠ (P.crc32c (slice header 0 52)).toNat then
    return defaultInnerFormat
  else
    let major := leNat (slice header 8 2)
    if major ≠ versionMajor then unsupported s!"unsupported sqz major version: {major}"
    else if leNat (slice header 16 8) ≠ footer.uuidHi ∨ leNat (slice header 24 8) ≠ footer.uuidLo then
      corrupt "sqz header/footer UUID mismatch"
    else
      let descriptorOffset := leNat (slice header 32 8)
      let descriptorLen := leNat (slice header 40 8)
      if descriptorOffset ≠ headerLen then corrupt "sqz descriptor offset is invalid"
      else if descriptorLen = 0 then return defaultInnerFormat
      else if 2 ^ 64 ≤ descriptorOffset + descriptorLen then corrupt "sqz descriptor overflows"
      else if footer.indexOffset < descriptorOffset + descriptorLen then
        corrupt "sqz descriptor points outside payload"
      else
        let bytes ← ofIo (seekReadExact src descriptorOffset descriptorLen)
        parseDescriptor bytes

end Squallz.Sqz
