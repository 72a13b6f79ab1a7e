/-
Self-extracting archives in a single file: the footer behind the payload, how it is found at the end of a file or in front
of the certificate table of a signed PE executable, and how the file is assembled.
-/
import Squallz.Api.Checked
import Squallz.Bytes.Checksum
import Squallz.Bytes.LittleEndian

namespace Squallz.Sfx

open Squallz.Api Squallz.Bytes

/-- `b"SQZSFX1\0"`. -/
def footerMagic : List UInt8 := [0x53, 0x51, 0x5A, 0x53, 0x46, 0x58, 0x31, 0x00]

def footerLen : Nat := 32

/-! ## Targets -/

inductive SfxTarget
  | windows | linux | macos
deriving DecidableEq, Repr

def SfxTarget.footerId : SfxTarget → UInt8
  | windows => 1
  | linux => 2
  | macos => 3

def SfxTarget.fromFooterId (value : UInt8) : Res SfxTarget :=
  if value = 1 then .ok windows
  else if value = 2 then .ok linux
  else if value = 3 then corrupt "macOS is not a valid SFX v1 single-file target"
  else corrupt s!"unknown SFX target id {value}"

/-! ## Footers -/

structure SfxFooter where
  target : SfxTarget
  payloadOffset : Nat
  payloadBytes : Nat
  payloadCrc32 : Nat
deriving DecidableEq, Repr

namespace SfxFooter

def encode (footer : SfxFooter) : List UInt8 :=
  footerMagic ++ (footer.target.footerId :: 0 :: 0 :: 0 :: (leBytes 8 footer.payloadOffset ++
    (leBytes 8 footer.payloadBytes ++ leBytes 4 footer.payloadCrc32)))

def decode (bytes : List UInt8) (footerEnd : Nat) : Res (Option SfxFooter) :=
  if bytes.take 8 ≠ footerMagic then .ok none
  else if slice bytes 9 3 ≠ [0, 0, 0] then corrupt "unsupported SFX footer flags"
  else do
    let target ← SfxTarget.fromFooterId (bytes.getD 8 0)
    let payloadOffset := leNat (slice bytes 12 8)
    let payloadBytes := leNat (slice bytes 20 8)
    let payloadCrc32 := leNat (slice bytes 28 4)
    match checkedSubU64 footerEnd footerLen with
    | none => corrupt "truncated SFX footer"
    | some footerOffset =>
      match checkedAddU64 payloadOffset payloadBytes with
      | none => corrupt "SFX payload bounds overflow"
      | some payloadEnd =>
        if payloadOffset = 0 ∨ payloadBytes = 0 ∨ payloadEnd ≠ footerOffset then
          corrupt "SFX payload bounds do not match the artifact length"
        else return some ⟨target, payloadOffset, payloadBytes, payloadCrc32⟩

end SfxFooter

/-! ## Finding the footer -/

inductive SfxLayout
  | singleFile | macosApp
deriving DecidableEq, Repr

structure SfxInfo where
  layout : SfxLayout
  target : SfxTarget
  payloadOffset : Nat
  payloadBytes : Nat
  payloadCrc32 : Nat
  payloadSha256 : Option (List UInt8)
  totalBytes : Nat
  stubBytesValue : Nat
deriving DecidableEq, Repr

def readFooterEndingAt (file : List UInt8) (footerEnd : Nat) : Res (Option SfxFooter) :=
  if footerEnd < footerLen then .ok none
  else do
    let position ← subU64 footerEnd footerLen
    let bytes ← readExactAt file position footerLen
    SfxFooter.decode bytes footerEnd

/-- One round of the loop over the lengths of the padding. -/
def readFooterBeforePadding (file : List UInt8) (certificateOffset padding : Nat) : Res (Option SfxFooter) :=
  match checkedSubU64 certificateOffset padding with
  | none => .ok none
  | some footerEnd =>
    if footerEnd < footerLen then .ok none
    else if 0 < padding then do
      let bytes ← readExactAt file footerEnd padding
      if bytes.any (· ≠ 0) then return none else readFooterEndingAt file footerEnd
    else readFooterEndingAt file footerEnd

/-- The loop over the lengths of the padding. -/
def readFooterBeforePaddings (file : List UInt8) (certificateOffset : Nat) : List Nat → Res (Option SfxFooter)
  | [] => .ok none
  | padding :: paddings => do
    match ← readFooterBeforePadding file certificateOffset padding with
    | some footer => return some footer
    | none => readFooterBeforePaddings file certificateOffset paddings

def readFooterBeforeCertificate (file : List UInt8) (certificateOffset certificateBytes fileLen : Nat) :
    Res (Option SfxFooter) :=
  if (checkedAddU64 certificateOffset certificateBytes).all fun tableEnd => tableEnd ≠ fileLen then
    corrupt "PE certificate table does not end at the SFX file boundary"
  else readFooterBeforePaddings file certificateOffset (List.range 8)

/-! ## The certificate table -/

/-- The beginning of `pe_certificate_table`: where the COFF header of a PE file begins. -/
def coffStart (file : List UInt8) (fileLen : Nat) : Res (Option Nat) :=
  if fileLen < 64 then .ok none
  else do
    let dos ← readExactAt file 0 64
    if dos.take 2 ≠ [0x4D, 0x5A] then return none
    else
      let peOffset := leNat (slice dos 0x3C 4)
      match checkedAddU64 peOffset 4 with
      | none => corrupt "PE header offset overflow"
      | some coffStart =>
        if (checkedAddU64 coffStart 20).all fun coffEnd => fileLen < coffEnd then return none
        else
          let signature ← readExactAt file peOffset 4
          if signature ≠ [0x50, 0x45, 0x00, 0x00] then return none else return some coffStart

structure OptionalHeader where
  optionalStart : Nat
  optionalSize : Nat
  dataDirectoryOffset : Nat
  directoryCountOffset : Nat

/-- The middle of it: the optional header of the file. -/
def optionalHeader (file : List UInt8) (fileLen coffStart : Nat) : Res (Option OptionalHeader) := do
  let sizeOffset ← addU64 coffStart 16
  let optionalSize := leNat (← readExactAt file sizeOffset 2)
  let optionalStart ← addU64 coffStart 20
  if optionalSize < 2 ∨ (checkedAddU64 optionalStart optionalSize).all (fun optionalEnd => fileLen < optionalEnd) then
    return none
  else
    let magic := leNat (← readExactAt file optionalStart 2)
    if magic = 0x10B then return some ⟨optionalStart, optionalSize, 96, 92⟩
    else if magic = 0x20B then return some ⟨optionalStart, optionalSize, 112, 108⟩
    else return none

/-- The end of it: the entry of the certificate table. -/
def certificateTable (file : List UInt8) (fileLen : Nat) (header : OptionalHeader) : Res (Option (Nat × Nat)) :=
  if header.optionalSize < header.directoryCountOffset + 4 then .ok none
  else do
    let countOffset ← addU64 header.optionalStart header.directoryCountOffset
    let count := leNat (← readExactAt file countOffset 4)
    if count ≤ 4 then return none
    else
      match (checkedAddU64 header.optionalStart header.dataDirectoryOffset).bind (checkedAddU64 · 32) with
      | none => corrupt "PE data directory offset overflow"
      | some certificateEntry =>
        match checkedAddU64 certificateEntry 8 with
        | none => return none
        | some entryEnd =>
          let optionalEnd ← addU64 header.optionalStart header.optionalSize
          if optionalEnd < entryEnd then return none
          else
            let entry ← readExactAt file certificateEntry 8
            let offset := leNat (slice entry 0 4)
            let size := leNat (slice entry 4 4)
            if offset = 0 ∧ size = 0 then return none
            else if offset = 0 ∨ ¬ 8 ∣ offset ∨ size < 8 ∨
                (checkedAddU64 offset size).all (fun tableEnd => fileLen < tableEnd) then return none
            else return some (offset, size)

def peCertificateTable (file : List UInt8) (fileLen : Nat) : Res (Option (Nat × Nat)) := do
  match ← coffStart file fileLen with
  | none => return none
  | some coffStart =>
    match ← optionalHeader file fileLen coffStart with
    | none => return none
    | some header => certificateTable file fileLen header

/-! ## Inspection and assembly -/

def sfxInfo (footer : SfxFooter) (fileLen : Nat) : SfxInfo where
  layout := .singleFile
  target := footer.target
  payloadOffset := footer.payloadOffset
  payloadBytes := footer.payloadBytes
  payloadCrc32 := footer.payloadCrc32
  payloadSha256 := none
  totalBytes := fileLen
  stubBytesValue := footer.payloadOffset

def inspectSingleFileSfx (file : List UInt8) (fileLen : Nat) : Res (Option SfxInfo) :=
  if fileLen < footerLen then .ok none
  else do
    match ← readFooterEndingAt file fileLen with
    | some footer => return some (sfxInfo footer fileLen)
    | none =>
      match ← peCertificateTable file fileLen with
      | none => return none
      | some (certificateOffset, certificateBytes) =>
        match ← readFooterBeforeCertificate file certificateOffset certificateBytes fileLen with
        | none => return none
        | some footer =>
          if footer.target ≠ .windows then corrupt "only a Windows SFX may precede a PE certificate table"
          else return some (sfxInfo footer fileLen)

/-- The footer of a file that is assembled of a stub and a payload. -/
def assembledFooter (target : SfxTarget) (stub payload : List UInt8) : SfxFooter :=
  ⟨target, stub.length, payload.length, (crc32 payload).toNat⟩

/-- What `stage_single_file_sfx` writes. A macOS SFX is a bundle. -/
def stageSingleFileSfx (target : SfxTarget) (stub payload : List UInt8) : Res (List UInt8) :=
  match (checkedAddU64 stub.length payload.length).bind (checkedAddU64 · footerLen) with
  | none => raise (.resourceLimitExceeded "SFX size overflow")
  | some _ => .ok (stub ++ (payload ++ (assembledFooter target stub payload).encode))

end Squallz.Sfx
