/-
Loading recovery data: the protection trailer, the repair of the primary section, the state read
from it, the repair of the payload blocks, and the backward scan for a lost footer.
-/
import Squallz.Sqz.Index
import Squallz.Sqz.RecoverySection

namespace Squallz.Sqz

open Squallz.Api Squallz.Bytes Squallz.Erasure

/-! ## Protection trailer -/

structure RecoveryProtectionTrailer where
  blockSize : Nat
  dataShards : Nat
  parityShards : Nat
  primaryLength : Nat
  blockCount : Nat
  protectionLength : Nat
  primaryHash : Digest
  blockSize_pos : 0 < blockSize
deriving DecidableEq

/-- `&trailer[..4] == RECOVERY_PROTECTION_MAGIC` with a CRC that does not hold. -/
def trailerCrcMismatch (P : Primitives) (trailer : List UInt8) : Bool :=
  slice trailer 0 4 == recoveryProtectionMagic &&
    (P.crc32c (slice trailer 0 76)).toNat != leNat (slice trailer 76 4)

theorem pos_of_blockSize {blockSize : Nat} (h : ¬ (blockSize = 0 ∨ 16 * 1024 * 1024 < blockSize)) : 0 < blockSize := by
  omega

def parseRecoveryProtectionTrailer (P : Primitives) (sect : List UInt8) :
    Res (Option RecoveryProtectionTrailer) :=
  if sect.length < recoveryProtectionTrailerLen then .ok none
  else
    let trailer := sect.drop (sect.length - recoveryProtectionTrailerLen)
    if slice trailer 0 4 ≠ recoveryProtectionMagic then .ok none
    else if leNat (slice trailer 76 4) ≠ (P.crc32c (slice trailer 0 76)).toNat then
      corrupt "sqz recovery protection trailer CRC-32C mismatch"
    else do
      let (_magic, buf) ← readExact trailer 4
      let (version, buf) ← readU16 buf
      if version ≠ recoveryProtectionVersion then
        unsupported s!"unsupported sqz recovery protection version: {version}"
      else
        let (algo, buf) ← readU16 buf
        if algo ≠ recoveryAlgoRsGf8 then
          unsupported s!"unsupported sqz recovery protection algorithm: {algo}"
        else
          let (blockSize, buf) ← readU32 buf
          let (dataShards, buf) ← readU16 buf
          let (parityShards, buf) ← readU16 buf
          let (_reserved, buf) ← readU32 buf
          let (primaryLength, buf) ← readU64 buf
          let (blockCount, buf) ← readU64 buf
          let (protectionLength, buf) ← readU64 buf
          let (primaryHash, buf) ← readDigest buf
          let (_crc, _) ← readU32 buf
          if h : blockSize = 0 ∨ 16 * 1024 * 1024 < blockSize then
            corrupt "invalid sqz recovery protection block size"
          else if dataShards = 0 ∨ parityShards = 0 ∨ 255 < dataShards + parityShards then
            corrupt "invalid sqz recovery protection shard counts"
          else if blockCount ≠ (if primaryLength = 0 then 0 else divCeil primaryLength blockSize) then
            corrupt "sqz recovery protection block count does not match primary length"
          else
            return some {
              blockSize := blockSize
              dataShards := dataShards
              parityShards := parityShards
              primaryLength := primaryLength
              blockCount := blockCount
              protectionLength := protectionLength
              primaryHash := primaryHash
              blockSize_pos := pos_of_blockSize h }

/-- The length of the hashes and of the whole protection. -/
def protectionLayout (blocks dataShards parityShards blockSize : Nat) : Res (Nat × Nat) := do
  let hashLen ← checkedMul blocks 32
  let shardCount ← checkedMul (divCeil blocks dataShards) parityShards
  let parityLen ← checkedMul shardCount blockSize
  let length ← checkedAdd hashLen parityLen "sqz recovery protection length overflows"
  return (hashLen, length)

/-! ## Protection without a trailer -/

/-- Runs `f` on the positions in turn and stops at the first that yields nothing. -/
def tryAll {β : Type} (f : Nat → Res (Option β)) : List Nat → Res (Option (List β))
  | [] => .ok (some [])
  | i :: is => do
    match ← f i with
    | none => return none
    | some b =>
      match ← tryAll f is with
      | none => return none
      | some bs => return some (b :: bs)

/-- One position of a group in `protection_matches_primary`: the shard, and the hash of its block
where there is one. -/
def matchBlock (P : Primitives) (src : List UInt8) (s : RecoverySection)
    (primaryLen blockCount index : Nat) : Res (Option (List UInt8 × List Digest)) :=
  if index < blockCount then do
    let start := index * blockSize
    let block ← s.readExact P src start (min (primaryLen - start) blockSize)
    let expectedHash ← s.readExact P src (primaryLen + index * 32) 32
    if (P.blake3 block).bytes ≠ expectedHash then return none
    else return some (padTo 0 blockSize block, [P.blake3 block])
  else return some (List.replicate blockSize 0, [])

/-- One group of `protection_matches_primary`: the hashes of its blocks if blocks and parity match. -/
def matchGroup (P : Primitives) (src : List UInt8) (s : RecoverySection)
    (primaryLen blockCount hashLen group : Nat) : Res (Option (List Digest)) := do
  let blocks ← tryAll (fun slot => matchBlock P src s primaryLen blockCount
    (group * recoveryDataShards + slot)) (List.range recoveryDataShards)
  match blocks with
  | none => return none
  | some blocks =>
    let shards := blocks.map (·.1) ++ List.replicate recoveryParityShards (List.replicate blockSize 0)
    let parity := (P.encode recoveryDataShards recoveryParityShards shards).drop recoveryDataShards
    let parityStart := primaryLen + hashLen + group * recoveryParityShards * blockSize
    let matched ← tryAll (fun index => do
      let expected ← s.readExact P src (parityStart + index * blockSize) blockSize
      if parity[index]? ≠ some expected then return none else return some ())
      (List.range recoveryParityShards)
    return matched.map fun _ => blocks.flatMap (·.2)

/-- Whether the protection is the one that belongs to the primary section; if so the section is
verified. -/
def protectionMatchesPrimary (P : Primitives) (src : List UInt8) (s : RecoverySection)
    (primaryLen protectionLen : Nat) : Res (Option RecoverySection) := do
  let blockCount := divCeil primaryLen blockSize
  let (hashLen, expectedLen) ←
    protectionLayout blockCount recoveryDataShards recoveryParityShards blockSize
  if protectionLen ≠ expectedLen then return none
  else
    match reedSolomonNew recoveryDataShards recoveryParityShards with
    | .error reason => raise (.other s!"sqz recovery protection init failed: {reason}")
    | .ok () =>
      let hashes ← tryAll (matchGroup P src s primaryLen blockCount hashLen)
        (List.range (divCeil blockCount recoveryDataShards))
      return hashes.map fun hashes =>
        { s with verifiedLength := primaryLen, verifiedHashes := hashes.flatten }

/-! ## Repair of the primary section -/

/-- One position of a group in `repair_protected_recovery`: its shard unless it is damaged, and the
stored hash. -/
def protectedCell (P : Primitives) (src : List UInt8) (s : RecoverySection)
    (t : RecoveryProtectionTrailer) (index : Nat) : Res (Option (List UInt8) × List UInt8) :=
  if t.blockCount ≤ index then .ok (some (List.replicate t.blockSize 0), List.replicate 32 0)
  else do
    let start := index * t.blockSize
    let block ← s.readExact P src start (min (t.primaryLength - start) t.blockSize)
    let hash ← s.readExact P src (t.primaryLength + index * 32) 32
    return (if (P.blake3 block).bytes = hash then some (padTo 0 t.blockSize block) else none, hash)

/-- Takes over one rebuilt block of the primary section. -/
def patchBlock (P : Primitives) (t : RecoveryProtectionTrailer) (startBlock : Nat)
    (shards : List (Option (List UInt8))) (hashes : List (List UInt8)) (s : RecoverySection)
    (slot : Nat) : Res RecoverySection :=
  match shards[slot]?.join with
  | none => corrupt "sqz recovery protection did not reconstruct a missing block"
  | some block =>
    let index := startBlock + slot
    let count := min (t.primaryLength - index * t.blockSize) t.blockSize
    if hashes[slot]? ≠ some (P.blake3 (block.take count)).bytes then
      corrupt "sqz recovery protection reconstructed block hash mismatch"
    else .ok { s with patches := (index, block.take count) :: s.patches }

/-- One group of `repair_protected_recovery`. -/
def repairProtectedGroup (P : Primitives) (src : List UInt8) (t : RecoveryProtectionTrailer)
    (hashLen : Nat) (s : RecoverySection) (group : Nat) : Res RecoverySection := do
  let startBlock := group * t.dataShards
  let cells ← (List.range t.dataShards).mapM fun slot => protectedCell P src s t (startBlock + slot)
  let missing := (List.range t.dataShards).filter fun slot => (cells[slot]?.map (·.1)).join.isNone
  if missing = [] then return s
  else
    let parityStart := t.primaryLength + hashLen + group * t.parityShards * t.blockSize
    let parity ← (List.range t.parityShards).mapM fun index =>
      s.readExact P src (parityStart + index * t.blockSize) t.blockSize
    match reedSolomonNew t.dataShards t.parityShards with
    | .error reason => raise (.other s!"sqz recovery protection decoder init failed: {reason}")
    | .ok () =>
      match P.reedSolomon.reconstructData t.dataShards t.parityShards
          (cells.map (·.1) ++ parity.map some) with
      | none => corrupt "sqz recovery section damage exceeds protection capacity"
      | some shards =>
        missing.foldlM (patchBlock P t startBlock shards (cells.map (·.2))) s

def repairProtectedRecovery (P : Primitives) (src : List UInt8) (s : RecoverySection)
    (t : RecoveryProtectionTrailer) : Res RecoverySection := do
  let (hashLen, expectedLen) ←
    protectionLayout t.blockCount t.dataShards t.parityShards t.blockSize
  if t.protectionLength ≠ expectedLen then
    corrupt "sqz recovery protection payload length mismatch"
  else
    (List.range (divCeil t.blockCount t.dataShards)).foldlM (repairProtectedGroup P src t hashLen) s

/-! ## Primary section -/

structure RecoveryState where
  payloadStart : Nat
  payloadLength : Nat
  blockSize : Nat
  dataShards : Nat
  parityShards : Nat
  blockHashes : List Digest
  parityOffset : Nat
  recoverySection : RecoverySection
  indexHash : Digest
  indexMirror : List UInt8
  repairedBlocks : List (Nat × List UInt8)
  unrepairedBlocks : List Nat

def validateShards (blockSize dataShards parityShards : Nat) : Res Unit :=
  if blockSize = 0 ∨ 16 * 1024 * 1024 < blockSize then corrupt "invalid sqz recovery block size"
  else if dataShards = 0 ∨ parityShards = 0 ∨ 255 < dataShards + parityShards then
    corrupt "invalid sqz recovery shard counts"
  else .ok ()

/-- `as_chunks::<32>`: the whole hashes in a byte list. -/
def digestsOf (bytes : List UInt8) : List Digest :=
  if h : 32 ≤ bytes.length then
    ⟨bytes.take 32, by rw [List.length_take]; omega⟩ :: digestsOf (bytes.drop 32)
  else []
termination_by bytes.length
decreasing_by simp only [List.length_drop]; omega

def fallbackError : Fault → Fault
  | .raised (.corruptArchive _) | .raised (.unsupported _) => .raised (.corruptArchive
      "sqz recovery protection trailer is damaged and primary fallback failed")
  | other => other

def damagedTrailerError {α : Type} : Res α :=
  corrupt "sqz recovery protection trailer is damaged and primary fallback failed"

namespace RecoveryState

/-- The state that the primary section describes and the length it takes. -/
def readPrimary (P : Primitives) (src : List UInt8) (s : RecoverySection) (limit : Nat) :
    Res (RecoveryState × Nat) := do
  let header ← s.readExact P src 0 recoveryHeaderLen
  let (magic, buf) ← readExact header 4
  if magic ≠ recoveryMagic then corrupt "missing sqz recovery magic"
  else
    let (version, buf) ← readU16 buf
    if version ≠ recoveryVersion then unsupported s!"unsupported sqz recovery version: {version}"
    else
      let (algo, buf) ← readU16 buf
      if algo ≠ recoveryAlgoRsGf8 then unsupported s!"unsupported sqz recovery algorithm: {algo}"
      else
        let (blockSize, buf) ← readU32 buf
        let (dataShards, buf) ← readU16 buf
        let (parityShards, buf) ← readU16 buf
        let (_reserved, buf) ← readU32 buf
        let (payloadStart, buf) ← readU64 buf
        let (payloadLength, buf) ← readU64 buf
        let (blockCount, buf) ← readU64 buf
        let (indexLength, buf) ← readU64 buf
        let (indexHash, _) ← readDigest buf
        validateShards blockSize dataShards parityShards
        if blockCount ≠ divCeil payloadLength blockSize then
          corrupt "sqz recovery block count does not match payload length"
        else
          let payloadEnd ← checkedAdd payloadStart payloadLength "sqz recovery payload length overflows"
          if s.start < payloadEnd then corrupt "sqz recovery payload overlaps recovery section"
          else
            let hashLen ← checkedMul blockCount 32
            let parityOffset ← checkedAdd recoveryHeaderLen hashLen "sqz recovery hash range overflows"
            let groupCount := divCeil blockCount dataShards
            let shardCount ← checkedMul groupCount parityShards
            let parityLen ← checkedMul shardCount blockSize
            let indexOffset ← checkedAdd parityOffset parityLen "sqz recovery parity range overflows"
            let consumed ← checkedAdd indexOffset indexLength "truncated sqz recovery section"
            if limit < consumed ∨ s.len < consumed then corrupt "truncated sqz recovery section"
            else
              let hashBytes := parityOffset - recoveryHeaderLen
              let chunks ← (List.range (divCeil hashBytes verifyChunk)).mapM fun i =>
                s.readExact P src (recoveryHeaderLen + i * verifyChunk)
                  (min (hashBytes - i * verifyChunk) verifyChunk)
              let indexMirror ← s.readExact P src indexOffset indexLength
              if P.blake3 indexMirror ≠ indexHash then
                corrupt "sqz recovery index mirror hash mismatch"
              else
                return ({
                  payloadStart := payloadStart
                  payloadLength := payloadLength
                  blockSize := blockSize
                  dataShards := dataShards
                  parityShards := parityShards
                  blockHashes := chunks.flatMap digestsOf
                  parityOffset := parityOffset
                  recoverySection := s
                  indexHash := indexHash
                  indexMirror := indexMirror
                  repairedBlocks := []
                  unrepairedBlocks := [] }, consumed)

def readWithDamagedTrailer (P : Primitives) (src : List UInt8) (s : RecoverySection) :
    Res RecoveryState := do
  let trailerStart := s.len - recoveryProtectionTrailerLen
  let (state, primaryLen) ← (readPrimary P src s trailerStart).mapError fallbackError
  match ← protectionMatchesPrimary P src state.recoverySection primaryLen (trailerStart - primaryLen) with
  | none => damagedTrailerError
  | some s =>
    let (state, consumed) ← (readPrimary P src s primaryLen).mapError fallbackError
    if consumed ≠ primaryLen then damagedTrailerError else return state

/-- The primary section checked against the hash of its trailer, repaired where it does not hold. -/
def restorePrimary (P : Primitives) (src : List UInt8) (s : RecoverySection)
    (t : RecoveryProtectionTrailer) : Res RecoverySection := do
  let (valid, s) ← s.verifyPrimary P src t.primaryLength t.primaryHash.bytes
  if valid then return s
  else
    let s ← repairProtectedRecovery P src s t
    let (valid, s) ← s.verifyPrimary P src t.primaryLength t.primaryHash.bytes
    if valid then return s
    else corrupt "sqz recovery section protection could not restore primary hash"

/-- `read_protected` behind a readable trailer. -/
def readWithTrailer (P : Primitives) (src : List UInt8) (s : RecoverySection)
    (t : RecoveryProtectionTrailer) : Res RecoveryState := do
  let s ← restorePrimary P src { s with patchSize := t.blockSize, patchSize_pos := t.blockSize_pos } t
  let (state, consumed) ← readPrimary P src s t.primaryLength
  if consumed ≠ t.primaryLength then corrupt "trailing bytes in sqz recovery section" else return state

def readProtected (P : Primitives) (src : List UInt8) (s : RecoverySection) : Res RecoveryState :=
  if s.len < recoveryProtectionTrailerLen then
    corrupt "sqz recovery section is missing its protection trailer"
  else do
    let trailerStart := s.len - recoveryProtectionTrailerLen
    let trailerBytes ← s.readExact P src trailerStart recoveryProtectionTrailerLen
    match parseRecoveryProtectionTrailer P trailerBytes with
    | .ok (some t) =>
      if t.primaryLength + t.protectionLength ≠ trailerStart then
        corrupt "sqz recovery protection length mismatch"
      else readWithTrailer P src s t
    | .ok none => corrupt "sqz recovery section is missing its protection trailer"
    | .error error =>
      if trailerCrcMismatch P trailerBytes then readWithDamagedTrailer P src s else .error error

/-! ## Payload repair -/

def blockActualLen (state : RecoveryState) (blockIndex : Nat) : Nat :=
  min (state.payloadLength - blockIndex * state.blockSize) state.blockSize

/-- A payload block, zeros past the end of the source. -/
def readPayloadBlock (src : List UInt8) (state : RecoveryState) (blockIndex : Nat) : List UInt8 :=
  padTo 0 state.blockSize
    (slice src (state.payloadStart + blockIndex * state.blockSize) (state.blockActualLen blockIndex))

/-- The shard of a payload block unless its hash does not hold. -/
def payloadCell (P : Primitives) (src : List UInt8) (state : RecoveryState) (blockIndex : Nat) :
    Option (List UInt8) :=
  let block := readPayloadBlock src state blockIndex
  if state.blockHashes[blockIndex]? = some (P.blake3 (block.take (state.blockActualLen blockIndex))) then
    some block
  else none

/-- Files one rebuilt payload block as repaired or unrepaired. -/
def fileBlock (P : Primitives) (startBlock : Nat) (shards : List (Option (List UInt8)))
    (state : RecoveryState) (slot : Nat) : RecoveryState :=
  let blockIndex := startBlock + slot
  match shards[slot]?.join with
  | none => { state with unrepairedBlocks := blockIndex :: state.unrepairedBlocks }
  | some block =>
    let block := block.take (state.blockActualLen blockIndex)
    if state.blockHashes[blockIndex]? = some (P.blake3 block) then
      { state with repairedBlocks := (blockIndex, block) :: state.repairedBlocks }
    else { state with unrepairedBlocks := blockIndex :: state.unrepairedBlocks }

def repairGroup (P : Primitives) (src : List UInt8) (state : RecoveryState) (groupIndex : Nat) :
    Res RecoveryState := do
  let startBlock := groupIndex * state.dataShards
  let dataCount := min (state.blockHashes.length - startBlock) state.dataShards
  let cells := (List.range dataCount).map fun slot => payloadCell P src state (startBlock + slot)
  let missing := (List.range dataCount).filter fun slot => cells[slot]?.join.isNone
  if missing = [] then return state
  else
    let parityStart := state.parityOffset + groupIndex * state.parityShards * state.blockSize
    let parity ← (List.range state.parityShards).mapM fun parity =>
      state.recoverySection.readExact P src (parityStart + parity * state.blockSize) state.blockSize
    match reedSolomonNew dataCount state.parityShards with
    | .error reason => raise (.other s!"sqz recovery decoder init failed: {reason}")
    | .ok () =>
      match P.reedSolomon.reconstructData dataCount state.parityShards (cells ++ parity.map some) with
      | none =>
        let unrepaired := missing.map (startBlock + ·)
        return { state with unrepairedBlocks := unrepaired ++ state.unrepairedBlocks }
      | some shards => return missing.foldl (fileBlock P startBlock shards) state

def repair (P : Primitives) (src : List UInt8) (state : RecoveryState) : Res RecoveryState :=
  (List.range (divCeil state.blockHashes.length state.dataShards)).foldlM (repairGroup P src) state

def indexBytes (P : Primitives) (state : RecoveryState) (primary : List UInt8) : Res (List UInt8) :=
  if P.blake3 primary = state.indexHash then .ok primary
  else if state.indexMirror = [] then
    corrupt "sqz footer index hash mismatch and no recovery mirror is available"
  else .ok state.indexMirror

def load (P : Primitives) (src : List UInt8) (footer : Footer) : Res (Option RecoveryState) :=
  if footer.recoveryLength = 0 then .ok none
  else do
    let s ← RecoverySection.new footer.recoveryOffset footer.recoveryLength
    if footer.indexOffset < s.start + s.len then
      corrupt "sqz recovery section overlaps footer index"
    else
      let state ← readProtected P src s
      let state ← state.repair P src
      return some state

end RecoveryState

/-! ## Footer scan -/

def footerRecoveryScanWindow : Nat := 64 * 1024 * 1024

/-- The candidate at `trailerAbs`: the footer and the recovery state it leads to, if it holds. -/
def scanCandidate (P : Primitives) (src : List UInt8) (len uuidHi uuidLo trailerAbs : Nat)
    (trailerBytes : List UInt8) : Res (Option (Footer × RecoveryState)) :=
  match parseRecoveryProtectionTrailer P trailerBytes with
  | .error _ => .ok none
  | .ok none => .ok none
  | .ok (some t) =>
    let contentLen := t.primaryLength + t.protectionLength
    let sectionLen := contentLen + recoveryProtectionTrailerLen
    if 2 ^ 64 ≤ contentLen ∨ 2 ^ 64 ≤ sectionLen ∨ trailerAbs < contentLen then .ok none
    else
      let recoveryOffset := trailerAbs - contentLen
      let recoveryEnd := trailerAbs + recoveryProtectionTrailerLen
      if recoveryOffset < headerLen ∨ len - footerLen < recoveryEnd then .ok none
      else do
        let s ← RecoverySection.new recoveryOffset sectionLen
        match RecoveryState.readProtected P src s with
        | .error error => if error.isDamage then return none else .error error
        | .ok recovery =>
          let indexLength := recovery.indexMirror.length
          if indexLength = 0 ∨ 2 ^ 64 ≤ recoveryEnd + indexLength ∨
              len - footerLen < recoveryEnd + indexLength then return none
          else
            return some ({
              indexOffset := recoveryEnd
              indexLength := indexLength
              recoveryOffset := recoveryOffset
              recoveryLength := sectionLen
              uuidHi := uuidHi
              uuidLo := uuidLo }, recovery)

/-- The positions below `n` of a window that starts at `start`, from the last one down. -/
def scanPositions (P : Primitives) (src : List UInt8) (len uuidHi uuidLo start scanEnd : Nat)
    (window : List UInt8) : Nat → Res (Option (Footer × RecoveryState))
  | 0 => .ok none
  | pos + 1 => do
    let found ← (if scanEnd ≤ start + pos ∨ slice window pos 4 ≠ recoveryProtectionMagic then pure none
      else scanCandidate P src len uuidHi uuidLo (start + pos)
        (slice window pos recoveryProtectionTrailerLen))
    match found with
    | some found => return some found
    | none => scanPositions P src len uuidHi uuidLo start scanEnd window pos

/-- The start of the window that ends at `scanEnd`. -/
def windowStart (scanStart scanEnd : Nat) : Nat := max (scanEnd - verifyChunk) scanStart

theorem windowStart_lt {scanStart scanEnd : Nat} (h : scanStart < scanEnd) :
    windowStart scanStart scanEnd < scanEnd := by
  have := verifyChunk_pos
  unfold windowStart
  omega

/-- The windows from `scanEnd` down to `scanStart`. -/
def scanWindows (P : Primitives) (src : List UInt8) (len uuidHi uuidLo scanStart scanEnd : Nat) :
    Res (Option (Footer × RecoveryState)) :=
  if _h : scanStart < scanEnd then do
    let start := windowStart scanStart scanEnd
    let readEnd := min (scanEnd + (recoveryProtectionTrailerLen - 1)) len
    let count := readEnd - start
    let window ← ofIo (seekReadExact src start count)
    let found ← scanPositions P src len uuidHi uuidLo start scanEnd window
      (count - (recoveryProtectionTrailerLen - 1))
    match found with
    | some found => return some found
    | none => scanWindows P src len uuidHi uuidLo scanStart start
  else .ok none
termination_by scanEnd
decreasing_by exact windowStart_lt _h

def recoverFooterFromRecoveryScan (P : Primitives) (src : List UInt8) (len : Nat) :
    Res (Option (Footer × RecoveryState)) := do
  match ← validHeaderUuid P src with
  | none => return none
  | some (uuidHi, uuidLo) =>
    scanWindows P src len uuidHi uuidLo (len - footerRecoveryScanWindow) len

end Squallz.Sqz
