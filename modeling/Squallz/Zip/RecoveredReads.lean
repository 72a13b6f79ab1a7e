/-
Reading an entry of a recovered ZIP: its part of the shared source, decoded, with the size and the CRC checked at the end;
a read into an empty buffer is taken for the end.
-/
import Squallz.Bytes.Checksum
import Squallz.Bytes.Forward
import Squallz.Zip.LocalHeaders

namespace Squallz.Zip

open Squallz.Api Squallz.Bytes

/-! ## The source -/

/-- The bytes of the archive and the position of its shared source. -/
structure SharedSource where
  file : List UInt8
  position : Nat
deriving DecidableEq

/-- A read returns as many bytes as the system likes, and at least one if there are any and the buffer has room. -/
def SharedSource.read (source : SharedSource) (bufLen choice : Nat) : List UInt8 × SharedSource :=
  let n := min (min bufLen (source.file.length - source.position)) (max choice 1)
  (slice source.file source.position n, { source with position := source.position + n })

structure BoundedSharedReader where
  source : SharedSource
  offset : Nat
  remaining : Nat
  positioned : Bool
deriving DecidableEq

/-- `BoundedSharedReader::read`, with the lock granted. -/
def BoundedSharedReader.read (reader : BoundedSharedReader) (bufLen : Nat) (choice : List Nat) :
    Res (List UInt8 × BoundedSharedReader) :=
  if reader.remaining = 0 then .ok ([], reader)
  else
    let source := if reader.positioned then reader.source else { reader.source with position := reader.offset }
    let cap := min bufLen reader.remaining
    let (bytes, source) := source.read cap (choice.headD 1)
    .ok (bytes, { reader with source := source, positioned := true, remaining := reader.remaining - bytes.length })

/-! ## The check -/

/-- The state of `crc32fast::Hasher`. -/
abbrev Hasher := UInt32

def Hasher.new : Hasher := 0xFFFFFFFF

def Hasher.update (hasher : Hasher) (bytes : List UInt8) : Hasher := bytes.foldl crc32Byte hasher

def Hasher.finalize (hasher : Hasher) : UInt32 := ~~~ hasher

/-- `{:#010x}`. -/
def hex32 (n : UInt32) : String :=
  "0x" ++ String.ofList ((List.range 8).map fun i => Nat.digitChar (n.toNat / 16 ^ (7 - i) % 16))

structure CrcCheckingReader (σ : Type) where
  inner : σ
  hasher : Option Hasher
  expectedCrc : UInt32
  expectedSize : Nat
  actualSize : Nat
  verified : Bool

section Check

variable {σ κ : Type} (readInner : σ → Nat → κ → Res (List UInt8 × σ))

def CrcCheckingReader.new (inner : σ) (expectedCrc : UInt32) (expectedSize : Nat) : CrcCheckingReader σ :=
  ⟨inner, some .new, expectedCrc, expectedSize, 0, false⟩

def sizeMismatch (expectedSize actualSize : Nat) : Fault :=
  .raised (.io ⟨.invalidData,
    s!"ZIP local-header recovery size mismatch: expected {expectedSize} bytes, read {actualSize} bytes"⟩)

def crcMismatch (expectedCrc actualCrc : UInt32) : Fault :=
  .raised (.io ⟨.invalidData,
    s!"ZIP local-header recovery CRC mismatch: expected {hex32 expectedCrc}, got {hex32 actualCrc}"⟩)

/-- `CrcCheckingReader::read`. -/
def CrcCheckingReader.read (reader : CrcCheckingReader σ) (bufLen : Nat) (choice : κ) :
    Res (List UInt8 × CrcCheckingReader σ) := do
  let (bytes, inner) ← readInner reader.inner bufLen choice
  if 0 < bytes.length then
    pure (bytes, { reader with
      inner := inner
      hasher := reader.hasher.map (·.update bytes)
      actualSize := reader.actualSize + bytes.length })
  else if reader.verified then pure ([], { reader with inner := inner })
  else
    let actualCrc := (reader.hasher.map Hasher.finalize).getD 0
    if reader.actualSize ≠ reader.expectedSize then .error (sizeMismatch reader.expectedSize reader.actualSize)
    else if actualCrc ≠ reader.expectedCrc then .error (crcMismatch reader.expectedCrc actualCrc)
    else pure ([], { reader with inner := inner, hasher := none, verified := true })

end Check

/-! ## Entries -/

/-- The decoder of deflated data. -/
structure Inflate where
  State : Type
  new : BoundedSharedReader → State
  read : State → Nat → List Nat → Res (List UInt8 × State)

inductive EntryReader (inflate : Inflate)
  | stored (reader : CrcCheckingReader BoundedSharedReader)
  | deflated (reader : CrcCheckingReader inflate.State)

def EntryReader.read {inflate : Inflate} : EntryReader inflate → Nat → List Nat → Res (List UInt8 × EntryReader inflate)
  | stored reader, bufLen, choice =>
    (fun result => (result.1, stored result.2)) <$> reader.read BoundedSharedReader.read bufLen choice
  | deflated reader, bufLen, choice =>
    (fun result => (result.1, deflated result.2)) <$> reader.read inflate.read bufLen choice

/-- `read_entry_at`. -/
def readEntryAt (inflate : Inflate) (source : SharedSource) (entries : List LocalZipEntry) (idx : Nat) :
    Res (EntryReader inflate) :=
  match entries[idx]? with
  | none => corrupt "ZIP entry index is out of range"
  | some entry =>
    if entry.flags.testBit 0 then raise .passwordRequired
    else
      match entry.metadata.compressedSize with
      | none =>
        corrupt s!"ZIP local-header recovery entry is missing compressed size: {entry.metadata.path.display}"
      | some compressedSize =>
        match entry.metadata.crc32 with
        | none => corrupt s!"ZIP local-header recovery entry is missing CRC: {entry.metadata.path.display}"
        | some expectedCrc =>
          let reader : BoundedSharedReader := ⟨source, entry.dataOffset, compressedSize.toNat, false⟩
          let expectedSize := entry.metadata.size.toNat
          match entry.method with
          | 0 => .ok (.stored (.new reader expectedCrc expectedSize))
          | 8 => .ok (.deflated (.new (inflate.new reader) expectedCrc expectedSize))
          | method => unsupported s!"ZIP local-header recovery does not support compression method {method}"

/-! ## The part of the source -/

/-- Where the next read is made. -/
def BoundedSharedReader.place (reader : BoundedSharedReader) : Nat :=
  if reader.positioned then reader.source.position else reader.offset

/-- The bytes that are left. -/
def BoundedSharedReader.rest (reader : BoundedSharedReader) : List UInt8 :=
  slice reader.source.file reader.place reader.remaining

theorem BoundedSharedReader.forward :
    Forward BoundedSharedReader.read True fun reader rest => rest = reader.rest := by
  refine ⟨fun reader rest bufLen choice bytes reader' hrest hread => ?_, fun reader rest bufLen choice e _ hread => ?_⟩
  · unfold BoundedSharedReader.read at hread
    split at hread
    · rename_i hzero
      cases hread
      have hnil : rest = [] := by rw [hrest, BoundedSharedReader.rest, hzero, slice_zero]
      exact ⟨rest, rfl, Nat.zero_le _, fun _ => .inr hnil, hrest⟩
    · rename_i hremaining
      cases hread
      have hsource : (if reader.positioned = true then reader.source
          else { reader.source with position := reader.offset }) = ⟨reader.source.file, reader.place⟩ := by
        unfold BoundedSharedReader.place
        cases reader.positioned <;> rfl
      simp only [hsource]
      obtain ⟨n, hn⟩ : ∃ n, min (min (min bufLen reader.remaining) (reader.source.file.length - reader.place))
          (max (choice.headD 1) 1) = n := ⟨_, rfl⟩
      have hlength : (slice reader.source.file reader.place n).length = n := by
        rw [length_slice]
        omega
      have hsplit : reader.remaining = n + (reader.remaining - n) := by omega
      rw [hn, hlength]
      refine ⟨slice reader.source.file (reader.place + n) (reader.remaining - n), ?_, by omega, fun hempty => ?_, ?_⟩
      · rw [hrest, BoundedSharedReader.rest, ← slice_add, ← hsplit]
      · rw [hempty, List.length_nil] at hlength
        rcases Nat.eq_zero_or_pos bufLen with hbuf | hbuf
        · exact .inl hbuf
        · right
          rw [hrest, ← List.length_eq_zero_iff, BoundedSharedReader.rest, length_slice]
          omega
      · rfl
  · unfold BoundedSharedReader.read at hread
    split at hread
    · cases hread
    · cases hread

/-- An entry's part of the source is yielded in order. -/
theorem BoundedSharedReader.streams (source : SharedSource) (offset remaining : Nat) :
    Streams BoundedSharedReader.read ⟨source, offset, remaining, false⟩ (slice source.file offset remaining) True :=
  ⟨_, BoundedSharedReader.forward, rfl⟩

/-! ## What the check makes of a stream -/

/-- The results of the check, from those of the stream: the first read without bytes is taken for the end. -/
def checkedResults (size : Nat) (crc : UInt32) : List UInt8 → List (ReadResult Fault) → List (ReadResult Fault)
  | _, [] => []
  | before, (bufLen, .ok bytes) :: results =>
    if 0 < bytes.length then (bufLen, .ok bytes) :: checkedResults size crc (before ++ bytes) results
    else if before.length ≠ size then [(bufLen, .error (sizeMismatch size before.length))]
    else if crc32 before ≠ crc then [(bufLen, .error (crcMismatch crc (crc32 before)))]
    else (bufLen, .ok []) :: results
  | before, (bufLen, .error e) :: results => (bufLen, .error e) :: checkedResults size crc before results

section Check

variable {σ κ : Type} {readInner : σ → Nat → κ → Res (List UInt8 × σ)}

/-- Nothing is checked any more once the end has been verified. -/
theorem readResults_verified {reader : CrcCheckingReader σ} (h : reader.verified = true) (calls : List (Nat × κ)) :
    readResults (CrcCheckingReader.read readInner) reader calls = readResults readInner reader.inner calls := by
  induction calls generalizing reader with
  | nil => rfl
  | cons call calls ih =>
    obtain ⟨bufLen, choice⟩ := call
    rw [readResults, readResults, CrcCheckingReader.read]
    cases hread : readInner reader.inner bufLen choice with
    | error e => rfl
    | ok result =>
      obtain ⟨bytes, inner⟩ := result
      rw [ok_bind]
      dsimp only
      by_cases hbytes : 0 < bytes.length
      · have hlater := @ih { reader with
          inner := inner
          hasher := reader.hasher.map (·.update bytes)
          actualSize := reader.actualSize + bytes.length } h
        rw [if_pos hbytes]
        exact congrArg (List.cons (bufLen, .ok bytes)) hlater
      · have hnil : bytes = [] := List.length_eq_zero_iff.1 (by omega)
        have hlater := @ih { reader with inner := inner } h
        rw [if_neg hbytes, if_pos h, hnil]
        exact congrArg (List.cons (bufLen, .ok [])) hlater

/-- A reader that has delivered some bytes and has not come to an end. -/
structure Delivering (reader : CrcCheckingReader σ) (size : Nat) (crc : UInt32) (before : List UInt8) : Prop where
  hasher : reader.hasher = some (Hasher.new.update before)
  expectedCrc : reader.expectedCrc = crc
  expectedSize : reader.expectedSize = size
  actualSize : reader.actualSize = before.length
  verified : reader.verified = false

theorem readResults_delivering {reader : CrcCheckingReader σ} {size : Nat} {crc : UInt32} {before : List UInt8}
    (h : Delivering reader size crc before) (calls : List (Nat × κ)) :
    readResults (CrcCheckingReader.read readInner) reader calls =
      checkedResults size crc before (readResults readInner reader.inner calls) := by
  induction calls generalizing reader before with
  | nil => rfl
  | cons call calls ih =>
    obtain ⟨bufLen, choice⟩ := call
    rw [readResults, readResults, CrcCheckingReader.read]
    cases hread : readInner reader.inner bufLen choice with
    | error e => rfl
    | ok result =>
      obtain ⟨bytes, inner⟩ := result
      rw [ok_bind]
      dsimp only
      rw [checkedResults]
      by_cases hbytes : 0 < bytes.length
      · have hasher : reader.hasher.map (·.update bytes) = some (Hasher.new.update (before ++ bytes)) := by
          rw [h.hasher]
          exact congrArg some List.foldl_append.symm
        have hactual : reader.actualSize + bytes.length = (before ++ bytes).length := by
          rw [h.actualSize, List.length_append]
        have hlater := @ih { reader with
          inner := inner
          hasher := reader.hasher.map (·.update bytes)
          actualSize := reader.actualSize + bytes.length } _ ⟨hasher, h.expectedCrc, h.expectedSize, hactual, h.verified⟩
        rw [if_pos hbytes, if_pos hbytes]
        exact congrArg (List.cons (bufLen, .ok bytes)) hlater
      · have hcrc : (reader.hasher.map Hasher.finalize).getD 0 = crc32 before := by
          rw [h.hasher]
          rfl
        rw [if_neg hbytes, if_neg hbytes, h.verified, if_neg Bool.false_ne_true, hcrc, h.actualSize, h.expectedSize,
          h.expectedCrc]
        by_cases hsize : before.length ≠ size
        · rw [if_pos hsize, if_pos hsize]
        · rw [if_neg hsize, if_neg hsize]
          by_cases hsum : crc32 before ≠ crc
          · rw [if_pos hsum, if_pos hsum]
          · rw [if_neg hsum, if_neg hsum]
            have hlater := @readResults_verified _ _ readInner
              ⟨inner, none, crc, size, before.length, true⟩ rfl calls
            exact congrArg (List.cons (bufLen, .ok [])) hlater

theorem readResults_check (inner : σ) (crc : UInt32) (size : Nat) (calls : List (Nat × κ)) :
    readResults (CrcCheckingReader.read readInner) (.new inner crc size) calls =
      checkedResults size crc [] (readResults readInner inner calls) :=
  readResults_delivering ⟨rfl, rfl, rfl, rfl, rfl⟩ calls

end Check

/-! ## Empty reads -/

/-- The first read of a run without bytes, if there is one. -/
theorem first_empty (results : List (ReadResult Fault)) : (∀ result ∈ results, result.2 ≠ .ok []) ∨
    ∃ front bufLen rest, results = front ++ (bufLen, .ok []) :: rest ∧ ∀ result ∈ front, result.2 ≠ .ok [] := by
  induction results with
  | nil => exact .inl fun result h => absurd h List.not_mem_nil
  | cons result results ih =>
    obtain ⟨bufLen, outcome⟩ := result
    by_cases h : outcome = .ok []
    · exact .inr ⟨[], bufLen, results, by rw [h]; rfl, fun result h => absurd h List.not_mem_nil⟩
    · rcases ih with hnone | ⟨front, first, rest, rfl, hfront⟩
      · exact .inl (List.forall_mem_cons.2 ⟨h, hnone⟩)
      · exact .inr ⟨(bufLen, outcome) :: front, first, rest, rfl, List.forall_mem_cons.2 ⟨h, hfront⟩⟩

theorem first_empty_unique {front front' rest rest' : List (ReadResult Fault)} {bufLen bufLen' : Nat}
    (h : front ++ (bufLen, .ok []) :: rest = front' ++ (bufLen', .ok []) :: rest')
    (hfront : ∀ result ∈ front, result.2 ≠ .ok []) (hfront' : ∀ result ∈ front', result.2 ≠ .ok []) :
    front = front' ∧ bufLen = bufLen' ∧ rest = rest' := by
  induction front generalizing front' with
  | nil =>
    cases front' with
    | nil =>
      cases h
      exact ⟨rfl, rfl, rfl⟩
    | cons result front' =>
      cases h
      exact absurd rfl (hfront' _ List.mem_cons_self)
  | cons result front ih =>
    cases front' with
    | nil =>
      cases h
      exact absurd rfl (hfront _ List.mem_cons_self)
    | cons result' front' =>
      obtain ⟨rfl, hlast⟩ := List.cons.inj h
      obtain ⟨rfl, hbuf, hrest⟩ := ih hlast (fun r hr => hfront r (List.mem_cons_of_mem _ hr))
        fun r hr => hfront' r (List.mem_cons_of_mem _ hr)
      exact ⟨rfl, hbuf, hrest⟩

theorem checkedResults_append {size : Nat} {crc : UInt32} {before : List UInt8} {front results : List (ReadResult Fault)}
    (h : ∀ result ∈ front, result.2 ≠ .ok []) :
    checkedResults size crc before (front ++ results) =
      front ++ checkedResults size crc (before ++ delivered front) results := by
  induction front generalizing before with
  | nil => rw [List.nil_append, List.nil_append, delivered, List.flatMap_nil, List.append_nil]
  | cons result front ih =>
    obtain ⟨bufLen, outcome⟩ := result
    have hfront := fun r hr => h r (List.mem_cons_of_mem _ hr)
    cases outcome with
    | error e =>
      rw [List.cons_append, checkedResults, ih hfront]
      rfl
    | ok bytes =>
      have hbytes : 0 < bytes.length := by
        apply List.length_pos_iff.2
        rintro rfl
        exact h _ List.mem_cons_self rfl
      rw [List.cons_append, checkedResults, if_pos hbytes, ih hfront, delivered_cons_ok, List.append_assoc]
      rfl

/-! ## The reads of an entry -/

/-- A stream as it was recorded. -/
structure Recorded (content : List UInt8) (intact : Prop) (size : Nat) (crc : UInt32) : Prop where
  intact : intact
  size : content.length = size
  crc : crc32 content = crc

/-- Reads that are checked to the end. -/
structure CheckedReads (content : List UInt8) (intact : Prop) (size : Nat) (crc : UInt32)
    (results : List (ReadResult Fault)) : Prop where
  ended : ∀ front rest bufLen, results = front ++ (bufLen, .ok []) :: rest → 0 < bufLen →
    (delivered front).length = size ∧ crc32 (delivered front) = crc
  inOrder : delivered results <+: content
  accepted : Recorded content intact size crc → ∀ result ∈ results, ∃ bytes, result.2 = .ok bytes

/-- Where the first read without bytes comes before the end of the stream, the stream is not the recorded one; and if
the bytes so far are, no later read with room in its buffer meets the end. -/
def HarmlessEmptyRead (content : List UInt8) (intact : Prop) (size : Nat) (crc : UInt32)
    (stream : List (ReadResult Fault)) : Prop :=
  ∀ front rest bufLen, stream = front ++ (bufLen, .ok []) :: rest → (∀ result ∈ front, result.2 ≠ .ok []) →
    delivered front ≠ content → ¬ Recorded content intact size crc ∧
      ((delivered front).length = size → crc32 (delivered front) = crc → ∀ result ∈ rest, 0 < result.1 → result.2 ≠ .ok [])

section Checked

variable {σ κ : Type} {readInner : σ → Nat → κ → Res (List UInt8 × σ)} {s : σ} {content : List UInt8} {intact : Prop}
  {size : Nat} {crc : UInt32} {calls : List (Nat × κ)} {front rest : List (ReadResult Fault)} {bufLen : Nat}

/-- Without a read that returns no bytes nothing is checked. -/
theorem checkedReads_of_none (h : Streams readInner s content intact)
    (hnone : ∀ result ∈ readResults readInner s calls, result.2 ≠ .ok []) :
    CheckedReads content intact size crc (checkedResults size crc [] (readResults readInner s calls)) := by
  have hsame : checkedResults size crc [] (readResults readInner s calls) = readResults readInner s calls := by
    have happend := @checkedResults_append size crc [] _ [] hnone
    rwa [List.append_nil, checkedResults, List.append_nil] at happend
  rw [hsame]
  refine ⟨fun front rest bufLen hsplit _ => ?_, h.delivered_prefix calls, fun hrecorded _ => h.ok hrecorded.intact⟩
  exact absurd rfl (hnone (bufLen, .ok []) (by rw [hsplit]; exact List.mem_append_right _ List.mem_cons_self))

/-- A check that fails ends the run: it must not fail for the recorded stream. -/
theorem checkedReads_of_failed (h : Streams readInner s content intact)
    (hsplit : readResults readInner s calls = front ++ (bufLen, .ok []) :: rest)
    (hfront : ∀ result ∈ front, result.2 ≠ .ok []) (fault : Fault) :
    CheckedReads content intact size crc (front ++ [(bufLen, .error fault)]) ↔ ¬ Recorded content intact size crc := by
  constructor
  · intro hchecked hrecorded
    obtain ⟨bytes, hbytes⟩ := hchecked.accepted hrecorded (bufLen, .error fault)
      (List.mem_append_right _ (List.mem_singleton_self _))
    cases hbytes
  · intro hnot
    refine ⟨fun front' rest' bufLen' hsplit' _ => ?_, ?_, fun hrecorded => absurd hrecorded hnot⟩
    · have hmem : (bufLen', .ok []) ∈ front ++ [(bufLen, .error fault)] := by
        rw [hsplit']
        exact List.mem_append_right _ List.mem_cons_self
      rcases List.mem_append.1 hmem with hmem | hmem
      · exact absurd rfl (hfront _ hmem)
      · cases List.mem_singleton.1 hmem
    · have hprefix := h.delivered_prefix calls
      rw [hsplit, delivered_append] at hprefix
      rw [delivered_append]
      exact (List.append_nil (delivered front)).symm ▸ (List.prefix_append _ _).trans hprefix

/-- A check that succeeds before the end of the stream lets the rest through unchecked. -/
theorem checkedReads_of_verified (h : Streams readInner s content intact)
    (hsplit : readResults readInner s calls = front ++ (bufLen, .ok []) :: rest)
    (hfront : ∀ result ∈ front, result.2 ≠ .ok []) (hsize : (delivered front).length = size)
    (hcrc : crc32 (delivered front) = crc) :
    CheckedReads content intact size crc (readResults readInner s calls) ↔
      (delivered front ≠ content → ∀ result ∈ rest, 0 < result.1 → result.2 ≠ .ok []) := by
  have hprefix : delivered front <+: content := by
    have hall := h.delivered_prefix calls
    rw [hsplit, delivered_append] at hall
    exact (List.prefix_append _ _).trans hall
  constructor
  · rintro hchecked hearly ⟨bufLen', outcome⟩ hmem hpos rfl
    obtain ⟨rest₁, rest₂, rfl⟩ := List.append_of_mem hmem
    have hlater : readResults readInner s calls =
        (front ++ (bufLen, .ok []) :: rest₁) ++ (bufLen', .ok []) :: rest₂ := by
      rw [hsplit, List.append_assoc]
      rfl
    have hcontent := (h.empty hlater).resolve_left (Nat.pos_iff_ne_zero.1 hpos)
    have hended := (hchecked.ended _ _ _ hlater hpos).1
    rw [hcontent, ← hsize] at hended
    exact hearly ( hprefix.eq_of_length hended.symm)
  · intro hharmless
    refine ⟨fun front' rest' bufLen' hsplit' hpos => ?_, h.delivered_prefix calls, fun hrecorded _ => h.ok hrecorded.intact⟩
    have hcontent := (h.empty hsplit').resolve_left (Nat.pos_iff_ne_zero.1 hpos)
    by_cases hend : delivered front = content
    · rw [hcontent, ← hend]
      exact ⟨hsize, hcrc⟩
    · exfalso
      have hmem : (bufLen', .ok []) ∈ front ++ (bufLen, .ok []) :: rest := by
        rw [← hsplit, hsplit']
        exact List.mem_append_right _ List.mem_cons_self
      rcases List.mem_append.1 hmem with hmem | hmem
      · exact hfront _ hmem rfl
      · rcases List.mem_cons.1 hmem with heq | hmem
        · have hzero := (h.empty hsplit).resolve_right hend
          cases heq
          omega
        · exact hharmless hend _ hmem hpos rfl

/-- A run is checked to the end exactly when its first read without bytes does no harm. -/
theorem checkedReads_iff (h : Streams readInner s content intact) (size : Nat) (crc : UInt32) (calls : List (Nat × κ)) :
    CheckedReads content intact size crc (checkedResults size crc [] (readResults readInner s calls)) ↔
      HarmlessEmptyRead content intact size crc (readResults readInner s calls) := by
  rcases first_empty (readResults readInner s calls) with hnone | ⟨front, bufLen, rest, hsplit, hfront⟩
  · refine iff_of_true (checkedReads_of_none h hnone) fun front rest bufLen hsplit _ => ?_
    exact absurd rfl (hnone (bufLen, .ok []) (by rw [hsplit]; exact List.mem_append_right _ List.mem_cons_self))
  · have hharmless : HarmlessEmptyRead content intact size crc (readResults readInner s calls) ↔
        (delivered front ≠ content → ¬ Recorded content intact size crc ∧ ((delivered front).length = size →
          crc32 (delivered front) = crc → ∀ result ∈ rest, 0 < result.1 → result.2 ≠ .ok [])) := by
      constructor
      · intro hall
        exact hall front rest bufLen hsplit hfront
      · intro hone front' rest' bufLen' hsplit' hfront'
        obtain ⟨rfl, -, rfl⟩ := first_empty_unique (hsplit.symm.trans hsplit') hfront hfront'
        exact hone
    have hresults := @checkedResults_append size crc [] front ((bufLen, .ok []) :: rest) hfront
    rw [← hsplit, List.nil_append, checkedResults, if_neg (show ¬ 0 < ([] : List UInt8).length from Nat.lt_irrefl 0)] at hresults
    rw [hharmless, hresults]
    by_cases hsize : (delivered front).length ≠ size
    · rw [if_pos hsize, checkedReads_of_failed h hsplit hfront]
      constructor
      · exact fun hnot _ => ⟨hnot, fun heq => absurd heq hsize⟩
      · intro hone hrecorded
        by_cases hend : delivered front = content
        · exact hsize (hend ▸ hrecorded.size)
        · exact (hone hend).1 hrecorded
    · rw [if_neg hsize]
      rw [not_not] at hsize
      by_cases hcrc : crc32 (delivered front) ≠ crc
      · rw [if_pos hcrc, checkedReads_of_failed h hsplit hfront]
        constructor
        · exact fun hnot _ => ⟨hnot, fun _ heq => absurd heq hcrc⟩
        · intro hone hrecorded
          by_cases hend : delivered front = content
          · exact hcrc (hend ▸ hrecorded.crc)
          · exact (hone hend).1 hrecorded
      · rw [if_neg hcrc, ← hsplit]
        rw [not_not] at hcrc
        rw [checkedReads_of_verified h hsplit hfront hsize hcrc]
        constructor
        · intro hlater hearly
          refine ⟨fun hrecorded => ?_, fun _ _ => hlater hearly⟩
          have hprefix := h.delivered_prefix calls
          rw [hsplit, delivered_append] at hprefix
          exact hearly (((List.prefix_append _ _).trans hprefix).eq_of_length (hsize.trans hrecorded.size.symm))
        · exact fun hone hearly => (hone hearly).2 hsize hcrc

end Checked

section Entries

variable (inflate : Inflate) (decoded : List UInt8 → List UInt8) (valid : List UInt8 → Prop)

/-- The stored or deflated bytes of an entry. -/
def LocalZipEntry.data (entry : LocalZipEntry) (file : List UInt8) : List UInt8 :=
  slice file entry.dataOffset (entry.metadata.compressedSize.getD 0).toNat

/-- The stream of an entry, and whether its data can be decoded. -/
def LocalZipEntry.content (entry : LocalZipEntry) (file : List UInt8) : List UInt8 :=
  if entry.method = 0 then entry.data file else decoded (entry.data file)

def LocalZipEntry.Decodable (entry : LocalZipEntry) (file : List UInt8) : Prop :=
  entry.method ≠ 0 → valid (entry.data file)

variable {inflate}

/-- What the decoded stream itself returns to a run of calls. -/
def EntryReader.streamResults : EntryReader inflate → List (Nat × List Nat) → List (ReadResult Fault)
  | stored reader, calls => readResults BoundedSharedReader.read reader.inner calls
  | deflated reader, calls => readResults inflate.read reader.inner calls

theorem readResults_stored (reader : CrcCheckingReader BoundedSharedReader) (calls : List (Nat × List Nat)) :
    readResults EntryReader.read (.stored reader : EntryReader inflate) calls =
      readResults (CrcCheckingReader.read BoundedSharedReader.read) reader calls :=
  readResults_wrap (fun _ _ _ => rfl) reader calls

theorem readResults_deflated (reader : CrcCheckingReader inflate.State) (calls : List (Nat × List Nat)) :
    readResults EntryReader.read (.deflated reader : EntryReader inflate) calls =
      readResults (CrcCheckingReader.read inflate.read) reader calls :=
  readResults_wrap (fun _ _ _ => rfl) reader calls

/-- The reader of a recovered entry checks every run to the end, except where a read into an empty buffer comes before
the end of the stream and does harm. -/
theorem readEntryAt_checked_iff
    (hinflate : ∀ (source : SharedSource) (offset size : Nat), Streams inflate.read
      (inflate.new ⟨source, offset, size, false⟩) (decoded (slice source.file offset size))
      (valid (slice source.file offset size)))
    (source : SharedSource) (entries : List LocalZipEntry) (idx : Nat) (reader : EntryReader inflate)
    (hreader : readEntryAt inflate source entries idx = .ok reader) (calls : List (Nat × List Nat)) :
    ∃ entry crc, entries[idx]? = some entry ∧ entry.metadata.crc32 = some crc ∧
      (CheckedReads (entry.content decoded source.file) (entry.Decodable valid source.file) entry.metadata.size.toNat crc
          (readResults EntryReader.read reader calls) ↔
        HarmlessEmptyRead (entry.content decoded source.file) (entry.Decodable valid source.file)
          entry.metadata.size.toNat crc (reader.streamResults calls)) := by
  unfold readEntryAt at hreader
  split at hreader
  · cases hreader
  · rename_i entry hentry
    split at hreader
    · cases hreader
    · split at hreader
      · cases hreader
      · rename_i compressedSize hcompressed
        split at hreader
        · cases hreader
        · rename_i crc hcrc
          have hdata : entry.data source.file = slice source.file entry.dataOffset compressedSize.toNat := by
            rw [LocalZipEntry.data, hcompressed]
            rfl
          refine ⟨entry, crc, hentry, hcrc, ?_⟩
          dsimp only at hreader
          split at hreader
          · rename_i hmethod
            cases hreader
            have hstream := BoundedSharedReader.streams source entry.dataOffset compressedSize.toNat
            have hintact : entry.Decodable valid source.file ↔ True := iff_true_intro fun h => absurd hmethod h
            rw [LocalZipEntry.content, if_pos hmethod, hdata, propext hintact, readResults_stored, readResults_check]
            exact checkedReads_iff hstream _ _ calls
          · rename_i hmethod
            cases hreader
            have hne : entry.method ≠ 0 := by rw [hmethod]; decide
            have hstream := hinflate source entry.dataOffset compressedSize.toNat
            have hintact : entry.Decodable valid source.file ↔
                valid (slice source.file entry.dataOffset compressedSize.toNat) := by
              rw [LocalZipEntry.Decodable, hdata]
              exact ⟨fun h => h hne, fun h _ => h⟩
            rw [LocalZipEntry.content, if_neg hne, hdata, propext hintact, readResults_deflated, readResults_check]
            exact checkedReads_iff hstream _ _ calls
          · cases hreader

/-- A decoder of no data. -/
def noInflate : Inflate where
  State := Unit
  new _ := ()
  read _ _ _ := raise (.io ⟨.invalidInput, "corrupt deflate stream"⟩)

theorem noInflate_streams (source : SharedSource) (offset size : Nat) :
    Streams noInflate.read (noInflate.new ⟨source, offset, size, false⟩) ((fun _ => []) (slice source.file offset size))
      ((fun _ => False) (slice source.file offset size)) := by
  refine ⟨fun _ rest => rest = [], ⟨fun _ _ _ _ _ _ _ h => ?_, fun _ _ _ _ _ _ _ h => h⟩, rfl⟩
  cases h

/-- A stored entry of one byte, which is all the file has. -/
def storedByte : LocalZipEntry where
  metadata :=
    { path := .fromUtf8 "a"
      entryType := .file
      size := 1
      compressedSize := some 1
      modified := none
      unixMode := none
      crc32 := some 0xE8B7BE43
      encrypted := false }
  method := 0
  flags := 0
  dataOffset := 0

def storedByteReader : EntryReader noInflate :=
  .stored (.new ⟨⟨[97], 0⟩, 0, 1, false⟩ 0xE8B7BE43 1)

theorem storedByte_checked : ∃ entry crc, [storedByte][0]? = some entry ∧ entry.metadata.crc32 = some crc ∧
    (CheckedReads (entry.content (fun _ => []) [97]) (entry.Decodable (fun _ => False) [97]) entry.metadata.size.toNat crc
        (readResults EntryReader.read storedByteReader [(4, []), (0, []), (4, [])]) ↔
      HarmlessEmptyRead (entry.content (fun _ => []) [97]) (entry.Decodable (fun _ => False) [97])
        entry.metadata.size.toNat crc (storedByteReader.streamResults [(4, []), (0, []), (4, [])])) :=
  readEntryAt_checked_iff (fun _ => []) (fun _ => False) noInflate_streams ⟨[97], 0⟩ [storedByte] 0 storedByteReader rfl
    [(4, []), (0, []), (4, [])]

/-- A read into an empty buffer, made first, fails although the entry is as it was recorded. -/
theorem empty_read_fails : readEntryAt noInflate ⟨[97], 0⟩ [storedByte] 0 = .ok storedByteReader ∧
    Recorded (storedByte.content (fun _ => []) [97]) (storedByte.Decodable (fun _ => False) [97]) 1 0xE8B7BE43 ∧
    ¬ CheckedReads (storedByte.content (fun _ => []) [97]) (storedByte.Decodable (fun _ => False) [97]) 1 0xE8B7BE43
      (readResults EntryReader.read storedByteReader [(0, [])]) := by
  have hrecorded : Recorded (storedByte.content (fun _ => []) [97]) (storedByte.Decodable (fun _ => False) [97]) 1
      0xE8B7BE43 := ⟨fun h => absurd rfl h, rfl, by decide +kernel⟩
  refine ⟨rfl, hrecorded, fun hchecked => ?_⟩
  obtain ⟨bytes, hbytes⟩ := hchecked.accepted hrecorded (0, .error (sizeMismatch 1 0)) List.mem_cons_self
  cases hbytes

end Entries

end Squallz.Zip
