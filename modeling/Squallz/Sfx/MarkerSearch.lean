/-
The search for a marker in a stream that is read piece by piece, with the end of what was read carried over to the next
piece.
-/
import Squallz.Api.Error
import Squallz.Bytes.Forward
import Squallz.Bytes.Windows

namespace Squallz.Sfx

open Squallz.Api Squallz.Bytes

def copyBufferBytes : Nat := 64 * 1024

/-! ## Resources -/

structure ResourceOptions where
  memoryLimit : Option UInt64

def ResourceOptions.minStreamBufferBytes : UInt64 := 8 * 1024

def ResourceOptions.streamBufferSize (resources : ResourceOptions) (default : Nat) : Res Nat :=
  match resources.memoryLimit with
  | none => .ok default
  | some limit =>
    if limit < minStreamBufferBytes then
      raise (.resourceLimitExceeded
        s!"memory limit {limit} bytes is below the {minStreamBufferBytes} byte streaming buffer minimum")
    else .ok (max (min default limit.toNat) 1)

/-! ## The search -/

section

variable {σ : Type} (read : σ → Nat → Unit → Except IoError (List UInt8 × σ)) (marker : List UInt8)

/-- The loop of `file_has_marker`, with the bytes that are carried over: at most as many rounds as given. -/
def searchMarker (buffer : Nat) : Nat → σ → List UInt8 → Res Bool
  | 0, _, _ => Api.panic "a read yields bytes without end"
  | rounds + 1, reader, carry => do
    let (bytes, reader) ← ofIo (read reader (buffer - carry.length) ())
    let used := carry ++ bytes
    if (windows marker.length used).any (· = marker) then .ok true
    else if bytes = [] then .ok false
    else searchMarker buffer rounds reader (lastPart (marker.length - 1) used)

/-- `file_has_marker`, for a marker that is not empty. -/
def fileHasMarker (resources : ResourceOptions) (rounds : Nat) (reader : σ) : Res Bool := do
  let bufferLen ← resources.streamBufferSize copyBufferBytes
  searchMarker read marker (max bufferLen marker.length + marker.length - 1) rounds reader []

variable {read marker}

/-- What was read does not hold the marker, and its end is carried over. -/
theorem searchMarker_eq (hmarker : marker ≠ []) {stands : σ → List UInt8 → Prop} (hforward : Forward read True stands)
    {buffer rounds : Nat} {reader : σ} {past rest : List UInt8} (hbuffer : marker.length ≤ buffer)
    (hstands : stands reader rest) (hnot : ¬ marker <:+: past) (hrounds : rest.length < rounds) :
    searchMarker read marker buffer rounds reader (lastPart (marker.length - 1) past) =
      .ok (decide (marker <:+: past ++ rest)) := by
  have hpos : 0 < marker.length := List.length_pos_iff.2 hmarker
  induction rounds generalizing reader past rest with
  | zero => omega
  | succ rounds ih =>
    unfold searchMarker
    have hcarry := length_lastPart (marker.length - 1) past
    cases hread : read reader (buffer - (lastPart (marker.length - 1) past).length) () with
    | error error => exact absurd trivial (hforward.error _ _ _ _ _ hstands hread)
    | ok result =>
      obtain ⟨bytes, reader'⟩ := result
      obtain ⟨later, rfl, -, hempty, hlater⟩ := hforward.ok _ _ _ _ _ _ hstands hread
      simp only [ofIo_ok, ok_bind]
      have hany : ((windows marker.length (lastPart (marker.length - 1) past ++ bytes)).any (· = marker)) = true ↔
          marker <:+: past ++ bytes := by
        rw [← infix_lastPart_append hnot, ← mem_windows_iff_infix]
        simp
      by_cases hfound : marker <:+: past ++ bytes
      · rw [if_pos (hany.2 hfound)]
        have : marker <:+: past ++ (bytes ++ later) := by
          rw [← List.append_assoc]
          exact hfound.trans (List.prefix_append _ _).isInfix
        rw [decide_eq_true this]
      · rw [if_neg fun h => hfound (hany.1 h)]
        by_cases hbytes : bytes = []
        · subst hbytes
          rw [if_pos rfl]
          have hend : later = [] := (hempty rfl).resolve_left (by omega)
          subst hend
          rw [List.append_nil, decide_eq_false hfound]
        · rw [if_neg hbytes, lastPart_append_lastPart, ih hlater hfound ?_, List.append_assoc]
          have := List.length_pos_iff.2 hbytes
          rw [List.length_append] at hrounds
          omega

end

/-- A reader of a file that yields at most `n` bytes at a time. -/
def readAtMost (n : Nat) (rest : List UInt8) (bufLen : Nat) (_ : Unit) : Except IoError (List UInt8 × List UInt8) :=
  .ok (rest.take (min n bufLen), rest.drop (min n bufLen))

theorem streams_readAtMost {n : Nat} (hn : n ≠ 0) (content : List UInt8) :
    Streams (readAtMost n) content content True := by
  refine ⟨fun s rest => s = rest, ⟨?_, fun _ _ _ _ _ _ h => by cases h⟩, rfl⟩
  rintro s rest bufLen choice bytes s' rfl h
  cases h
  refine ⟨s.drop (min n bufLen), (List.take_append_drop _ _).symm, ?_, fun h => ?_, rfl⟩
  · rw [List.length_take]
    omega
  · rcases List.take_eq_nil_iff.1 h with h | h
    · exact .inl (by omega)
    · exact .inr h

/-- Whether the marker is found depends on the bytes of the stream alone: it is wherever it occurs in them, however they are
read. -/
theorem file_has_marker_iff {σ : Type} {read : σ → Nat → Unit → Except IoError (List UInt8 × σ)} {marker : List UInt8}
    {content : List UInt8} {reader : σ} (hstream : Streams read reader content True)
    (hmarker : marker ≠ []) (resources : ResourceOptions) {rounds : Nat} (hrounds : content.length < rounds) :
    fileHasMarker read marker resources rounds reader =
      (fun _ => decide (marker <:+: content)) <$> resources.streamBufferSize copyBufferBytes := by
  obtain ⟨stands, hforward, hstands⟩ := hstream
  unfold fileHasMarker
  cases resources.streamBufferSize copyBufferBytes with
  | error fault => rfl
  | ok bufferLen =>
    have hpos : 0 < marker.length := List.length_pos_iff.2 hmarker
    have hnot : ¬ marker <:+: [] := fun h => hmarker (List.infix_nil.1 h)
    exact searchMarker_eq hmarker hforward (by omega) hstands hnot hrounds

/-- A marker that begins in one piece and ends in another one. -/
theorem file_has_marker_straddling :
    Streams (readAtMost 2) [7, 1, 2, 3] [7, 1, 2, 3] True ∧
      fileHasMarker (readAtMost 2) [1, 2, 3] ⟨none⟩ 5 [7, 1, 2, 3] = .ok true :=
  have hstream := streams_readAtMost (Nat.succ_ne_zero 1) [7, 1, 2, 3]
  ⟨hstream, file_has_marker_iff hstream (by decide) ⟨none⟩ (by decide)⟩

end Squallz.Sfx
