/-
Readers that are read from front to back: what a sequence of calls returns up to its first error, and the invariant by
which a reader yields some bytes in order.
-/
import Mathlib.Data.List.Infix

namespace Squallz.Bytes

/-- What a call returns, with the length of the buffer it was given. -/
abbrev ReadResult (E : Type) := Nat × Except E (List UInt8)

section Reads

variable {σ κ E : Type} (read : σ → Nat → κ → Except E (List UInt8 × σ))

/-- The results of a sequence of calls, up to the first error. -/
def readResults : σ → List (Nat × κ) → List (ReadResult E)
  | _, [] => []
  | s, (bufLen, choice) :: calls =>
    match read s bufLen choice with
    | .ok (bytes, s') => (bufLen, .ok bytes) :: readResults s' calls
    | .error e => [(bufLen, .error e)]

/-- The bytes that calls have delivered. -/
def delivered (results : List (ReadResult E)) : List UInt8 := results.flatMap fun result => result.2.toOption.getD []

/-- A reader that stands before the rest of its content: it yields these bytes in order, no bytes only into an empty
buffer or at the end, and no error if the content is intact. -/
structure Forward (intact : Prop) (stands : σ → List UInt8 → Prop) : Prop where
  ok : ∀ s rest bufLen choice bytes s', stands s rest → read s bufLen choice = .ok (bytes, s') →
    ∃ later, rest = bytes ++ later ∧ bytes.length ≤ bufLen ∧ (bytes = [] → bufLen = 0 ∨ rest = []) ∧ stands s' later
  error : ∀ s rest bufLen choice e, stands s rest → read s bufLen choice = .error e → ¬ intact

/-- A reader in a state from which it yields some content. -/
def Streams (s : σ) (content : List UInt8) (intact : Prop) : Prop :=
  ∃ stands : σ → List UInt8 → Prop, Forward read intact stands ∧ stands s content

end Reads

section Results

variable {σ κ E : Type} {read : σ → Nat → κ → Except E (List UInt8 × σ)} {s : σ} {content : List UInt8} {intact : Prop}

theorem delivered_append (a b : List (ReadResult E)) : delivered (a ++ b) = delivered a ++ delivered b :=
  List.flatMap_append

theorem delivered_cons_ok (bufLen : Nat) (bytes : List UInt8) (results : List (ReadResult E)) :
    delivered ((bufLen, .ok bytes) :: results) = bytes ++ delivered results := rfl

/-- A reader that is another one in a wrapping returns what this one returns. -/
theorem readResults_wrap {τ : Type} {read' : τ → Nat → κ → Except E (List UInt8 × τ)} {wrap : σ → τ}
    (h : ∀ s bufLen choice, read' (wrap s) bufLen choice =
      (fun result => (result.1, wrap result.2)) <$> read s bufLen choice) (s : σ) (calls : List (Nat × κ)) :
    readResults read' (wrap s) calls = readResults read s calls := by
  induction calls generalizing s with
  | nil => rfl
  | cons call calls ih =>
    obtain ⟨bufLen, choice⟩ := call
    rw [readResults, readResults, h]
    cases read s bufLen choice with
    | error e => rfl
    | ok result => exact congrArg _ (ih result.2)

/-- What is delivered is the beginning of the content. -/
theorem Streams.delivered_prefix (h : Streams read s content intact) (calls : List (Nat × κ)) :
    delivered (readResults read s calls) <+: content := by
  obtain ⟨stands, hforward, hstands⟩ := h
  induction calls generalizing s content with
  | nil => exact List.nil_prefix
  | cons call calls ih =>
    obtain ⟨bufLen, choice⟩ := call
    rw [readResults]
    cases hread : read s bufLen choice with
    | error e => exact List.nil_prefix
    | ok result =>
      obtain ⟨bytes, s'⟩ := result
      obtain ⟨later, rfl, -, -, hlater⟩ := hforward.ok s _ bufLen choice bytes s' hstands hread
      dsimp only
      rw [delivered_cons_ok, List.prefix_append_right_inj]
      exact ih hlater

/-- A call that returns no bytes had an empty buffer or came at the end. -/
theorem Streams.empty (h : Streams read s content intact) {calls : List (Nat × κ)} {front rest : List (ReadResult E)}
    {bufLen : Nat} (hsplit : readResults read s calls = front ++ (bufLen, .ok []) :: rest) :
    bufLen = 0 ∨ delivered front = content := by
  obtain ⟨stands, hforward, hstands⟩ := h
  induction calls generalizing s content front with
  | nil =>
    rw [readResults] at hsplit
    cases front <;> cases hsplit
  | cons call calls ih =>
    obtain ⟨bufLen', choice⟩ := call
    rw [readResults] at hsplit
    cases hread : read s bufLen' choice with
    | error e =>
      rw [hread] at hsplit
      rcases front with _ | ⟨result, front⟩
      · cases hsplit
      · cases front <;> cases hsplit
    | ok result =>
      obtain ⟨bytes, s'⟩ := result
      obtain ⟨later, rfl, -, hempty, hlater⟩ := hforward.ok s _ bufLen' choice bytes s' hstands hread
      rw [hread] at hsplit
      rcases front with _ | ⟨result, front⟩
      · cases hsplit
        rcases hempty rfl with h | h
        · exact .inl h
        · exact .inr h.symm
      · obtain ⟨rfl, hlast⟩ := List.cons.inj hsplit
        rw [delivered_cons_ok, List.append_right_inj]
        exact ih hlast hlater

/-- Content that is intact is read without an error. -/
theorem Streams.ok (h : Streams read s content intact) (hintact : intact) {calls : List (Nat × κ)} {result : ReadResult E}
    (hmem : result ∈ readResults read s calls) : ∃ bytes, result.2 = .ok bytes := by
  obtain ⟨stands, hforward, hstands⟩ := h
  induction calls generalizing s content with
  | nil => cases hmem
  | cons call calls ih =>
    obtain ⟨bufLen, choice⟩ := call
    rw [readResults] at hmem
    cases hread : read s bufLen choice with
    | error e => exact absurd hintact (hforward.error s _ bufLen choice e hstands hread)
    | ok outcome =>
      obtain ⟨bytes, s'⟩ := outcome
      obtain ⟨later, -, -, -, hlater⟩ := hforward.ok s _ bufLen choice bytes s' hstands hread
      rw [hread] at hmem
      rcases List.mem_cons.1 hmem with rfl | hmem
      · exact ⟨bytes, rfl⟩
      · exact ih hmem hlater

end Results

end Squallz.Bytes
