/-
Streams that are read and sought in: a flat stream of bytes, some of which cannot be read, what it may answer to a
sequence of calls, and the rule by which a reader is shown to answer like a flat stream.
-/
import Squallz.Bytes.Slice

namespace Squallz.Bytes

/-! ## Calls -/

/-- `std::io::SeekFrom`. -/
inductive SeekFrom
  | start (offset : Nat)
  | fromEnd (offset : Int)
  | current (offset : Int)
deriving DecidableEq

/-- The position that is asked for, in a stream of a length and from a position. -/
def SeekFrom.target (len pos : Nat) : SeekFrom → Int
  | start offset => offset
  | fromEnd offset => len + offset
  | current offset => pos + offset

/-- A call of a reader, with what the system decides about a read. -/
inductive Call (κ : Type)
  | seek (whence : SeekFrom)
  | read (bufLen : Nat) (choice : κ)

inductive Answer (E : Type)
  | position (pos : Nat)
  | bytes (bytes : List UInt8)
  | failed (error : E)
deriving DecidableEq

/-- The calls of a reader that keeps its state in a `σ`. A call that fails changes nothing. -/
structure StreamReader (σ κ E : Type) where
  seek : σ → SeekFrom → Except E (Nat × σ)
  read : σ → Nat → κ → Except E (List UInt8 × σ)

/-- The answers to a sequence of calls. -/
def StreamReader.answers {σ κ E : Type} (r : StreamReader σ κ E) : σ → List (Call κ) → List (Answer E)
  | _, [] => []
  | s, .seek whence :: calls =>
    match r.seek s whence with
    | .ok (pos, s') => .position pos :: r.answers s' calls
    | .error e => .failed e :: r.answers s calls
  | s, .read bufLen choice :: calls =>
    match r.read s bufLen choice with
    | .ok (bytes, s') => .bytes bytes :: r.answers s' calls
    | .error e => .failed e :: r.answers s calls

/-! ## Flat streams -/

/-- Bytes, and the positions of those that cannot be read. -/
structure Flat where
  content : List UInt8
  lost : Nat → Prop

namespace Flat

/-- Bytes that a read into a buffer may return: those at the position, and some if there are any to come. -/
structure Reads (f : Flat) (pos bufLen : Nat) (bytes : List UInt8) : Prop where
  eq : bytes = slice f.content pos bytes.length
  le : bytes.length ≤ bufLen
  progress : pos < f.content.length → 0 < bufLen → bytes ≠ []
  kept : ∀ i, i < bytes.length → ¬ f.lost (pos + i)

/-- What a flat stream with positions up to `limit` may answer: only a seek out of this range, and a read that begins
at a lost byte, fail. -/
inductive Answers {κ E : Type} (f : Flat) (limit : Nat) : Nat → List (Call κ) → List (Answer E) → Prop
  | nil (pos : Nat) : Answers f limit pos [] []
  | sought {pos n : Nat} {whence : SeekFrom} {calls : List (Call κ)} {answers : List (Answer E)} :
      whence.target f.content.length pos = n → n ≤ limit → Answers f limit n calls answers →
      Answers f limit pos (.seek whence :: calls) (.position n :: answers)
  | refused {pos : Nat} {whence : SeekFrom} {error : E} {calls : List (Call κ)} {answers : List (Answer E)} :
      (whence.target f.content.length pos < 0 ∨ limit < whence.target f.content.length pos) →
      Answers f limit pos calls answers → Answers f limit pos (.seek whence :: calls) (.failed error :: answers)
  | read {pos bufLen : Nat} {choice : κ} {bytes : List UInt8} {calls : List (Call κ)} {answers : List (Answer E)} :
      f.Reads pos bufLen bytes → Answers f limit (pos + bytes.length) calls answers →
      Answers f limit pos (.read bufLen choice :: calls) (.bytes bytes :: answers)
  | unreadable {pos bufLen : Nat} {choice : κ} {error : E} {calls : List (Call κ)} {answers : List (Answer E)} :
      pos < f.content.length → 0 < bufLen → f.lost pos → Answers f limit pos calls answers →
      Answers f limit pos (.read bufLen choice :: calls) (.failed error :: answers)

theorem reads_nil (f : Flat) {pos bufLen : Nat} (h : f.content.length ≤ pos ∨ bufLen = 0) : f.Reads pos bufLen [] := by
  refine ⟨by simp [slice], Nat.zero_le _, fun hpos hbuf => ?_, fun i hi => absurd hi (Nat.not_lt_zero i)⟩
  omega

/-- The rule: what one call does, every sequence of calls does. -/
theorem answers_of_steps {σ κ E : Type} {r : StreamReader σ κ E} {f : Flat} {limit : Nat} (stands : σ → Nat → Prop)
    (hseek : ∀ s pos whence, stands s pos → match r.seek s whence with
      | .ok (n, s') => whence.target f.content.length pos = n ∧ n ≤ limit ∧ stands s' n
      | .error _ => whence.target f.content.length pos < 0 ∨ limit < whence.target f.content.length pos)
    (hread : ∀ s pos bufLen choice, stands s pos → match r.read s bufLen choice with
      | .ok (bytes, s') => f.Reads pos bufLen bytes ∧ stands s' (pos + bytes.length)
      | .error _ => pos < f.content.length ∧ 0 < bufLen ∧ f.lost pos)
    {s : σ} {pos : Nat} (h : stands s pos) (calls : List (Call κ)) : f.Answers limit pos calls (r.answers s calls) := by
  induction calls generalizing s pos with
  | nil => exact .nil pos
  | cons call calls ih =>
    cases call with
    | seek whence =>
      have hcall := hseek s pos whence h
      unfold StreamReader.answers
      cases hr : r.seek s whence with
      | ok result =>
        rw [hr] at hcall
        exact .sought hcall.1 hcall.2.1 (ih hcall.2.2)
      | error e =>
        rw [hr] at hcall
        exact .refused hcall (ih h)
    | read bufLen choice =>
      have hcall := hread s pos bufLen choice h
      unfold StreamReader.answers
      cases hr : r.read s bufLen choice with
      | ok result =>
        rw [hr] at hcall
        exact .read hcall.1 (ih hcall.2)
      | error e =>
        rw [hr] at hcall
        exact .unreadable hcall.1 hcall.2.1 hcall.2.2 (ih h)

/-- A part of a flat stream. -/
def part (f : Flat) (start len : Nat) : Flat := ⟨slice f.content start len, fun i => f.lost (start + i)⟩

theorem length_part {f : Flat} {start len : Nat} (h : start + len ≤ f.content.length) :
    (f.part start len).content.length = len := length_slice_of_le h

/-- A read of a part is a read of the whole that stays in the part. -/
theorem Reads.part {f : Flat} {start len pos bufLen : Nat} {bytes : List UInt8} (hlen : start + len ≤ f.content.length)
    (hpos : pos < len) (h : f.Reads (start + pos) (min (len - pos) bufLen) bytes) :
    (f.part start len).Reads pos bufLen bytes := by
  have hle := h.le
  refine ⟨?_, by omega, fun _ hbuf => h.progress (by omega) (by omega), fun i hi => ?_⟩
  · show bytes = slice (slice f.content start len) pos bytes.length
    rw [slice_slice (by omega)]
    exact h.eq
  · show ¬ f.lost (start + (pos + i))
    rw [← Nat.add_assoc]
    exact h.kept i hi

end Flat

end Squallz.Bytes
