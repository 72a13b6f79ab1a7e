/-
Readers that share one stream: each has a position of its own, and the stream is turned to it unless it is known to stand
there. Whatever the stream answers, each reader yields the bytes of the stream from the first one on.
-/
import Mathlib.Data.List.Infix
import Squallz.Api.Error
import Squallz.Bytes.Slice

namespace Squallz.Core

open Squallz.Api Squallz.Bytes

/-! ## Streams -/

/-- The bytes of a stream, whose positions are numbers of 64 bits. -/
structure SharedStream where
  data : List UInt8
  fits : data.length < 2 ^ 64

/-- How a call ends: with a value, with an error, or with a panic. -/
inductive Reply (α : Type)
  | ok (a : α)
  | failed (error : IoError)
  | panicked
deriving DecidableEq

/-- What the stream does when it is asked: its reply, and where it stands if the reply does not tell. -/
structure Answer where
  reply : Reply Nat
  strayed : Nat

/-- `seek`: a stream that reports the position it was asked for stands there. -/
def Answer.seek (answer : Answer) (position : Nat) : Reply Nat × Nat :=
  (answer.reply, if answer.reply = .ok position then position else answer.strayed)

/-- `read`: the bytes from where the stream stands, possibly fewer than the buffer holds. -/
def Answer.read (answer : Answer) (stream : SharedStream) (cursor bufLen : Nat) : Reply (List UInt8) × Nat :=
  match answer.reply with
  | .ok count =>
    let bytes := slice stream.data cursor (min count bufLen)
    (.ok bytes, cursor + bytes.length)
  | .failed error => (.failed error, answer.strayed)
  | .panicked => (.panicked, answer.strayed)

/-! ## Sources and readers -/

/-- `RestartableSourceInner` in its mutex, with the place where its stream really stands. -/
structure RestartableSource where
  cursor : Nat
  position : Option Nat
  poisoned : Bool

/-- `RestartableSource::new`, over a stream that stands anywhere. -/
def RestartableSource.new (cursor : Nat) : RestartableSource := ⟨cursor, none, false⟩

def lockRestartableSource (source : RestartableSource) : RestartableSource :=
  if source.poisoned then { source with position := none } else source

/-- The stream is turned to a position, unless it is known to stand there. -/
def RestartableSource.turn (source : RestartableSource) (position : Nat) (answer : Answer) :
    Reply Unit × RestartableSource :=
  if source.position = some position then (.ok (), source)
  else
    match answer.seek position with
    | (.ok reported, cursor) =>
      if reported = position then (.ok (), { source with cursor, position := some reported })
      else
        (.failed ⟨.other, "compound source did not seek to the requested position"⟩, { source with cursor, position := none })
    | (.failed error, cursor) => (.failed error, { source with cursor, position := none })
    | (.panicked, cursor) => (.panicked, { source with cursor, poisoned := true })

/-- The bytes that the stream yields, with the position of the reader behind them. -/
def RestartableSource.take (stream : SharedStream) (source : RestartableSource) (position bufLen : Nat) (answer : Answer) :
    Reply (List UInt8) × Nat × RestartableSource :=
  match answer.read stream source.cursor bufLen with
  | (.ok bytes, cursor) =>
    if position + bytes.length < 2 ^ 64 then
      (.ok bytes, position + bytes.length, { source with cursor, position := some (position + bytes.length) })
    else (.failed ⟨.other, "compound source position overflow"⟩, position, { source with cursor })
  | (.failed error, cursor) => (.failed error, position, { source with cursor, position := none })
  | (.panicked, cursor) => (.panicked, position, { source with cursor, poisoned := true })

/-- `RestartableSourceReader::read`. -/
def RestartableSource.read (stream : SharedStream) (source : RestartableSource) (position bufLen : Nat)
    (seek read : Answer) : Reply (List UInt8) × Nat × RestartableSource :=
  if bufLen = 0 then (.ok [], position, source)
  else
    match (lockRestartableSource source).turn position seek with
    | (.ok (), source) => source.take stream position bufLen read
    | (.failed error, source) => (.failed error, position, source)
    | (.panicked, source) => (.panicked, position, source)

/-! ## Runs -/

/-- A source with the positions of its readers. -/
structure Compound where
  source : RestartableSource
  readers : List Nat

def Compound.new (cursor : Nat) : Compound := ⟨.new cursor, []⟩

/-- What happens next: a reader is created, or one of them is asked for bytes. -/
inductive Event
  | reader
  | read (reader bufLen : Nat) (seek read : Answer)

/-- One event, and for a read what its reader returns. -/
def Compound.step (stream : SharedStream) (s : Compound) : Event → Compound × List (Nat × Reply (List UInt8))
  | .reader => ({ s with readers := s.readers ++ [0] }, [])
  | .read reader bufLen seek read =>
    match s.readers[reader]? with
    | none => (s, [])
    | some position =>
      let (reply, position, source) := s.source.read stream position bufLen seek read
      (⟨source, s.readers.set reader position⟩, [(reader, reply)])

def Compound.run (stream : SharedStream) (s : Compound) : List Event → Compound × List (Nat × Reply (List UInt8))
  | [] => (s, [])
  | event :: events =>
    let (s, replies) := s.step stream event
    let (s, later) := s.run stream events
    (s, replies ++ later)

/-- What the successful reads of a reader make up. -/
def deliveredTo (reader : Nat) (replies : List (Nat × Reply (List UInt8))) : List UInt8 :=
  replies.flatMap fun reply =>
    match reply with
    | (reader', .ok bytes) => if reader' = reader then bytes else []
    | _ => []

@[simp] theorem deliveredTo_append (reader : Nat) (a b : List (Nat × Reply (List UInt8))) :
    deliveredTo reader (a ++ b) = deliveredTo reader a ++ deliveredTo reader b := List.flatMap_append

theorem slice_self (l : List UInt8) (off n : Nat) : slice l off n = slice l off (slice l off n).length := by
  rw [slice, slice, List.take_eq_take_iff, List.length_take, List.length_drop]
  omega

/-! ## The cached position -/

/-- A position that the source may rely on is where its stream stands. -/
def RestartableSource.Known (source : RestartableSource) : Prop :=
  source.poisoned = false → ∀ position ∈ source.position, source.cursor = position

theorem RestartableSource.known_new (cursor : Nat) : (RestartableSource.new cursor).Known := by
  rintro - position ⟨⟩

/-- Behind the lock the cached position holds, poisoned or not. -/
theorem lockRestartableSource_position {source : RestartableSource} (h : source.Known) {position : Nat}
    (hposition : (lockRestartableSource source).position = some position) :
    (lockRestartableSource source).cursor = position := by
  unfold lockRestartableSource at hposition ⊢
  by_cases hpoisoned : source.poisoned = true
  · rw [if_pos hpoisoned] at hposition
    cases hposition
  · rw [if_neg hpoisoned] at hposition ⊢
    exact h (Bool.not_eq_true _ ▸ hpoisoned) position hposition

section Steps

variable {stream : SharedStream} {source : RestartableSource} {position bufLen : Nat} {answer : Answer}

/-- A source that is turned stands at the position; one that is not has no position to rely on. -/
theorem RestartableSource.turn_spec (position : Nat) (answer : Answer)
    (h : ∀ p, source.position = some p → source.cursor = p) :
    (source.turn position answer).2.Known ∧ ((source.turn position answer).1 = .ok () →
      (source.turn position answer).2.cursor = position) := by
  unfold RestartableSource.turn
  by_cases hcached : source.position = some position
  · rw [if_pos hcached]
    exact ⟨fun _ p hp => h p hp, fun _ => h position hcached⟩
  · rw [if_neg hcached]
    unfold Answer.seek
    cases answer.reply with
    | ok reported =>
      dsimp only
      by_cases hreported : reported = position
      · rw [if_pos hreported, if_pos (congrArg _ hreported)]
        subst hreported
        exact ⟨fun _ p hp => by simpa using hp, fun _ => rfl⟩
      · rw [if_neg hreported]
        exact ⟨fun _ p hp => by simp at hp, fun hok => by simp at hok⟩
    | failed error => exact ⟨fun _ p hp => by simp at hp, fun hok => by simp at hok⟩
    | panicked => exact ⟨fun hp => by simp at hp, fun hok => by simp at hok⟩

/-- What is taken at the position of a reader: the bytes that come next, with the reader behind them. -/
theorem RestartableSource.take_spec (hcursor : source.cursor = position) (hle : position ≤ stream.data.length) :
    let taken := source.take stream position bufLen answer
    taken.2.2.Known ∧ match taken.1 with
      | .ok bytes => bytes = slice stream.data position bytes.length ∧ taken.2.1 = position + bytes.length ∧
          position + bytes.length ≤ stream.data.length
      | _ => taken.2.1 = position := by
  have hfits := stream.fits
  unfold RestartableSource.take Answer.read
  cases answer.reply with
  | ok count =>
    dsimp only
    have hlength := length_slice stream.data source.cursor (min count bufLen)
    rw [if_pos (by omega)]
    refine ⟨fun _ p hp => ?_, ?_, rfl, by omega⟩
    · rw [← Option.mem_some.1 hp, hcursor]
    · rw [hcursor]
      exact slice_self _ _ _
  | failed error => exact ⟨fun _ p hp => by simp at hp, rfl⟩
  | panicked => exact ⟨fun hp => by simp at hp, rfl⟩

/-- A read yields the bytes that come next for its reader. -/
theorem RestartableSource.read_spec (bufLen : Nat) (seek read : Answer) (h : source.Known) (hle : position ≤ stream.data.length) :
    let result := source.read stream position bufLen seek read
    result.2.2.Known ∧ match result.1 with
      | .ok bytes => bytes = slice stream.data position bytes.length ∧ result.2.1 = position + bytes.length ∧
          position + bytes.length ≤ stream.data.length
      | _ => result.2.1 = position := by
  unfold RestartableSource.read
  by_cases hempty : bufLen = 0
  · rw [if_pos hempty]
    exact ⟨h, (slice_zero _ _).symm, rfl, hle⟩
  · rw [if_neg hempty]
    have hlocked : ∀ p, (lockRestartableSource source).position = some p → (lockRestartableSource source).cursor = p :=
      fun _ hp => lockRestartableSource_position h hp
    obtain ⟨hknown, hcursor⟩ := RestartableSource.turn_spec position seek hlocked
    rcases hturn : (lockRestartableSource source).turn position seek with ⟨_ | _ | _, turned⟩
    · rw [hturn] at hcursor
      exact RestartableSource.take_spec (hcursor rfl) hle
    · rw [hturn] at hknown
      exact ⟨hknown, rfl⟩
    · rw [hturn] at hknown
      exact ⟨hknown, rfl⟩

end Steps

/-! ## Readers do not disturb each other -/

/-- What each reader has delivered so far is the stream up to its position. -/
structure Compound.Delivered (stream : SharedStream) (s : Compound) (replies : List (Nat × Reply (List UInt8))) :
    Prop where
  known : s.source.Known
  inside : ∀ position ∈ s.readers, position ≤ stream.data.length
  upTo : ∀ reader position, s.readers[reader]? = some position → deliveredTo reader replies = stream.data.take position
  unborn : ∀ reader, s.readers.length ≤ reader → deliveredTo reader replies = []

theorem Compound.delivered_new (stream : SharedStream) (cursor : Nat) : (Compound.new cursor).Delivered stream [] :=
  by
  refine ⟨RestartableSource.known_new cursor, fun position h => absurd h List.not_mem_nil, fun reader position h => ?_,
    fun reader _ => rfl⟩
  cases h

theorem deliveredTo_other {reader reader' : Nat} (h : reader' ≠ reader) (reply : Reply (List UInt8)) :
    deliveredTo reader [(reader', reply)] = [] := by
  cases reply with
  | ok bytes => simp [deliveredTo, h]
  | failed error => rfl
  | panicked => rfl

theorem Compound.Delivered.create {stream : SharedStream} {s : Compound} {replies : List (Nat × Reply (List UInt8))}
    (h : s.Delivered stream replies) : Compound.Delivered stream { s with readers := s.readers ++ [0] } replies := by
  refine ⟨h.known, fun position hp => ?_, fun reader position hget => ?_, fun reader hle => ?_⟩
  · rcases List.mem_append.1 hp with hp | hp
    · exact h.inside position hp
    · rw [List.mem_singleton.1 hp]
      exact Nat.zero_le _
  · dsimp only at hget
    rcases Nat.lt_or_ge reader s.readers.length with hlt | hge
    · rw [List.getElem?_append_left hlt] at hget
      exact h.upTo reader position hget
    · rw [List.getElem?_append_right hge, List.getElem?_singleton] at hget
      split at hget
      · cases hget
        exact h.unborn reader hge
      · cases hget
  · simp only [List.length_append, List.length_singleton] at hle
    exact h.unborn reader (by omega)

/-- A reader that reads moves on by what it returns, and the others stay. -/
theorem Compound.Delivered.moved {stream : SharedStream} {s : Compound} {replies : List (Nat × Reply (List UInt8))}
    {reader position position' : Nat} {source : RestartableSource} {reply : Reply (List UInt8)}
    (h : s.Delivered stream replies) (hget : s.readers[reader]? = some position) (hknown : source.Known)
    (hforward : position ≤ position') (hinside : position' ≤ stream.data.length)
    (hbytes : deliveredTo reader [(reader, reply)] = slice stream.data position (position' - position)) :
    Compound.Delivered stream ⟨source, s.readers.set reader position'⟩ (replies ++ [(reader, reply)]) := by
  have hlt : reader < s.readers.length := (List.getElem?_eq_some_iff.1 hget).1
  refine ⟨hknown, fun p hp => ?_, fun reader' p hp => ?_, fun reader' hp => ?_⟩
  · rcases List.mem_or_eq_of_mem_set hp with hp | rfl
    · exact h.inside p hp
    · exact hinside
  · dsimp only at hp
    rw [deliveredTo_append]
    by_cases heq : reader = reader'
    · subst heq
      rw [List.getElem?_set_self hlt] at hp
      cases hp
      rw [h.upTo reader position hget, hbytes, slice, ← List.take_add, Nat.add_sub_of_le hforward]
    · rw [List.getElem?_set_ne heq] at hp
      rw [h.upTo reader' p hp, deliveredTo_other heq, List.append_nil]
  · rw [List.length_set] at hp
    rw [deliveredTo_append, h.unborn reader' hp, deliveredTo_other (by omega), List.append_nil]

theorem Compound.Delivered.step {stream : SharedStream} {s : Compound} {replies : List (Nat × Reply (List UInt8))}
    (h : s.Delivered stream replies) (event : Event) :
    (s.step stream event).1.Delivered stream (replies ++ (s.step stream event).2) := by
  cases event with
  | reader =>
    simp only [Compound.step, List.append_nil]
    exact h.create
  | read reader bufLen seek read =>
    cases hget : s.readers[reader]? with
    | none =>
      simp only [Compound.step, hget, List.append_nil]
      exact h
    | some position =>
      have hle := h.inside position (List.mem_of_getElem? hget)
      obtain ⟨hknown, hreply⟩ := RestartableSource.read_spec bufLen seek read h.known hle
      simp only [Compound.step, hget]
      rcases hread : s.source.read stream position bufLen seek read with ⟨reply, position', source⟩
      rw [hread] at hknown hreply
      dsimp only at hknown hreply ⊢
      cases reply with
      | ok bytes =>
        obtain ⟨hbytes, rfl, hinside⟩ := hreply
        refine h.moved hget hknown (Nat.le_add_right _ _) hinside ?_
        rw [Nat.add_sub_cancel_left, ← hbytes]
        simp [deliveredTo]
      | failed error =>
        cases hreply
        exact h.moved hget hknown (Nat.le_refl _) hle (by simp [deliveredTo])
      | panicked =>
        cases hreply
        exact h.moved hget hknown (Nat.le_refl _) hle (by simp [deliveredTo])

theorem Compound.Delivered.run {stream : SharedStream} {s : Compound} {replies : List (Nat × Reply (List UInt8))}
    (h : s.Delivered stream replies) (events : List Event) :
    (s.run stream events).1.Delivered stream (replies ++ (s.run stream events).2) := by
  induction events generalizing s replies with
  | nil =>
    show s.Delivered stream (replies ++ [])
    rwa [List.append_nil]
  | cons event events ih =>
    have := ih (h.step event)
    rw [List.append_assoc] at this
    exact this

end Squallz.Core
