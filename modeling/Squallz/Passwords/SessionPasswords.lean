/-
The passwords of a session: a registry under a lock, and the threads that read an archive's state beside it. What a probe of
an archive finds is any answer, for its files may change at any time.
-/
import Squallz.System.Runs
import Squallz.System.Tally

namespace Squallz.Passwords

open Squallz.System

variable {P S W : Type}

/-- A password with the state of the archive it was verified on. -/
structure CachedPassword (S W : Type) where
  source : S
  password : W

/-- Shared values are numbered, and the entries are the numbers of theirs. -/
structure Registry (P S W : Type) where
  entries : Table P Nat
  shared : List (CachedPassword S W)
  generation : Nat
  closed : Bool

/-- Captured before the work that needs a password. -/
structure PasswordAttempt (P S : Type) where
  path : P
  source : S
  generation : Nat

/-- How far a thread has come. -/
inductive Call (P S W : Type)
  | idle
  | beginning (path : P) (generation : Nat)
  | attempt (attempt : PasswordAttempt P S)
  | remembering (attempt : PasswordAttempt P S) (password : W)
  | getting (path : P) (cached : Nat)
  | probed (path : P) (cached : Nat) (source : Option S)

structure World (P S W : Type) where
  registry : Registry P S W
  calls : Nat → Call P S W

def World.default (P S W : Type) : World P S W := ⟨⟨∅, [], 0, false⟩, fun _ => .idle⟩

/-- A locked section, or a probe with what it finds. -/
inductive Action (P S W : Type)
  | begin (thread : Nat) (path : P)
  | inspected (thread : Nat) (source : Option S)
  | verify (thread : Nat) (password : W) (source : Option S)
  | insert (thread : Nat) (cancelled : Bool)
  | lookup (thread : Nat) (path : P)
  | probe (thread : Nat) (source : Option S)
  | answer (thread : Nat)
  | drop (thread : Nat)
  | forget (path : P)
  | invalidatePending
  | shutdown

namespace World

variable [DecidableEq P] [DecidableEq S]

def goto (thread : Nat) (call : Call P S W) (w : World P S W) : World P S W :=
  { w with calls := fun t => if t = thread then call else w.calls t }

/-- `wrapping_add(1)` of the generation. -/
def revoke (w : World P S W) : World P S W :=
  { w with registry := { w.registry with generation := (w.registry.generation + 1) % 2 ^ 64 } }

/-- The last section of `remember`. -/
def insert (thread : Nat) (cancelled : Bool) (attempt : PasswordAttempt P S) (password : W) (w : World P S W) :
    World P S W :=
  let w' := w.goto thread (.attempt attempt)
  if w.registry.closed || w.registry.generation != attempt.generation || cancelled then w'
  else
    { w' with registry := { w.registry with
        entries := w.registry.entries.insert attempt.path w.registry.shared.length
        shared := w.registry.shared ++ [⟨attempt.source, password⟩] } }

/-- What the last section of `get` returns. -/
def answered (w : World P S W) (thread : Nat) : Option (P × W) :=
  match w.calls thread with
  | .probed path cached source =>
    if w.registry.entries.lookup path = some cached then
      match w.registry.shared[cached]? with
      | some value => if source = some value.source then some (path, value.password) else none
      | none => none
    else none
  | _ => none

/-- What the last section of `get` leaves. -/
def answer (path : P) (cached : Nat) (source : Option S) (w : World P S W) : World P S W :=
  if w.registry.entries.lookup path = some cached then
    match w.registry.shared[cached]? with
    | some value =>
      if source = some value.source then w
      else { w with registry := { w.registry with entries := w.registry.entries.erase path } }
    | none => w
  else w

def next : Action P S W → World P S W → Option (World P S W)
  | .begin thread path, w =>
    match w.calls thread with
    | .idle => some (if w.registry.closed then w else w.goto thread (.beginning path w.registry.generation))
    | _ => none
  | .inspected thread source, w =>
    match w.calls thread with
    | .beginning path generation =>
      match source with
      | none => some (w.goto thread .idle)
      | some source => some (w.goto thread (.attempt ⟨path, source, generation⟩))
    | _ => none
  | .verify thread password source, w =>
    match w.calls thread with
    | .attempt attempt => some (if source = some attempt.source then w.goto thread (.remembering attempt password) else w)
    | _ => none
  | .insert thread cancelled, w =>
    match w.calls thread with
    | .remembering attempt password => some (w.insert thread cancelled attempt password)
    | _ => none
  | .lookup thread path, w =>
    match w.calls thread with
    | .idle =>
      match w.registry.entries.lookup path with
      | none => some w
      | some cached => some (w.goto thread (.getting path cached))
    | _ => none
  | .probe thread source, w =>
    match w.calls thread with
    | .getting path cached => some (w.goto thread (.probed path cached source))
    | _ => none
  | .answer thread, w =>
    match w.calls thread with
    | .probed path cached source => some ((w.answer path cached source).goto thread .idle)
    | _ => none
  | .drop thread, w =>
    match w.calls thread with
    | .attempt _ => some (w.goto thread .idle)
    | _ => none
  | .forget path, w =>
    some { w.revoke with registry := { w.revoke.registry with entries := w.registry.entries.erase path } }
  | .invalidatePending, w => some w.revoke
  | .shutdown, w =>
    some { w.revoke with registry := { w.revoke.registry with closed := true, entries := ∅ } }

end World

end Squallz.Passwords
