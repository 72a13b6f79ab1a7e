/-
Programs that raise errors but never panic, and what is known of their values.
-/
import Squallz.Api.Checked
import Squallz.System.Parts

namespace Squallz.System

open Squallz.Api

/-- A program that does not panic when it is run from a state, and whose value and last state meet a condition. -/
def Safe {S α : Type} (p : Prog S Fault α) (P : α → S → Prop) (s : S) : Prop :=
  Sound (p.run s).1 fun a => P a (p.run s).2

section Rules

variable {S T α β : Type} {P : α → S → Prop} {Q : β → S → Prop} {s : S}

theorem safe_pure {a : α} (h : P a s) : Safe (pure a : Prog S Fault α) P s := h

theorem safe_raise (error : FormatError) : Safe (.fail (.raised error) : Prog S Fault α) P s := trivial

theorem safe_step {u : S → S} {next : S → Prog S Fault α} (h : Safe (next s) P (u s)) : Safe (.step u next) P s := h

/-- A change of the state, and what follows it. -/
theorem safe_update {f : S → S} {next : Unit → Prog S Fault β} (h : Safe (next ()) Q (f s)) :
    Safe ((.update f : Prog S Fault Unit) >>= next) Q s := h

theorem safe_ofExcept {r : Res α} (h : Sound r fun a => P a s) : Safe (.ofExcept r : Prog S Fault α) P s := by
  rw [Safe, Prog.run_ofExcept]
  exact h

theorem Safe.mono {P' : α → S → Prop} {p : Prog S Fault α} (h : Safe p P s) (hP : ∀ a t, P a t → P' a t) :
    Safe p P' s := Sound.mono h fun _ ha => hP _ _ ha

theorem safe_bind {p : Prog S Fault α} {f : α → Prog S Fault β} (hp : Safe p P s) (hf : ∀ a t, P a t → Safe (f a) Q t) :
    Safe (p >>= f) Q s := by
  rw [Safe, Prog.run_bind]
  unfold Safe at hp
  rcases hrun : p.run s with ⟨r, t⟩
  rw [hrun] at hp
  match r with
  | .ok a => exact hf a t hp
  | .error (.raised _) => exact trivial

theorem safe_ite {c : Prop} [Decidable c] {p q : Prog S Fault α} (hp : c → Safe p P s) (hq : ¬ c → Safe q P s) :
    Safe (if c then p else q) P s := by
  by_cases hc : c
  · rw [if_pos hc]
    exact hp hc
  · rw [if_neg hc]
    exact hq hc

/-- A program on a part of the state. -/
theorem safe_within {part : Part T S} {p : Prog S Fault α} {t : T} {P : α → T → Prop}
    (h : Safe p (fun a s => P a (part.set s t)) (part.get t)) : Safe (p.within part) P t := by
  rw [Safe, Prog.run_within]
  exact h

end Rules

/-- A `Result` as a value: the error that is raised. A panic goes on. -/
def caught {S α : Type} (p : Prog S Fault α) : Prog S Fault (Except FormatError α) := do
  match ← p.attempt with
  | .ok a => pure (.ok a)
  | .error (.raised error) => pure (.error error)
  | .error (.panicked message) => .fail (.panicked message)

/-- Nothing is known behind an error. -/
theorem safe_caught {S α : Type} {p : Prog S Fault α} {P : α → S → Prop} {s : S} (h : Safe p P s) :
    Safe (caught p) (fun r t => ∀ a, r = .ok a → P a t) s := by
  unfold caught
  rw [Safe, Prog.run_bind, Prog.run_attempt]
  unfold Safe at h
  rcases hrun : p.run s with ⟨r, t⟩
  rw [hrun] at h
  match r with
  | .ok a =>
    rintro _ ⟨⟩
    exact h
  | .error (.raised error) =>
    rintro _ ⟨⟩

end Squallz.System
