/-
What a program ends with, well or badly, and the rules by which this is proved for programs built from smaller ones.
-/
import Squallz.System.Parts

namespace Squallz.System

/-- The result of a program that is run from a state, and its last state, meet a condition. -/
def Ends {S E α : Type} (p : Prog S E α) (Q : Except E α → S → Prop) (s : S) : Prop := Q (p.run s).1 (p.run s).2

section Rules

variable {S T E V α β : Type} {s : S}

theorem ends_pure {a : α} {Q : Except E α → S → Prop} (h : Q (.ok a) s) : Ends (pure a : Prog S E α) Q s := h

theorem ends_fail {e : E} {Q : Except E α → S → Prop} (h : Q (.error e) s) : Ends (.fail e : Prog S E α) Q s := h

theorem ends_step {u : S → S} {next : S → Prog S E α} {Q : Except E α → S → Prop} (h : Ends (next s) Q (u s)) :
    Ends (.step u next) Q s := h

/-- A change of the state, and what follows it. -/
theorem ends_update {f : S → S} {next : Unit → Prog S E α} {Q : Except E α → S → Prop} (h : Ends (next ()) Q (f s)) :
    Ends ((.update f : Prog S E Unit) >>= next) Q s := h

theorem ends_ofExcept {r : Except E α} {Q : Except E α → S → Prop} (h : Q r s) :
    Ends (.ofExcept r : Prog S E α) Q s := by
  rw [Ends, Prog.run_ofExcept]
  exact h

theorem ends_ok {a : α} {next : α → Prog S E β} {Q : Except E β → S → Prop} (h : Ends (next a) Q s) :
    Ends ((.ofExcept (.ok a) : Prog S E α) >>= next) Q s := h

theorem Ends.mono {p : Prog S E α} {Q R : Except E α → S → Prop} (h : Ends p Q s) (hQ : ∀ r t, Q r t → R r t) :
    Ends p R s := hQ _ _ h

/-- A sequence: the second part starts where the first one ended well. -/
theorem ends_bind {p : Prog S E α} {f : α → Prog S E β} {P : Except E α → S → Prop} {Q : Except E β → S → Prop}
    (hp : Ends p P s) (hok : ∀ a t, P (.ok a) t → Ends (f a) Q t) (herror : ∀ e t, P (.error e) t → Q (.error e) t) :
    Ends (p >>= f) Q s := by
  rw [Ends, Prog.run_bind]
  unfold Ends at hp
  rcases hrun : p.run s with ⟨r, t⟩
  rw [hrun] at hp
  match r with
  | .ok a => exact hok a t hp
  | .error e => exact herror e t hp

theorem ends_ite {c : Prop} [Decidable c] {p q : Prog S E α} {Q : Except E α → S → Prop} (hp : c → Ends p Q s)
    (hq : ¬ c → Ends q Q s) : Ends (if c then p else q) Q s := by
  by_cases hc : c
  · rw [if_pos hc]
    exact hp hc
  · rw [if_neg hc]
    exact hq hc

/-- A result that is looked at first. -/
theorem ends_ofExcept_bind {r : Except E α} {next : α → Prog S E β} {Q : Except E β → S → Prop}
    (hok : ∀ a, r = .ok a → Ends (next a) Q s) (herror : ∀ e, r = .error e → Q (.error e) s) :
    Ends ((.ofExcept r : Prog S E α) >>= next) Q s := by
  cases r with
  | ok a => exact hok a rfl
  | error e => exact herror e rfl

theorem ends_attempt {p : Prog S E α} {Q : Except E (Except E α) → S → Prop} (h : Ends p (fun r t => Q (.ok r) t) s) :
    Ends p.attempt Q s := by
  rw [Ends, Prog.run_attempt]
  exact h

/-- A program on a part of the state. -/
theorem ends_within {part : Part T S} {p : Prog S E α} {Q : Except E α → T → Prop} {t : T}
    (h : Ends p (fun r s => Q r (part.set s t)) (part.get t)) : Ends (p.within part) Q t := by
  rw [Ends, Prog.run_within]
  exact h

theorem ends_true (p : Prog S E α) : Ends p (fun _ _ => True) s := trivial

end Rules

end Squallz.System
