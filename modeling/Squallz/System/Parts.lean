/-
Programs on a part of a larger state: they run there as they run alone, and leave the rest of the state.
-/
import Squallz.System.Views

namespace Squallz.System

/-- A part of a state, and the state with another value of the part. -/
structure Part (T S : Type) where
  get : T → S
  set : S → T → T
  get_set : ∀ s t, get (set s t) = s
  set_set : ∀ s s' t, set s (set s' t) = set s t
  set_get : ∀ t, set (get t) t = t

namespace Prog

variable {T S E V α : Type} (part : Part T S)

/-- A program on a part of a state. -/
def within : Prog S E α → Prog T E α
  | ret a => ret a
  | fail e => fail e
  | step u k => step (fun t => part.set (u (part.get t)) t) fun t => (k (part.get t)).within

variable {part}

theorem run_within (p : Prog S E α) (t : T) :
    (p.within part).run t = ((p.run (part.get t)).1, part.set (p.run (part.get t)).2 t) := by
  induction p generalizing t with
  | ret a =>
    rw [within, run, run, part.set_get]
  | fail e =>
    rw [within, run, run, part.set_get]
  | step u k ih =>
    rw [within, run, run, ih, part.get_set, part.set_set]

end Prog

end Squallz.System
