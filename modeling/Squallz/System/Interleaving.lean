/-
Programs side by side on one state, an action of one of them at a time, and the rules by which what each of them
guarantees, relying on the others, is carried through every interleaving.
-/
import Mathlib.Logic.Function.Basic
import Squallz.System.Guarantee

namespace Squallz.System

variable {S E α ι : Type}

/-- The shared state, and what is left of each program. -/
structure Threads (S E α ι : Type) where
  state : S
  running : ι → Option (Prog S E α)

namespace Threads

variable [DecidableEq ι]

/-! ## Steps -/

def start (i : ι) (p : Prog S E α) (w : Threads S E α ι) : Option (Threads S E α ι) :=
  if w.running i = none then some { w with running := Function.update w.running i (some p) } else none

/-- The next action of a program. -/
def act (i : ι) (w : Threads S E α ι) : Option (Threads S E α ι) :=
  match w.running i with
  | some (.step u k) => some ⟨u w.state, Function.update w.running i (some (k w.state))⟩
  | _ => none

/-- Some of the programs stop for good, which may change the state. -/
def halt (gone : ι → Bool) (f : S → S) (w : Threads S E α ι) : Threads S E α ι :=
  ⟨f w.state, fun i => if gone i then none else w.running i⟩

/-! ## What is kept -/

/-- What is left of each program guarantees what it has to. -/
def Kept (rely guar : ι → S → S → Prop) (w : Threads S E α ι) : Prop :=
  ∀ i p, w.running i = some p → p.Guarantees (rely i) (guar i) (fun _ _ => True) w.state

variable {rely guar : ι → S → S → Prop} {w w' : Threads S E α ι} {i : ι} {p : Prog S E α}

theorem Kept.start (hkept : w.Kept rely guar) (hstart : w.start i p = some w')
    (hp : p.Guarantees (rely i) (guar i) (fun _ _ => True) w.state) : w'.Kept rely guar ∧ w'.state = w.state := by
  unfold Threads.start at hstart
  split at hstart
  · cases hstart
    refine ⟨fun j q hq => ?_, rfl⟩
    dsimp only at hq
    by_cases hj : j = i
    · subst hj
      rw [Function.update_self] at hq
      cases hq
      exact hp
    · rw [Function.update_of_ne hj] at hq
      exact hkept j q hq
  · cases hstart

omit [DecidableEq ι] in
private theorem guarantees_later {rely guar : S → S → Prop} (htrans : ∀ {s t u}, rely s t → rely t u → rely s u) {s t : S}
    (h : p.Guarantees rely guar (fun _ _ => True) s) (ht : rely s t) :
    p.Guarantees rely guar (fun _ _ => True) t := by
  cases p with
  | ret a => trivial
  | fail e => trivial
  | step u k => exact fun v hv => h v (htrans ht hv)

/-- The rule of the interleaving: an action does what its program guarantees, and the other programs have relied on
that. -/
theorem Kept.act (hkept : w.Kept rely guar) (hact : w.act i = some w') (hrefl : ∀ s, rely i s s)
    (htrans : ∀ j {s t u}, rely j s t → rely j t u → rely j s u)
    (hothers : ∀ j, j ≠ i → ∀ s t, guar i s t → rely j s t) : w'.Kept rely guar ∧ guar i w.state w'.state := by
  unfold Threads.act at hact
  split at hact
  · rename_i u k hrunning
    cases hact
    obtain ⟨hguar, hk⟩ := hkept i _ hrunning w.state (hrefl w.state)
    refine ⟨fun j q hq => ?_, hguar⟩
    dsimp only at hq
    by_cases hj : j = i
    · subst hj
      rw [Function.update_self] at hq
      cases hq
      exact hk
    · rw [Function.update_of_ne hj] at hq
      exact guarantees_later (@htrans j) (hkept j q hq) (hothers j hj _ _ hguar)
  · cases hact

omit [DecidableEq ι] in
theorem Kept.halt {gone : ι → Bool} {f : S → S} (hkept : w.Kept rely guar)
    (htrans : ∀ j {s t u}, rely j s t → rely j t u → rely j s u)
    (hothers : ∀ j, gone j = false → rely j w.state (f w.state)) : (w.halt gone f).Kept rely guar := by
  intro j q hq
  have hq : (if gone j then none else w.running j) = some q := hq
  show q.Guarantees (rely j) (guar j) (fun _ _ => True) (f w.state)
  cases hgone : gone j with
  | true =>
    rw [hgone] at hq
    cases hq
  | false =>
    rw [hgone] at hq
    exact guarantees_later (@htrans j) (hkept j q hq) (hothers j hgone)

end Threads

end Squallz.System
