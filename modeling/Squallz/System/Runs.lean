/-
Runs of a transition system whose step is a partial function of the action and the state, and the
rules by which what every step keeps is kept by every run.
-/
import Mathlib.Data.List.Basic

namespace Squallz.System

variable {A S : Type} (step : A → S → Option S)

/-- The state after a list of actions, if every one of them can be taken. -/
def run : List A → S → Option S
  | [], s => some s
  | a :: as, s => (step a s).bind (run as)

variable {step}

@[simp] theorem run_nil (s : S) : run step [] s = some s := rfl

theorem run_cons {a : A} {as : List A} {s t : S} :
    run step (a :: as) s = some t ↔ ∃ m, step a s = some m ∧ run step as m = some t :=
  Option.bind_eq_some_iff

theorem run_append {as bs : List A} {s t : S} :
    run step (as ++ bs) s = some t ↔ ∃ m, run step as s = some m ∧ run step bs m = some t := by
  induction as generalizing s with
  | nil => simp
  | cons a as ih =>
    rw [List.cons_append, run_cons]
    constructor
    · rintro ⟨m, hstep, hrun⟩
      obtain ⟨m', has, hbs⟩ := ih.1 hrun
      exact ⟨m', run_cons.2 ⟨m, hstep, has⟩, hbs⟩
    · rintro ⟨m', has, hbs⟩
      obtain ⟨m, hstep, has⟩ := run_cons.1 has
      exact ⟨m, hstep, ih.2 ⟨m', has, hbs⟩⟩

theorem run_concat {as : List A} {a : A} {s t : S} :
    run step (as ++ [a]) s = some t ↔ ∃ m, run step as s = some m ∧ step a m = some t := by
  rw [run_append]
  constructor
  · rintro ⟨m, has, ha⟩
    obtain ⟨m', ha, hnil⟩ := run_cons.1 ha
    cases hnil
    exact ⟨m, has, ha⟩
  · rintro ⟨m, has, ha⟩
    exact ⟨m, has, run_cons.2 ⟨t, ha, rfl⟩⟩

/-- What every step keeps, every run keeps. -/
theorem run_invariant {I : S → Prop} (hstep : ∀ a s t, I s → step a s = some t → I t) {as : List A} {s t : S}
    (hrun : run step as s = some t) (hs : I s) : I t := by
  induction as generalizing s with
  | nil =>
    cases hrun
    exact hs
  | cons a as ih =>
    obtain ⟨m, ha, has⟩ := run_cons.1 hrun
    exact ih has (hstep a s m hs ha)

/-- The actions of a run that meet a condition in the state they are taken in. -/
def Meets (step : A → S → Option S) (C : A → S → Prop) : List A → S → Prop
  | [], _ => True
  | a :: as, s => C a s ∧ ∀ m, step a s = some m → Meets step C as m

/-- What every step that meets a condition keeps, every run of such steps keeps. -/
theorem run_invariant_of_meets {C : A → S → Prop} {I : S → Prop}
    (hstep : ∀ a s t, I s → C a s → step a s = some t → I t) {as : List A} {s t : S} (hmeets : Meets step C as s)
    (hrun : run step as s = some t) (hs : I s) : I t := by
  induction as generalizing s with
  | nil =>
    cases hrun
    exact hs
  | cons a as ih =>
    obtain ⟨m, ha, has⟩ := run_cons.1 hrun
    exact ih (hmeets.2 m ha) has (hstep a s m hs hmeets.1 ha)

theorem meets_append {C : A → S → Prop} {as bs : List A} {s : S} :
    Meets step C (as ++ bs) s ↔ Meets step C as s ∧ ∀ m, run step as s = some m → Meets step C bs m := by
  induction as generalizing s with
  | nil => simp [Meets]
  | cons a as ih =>
    rw [List.cons_append, Meets, Meets]
    constructor
    · rintro ⟨ha, hrest⟩
      refine ⟨⟨ha, fun m hm => (ih.1 (hrest m hm)).1⟩, fun m' hrun => ?_⟩
      obtain ⟨m, hm, hrun⟩ := run_cons.1 hrun
      exact (ih.1 (hrest m hm)).2 m' hrun
    · rintro ⟨⟨ha, hrest⟩, hbs⟩
      exact ⟨ha, fun m hm => ih.2 ⟨hrest m hm, fun m' hrun => hbs m' (run_cons.2 ⟨m, hm, hrun⟩)⟩⟩

/-- A condition that every taken step meets in a state that keeps an invariant, which the step then keeps,
is met by the run. -/
theorem meets_of_steps {C : A → S → Prop} {I : S → Prop} {as : List A} {s t : S} (hrun : run step as s = some t)
    (hs : I s)
    (h : ∀ before a after m n, as = before ++ a :: after → run step before s = some m → step a m = some n →
      I m → C a m ∧ I n) : Meets step C as s := by
  induction as generalizing s with
  | nil => trivial
  | cons a as ih =>
    obtain ⟨m, ha, has⟩ := run_cons.1 hrun
    have hfirst := h [] a as s m rfl rfl ha hs
    refine ⟨hfirst.1, fun m' hm' => ?_⟩
    rw [ha] at hm'
    cases hm'
    refine ih has hfirst.2 fun before b after n n' heq hn hstep hI => ?_
    exact h (a :: before) b after n n' (by rw [heq]; rfl) (run_cons.2 ⟨m, ha, hn⟩) hstep hI

/-! ## What a run has done -/

/-- Something holds of what has been done since one of the times an action was taken. -/
def Since (done : List A) (start : A) (P : List A → Prop) : Prop := ∃ before after, done = before ++ start :: after ∧ P after

theorem Since.start {done : List A} {a : A} {P : List A → Prop} (h : P []) : Since (done ++ [a]) a P :=
  ⟨done, [], rfl, h⟩

/-- One more action. -/
theorem Since.snoc {done : List A} {start a : A} {P Q : List A → Prop} (h : Since done start P)
    (hQ : ∀ after, P after → Q (after ++ [a])) : Since (done ++ [a]) start Q := by
  obtain ⟨before, after, rfl, hP⟩ := h
  exact ⟨before, after ++ [a], by rw [List.append_assoc, List.cons_append], hQ after hP⟩

/-- What a run has done and the state it has come to, kept by every step, are kept by every run. -/
theorem run_history {step : A → S → Option S} {I : List A → S → Prop}
    (hstep : ∀ done a s t, I done s → step a s = some t → I (done ++ [a]) t) {as : List A} {s t : S}
    (hrun : run step as s = some t) (hs : I [] s) : I as t := by
  suffices h : ∀ (as done : List A) (s : S), run step as s = some t → I done s → I (done ++ as) t from h as [] s hrun hs
  intro as
  induction as with
  | nil =>
    intro done s hrun hs
    cases hrun
    rwa [List.append_nil]
  | cons a as ih =>
    intro done s hrun hs
    obtain ⟨m, ha, has⟩ := run_cons.1 hrun
    have hrest := ih (done ++ [a]) m has (hstep done a s m hs ha)
    rwa [List.append_assoc] at hrest

end Squallz.System
