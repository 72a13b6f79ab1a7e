/-
Programs seen through a view of their state: what holds of the view in every state of a run and after a run that succeeds,
and programs that leave the view as it is.
-/
import Squallz.System.Program

namespace Squallz.System.Prog

variable {S E V α β : Type} (view : S → V)

/-- A program that never changes the view. -/
def Blind (p : Prog S E α) : Prop := ∀ s, p.Ensures (fun t => view t = view s) (fun _ _ => True) s

/-- The condition `K` holds of the view in every state in which the program can be found, and `P` of the value and the view
that it succeeds with. -/
def Sees (K : V → Prop) (p : Prog S E α) (P : α → V → Prop) (s : S) : Prop :=
  p.Ensures (fun t => K (view t)) (fun r t => ∀ a, r = .ok a → P a (view t)) s

variable {view}

/-! ## Programs that leave the view -/

theorem blind_pure (a : α) : Blind view (pure a : Prog S E α) := fun _ => ⟨rfl, trivial⟩

theorem blind_ret (a : α) : Blind view (ret a : Prog S E α) := fun _ => ⟨rfl, trivial⟩

theorem blind_fail (e : E) : Blind view (fail e : Prog S E α) := fun _ => ⟨rfl, trivial⟩

theorem blind_ofExcept (r : Except E α) : Blind view (ofExcept r : Prog S E α) := by
  cases r with
  | ok a => exact blind_ret a
  | error e => exact blind_fail e

theorem blind_step {u : S → S} {next : S → Prog S E α} (hu : ∀ s, view (u s) = view s)
    (hnext : ∀ s, Blind view (next s)) : Blind view (step u next) := by
  intro s
  refine ⟨rfl, (hnext s (u s)).mono (fun t ht => ?_) fun _ _ _ _ => trivial⟩
  rw [ht, hu s]

theorem blind_bind {p : Prog S E α} {f : α → Prog S E β} (hp : Blind view p) (hf : ∀ a, Blind view (f a)) :
    Blind view (p >>= f) := by
  intro s
  rw [ensures_bind]
  refine (hp s).post fun r t ht _ => ?_
  cases r with
  | error e => trivial
  | ok a => exact (hf a t).mono (fun u hu => by rw [hu, ht]) fun _ _ _ _ => trivial

theorem blind_attempt {p : Prog S E α} (hp : Blind view p) : Blind view p.attempt := fun s =>
  ensures_attempt.2 ((hp s).post fun _ _ _ _ => trivial)

/-- A program that leaves the view, in states of which a condition holds. -/
theorem Blind.ensures {K : V → Prop} {p : Prog S E α} {s : S} (hp : Blind view p) (hK : K (view s)) :
    p.Ensures (fun t => K (view t)) (fun _ t => view t = view s) s :=
  ((hp s).post fun _ _ ht _ => ht).mono (fun _ ht => ht ▸ hK) fun _ _ _ ht => ht

/-! ## Programs seen through the view -/

section Sees

variable {K : V → Prop} {p : Prog S E α} {P : α → V → Prop} {Q : β → V → Prop} {f : α → Prog S E β} {s : S}

theorem Sees.start (h : Sees view K p P s) : K (view s) := by
  unfold Sees at h
  exact h.start

theorem sees_pure {a : α} (hK : K (view s)) (h : P a (view s)) : Sees view K (pure a : Prog S E α) P s := by
  unfold Sees
  refine ⟨hK, fun b hb => ?_⟩
  cases hb
  exact h

theorem sees_fail {e : E} (hK : K (view s)) : Sees view K (fail e : Prog S E α) P s := by
  unfold Sees
  refine ⟨hK, fun a ha => ?_⟩
  cases ha

theorem sees_step {u : S → S} {next : S → Prog S E α} (hK : K (view s)) (h : Sees view K (next s) P (u s)) :
    Sees view K (step u next) P s := ⟨hK, h⟩

theorem sees_bind (hp : Sees view K p P s) (hf : ∀ a t, K (view t) → P a (view t) → Sees view K (f a) Q t) :
    Sees view K (p >>= f) Q s := by
  unfold Sees at hp ⊢
  rw [ensures_bind]
  refine hp.post fun r t ht hr => ?_
  cases r with
  | error e =>
    intro b hb
    cases hb
  | ok a => exact hf a t ht (hr a rfl)

theorem Sees.post {R : α → V → Prop} (h : Sees view K p P s) (hR : ∀ a v, K v → P a v → R a v) :
    Sees view K p R s := by
  unfold Sees at h ⊢
  exact h.post fun _ t ht hr a ha => hR a _ ht (hr a ha)

theorem Sees.run_eq_ok {a : α} {t : S} (h : Sees view K p P s) (hrun : p.run s = (.ok a, t)) : P a (view t) := by
  unfold Sees at h
  have hresult := h.result
  rw [hrun] at hresult
  exact hresult a rfl

theorem Sees.visits {t : S} (h : Sees view K p P s) (ht : p.Visits s t) : K (view t) := by
  unfold Sees at h
  exact h.visits ht

/-- A program that leaves the view leaves what holds of it. -/
theorem Blind.sees (hp : Blind view p) (hK : K (view s)) : Sees view K p (fun _ v => v = view s) s := by
  unfold Sees
  exact (hp.ensures hK).post fun _ _ _ ht _ _ => ht

/-- After a program that leaves the view the rest begins with the same view. -/
theorem Blind.sees_bind (hp : Blind view p) (hK : K (view s)) (hf : ∀ a t, view t = view s → Sees view K (f a) Q t) :
    Sees view K (p >>= f) Q s :=
  Prog.sees_bind (hp.sees hK) fun a t _ ht => hf a t ht

/-- The result of a program as a value: nothing but `K` is known after a failure. -/
theorem sees_attempt (h : Sees view K p P s) : Sees view K p.attempt (fun r v => ∀ a, r = .ok a → P a v) s := by
  unfold Sees at h ⊢
  rw [ensures_attempt]
  refine h.post fun r t _ hr r' hr' => ?_
  cases hr'
  exact hr

end Sees

/-! ## Programs that may fail -/

section Leaves

variable {p : Prog S E α} {P : α → S → Prop} {Q : β → S → Prop} {F G : S → Prop} {f : α → Prog S E β} {s : S}

/-- The state in which the program ends is as `P` says where it succeeds, and as `F` says where it fails. -/
def Leaves (p : Prog S E α) (P : α → S → Prop) (F : S → Prop) (s : S) : Prop :=
  (∀ a t, p.run s = (.ok a, t) → P a t) ∧ ∀ e t, p.run s = (.error e, t) → F t

theorem leaves_pure {a : α} (h : P a s) : (pure a : Prog S E α).Leaves P F s := by
  constructor
  · rintro b t hrun
    cases hrun
    exact h
  · rintro e t hrun
    cases hrun

theorem leaves_fail {e : E} (h : F s) : (fail e : Prog S E α).Leaves P F s := by
  constructor
  · rintro a t hrun
    cases hrun
  · rintro e' t hrun
    cases hrun
    exact h

theorem leaves_step {u : S → S} {next : S → Prog S E α} (h : (next s).Leaves P F (u s)) : (step u next).Leaves P F s := h

theorem leaves_bind (hp : p.Leaves P F s) (hf : ∀ a t, P a t → (f a).Leaves Q F t) : (p >>= f).Leaves Q F s := by
  unfold Leaves
  rw [run_bind]
  cases hrun : p.run s with
  | mk r t =>
    cases r with
    | ok a => exact hf a t (hp.1 a t hrun)
    | error e =>
      constructor
      · rintro b u heq
        cases heq
      · rintro e' u heq
        cases heq
        exact hp.2 e t hrun

theorem leaves_attempt (hp : p.Leaves P F s) : p.attempt.Leaves
    (fun r t => match r with | .ok a => P a t | .error _ => F t) G s := by
  constructor
  · rintro r t hrun
    rw [run_attempt_eq] at hrun
    cases r with
    | ok a => exact hp.1 a t hrun
    | error e => exact hp.2 e t hrun
  · rintro e t hrun
    rw [run_attempt] at hrun
    cases hrun

theorem Leaves.mono {P' : α → S → Prop} (h : p.Leaves P F s) (hP : ∀ a t, P a t → P' a t) (hF : ∀ t, F t → G t) :
    p.Leaves P' G s :=
  ⟨fun a t hrun => hP a t (h.1 a t hrun), fun e t hrun => hF t (h.2 e t hrun)⟩

/-- A program that leaves the view ends with the same view. -/
theorem Blind.leaves (hp : Blind view p) : p.Leaves (fun _ t => view t = view s) (fun t => view t = view s) s := by
  have h := (hp s).visits (visits_run p s)
  constructor
  · rintro a t hrun
    rw [hrun] at h
    exact h
  · rintro e t hrun
    rw [hrun] at h
    exact h

theorem Blind.leaves_bind (hp : Blind view p) (hF : ∀ t, view t = view s → F t)
    (hf : ∀ a t, view t = view s → (f a).Leaves Q F t) : (p >>= f).Leaves Q F s :=
  Prog.leaves_bind (hp.leaves.mono (fun _ _ h => h) hF) hf

end Leaves

/-! ## Programs that succeed -/

section Succeeds

variable {p : Prog S E α} {f : α → Prog S E β} {s : S}

/-- The program succeeds, with a value and a state that are as `P` says. -/
def Succeeds (p : Prog S E α) (P : α → S → Prop) (s : S) : Prop := ∃ a t, p.run s = (.ok a, t) ∧ P a t

theorem succeeds_bind {P : α → S → Prop} {Q : β → S → Prop} (hp : p.Succeeds P s)
    (hf : ∀ a t, P a t → (f a).Succeeds Q t) : (p >>= f).Succeeds Q s := by
  obtain ⟨a, t, hrun, ha⟩ := hp
  obtain ⟨b, u, hb, hQ⟩ := hf a t ha
  exact ⟨b, u, run_bind_eq_ok.2 ⟨a, t, hrun, hb⟩, hQ⟩

/-- The first part of a program is run, and the rest follows. -/
theorem succeeds_then {a : α} {t : S} {Q : β → S → Prop} (hp : p.run s = (.ok a, t)) (hf : (f a).Succeeds Q t) :
    (p >>= f).Succeeds Q s := by
  obtain ⟨b, u, hb, hQ⟩ := hf
  exact ⟨b, u, run_bind_eq_ok.2 ⟨a, t, hp, hb⟩, hQ⟩

theorem succeeds_attempt {P : α → S → Prop} (h : p.Succeeds P s) :
    p.attempt.Succeeds (fun r t => ∃ a, r = .ok a ∧ P a t) s := by
  obtain ⟨a, t, hrun, ha⟩ := h
  exact ⟨.ok a, t, run_attempt_eq.2 hrun, a, rfl, ha⟩

end Succeeds

end Squallz.System.Prog
