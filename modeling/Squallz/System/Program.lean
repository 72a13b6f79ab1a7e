/-
Programs that act on a shared state one atomic action at a time, what can be seen of a program that is
stopped between two actions, and the rules by which both this and its result are proved.
-/
import Mathlib.Logic.Relation

namespace Squallz.System

/-- A program over states `S` that fails with an `E` or returns an `α`. An action replaces the state by
`update` of it, and what follows depends on the state that the action found. -/
inductive Prog (S E α : Type)
  | ret (a : α)
  | fail (e : E)
  | step (update : S → S) (next : S → Prog S E α)

namespace Prog

variable {S E α β : Type}

/-! ## Building programs -/

def bind : Prog S E α → (α → Prog S E β) → Prog S E β
  | ret a, f => f a
  | fail e, _ => fail e
  | step u k, f => step u fun s => (k s).bind f

instance : Monad (Prog S E) where
  pure := ret
  bind := bind

theorem bind_ret_self (p : Prog S E α) : p.bind ret = p := by
  induction p with
  | ret a => rfl
  | fail e => rfl
  | step u k ih => exact congrArg (step u) (funext ih)

theorem bind_bind {γ : Type} (p : Prog S E α) (f : α → Prog S E β) (g : β → Prog S E γ) :
    (p.bind f).bind g = p.bind fun a => (f a).bind g := by
  induction p with
  | ret a => rfl
  | fail e => rfl
  | step u k ih => exact congrArg (step u) (funext ih)

instance : LawfulMonad (Prog S E) := .mk' _ bind_ret_self (fun _ _ => rfl) bind_bind

/-- The result of a program as a value. -/
def attempt : Prog S E α → Prog S E (Except E α)
  | ret a => ret (.ok a)
  | fail e => ret (.error e)
  | step u k => step u fun s => (k s).attempt

def ofExcept : Except E α → Prog S E α
  | .ok a => ret a
  | .error e => fail e

/-- Reads the state. -/
def observe (f : S → Except E α) : Prog S E α := step id fun s => ofExcept (f s)

/-- A change of the state that cannot be refused. -/
def update (f : S → S) : Prog S E Unit := step f fun _ => ret ()

/-- One change of the state, and whether it was made; where it is refused the state stays as it is. -/
def act {X : Type} (f : S → Except X (α × S)) : Prog S E (Except X α) :=
  step (fun s => match f s with | .ok (_, t) => t | .error _ => s) fun s => ret ((f s).map Prod.fst)

/-! ## Running programs -/

/-- The result of a program and the state it ends in, when nothing else acts on the state. -/
def run : Prog S E α → S → Except E α × S
  | ret a, s => (.ok a, s)
  | fail e, s => (.error e, s)
  | step u k, s => (k s).run (u s)

/-- The states in which a program can be found: the first one, and that after each action. -/
def Visits : Prog S E α → S → S → Prop
  | ret _, s, t => t = s
  | fail _, s, t => t = s
  | step u k, s, t => t = s ∨ (k s).Visits (u s) t

/-- The states that runs of a program lead to, each of them stopped anywhere and the next one started
where it stopped. -/
def Restarts (p : Prog S E α) : S → S → Prop := Relation.ReflTransGen p.Visits

/-- The condition `C` holds in every state in which the program can be found, and its result and its
last state meet `Q`. -/
def Ensures (C : S → Prop) : Prog S E α → (Except E α → S → Prop) → S → Prop
  | ret a, Q, s => C s ∧ Q (.ok a) s
  | fail e, Q, s => C s ∧ Q (.error e) s
  | step u k, Q, s => C s ∧ (k s).Ensures C Q (u s)

theorem visits_run (p : Prog S E α) (s : S) : p.Visits s (p.run s).2 := by
  induction p generalizing s with
  | ret a => rfl
  | fail e => rfl
  | step u k ih => exact .inr (ih s (u s))

theorem visits_start (p : Prog S E α) (s : S) : p.Visits s s := by
  cases p with
  | ret a => rfl
  | fail e => rfl
  | step u k => exact .inl rfl

theorem ensures_iff {C : S → Prop} {Q : Except E α → S → Prop} {p : Prog S E α} {s : S} :
    p.Ensures C Q s ↔ (∀ t, p.Visits s t → C t) ∧ Q (p.run s).1 (p.run s).2 := by
  induction p generalizing s with
  | ret a => simp [Ensures, Visits, run]
  | fail e => simp [Ensures, Visits, run]
  | step u k ih =>
    rw [Ensures, ih]
    constructor
    · rintro ⟨hs, hv, hQ⟩
      refine ⟨?_, hQ⟩
      rintro t (rfl | ht)
      · exact hs
      · exact hv t ht
    · rintro ⟨hv, hQ⟩
      exact ⟨hv s (.inl rfl), fun t ht => hv t (.inr ht), hQ⟩

namespace Ensures

variable {C D : S → Prop} {p : Prog S E α} {Q R : Except E α → S → Prop} {s t : S}

theorem visits (h : p.Ensures C Q s) (ht : p.Visits s t) : C t := (ensures_iff.1 h).1 t ht

theorem result (h : p.Ensures C Q s) : Q (p.run s).1 (p.run s).2 := (ensures_iff.1 h).2

theorem start (h : p.Ensures C Q s) : C s := h.visits (visits_start p s)

theorem mono (h : p.Ensures C Q s) (hC : ∀ t, C t → D t) (hQ : ∀ r t, D t → Q r t → R r t) :
    p.Ensures D R s := by
  rw [ensures_iff] at h ⊢
  exact ⟨fun t ht => hC t (h.1 t ht), hQ _ _ (hC _ (h.1 _ (visits_run p s))) h.2⟩

theorem post (h : p.Ensures C Q s) (hQ : ∀ r t, C t → Q r t → R r t) : p.Ensures C R s :=
  h.mono (fun _ ht => ht) hQ

end Ensures

/-! ## Results -/

section Run

variable {s t : S}

theorem run_bind (p : Prog S E α) (f : α → Prog S E β) (s : S) : (p >>= f).run s = match p.run s with
    | (.ok a, t) => (f a).run t
    | (.error e, t) => (.error e, t) := by
  show (p.bind f).run s = _
  induction p generalizing s with
  | ret a => rfl
  | fail e => rfl
  | step u k ih => exact ih s (u s)

/-- A sequence ends well if its parts do, the second one started where the first one ended. -/
theorem run_bind_eq_ok {p : Prog S E α} {f : α → Prog S E β} {b : β} :
    (p >>= f).run s = (.ok b, t) ↔ ∃ a u, p.run s = (.ok a, u) ∧ (f a).run u = (.ok b, t) := by
  rw [run_bind]
  rcases p.run s with ⟨e | a, u⟩
  · simp
  · constructor
    · intro h
      exact ⟨a, u, rfl, h⟩
    · rintro ⟨a', u', heq, h⟩
      cases heq
      exact h

@[simp] theorem run_ret (a : α) : (ret a : Prog S E α).run s = (.ok a, s) := rfl

@[simp] theorem run_fail (e : E) : (fail e : Prog S E α).run s = (.error e, s) := rfl

theorem run_ofExcept (r : Except E α) : (ofExcept r : Prog S E α).run s = (r, s) := by
  cases r <;> rfl

theorem run_observe (f : S → Except E α) : (observe f).run s = (f s, s) := run_ofExcept (f s)

theorem run_observe_eq_ok {f : S → Except E α} {a : α} :
    (observe f).run s = (.ok a, t) ↔ f s = .ok a ∧ t = s := by
  rw [run_observe, Prod.mk.injEq, eq_comm (a := s)]

/-- A sequence that begins with a read ends well if the read does and what follows does in the same state. -/
theorem run_observe_then {f : S → Except E α} {k : α → Prog S E β} {b : β} :
    (observe f >>= k).run s = (.ok b, t) ↔ ∃ a, f s = .ok a ∧ (k a).run s = (.ok b, t) := by
  rw [run_bind, run_observe]
  cases f s with
  | error e => simp
  | ok a => simp

theorem run_update (f : S → S) : (update f : Prog S E Unit).run s = (.ok (), f s) := rfl

theorem run_act {X : Type} (f : S → Except X (α × S)) : (act f : Prog S E (Except X α)).run s = match f s with
    | .ok (a, t) => (.ok (.ok a), t)
    | .error e => (.ok (.error e), s) := by
  rw [act, run, run_ret]
  cases f s <;> rfl

theorem run_attempt (p : Prog S E α) : p.attempt.run s = (.ok (p.run s).1, (p.run s).2) := by
  induction p generalizing s with
  | ret a => rfl
  | fail e => rfl
  | step u k ih => exact ih s

theorem run_attempt_eq {p : Prog S E α} {r : Except E α} : p.attempt.run s = (.ok r, t) ↔ p.run s = (r, t) := by
  rw [run_attempt]
  constructor
  · intro h
    cases h
    rfl
  · intro h
    rw [h]

theorem run_ofExcept_then {r : Except E α} {k : α → Prog S E β} {b : β} :
    (ofExcept r >>= k).run s = (.ok b, t) ↔ ∃ a, r = .ok a ∧ (k a).run s = (.ok b, t) := by
  rw [run_bind, run_ofExcept]
  cases r with
  | error e => simp
  | ok a => simp

end Run

/-! ## The rules -/

section Rules

variable {C : S → Prop} {s : S}

@[simp] theorem ensures_pure {Q : Except E α → S → Prop} {a : α} :
    (pure a : Prog S E α).Ensures C Q s ↔ C s ∧ Q (.ok a) s := Iff.rfl

@[simp] theorem ensures_ret {Q : Except E α → S → Prop} {a : α} :
    (ret a : Prog S E α).Ensures C Q s ↔ C s ∧ Q (.ok a) s := Iff.rfl

@[simp] theorem ensures_fail {Q : Except E α → S → Prop} {e : E} :
    (fail e : Prog S E α).Ensures C Q s ↔ C s ∧ Q (.error e) s := Iff.rfl

/-- A sequence: the second part starts where the first one ended well. -/
theorem ensures_bind {p : Prog S E α} {f : α → Prog S E β} {Q : Except E β → S → Prop} :
    (p >>= f).Ensures C Q s ↔ p.Ensures C (fun r t => match r with
      | .ok a => (f a).Ensures C Q t
      | .error e => Q (.error e) t) s := by
  show (p.bind f).Ensures C Q s ↔ _
  induction p generalizing s with
  | ret a =>
    constructor
    · intro h
      exact ⟨h.start, h⟩
    · rintro ⟨-, h⟩
      exact h
  | fail e => exact Iff.rfl
  | step u k ih => exact and_congr Iff.rfl (ih s)

theorem ensures_attempt {p : Prog S E α} {Q : Except E (Except E α) → S → Prop} :
    p.attempt.Ensures C Q s ↔ p.Ensures C (fun r => Q (.ok r)) s := by
  induction p generalizing s with
  | ret a => exact Iff.rfl
  | fail e => exact Iff.rfl
  | step u k ih => exact and_congr Iff.rfl (ih s)

theorem ensures_ofExcept {r : Except E α} {Q : Except E α → S → Prop} :
    (ofExcept r : Prog S E α).Ensures C Q s ↔ C s ∧ Q r s := by
  cases r <;> exact Iff.rfl

theorem ensures_observe {f : S → Except E α} {Q : Except E α → S → Prop} :
    (observe f).Ensures C Q s ↔ C s ∧ Q (f s) s := by
  show C s ∧ (ofExcept (f s)).Ensures C Q s ↔ _
  rw [ensures_ofExcept]
  exact ⟨fun h => h.2, fun h => ⟨h.1, h⟩⟩

theorem ensures_act {X : Type} {f : S → Except X (α × S)} {Q : Except E (Except X α) → S → Prop} :
    (act f).Ensures C Q s ↔ C s ∧ match f s with
      | .ok (a, t) => C t ∧ Q (.ok (.ok a)) t
      | .error e => Q (.ok (.error e)) s := by
  rw [act, Ensures, ensures_ret]
  cases h : f s with
  | error e => exact ⟨fun h => ⟨h.1, h.2.2⟩, fun h => ⟨h.1, h.1, h.2⟩⟩
  | ok r => exact Iff.rfl

@[simp] theorem ret_bind (a : α) (f : α → Prog S E β) : (ret a >>= f) = f a := rfl

@[simp] theorem fail_bind (e : E) (f : α → Prog S E β) : ((fail e : Prog S E α) >>= f) = fail e := rfl

/-- A read that succeeds, and what follows it in the same state. -/
theorem ensures_observe_then {f : S → Except E α} {k : α → Prog S E β} {Q : Except E β → S → Prop} {a : α}
    (hf : f s = .ok a) (h : (k a).Ensures C Q s) : (observe f >>= k).Ensures C Q s := by
  rw [ensures_bind, ensures_observe, hf]
  exact ⟨h.start, h⟩

/-- A change that is made, and what follows it in the new state. -/
theorem ensures_act_then {X : Type} {f : S → Except X (α × S)} {k : Except X α → Prog S E β}
    {Q : Except E β → S → Prop} {a : α} {t : S} (hs : C s) (hf : f s = .ok (a, t)) (h : (k (.ok a)).Ensures C Q t) :
    (act f >>= k).Ensures C Q s := by
  rw [ensures_bind, ensures_act, hf]
  exact ⟨hs, h.start, h⟩

/-- A first part that ends well in a state from which the second part does what is asked. -/
theorem ensures_then {p : Prog S E α} {k : α → Prog S E β} {Q : Except E β → S → Prop} {R : α → S → Prop}
    (hp : p.Ensures C (fun r t => ∃ a, r = .ok a ∧ R a t) s) (h : ∀ a t, R a t → (k a).Ensures C Q t) :
    (p >>= k).Ensures C Q s := by
  rw [ensures_bind]
  refine hp.post ?_
  rintro r t - ⟨a, rfl, hR⟩
  exact h a t hR

/-- A loop: what holds of the elements done so far is carried over each element, and a failing element
ends the loop. -/
theorem ensures_forM {l : List α} {f : α → Prog S E PUnit} {Q : Except E PUnit → S → Prop}
    (I : List α → List α → S → Prop)
    (hbody : ∀ done a rest t, l = done ++ a :: rest → I done (a :: rest) t → (f a).Ensures C (fun r t' => match r with
      | .ok _ => I (done ++ [a]) rest t'
      | .error e => Q (.error e) t') t)
    (hend : ∀ t, C t → I l [] t → Q (.ok ⟨⟩) t) (hs : C s) (hstart : I [] l s) : (l.forM f).Ensures C Q s := by
  suffices h : ∀ rest done s, l = done ++ rest → C s → I done rest s → (rest.forM f).Ensures C Q s from
    h l [] s rfl hs hstart
  intro rest
  induction rest with
  | nil =>
    intro done s hl hs hI
    rw [List.append_nil] at hl
    subst hl
    exact ⟨hs, hend s hs hI⟩
  | cons a rest ih =>
    intro done s hl hs hI
    show (f a >>= fun _ => rest.forM f).Ensures C Q s
    rw [ensures_bind]
    refine (hbody done a rest s hl hI).post fun r t ht hr => ?_
    cases r with
    | error e => exact hr
    | ok u => exact ih (done ++ [a]) t (by rw [hl, List.append_assoc]; rfl) ht hr

/-- A loop whose turns all end well: what holds of the elements done so far is carried over each. -/
theorem ensures_forM_ok {l : List α} {f : α → Prog S E PUnit} (I : List α → List α → S → Prop)
    (hbody : ∀ done a rest t, l = done ++ a :: rest → I done (a :: rest) t →
      (f a).Ensures C (fun r t' => ∃ u, r = .ok u ∧ I (done ++ [a]) rest t') t)
    (hs : C s) (hstart : I [] l s) : (l.forM f).Ensures C (fun r t => ∃ u, r = .ok u ∧ I l [] t) s := by
  refine ensures_forM I (fun done a rest t hl hI => ?_) (fun t _ hI => ⟨⟨⟩, rfl, hI⟩) hs hstart
  refine (hbody done a rest t hl hI).post ?_
  rintro r t' - ⟨u, rfl, hI'⟩
  exact hI'

/-- What each run keeps, started where the condition holds, holds wherever stopped and restarted runs
lead. -/
theorem restarts_invariant {p : Prog S E α} {t : S} (hp : ∀ u, C u → ∀ v, p.Visits u v → C v) (hs : C s)
    (h : p.Restarts s t) : C t := by
  induction h with
  | refl => exact hs
  | tail _ hv ih => exact hp _ ih _ hv

end Rules

end Prog

end Squallz.System
