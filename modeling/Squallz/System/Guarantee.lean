/-
What every single action of a program changes, whatever others do to the state before it, and the rules by
which this is proved along with the program's result.
-/
import Squallz.System.Program

namespace Squallz.System.Prog

variable {S E F α β : Type}

/-- The program with another error for each of its own. -/
def mapError (f : E → F) : Prog S E α → Prog S F α
  | ret a => ret a
  | fail e => fail (f e)
  | step u k => step u fun s => (k s).mapError f

/-- The actions of a program, each as the state it finds and the state it leaves, where others may change
the state by `rely` before any of them. -/
def Acts (rely : S → S → Prop) : Prog S E α → S → S → S → Prop
  | ret _, _, _, _ => False
  | fail _, _, _, _ => False
  | step u k, s, t, t' => ∃ v, rely s v ∧ ((t = v ∧ t' = u v) ∨ (k v).Acts rely (u v) t t')

/-- Every action of the program changes the state by `guar`, and its result and the state that its last
action leaves meet `Q`. -/
def Guarantees (rely guar : S → S → Prop) : Prog S E α → (Except E α → S → Prop) → S → Prop
  | ret a, Q, s => Q (.ok a) s
  | fail e, Q, s => Q (.error e) s
  | step u k, Q, s => ∀ v, rely s v → guar v (u v) ∧ (k v).Guarantees rely guar Q (u v)

variable {rely guar : S → S → Prop} {s t t' : S}

namespace Guarantees

variable {p : Prog S E α} {Q R : Except E α → S → Prop}

theorem acts (h : p.Guarantees rely guar Q s) (ht : p.Acts rely s t t') : guar t t' := by
  induction p generalizing s with
  | ret a => cases ht
  | fail e => cases ht
  | step u k ih =>
    obtain ⟨v, hv, ⟨rfl, rfl⟩ | ht⟩ := ht
    · exact (h _ hv).1
    · exact ih v (h v hv).2 ht

theorem post (h : p.Guarantees rely guar Q s) (hQ : ∀ r t, Q r t → R r t) : p.Guarantees rely guar R s := by
  induction p generalizing s with
  | ret a => exact hQ _ _ h
  | fail e => exact hQ _ _ h
  | step u k ih => exact fun v hv => ⟨(h v hv).1, ih v (h v hv).2⟩

theorem mono {guar' : S → S → Prop} (h : p.Guarantees rely guar Q s) (hguar : ∀ t t', guar t t' → guar' t t') :
    p.Guarantees rely guar' Q s := by
  induction p generalizing s with
  | ret a => exact h
  | fail e => exact h
  | step u k ih => exact fun v hv => ⟨hguar _ _ (h v hv).1, ih v (h v hv).2⟩

/-- What others and every action keep holds at the end. -/
theorem keeping {C : S → Prop} (h : p.Guarantees rely guar Q s) (hrely : ∀ t t', rely t t' → C t → C t')
    (hguar : ∀ t t', guar t t' → C t → C t') (hs : C s) : p.Guarantees rely guar (fun r t => Q r t ∧ C t) s := by
  induction p generalizing s with
  | ret a => exact ⟨h, hs⟩
  | fail e => exact ⟨h, hs⟩
  | step u k ih => exact fun v hv => ⟨(h v hv).1, ih v (h v hv).2 (hguar _ _ (h v hv).1 (hrely _ _ hv hs))⟩

/-- What every action keeps holds in every state in which the program can be found. -/
theorem visits {C : S → Prop} (h : p.Guarantees Eq guar Q s) (hC : ∀ t t', guar t t' → C t → C t') (hs : C s)
    (ht : p.Visits s t) : C t := by
  induction p generalizing s with
  | ret a => exact ht ▸ hs
  | fail e => exact ht ▸ hs
  | step u k ih =>
    obtain ⟨hu, hk⟩ := h s rfl
    rcases ht with rfl | ht
    · exact hs
    · exact ih s hk (hC _ _ hu hs) ht

/-- The result where nobody else acts on the state. -/
theorem result (h : p.Guarantees Eq guar Q s) : Q (p.run s).1 (p.run s).2 := by
  induction p generalizing s with
  | ret a => exact h
  | fail e => exact h
  | step u k ih => exact ih s (h s rfl).2

end Guarantees

/-! ## The rules -/

section Rules

@[simp] theorem guarantees_pure {Q : Except E α → S → Prop} {a : α} :
    (pure a : Prog S E α).Guarantees rely guar Q s ↔ Q (.ok a) s := Iff.rfl

@[simp] theorem guarantees_ret {Q : Except E α → S → Prop} {a : α} :
    (ret a : Prog S E α).Guarantees rely guar Q s ↔ Q (.ok a) s := Iff.rfl

@[simp] theorem guarantees_fail {Q : Except E α → S → Prop} {e : E} :
    (fail e : Prog S E α).Guarantees rely guar Q s ↔ Q (.error e) s := Iff.rfl

theorem guarantees_bind {p : Prog S E α} {f : α → Prog S E β} {Q : Except E β → S → Prop} :
    (p >>= f).Guarantees rely guar Q s ↔ p.Guarantees rely guar (fun r t => match r with
      | .ok a => (f a).Guarantees rely guar Q t
      | .error e => Q (.error e) t) s := by
  show (p.bind f).Guarantees rely guar Q s ↔ _
  induction p generalizing s with
  | ret a => exact Iff.rfl
  | fail e => exact Iff.rfl
  | step u k ih => exact forall₂_congr fun v _ => and_congr Iff.rfl (ih v)

theorem guarantees_attempt {p : Prog S E α} {Q : Except E (Except E α) → S → Prop} :
    p.attempt.Guarantees rely guar Q s ↔ p.Guarantees rely guar (fun r => Q (.ok r)) s := by
  induction p generalizing s with
  | ret a => exact Iff.rfl
  | fail e => exact Iff.rfl
  | step u k ih => exact forall₂_congr fun v _ => and_congr Iff.rfl (ih v)

theorem guarantees_mapError {p : Prog S E α} {f : E → F} {Q : Except F α → S → Prop} :
    (p.mapError f).Guarantees rely guar Q s ↔ p.Guarantees rely guar (fun r => Q (r.mapError f)) s := by
  induction p generalizing s with
  | ret a => exact Iff.rfl
  | fail e => exact Iff.rfl
  | step u k ih => exact forall₂_congr fun v _ => and_congr Iff.rfl (ih v)

theorem guarantees_ofExcept {r : Except E α} {Q : Except E α → S → Prop} :
    (ofExcept r : Prog S E α).Guarantees rely guar Q s ↔ Q r s := by
  cases r <;> exact Iff.rfl

@[simp] theorem ofExcept_ok_bind {a : α} {f : α → Prog S E β} : (ofExcept (.ok a) >>= f) = f a := rfl

theorem guarantees_observe {f : S → Except E α} {Q : Except E α → S → Prop} :
    (observe f).Guarantees rely guar Q s ↔ ∀ v, rely s v → guar v v ∧ Q (f v) v :=
  forall₂_congr fun _ _ => and_congr Iff.rfl guarantees_ofExcept

theorem guarantees_update {f : S → S} {Q : Except E Unit → S → Prop} :
    (update f).Guarantees rely guar Q s ↔ ∀ v, rely s v → guar v (f v) ∧ Q (.ok ()) (f v) := Iff.rfl

/-- A first part, and a second part that does what is asked from every state the first one leads to. -/
theorem guarantees_then {p : Prog S E α} {k : α → Prog S E β} {Q : Except E β → S → Prop}
    (R : Except E α → S → Prop) (hp : p.Guarantees rely guar R s)
    (hok : ∀ a t, R (.ok a) t → (k a).Guarantees rely guar Q t)
    (herror : ∀ e t, R (.error e) t → Q (.error e) t) : (p >>= k).Guarantees rely guar Q s := by
  rw [guarantees_bind]
  refine hp.post fun r t hR => ?_
  cases r with
  | ok a => exact hok a t hR
  | error e => exact herror e t hR

/-- A first part whose result is a value, and a second part that goes on from it. -/
theorem guarantees_attempt_then {p : Prog S E α} {k : Except E α → Prog S E β} {Q : Except E β → S → Prop}
    (R : Except E α → S → Prop) (hp : p.Guarantees rely guar R s)
    (hk : ∀ r t, R r t → (k r).Guarantees rely guar Q t) : (p.attempt >>= k).Guarantees rely guar Q s := by
  rw [guarantees_bind, guarantees_attempt]
  exact hp.post fun r t hR => hk r t hR

/-- A loop: what holds of the elements still to come is carried over each element, and a failing element
ends the loop. -/
theorem guarantees_forM {l : List α} {f : α → Prog S E PUnit} {Q : Except E PUnit → S → Prop} (I : List α → S → Prop)
    (hbody : ∀ a rest t, a ∈ l → I (a :: rest) t → (f a).Guarantees rely guar (fun r t' => match r with
      | .ok _ => I rest t'
      | .error e => Q (.error e) t') t)
    (hend : ∀ t, I [] t → Q (.ok ⟨⟩) t) (hstart : I l s) : (l.forM f).Guarantees rely guar Q s := by
  induction l generalizing s with
  | nil => exact hend s hstart
  | cons a rest ih =>
    show (f a >>= fun _ => rest.forM f).Guarantees rely guar Q s
    rw [guarantees_bind]
    refine (hbody a rest s List.mem_cons_self hstart).post fun r t hr => ?_
    cases r with
    | error e => exact hr
    | ok u => exact ih (fun a' rest' t' ha => hbody a' rest' t' (List.mem_cons_of_mem a ha)) hr

/-- The same for a first part whose errors are replaced. -/
theorem guarantees_mapError_then {p : Prog S E α} {f : E → F} {k : α → Prog S F β} {Q : Except F β → S → Prop}
    (R : Except E α → S → Prop) (hp : p.Guarantees rely guar R s)
    (hok : ∀ a t, R (.ok a) t → (k a).Guarantees rely guar Q t)
    (herror : ∀ e t, R (.error e) t → Q (.error (f e)) t) : (p.mapError f >>= k).Guarantees rely guar Q s := by
  rw [guarantees_bind, guarantees_mapError]
  refine hp.post fun r t hR => ?_
  cases r with
  | ok a => exact hok a t hR
  | error e => exact herror e t hR

end Rules

/-! ## The actions themselves -/

theorem Acts.mono {p : Prog S E α} {rely' : S → S → Prop} (hrely : ∀ s t, rely s t → rely' s t)
    (h : p.Acts rely s t t') : p.Acts rely' s t t' := by
  induction p generalizing s with
  | ret a => cases h
  | fail e => cases h
  | step u k ih =>
    obtain ⟨v, hv, h⟩ := h
    exact ⟨v, hrely _ _ hv, h.imp_right (ih v)⟩

theorem guarantees_acts (p : Prog S E α) (s : S) : p.Guarantees rely (p.Acts rely s) (fun _ _ => True) s := by
  induction p generalizing s with
  | ret a => trivial
  | fail e => trivial
  | step u k ih => exact fun v hv => ⟨⟨v, hv, .inl ⟨rfl, rfl⟩⟩, (ih v (u v)).mono fun _ _ h => ⟨v, hv, .inr h⟩⟩

/-- What is left of a program, and the state, after some actions of it alone. -/
def after : Nat → Prog S E α → S → Prog S E α × S
  | n + 1, step u k, s => (k s).after n (u s)
  | _, p, s => (p, s)

/-- The first action of a program. -/
def first : Prog S E α → Option (S → S)
  | step u _ => some u
  | _ => none

/-- The action that comes next, where others change the state before it only. -/
theorem acts_after {p : Prog S E α} {v : S} {u : S → S} (hrefl : ∀ s, rely s s) {n : Nat}
    (hfirst : (p.after n s).1.first = some u) (hv : rely (p.after n s).2 v) : p.Acts rely s v (u v) := by
  induction n generalizing p s with
  | zero =>
    cases p with
    | step u' k =>
      cases hfirst
      exact ⟨v, hv, .inl ⟨rfl, rfl⟩⟩
    | _ => cases hfirst
  | succ n ih =>
    cases p with
    | step u' k => exact ⟨s, hrefl s, .inr (ih hfirst hv)⟩
    | _ => cases hfirst

/-! ## Programs that only read -/

/-- A program that leaves the state as it is. -/
def ReadOnly : Prog S E α → Prop
  | ret _ => True
  | fail _ => True
  | step u k => u = id ∧ ∀ s, (k s).ReadOnly

/-- The result of a program and the state that its last action leaves, where others may change the state by `rely`
before any action. -/
def Ends (rely : S → S → Prop) : Prog S E α → S → Except E α → S → Prop
  | ret a, s, r, t => r = .ok a ∧ t = s
  | fail e, s, r, t => r = .error e ∧ t = s
  | step u k, s, r, t => ∃ v, rely s v ∧ (k v).Ends rely (u v) r t

theorem Guarantees.ends {p : Prog S E α} {Q : Except E α → S → Prop} {r : Except E α}
    (h : p.Guarantees rely guar Q s) (hends : p.Ends rely s r t) : Q r t := by
  induction p generalizing s with
  | ret a =>
    obtain ⟨rfl, rfl⟩ := hends
    exact h
  | fail e =>
    obtain ⟨rfl, rfl⟩ := hends
    exact h
  | step u k ih =>
    obtain ⟨v, hv, hends⟩ := hends
    exact ih v (h v hv).2 hends

section ReadOnly

theorem readOnly_ofExcept (r : Except E α) : (ofExcept r : Prog S E α).ReadOnly := by
  cases r <;> trivial

theorem readOnly_observe (f : S → Except E α) : (observe f).ReadOnly := ⟨rfl, fun s => readOnly_ofExcept (f s)⟩

theorem ReadOnly.bind {p : Prog S E α} {f : α → Prog S E β} (hp : p.ReadOnly) (hf : ∀ a, (f a).ReadOnly) :
    (p >>= f).ReadOnly := by
  show (p.bind f).ReadOnly
  induction p with
  | ret a => exact hf a
  | fail e => trivial
  | step u k ih => exact ⟨hp.1, fun s => ih s (hp.2 s)⟩

theorem ReadOnly.attempt {p : Prog S E α} (hp : p.ReadOnly) : p.attempt.ReadOnly := by
  induction p with
  | ret a => trivial
  | fail e => trivial
  | step u k ih => exact ⟨hp.1, fun s => ih s (hp.2 s)⟩

/-- What others keep, a program that only reads keeps. -/
theorem ReadOnly.guarantees {p : Prog S E α} {I : S → Prop} (hp : p.ReadOnly) (hguar : ∀ v, guar v v)
    (hI : ∀ s t, rely s t → I s → I t) (hs : I s) : p.Guarantees rely guar (fun _ t => I t) s := by
  induction p generalizing s with
  | ret a => exact hs
  | fail e => exact hs
  | step u k ih =>
    obtain ⟨rfl, hk⟩ := hp
    exact fun v hv => ⟨hguar v, ih v (hk v) (hI s v hv hs)⟩

/-- A part that only reads, and what follows it where what others keep holds. -/
theorem ReadOnly.guarantees_then {p : Prog S E α} {k : α → Prog S E β} {Q : Except E β → S → Prop} {I : S → Prop}
    (hp : p.ReadOnly) (hguar : ∀ v, guar v v) (hI : ∀ s t, rely s t → I s → I t) (hs : I s)
    (hok : ∀ a t, I t → (k a).Guarantees rely guar Q t) (herror : ∀ e t, I t → Q (.error e) t) :
    (p >>= k).Guarantees rely guar Q s :=
  Prog.guarantees_then (fun _ t => I t) (hp.guarantees hguar hI hs) hok herror

/-- A read, with what it has found, and what follows it. -/
theorem guarantees_read_then {f : S → Except E α} {k : α → Prog S E β} {Q : Except E β → S → Prop} {I : S → Prop}
    (hguar : ∀ v, guar v v) (hI : ∀ s t, rely s t → I s → I t) (hs : I s)
    (hok : ∀ a t, I t → f t = .ok a → (k a).Guarantees rely guar Q t) (herror : ∀ e t, I t → Q (.error e) t) :
    (observe f >>= k).Guarantees rely guar Q s := by
  rw [guarantees_bind, guarantees_observe]
  intro v hv
  have hv := hI s v hv hs
  refine ⟨hguar v, ?_⟩
  cases h : f v with
  | ok a => exact hok a v hv h
  | error e => exact herror e v hv

/-- One change of the state, made or refused in a state that others may have led to, and what follows it. -/
theorem guarantees_act_outcome {X : Type} {f : S → Except X (α × S)} {k : Except X α → Prog S E β}
    {Q : Except E β → S → Prop} {I : S → Prop} (hguar : ∀ v, guar v v) (hI : ∀ s t, rely s t → I s → I t) (hs : I s)
    (hok : ∀ a v t, I v → f v = .ok (a, t) → guar v t ∧ (k (.ok a)).Guarantees rely guar Q t)
    (herror : ∀ e v, I v → f v = .error e → (k (.error e)).Guarantees rely guar Q v) :
    (act f >>= k).Guarantees rely guar Q s := by
  rw [guarantees_bind, act]
  intro v hv
  have hv := hI s v hv hs
  dsimp only [guarantees_ret]
  cases h : f v with
  | ok r =>
    obtain ⟨a, t⟩ := r
    exact hok a v t hv h
  | error e => exact ⟨hguar v, herror e v hv h⟩

/-- The same where it does not matter why a change is refused. -/
theorem guarantees_act_shared {X : Type} {f : S → Except X (α × S)} {k : Except X α → Prog S E β}
    {Q : Except E β → S → Prop} {I : S → Prop} (hguar : ∀ v, guar v v) (hI : ∀ s t, rely s t → I s → I t) (hs : I s)
    (hok : ∀ a v t, I v → f v = .ok (a, t) → guar v t ∧ (k (.ok a)).Guarantees rely guar Q t)
    (herror : ∀ e v, I v → (k (.error e)).Guarantees rely guar Q v) :
    (act f >>= k).Guarantees rely guar Q s :=
  guarantees_act_outcome hguar hI hs hok fun e v hv _ => herror e v hv

end ReadOnly

/-! ## Where nobody else acts -/

section Alone

theorem guarantees_observe_alone {f : S → Except E α} {Q : Except E α → S → Prop} (hs : guar s s) (hQ : Q (f s) s) :
    (observe f).Guarantees Eq guar Q s := by
  rw [guarantees_observe]
  rintro v rfl
  exact ⟨hs, hQ⟩

/-- A read, and what follows it in the same state. -/
theorem guarantees_observe_then {f : S → Except E α} {k : α → Prog S E β} {Q : Except E β → S → Prop}
    (hs : guar s s) (hok : ∀ a, f s = .ok a → (k a).Guarantees Eq guar Q s)
    (herror : ∀ e, f s = .error e → Q (.error e) s) : (observe f >>= k).Guarantees Eq guar Q s := by
  rw [guarantees_bind]
  refine guarantees_observe_alone hs ?_
  cases h : f s with
  | ok a => exact hok a h
  | error e => exact herror e h

/-- A read whose errors are replaced, and what follows it in the same state. -/
theorem guarantees_mapError_observe_then {f : S → Except E α} {g : E → F} {k : α → Prog S F β}
    {Q : Except F β → S → Prop} (hs : guar s s) (hok : ∀ a, f s = .ok a → (k a).Guarantees Eq guar Q s)
    (herror : ∀ e, f s = .error e → Q (.error (g e)) s) : ((observe f).mapError g >>= k).Guarantees Eq guar Q s :=
  guarantees_mapError_then (fun r t => t = s ∧ r = f s) (guarantees_observe_alone hs ⟨rfl, rfl⟩)
    (fun a _ h => h.1 ▸ hok a h.2.symm) (fun e _ h => h.1 ▸ herror e h.2.symm)

/-- A change that cannot be refused, and what follows it in the new state. -/
theorem guarantees_update_then {f : S → S} {k : Unit → Prog S E β} {Q : Except E β → S → Prop}
    (hs : guar s (f s)) (h : (k ()).Guarantees Eq guar Q (f s)) : (update f >>= k).Guarantees Eq guar Q s := by
  rw [guarantees_bind, guarantees_update]
  rintro v rfl
  exact ⟨hs, h⟩

/-- One change of the state, made or refused, and what follows it. -/
theorem guarantees_act_then {X : Type} {f : S → Except X (α × S)} {k : Except X α → Prog S E β}
    {Q : Except E β → S → Prop} (hs : guar s s)
    (hok : ∀ a t, f s = .ok (a, t) → guar s t ∧ (k (.ok a)).Guarantees Eq guar Q t)
    (herror : ∀ e, f s = .error e → (k (.error e)).Guarantees Eq guar Q s) :
    (act f >>= k).Guarantees Eq guar Q s := by
  rw [guarantees_bind, act]
  rintro v rfl
  dsimp only [guarantees_ret]
  cases h : f s with
  | ok r =>
    obtain ⟨a, t⟩ := r
    exact hok a t h
  | error e => exact ⟨hs, herror e h⟩

end Alone

end Squallz.System.Prog
