/-
The reads of an entry: each takes the bytes that come next, within the size of the entry, and a loop that comes to the end of
the data has taken all of them.
-/
import Squallz.SevenZ.Extraction
import Squallz.System.Ends

namespace Squallz.SevenZ

open Squallz.Api Squallz.Bytes Squallz.System Squallz.Extract

/-! ## Sources -/

section Sources

variable {D : Type} {dec : Decoder D}

/-- All that remained of the data of an entry has been taken. -/
inductive Source.Drained : Source D → Source D → Prop
  | empty : Drained .empty .empty
  | entry (session : Session D) (decoder : D) (remaining : Nat) :
    Drained (.entry session remaining) (.entry { session with decoder, taken := session.taken + remaining } 0)

/-- A read of an entry that yields bytes: they come next in the data of its block, and no more of them than remain. -/
theorem Source.read_entry {session : Session D} {remaining n : Nat} {bytes : List UInt8} {source : Source D}
    (h : (Source.entry session remaining).read dec n = (.ok bytes, source)) : ∃ decoder,
      bytes = slice (dec.data session.block) session.taken bytes.length ∧ bytes.length ≤ n ∧ bytes.length ≤ remaining ∧
      source = .entry { session with decoder, taken := session.taken + bytes.length } (remaining - bytes.length) ∧
      (bytes = [] → n = 0 ∨ remaining = 0) := by
  simp only [Source.read] at h
  by_cases hn : n = 0
  · rw [if_pos hn] at h
    cases h
    exact ⟨session.decoder, (slice_zero _ _).symm, Nat.zero_le _, Nat.zero_le _, rfl, fun _ => .inl hn⟩
  · rw [if_neg hn] at h
    rcases hread : dec.read session.decoder n with ⟨error | count, decoder⟩
    · rw [hread] at h
      cases h
    · rw [hread] at h
      dsimp only at h
      split at h
      · cases h
      · rename_i hend
        split at h
        · cases h
        · rename_i hsize
          cases h
          have hlength : (slice (dec.data session.block) session.taken (min count n)).length ≤ min count n :=
            List.length_take_le _ _
          refine ⟨decoder, ?_, by omega, Nat.le_of_not_lt hsize, rfl, fun hnil => .inr ?_⟩
          · unfold slice
            rw [List.take_eq_take_iff, List.length_take]
            omega
          · by_contra hremaining
            exact hend ⟨hnil, hremaining⟩

/-- A read that yields nothing has come to the end. -/
theorem Source.drained_of_end {source source' : Source D} {n : Nat} (h : source.read dec n = (.ok [], source'))
    (hn : n ≠ 0) : source.Drained source' := by
  cases source with
  | empty =>
    cases h
    exact .empty
  | entry session remaining =>
    obtain ⟨decoder, -, -, -, rfl, hend⟩ := Source.read_entry h
    obtain rfl := (hend rfl).resolve_left hn
    exact .entry session decoder 0

/-- What is drained behind a read was drained by both. -/
theorem Source.Drained.of_read {source source' last : Source D} {n : Nat} {bytes : List UInt8}
    (h : source.read dec n = (.ok bytes, source')) (hlast : source'.Drained last) : source.Drained last := by
  cases source with
  | empty =>
    cases h
    exact hlast
  | entry session remaining =>
    obtain ⟨decoder, -, -, hle, rfl, -⟩ := Source.read_entry h
    cases hlast with
    | entry _ decoder' =>
      have := Source.Drained.entry session decoder' remaining
      rw [show session.taken + remaining = session.taken + bytes.length + (remaining - bytes.length) by omega] at this
      exact this

end Sources

/-! ## Errors that are caught -/

/-- What is known behind a value, and what behind an error. -/
def Outcome {T α : Type} (P : α → T → Prop) (R : T → Prop) : Except Fault α → T → Prop
  | .ok a, t => P a t
  | .error _, t => R t

/-- An error that is caught is a value. -/
def Caught {T α : Type} (P : α → T → Prop) (R : T → Prop) : Except Fault (Except FormatError α) → T → Prop
  | .ok (.ok a), t => P a t
  | _, t => R t

theorem ends_caught {T α : Type} {p : Prog T Fault α} {P : α → T → Prop} {R : T → Prop} {t : T}
    (h : Ends p (Outcome P R) t) : Ends (caught p) (Caught P R) t := by
  rw [caught, Ends, Prog.run_bind, Prog.run_attempt]
  unfold Ends at h
  rcases hrun : p.run t with ⟨r, t'⟩
  rw [hrun] at h
  cases r with
  | ok a => exact h
  | error fault =>
    cases fault with
    | raised error => exact h
    | panicked message => exact h

/-! ## Loops -/

section Loops

variable {D S V : Type} {dec : Decoder D} {check : Prog S Fault Unit} {view : S → V}

theorem ends_mapError {α : Type} {f : FormatError → FormatError} {p : Reading S D α} {P : α → S × Source D → Prop}
    {R : S × Source D → Prop} {t : S × Source D} (h : Ends p (Outcome P R) t) :
    Ends (mapError f p) (Outcome P R) t := by
  have hcaught := ends_caught h
  rw [mapError, Ends, Prog.run_bind]
  unfold Ends at hcaught
  rcases hrun : (caught p).run t with ⟨r, t'⟩
  rw [hrun] at hcaught
  cases r with
  | error fault => exact hcaught
  | ok result =>
    cases result with
    | error error => exact hcaught
    | ok a => exact hcaught

theorem ends_readSource (n : Nat) (t : S × Source D) :
    Ends (readSource dec n) (fun r t' => ∃ read, r = .ok read ∧ t.2.read dec n = (read, t'.2) ∧ t'.1 = t.1) t :=
  ends_step (ends_pure ⟨_, rfl, rfl, rfl⟩)

/-- The view of the state is as it was. -/
def Leaves (view : S → V) (t t' : S × Source D) : Prop := view t'.1 = view t.1

/-- All that remained of the data has been taken, and the view of the state is as it was. -/
def Drains {α : Type} (view : S → V) (t : S × Source D) (_ : α) (t' : S × Source D) : Prop :=
  view t'.1 = view t.1 ∧ t.2.Drained t'.2

/-- What follows a read of some bytes drains what the read began to take. -/
theorem ends_behind_read {α : Type} {p : Reading S D α} {t t₁ t₂ : S × Source D} {n : Nat} {bytes : List UInt8}
    (h : Ends p (Outcome (Drains view t₂) (Leaves view t₂)) t₂) (hview : view t₁.1 = view t.1)
    (hsource : t₁.2 = t.2) (hread : t₁.2.read dec n = (.ok bytes, t₂.2)) (hstate : t₂.1 = t₁.1) :
    Ends p (Outcome (Drains view t) (Leaves view t)) t₂ := by
  rw [hsource] at hread
  rw [← hstate] at hview
  refine h.mono fun r t₃ h₃ => ?_
  match r with
  | .ok a => exact ⟨h₃.1.trans hview, h₃.2.of_read hread⟩
  | .error fault => exact Eq.trans h₃ hview

variable (hcheck : ∀ s, Ends check (fun _ s' => view s' = view s) s)

include hcheck in
theorem ends_onState (t : S × Source D) :
    Ends (onState check) (fun _ t' => view t'.1 = view t.1 ∧ t'.2 = t.2) t :=
  ends_within ((hcheck t.1).mono fun _ _ h => ⟨h, rfl⟩)

include hcheck in
theorem ends_drainFrom (left : Nat) (t : S × Source D) :
    Ends (drainFrom dec check left) (Outcome (Drains view t) (Leaves view t)) t := by
  induction left generalizing t with
  | zero => exact ends_fail rfl
  | succ left ih =>
    refine ends_bind (ends_onState hcheck t) (fun _ t₁ ⟨hview, hsource⟩ => ?_) fun _ t₁ h => h.1
    refine ends_bind (ends_readSource readChunk t₁) (fun r t₂ ⟨read, hr, hread, hstate⟩ => ?_)
      fun _ _ ⟨_, hr, _⟩ => by cases hr
    cases hr
    match r with
    | .error error => exact ends_fail ((congrArg view hstate).trans hview)
    | .ok bytes =>
      refine ends_ite (fun hend => ?_) fun _ => ends_behind_read (ih t₂) hview hsource hread hstate
      subst hend
      exact ends_pure ⟨(congrArg view hstate).trans hview, hsource ▸ Source.drained_of_end hread (by decide)⟩

include hcheck in
theorem ends_drainEntry (t : S × Source D) :
    Ends (drainEntry dec check) (Outcome (Drains view t) (Leaves view t)) t := ends_step (ends_drainFrom hcheck _ t)

include hcheck in
theorem ends_readTargetFrom {left : Nat} {target : List UInt8} (htarget : target.length ≤ maxSymlinkTargetBytes)
    (t : S × Source D) : Ends (readTargetFrom dec check left target) (Outcome (Drains view t) (Leaves view t)) t := by
  induction left generalizing target t with
  | zero => exact ends_fail rfl
  | succ left ih =>
    refine ends_bind (ends_onState hcheck t) (fun _ t₁ ⟨hview, hsource⟩ => ?_) fun _ t₁ h => h.1
    rw [subU64_eq (Nat.le_succ_of_le htarget)]
    refine ends_ok (ends_bind (ends_readSource _ t₁) (fun r t₂ ⟨read, hr, hread, hstate⟩ => ?_)
      fun _ _ ⟨_, hr, _⟩ => by cases hr)
    cases hr
    match r with
    | .error error => exact ends_fail ((congrArg view hstate).trans hview)
    | .ok bytes =>
      refine ends_ite (fun hend => ?_) fun _ => ends_ite (fun _ => ?_) fun hlimit => ?_
      · subst hend
        exact ends_pure ⟨(congrArg view hstate).trans hview, hsource ▸ Source.drained_of_end hread (by omega)⟩
      · exact ends_fail ((congrArg view hstate).trans hview)
      · exact ends_behind_read (ih (Nat.le_of_not_lt hlimit) t₂) hview hsource hread hstate

include hcheck in
theorem ends_readSymlinkTarget (t : S × Source D) :
    Ends (readSymlinkTarget dec check) (Outcome (Drains view t) (Leaves view t)) t := by
  refine ends_bind (ends_onState hcheck t) (fun _ t₁ ⟨hview, hsource⟩ => ?_) fun _ t₁ h => h.1
  refine ends_bind (ends_readTargetFrom hcheck (Nat.zero_le _) t₁) (fun target t₂ ⟨hview', hdrained⟩ => ?_)
    fun _ t₂ h => Eq.trans h hview
  refine ends_ite (fun _ => ends_fail (hview'.trans hview)) fun _ => ?_
  exact ends_pure ⟨hview'.trans hview, hsource ▸ hdrained⟩

end Loops

end Squallz.SevenZ
