/-
The errors of the format layer and the results of its functions: a function returns a value,
raises a `FormatError`, or panics.
-/
import Mathlib.Data.List.Basic

namespace Squallz.Api

/-- The kinds of I/O errors the code tells apart. -/
inductive IoErrorKind
  | notFound | permissionDenied | alreadyExists | invalidInput | invalidData | unexpectedEof
  | interrupted | storageFull | quotaExceeded | unsupported | other
deriving DecidableEq, Repr

structure IoError where
  kind : IoErrorKind
  message : String
deriving DecidableEq, Repr

inductive FormatError
  | io (error : IoError)
  | unsupported (message : String)
  | corruptArchive (message : String)
  | passwordRequired
  | wrongPassword
  | cancelled
  | pathTraversal (message : String)
  | symlinkBreakout (message : String)
  | resourceLimitExceeded (message : String)
  | unsafeFileName (message : String)
  | diskFull
  | dependencyMissing (message : String)
  | other (message : String)
deriving DecidableEq, Repr

/-- `From<std::io::Error>`: exhausted storage has an error of its own. -/
def FormatError.ofIo (error : IoError) : FormatError :=
  match error.kind with
  | .storageFull | .quotaExceeded => .diskFull
  | _ => .io error

/-- How a call ends without a value. -/
inductive Fault
  | raised (error : FormatError)
  | panicked (message : String)
deriving DecidableEq, Repr

/-- The errors that report damaged or unknown data. -/
def Fault.isDamage : Fault → Bool
  | .raised (.corruptArchive _) | .raised (.unsupported _) => true
  | _ => false

/-- The result of a call. -/
abbrev Res (α : Type) := Except Fault α

def raise {α : Type} (error : FormatError) : Res α := .error (.raised error)

def panic {α : Type} (message : String) : Res α := .error (.panicked message)

def corrupt {α : Type} (message : String) : Res α := raise (.corruptArchive message)

def unsupported {α : Type} (message : String) : Res α := raise (.unsupported message)

/-- `?` on an I/O result. -/
def ofIo {α : Type} : Except IoError α → Res α
  | .ok a => .ok a
  | .error e => raise (.ofIo e)

/-! ## Sequencing -/

section Bind

variable {ε α β : Type}

@[simp] theorem ok_bind (a : α) (f : α → Except ε β) : ((.ok a : Except ε α) >>= f) = f a := rfl

@[simp] theorem error_bind (e : ε) (f : α → Except ε β) :
    ((.error e : Except ε α) >>= f) = .error e := rfl

@[simp] theorem pure_eq_ok (a : α) : (pure a : Except ε α) = .ok a := rfl

/-- A sequence that succeeds has a first part that succeeds. -/
theorem bind_eq_ok {x : Except ε α} {f : α → Except ε β} {b : β} :
    (x >>= f) = .ok b ↔ ∃ a, x = .ok a ∧ f a = .ok b := by
  cases x with
  | error e => simp
  | ok a => simp

/-- A traversal whose steps all succeed is the map of their values. -/
theorem mapM_eq_ok {f : α → Except ε β} {g : α → β} {l : List α} (h : ∀ a ∈ l, f a = .ok (g a)) :
    l.mapM f = .ok (l.map g) := by
  induction l with
  | nil => rfl
  | cons a l ih =>
    rw [List.mapM_cons, h a List.mem_cons_self, ok_bind, ih fun b hb => h b (List.mem_cons_of_mem a hb)]
    rfl

/-- What a traversal yields is yielded at one of its elements. -/
theorem mem_of_mapM_ok {f : α → Except ε β} {l : List α} {out : List β} (h : l.mapM f = .ok out) {b : β}
    (hb : b ∈ out) : ∃ a ∈ l, f a = .ok b := by
  induction l generalizing out with
  | nil =>
    cases h
    cases hb
  | cons a l ih =>
    simp only [List.mapM_cons, bind_eq_ok, pure_eq_ok] at h
    obtain ⟨b', hb', rest, hrest, h⟩ := h
    cases h
    rcases List.mem_cons.1 hb with rfl | hb
    · exact ⟨a, List.mem_cons_self, hb'⟩
    · obtain ⟨a', ha', hf⟩ := ih hrest hb
      exact ⟨a', List.mem_cons_of_mem a ha', hf⟩

theorem forM_eq_ok {f : α → Except ε Unit} {l : List α} (h : ∀ a ∈ l, f a = .ok ()) :
    l.forM f = .ok () := by
  induction l with
  | nil => rfl
  | cons a l ih =>
    show (f a >>= fun _ => l.forM f) = _
    rw [h a List.mem_cons_self, ok_bind, ih fun b hb => h b (List.mem_cons_of_mem a hb)]

/-- A run over a list that succeeds has succeeded at each of its elements. -/
theorem of_forM_eq_ok {f : α → Except ε Unit} {l : List α} (h : l.forM f = .ok ()) : ∀ a ∈ l, f a = .ok () := by
  induction l with
  | nil =>
    intro a ha
    cases ha
  | cons a l ih =>
    change (f a >>= fun _ => l.forM f) = _ at h
    obtain ⟨⟨⟩, hfirst, hrest⟩ := bind_eq_ok.1 h
    exact List.forall_mem_cons.2 ⟨hfirst, ih hrest⟩

end Bind

@[simp] theorem ofIo_ok {α : Type} (a : α) : ofIo (.ok a) = .ok a := rfl

end Squallz.Api
