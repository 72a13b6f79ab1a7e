/-
A password that is handed out was verified on the state the archive is in, by work that nothing has revoked.
-/
import Squallz.Passwords.SessionPasswords
import Mathlib.Data.List.Count

namespace Squallz.Passwords

open Squallz.System Squallz.System.Table

variable {P S W : Type}

/-! ## What a run has done -/

def Action.revokes : Action P S W → Bool
  | .forget _ | .invalidatePending | .shutdown => true
  | _ => false

/-- The generation after what has been done since it was read. -/
def Counted (current generation : Nat) (done : List (Action P S W)) : Prop :=
  generation < 2 ^ 64 ∧ current = (generation + done.countP Action.revokes) % 2 ^ 64

/-- What a thread has done to come where it is. -/
def Evidence (done : List (Action P S W)) (current thread : Nat) : Call P S W → Prop
  | .idle => True
  | .beginning path generation => Since done (.begin thread path) fun l => Counted current generation l
  | .attempt attempt => Since done (.begin thread attempt.path) fun l =>
      .inspected thread (some attempt.source) ∈ l ∧ Counted current attempt.generation l
  | .remembering attempt password => Since done (.begin thread attempt.path) fun l =>
      .inspected thread (some attempt.source) ∈ l ∧ .verify thread password (some attempt.source) ∈ l ∧
        Counted current attempt.generation l
  | .getting path _ => Since done (.lookup thread path) fun _ => True
  | .probed path _ source => Since done (.lookup thread path) fun l => .probe thread source ∈ l

/-- A password was verified on a state of the archive, between the two probes that found the archive in it, with nothing
revoked meanwhile, and it has not been forgotten since it was kept. -/
def Verified (done : List (Action P S W)) (path : P) (source : S) (password : W) : Prop :=
  ∃ thread earlier later, done = earlier ++ .insert thread false :: later ∧
    (Since earlier (.begin thread path) fun l => .inspected thread (some source) ∈ l ∧
      .verify thread password (some source) ∈ l ∧ ∀ action ∈ l, action.revokes = false) ∧
    ∀ action ∈ later, action ≠ .forget path ∧ action ≠ .shutdown

structure Recorded (done : List (Action P S W)) (w : World P S W) [DecidableEq P] : Prop where
  generation : w.registry.generation < 2 ^ 64
  calls : ∀ thread, Evidence done w.registry.generation thread (w.calls thread)
  entries : ∀ path n, w.registry.entries.lookup path = some n →
    ∃ value, w.registry.shared[n]? = some value ∧ Verified done path value.source value.password
  closed : .shutdown ∈ done → w.registry.closed = true
  empty : w.registry.closed = true → w.registry.entries = ∅

variable {done : List (Action P S W)} {current current' thread : Nat} {action : Action P S W}

theorem Counted.snoc {generation : Nat} {l : List (Action P S W)} (h : Counted current generation l)
    (hcurrent : current' = (current + action.revokes.toNat) % 2 ^ 64) : Counted current' generation (l ++ [action]) := by
  refine ⟨h.1, ?_⟩
  rw [hcurrent, h.2, List.countP_append, List.countP_singleton, Nat.mod_add_mod, Nat.add_assoc]
  cases action.revokes with
  | true => rfl
  | false => rfl

/-- Nothing revoked, when the generation is still the same. -/
theorem Counted.none_revokes {l : List (Action P S W)} (h : Counted current current l) (hshort : l.length < 2 ^ 64) :
    ∀ action ∈ l, action.revokes = false := by
  have hle := List.countP_le_length (p := Action.revokes) (l := l)
  obtain ⟨hlt, heq⟩ := h
  have hzero : l.countP Action.revokes = 0 := by omega
  exact fun action hmem => Bool.eq_false_of_not_eq_true (List.countP_eq_zero.1 hzero action hmem)

theorem Evidence.snoc {call : Call P S W} (h : Evidence done current thread call)
    (hcurrent : current' = (current + action.revokes.toNat) % 2 ^ 64) :
    Evidence (done ++ [action]) current' thread call := by
  cases call with
  | idle => trivial
  | beginning path generation => exact Since.snoc h fun l hl => hl.snoc hcurrent
  | attempt attempt =>
    exact Since.snoc h fun l hl => ⟨List.mem_append_left _ hl.1, hl.2.snoc hcurrent⟩
  | remembering attempt password =>
    exact Since.snoc h fun l hl => ⟨List.mem_append_left _ hl.1, List.mem_append_left _ hl.2.1, hl.2.2.snoc hcurrent⟩
  | getting path cached => exact Since.snoc h fun _ _ => trivial
  | probed path cached source => exact Since.snoc h fun l hl => List.mem_append_left _ hl

theorem Verified.snoc {path : P} {source : S} {password : W} (h : Verified done path source password)
    (hforget : action ≠ .forget path) (hshutdown : action ≠ .shutdown) :
    Verified (done ++ [action]) path source password := by
  obtain ⟨thread, earlier, later, rfl, hearlier, hlater⟩ := h
  refine ⟨thread, earlier, later ++ [action], by rw [List.append_assoc, List.cons_append], hearlier, ?_⟩
  intro other hmem
  rcases List.mem_append.1 hmem with hmem | hmem
  · exact hlater other hmem
  · rw [List.mem_singleton.1 hmem]
    exact ⟨hforget, hshutdown⟩

/-! ## Steps -/

section Steps

variable [DecidableEq P] {w w' : World P S W}

/-- A thread goes on, and the registry stays. -/
theorem Recorded.goto (thread : Nat) {call : Call P S W} (h : Recorded done w) (hrevokes : action.revokes = false)
    (hcall : Evidence (done ++ [action]) w.registry.generation thread call) :
    Recorded (done ++ [action]) (w.goto thread call) := by
  have hcurrent : w.registry.generation = (w.registry.generation + action.revokes.toNat) % 2 ^ 64 := by
    rw [hrevokes, Bool.toNat_false, Nat.add_zero, Nat.mod_eq_of_lt h.generation]
  have hforget : ∀ path, action ≠ .forget path := by
    rintro path rfl
    cases hrevokes
  have hshutdown : action ≠ .shutdown := by
    rintro rfl
    cases hrevokes
  refine ⟨h.generation, fun t => ?_, fun path n hfound => ?_, fun hmem => ?_, h.empty⟩
  · change Evidence _ _ t (if t = thread then call else w.calls t)
    split
    · rename_i ht
      rw [ht]
      exact hcall
    · exact (h.calls t).snoc hcurrent
  · obtain ⟨value, hvalue, hverified⟩ := h.entries path n hfound
    exact ⟨value, hvalue, hverified.snoc (hforget path) hshutdown⟩
  · rcases List.mem_append.1 hmem with hmem | hmem
    · exact h.closed hmem
    · exact absurd (List.mem_singleton.1 hmem).symm hshutdown

/-- Nothing changes. -/
theorem Recorded.stay (h : Recorded done w) (hrevokes : action.revokes = false) : Recorded (done ++ [action]) w := by
  have hcurrent : w.registry.generation = (w.registry.generation + action.revokes.toNat) % 2 ^ 64 := by
    rw [hrevokes, Bool.toNat_false, Nat.add_zero, Nat.mod_eq_of_lt h.generation]
  have hgoto := h.goto 0 hrevokes ((h.calls 0).snoc hcurrent)
  have hsame : w.goto 0 (w.calls 0) = w := by
    unfold World.goto
    congr 1
    funext t
    split
    · rename_i ht
      rw [ht]
    · rfl
  rwa [hsame] at hgoto

/-- Something is revoked, and with it some entries go. -/
theorem Recorded.revoke {entries : Table P Nat} {closed : Bool} (h : Recorded done w) (hrevokes : action.revokes = true)
    (hentries : ∀ path n, entries.lookup path = some n → w.registry.entries.lookup path = some n ∧
      action ≠ .forget path ∧ action ≠ .shutdown)
    (hclosed : .shutdown ∈ done ++ [action] → closed = true) (hempty : closed = true → entries = ∅) :
    Recorded (done ++ [action])
      { w.revoke with registry := { w.revoke.registry with entries := entries, closed := closed } } := by
  refine ⟨Nat.mod_lt _ (by decide), fun t => (h.calls t).snoc ?_, fun path n hfound => ?_, hclosed, hempty⟩
  · rw [hrevokes]
    rfl
  · obtain ⟨hold, hforget, hshutdown⟩ := hentries path n hfound
    obtain ⟨value, hvalue, hverified⟩ := h.entries path n hold
    exact ⟨value, hvalue, hverified.snoc hforget hshutdown⟩

theorem Recorded.insert {cancelled : Bool} {attempt : PasswordAttempt P S} {password : W} (h : Recorded done w)
    (hshort : done.length < 2 ^ 64) (hcall : w.calls thread = .remembering attempt password) :
    Recorded (done ++ [.insert thread cancelled]) (w.insert thread cancelled attempt password) := by
  have hevidence := h.calls thread
  rw [hcall] at hevidence
  have hcurrent : w.registry.generation =
      (w.registry.generation + (Action.insert (P := P) (S := S) (W := W) thread cancelled).revokes.toNat) % 2 ^ 64 := by
    rw [Action.revokes, Bool.toNat_false, Nat.add_zero, Nat.mod_eq_of_lt h.generation]
    · exact fun _ heq => by cases heq
    · exact fun heq => by cases heq
    · exact fun heq => by cases heq
  have hback : Evidence (done ++ [.insert thread cancelled]) w.registry.generation thread
      (Call.attempt (W := W) attempt) :=
    Since.snoc hevidence fun l hl => ⟨List.mem_append_left _ hl.1, hl.2.2.snoc hcurrent⟩
  have hgoto := h.goto thread rfl hback
  unfold World.insert
  dsimp only
  split
  · exact hgoto
  · rename_i hkept
    rw [Bool.or_eq_true, Bool.or_eq_true, not_or, not_or] at hkept
    obtain ⟨⟨hopen, hgeneration⟩, hcancelled⟩ := hkept
    have hopen := Bool.eq_false_of_not_eq_true hopen
    have hgeneration : w.registry.generation = attempt.generation := by simpa using hgeneration
    have hcancelled := Bool.eq_false_of_not_eq_true hcancelled
    refine ⟨hgoto.generation, hgoto.calls, fun path n hfound => ?_, hgoto.closed, fun hclosed => ?_⟩
    · rcases lookup_insert_eq_some.1 hfound with ⟨rfl, rfl⟩ | ⟨-, hother⟩
      · refine ⟨⟨attempt.source, password⟩, List.getElem?_concat_length, thread, done, [], by rw [hcancelled], ?_, ?_⟩
        · obtain ⟨before, l, rfl, hinspected, hverify, hcounted⟩ := hevidence
          rw [← hgeneration] at hcounted
          rw [List.length_append, List.length_cons] at hshort
          exact ⟨before, l, rfl, hinspected, hverify, hcounted.none_revokes (by omega)⟩
        · exact fun _ hmem => by cases hmem
      · obtain ⟨value, hvalue, hverified⟩ := hgoto.entries path n hother
        refine ⟨value, ?_, hverified⟩
        exact (List.getElem?_append_left (List.getElem?_eq_some_iff.1 hvalue).1).trans hvalue
    · change w.registry.closed = true at hclosed
      rw [hopen] at hclosed
      cases hclosed

/-- An entry whose archive has changed goes. -/
theorem Recorded.erase (h : Recorded done w) (path : P) :
    Recorded done { w with registry := { w.registry with entries := w.registry.entries.erase path } } where
  generation := h.generation
  calls := h.calls
  entries path' n hfound := h.entries path' n (lookup_erase_eq_some.1 hfound).2
  closed := h.closed
  empty hclosed := by
    change w.registry.entries.erase path = ∅
    rw [h.empty hclosed]
    rfl

theorem recorded_default : Recorded [] (World.default P S W) where
  generation := Nat.two_pow_pos 64
  calls _ := trivial
  entries _ _ hfound := by cases hfound
  closed hmem := by cases hmem
  empty hclosed := by cases hclosed

variable [DecidableEq S]

theorem Recorded.next (h : Recorded done w) (hshort : done.length < 2 ^ 64) (hnext : w.next action = some w') :
    Recorded (done ++ [action]) w' := by
  cases action with
  | begin thread path =>
    simp only [World.next] at hnext
    split at hnext
    · cases hnext
      split
      · exact h.stay rfl
      · refine h.goto _ rfl (Since.start ⟨h.generation, ?_⟩)
        rw [List.countP_nil, Nat.add_zero, Nat.mod_eq_of_lt h.generation]
    · cases hnext
  | inspected thread source =>
    simp only [World.next] at hnext
    split at hnext
    · rename_i path generation hcall
      have hevidence := h.calls thread
      rw [hcall] at hevidence
      split at hnext
      · cases hnext
        exact h.goto _ rfl trivial
      · cases hnext
        refine h.goto _ rfl (Since.snoc hevidence fun l hl => ⟨List.mem_append_right _ List.mem_cons_self, hl.snoc ?_⟩)
        exact (Nat.mod_eq_of_lt h.generation).symm
    · cases hnext
  | verify thread password source =>
    simp only [World.next] at hnext
    split at hnext
    · rename_i attempt hcall
      have hevidence := h.calls thread
      rw [hcall] at hevidence
      cases hnext
      split
      · rename_i hsource
        refine h.goto _ rfl (Since.snoc hevidence fun l hl => ⟨List.mem_append_left _ hl.1, ?_, hl.2.snoc ?_⟩)
        · rw [hsource]
          exact List.mem_append_right _ List.mem_cons_self
        · exact (Nat.mod_eq_of_lt h.generation).symm
      · exact h.stay rfl
    · cases hnext
  | insert thread cancelled =>
    simp only [World.next] at hnext
    split at hnext
    · rename_i attempt password hcall
      cases hnext
      exact h.insert hshort hcall
    · cases hnext
  | lookup thread path =>
    simp only [World.next] at hnext
    split at hnext
    · split at hnext
      · cases hnext
        exact h.stay rfl
      · cases hnext
        exact h.goto _ rfl (Since.start trivial)
    · cases hnext
  | probe thread source =>
    simp only [World.next] at hnext
    split at hnext
    · rename_i path cached hcall
      have hevidence := h.calls thread
      rw [hcall] at hevidence
      cases hnext
      exact h.goto _ rfl (Since.snoc hevidence fun l _ => List.mem_append_right _ List.mem_cons_self)
    · cases hnext
  | answer thread =>
    simp only [World.next] at hnext
    split at hnext
    · cases hnext
      refine Recorded.goto _ ?_ rfl trivial
      unfold World.answer
      split
      · split
        · split
          · exact h
          · exact h.erase _
        · exact h
      · exact h
    · cases hnext
  | drop thread =>
    simp only [World.next] at hnext
    split at hnext
    · cases hnext
      exact h.goto _ rfl trivial
    · cases hnext
  | forget path =>
    cases hnext
    refine h.revoke rfl (fun path' n hfound => ?_) (fun hmem => ?_) fun hclosed => ?_
    · obtain ⟨hne, hold⟩ := lookup_erase_eq_some.1 hfound
      exact ⟨hold, fun heq => hne (Action.forget.inj heq).symm, nofun⟩
    · rcases List.mem_append.1 hmem with hmem | hmem
      · exact h.closed hmem
      · cases List.mem_singleton.1 hmem
    · rw [h.empty hclosed]
      rfl
  | invalidatePending =>
    cases hnext
    refine h.revoke rfl (fun path n hfound => ⟨hfound, nofun, nofun⟩) (fun hmem => ?_) h.empty
    rcases List.mem_append.1 hmem with hmem | hmem
    · exact h.closed hmem
    · cases List.mem_singleton.1 hmem
  | shutdown =>
    cases hnext
    exact h.revoke rfl (fun path n hfound => by cases hfound) (fun _ => rfl) fun _ => rfl

/-- A password that is handed out for an archive was kept by work that found the archive in the state it is found in again,
before and after, that nothing had revoked, and whose password has not been forgotten since; there is none after shutdown. -/
theorem get_verified {actions : List (Action P S W)} {path : P} {password : W}
    (hrun : run World.next actions (World.default P S W) = some w) (hshort : actions.length < 2 ^ 64)
    (hanswered : w.answered thread = some (path, password)) :
    (∃ source, (Since actions (.lookup thread path) fun l => .probe thread (some source) ∈ l) ∧
      Verified actions path source password) ∧ .shutdown ∉ actions := by
  have hrecorded : actions.length < 2 ^ 64 → Recorded actions w :=
    run_history (I := fun done w => done.length < 2 ^ 64 → Recorded done w)
      (fun done action s t h hstep hlength => by
        rw [List.length_append, List.length_singleton] at hlength
        exact (h (by omega)).next (by omega) hstep)
      hrun fun _ => recorded_default
  have h := hrecorded hshort
  unfold World.answered at hanswered
  split at hanswered
  · rename_i path' cached source hcall
    have hevidence := h.calls thread
    rw [hcall] at hevidence
    obtain ⟨hentry, hanswered⟩ := Option.ite_none_right_eq_some.1 hanswered
    obtain ⟨value, hvalue, hverified⟩ := h.entries path' cached hentry
    rw [hvalue] at hanswered
    obtain ⟨rfl, heq⟩ := Option.ite_none_right_eq_some.1 hanswered
    cases heq
    refine ⟨⟨value.source, hevidence, hverified⟩, fun hmem => ?_⟩
    rw [h.empty (h.closed hmem)] at hentry
    cases hentry
  · cases hanswered

end Steps

/-- An archive that has been opened, and is opened again. -/
def sampleActions : List (Action String Nat String) :=
  [.begin 0 "a.zip", .inspected 0 (some 5), .verify 0 "secret" (some 5), .invalidatePending, .insert 0 false, .drop 0,
    .begin 0 "a.zip", .inspected 0 (some 5), .verify 0 "secret" (some 5), .insert 0 false, .lookup 1 "a.zip",
    .probe 1 (some 5)]

theorem get_verified_sample : ∃ w, run World.next sampleActions (World.default String Nat String) = some w ∧
    w.answered 1 = some ("a.zip", "secret") ∧ .shutdown ∉ sampleActions := by
  have hsome : ((run World.next sampleActions (World.default String Nat String)).bind fun w => w.answered 1) =
      some ("a.zip", "secret") := by decide +kernel
  obtain ⟨w, hrun, hanswered⟩ := Option.bind_eq_some_iff.1 hsome
  exact ⟨w, hrun, hanswered, (get_verified hrun (by decide) hanswered).2⟩

end Squallz.Passwords
