/-
Terminal job states over whole runs: the second section of a pause or a resume is the only one that can
take a job out of one.
-/
import Squallz.Queue.Safety

namespace Squallz.Queue

open Squallz.System

variable {J : Type}

/-! ## Settled jobs -/

/-- A job in a terminal state. -/
def Inner.Settled (s : Inner J) (id : JobId) : Prop := ∃ slot, s.slots id = some slot ∧ slot.state.isTerminal = true

theorem Inner.Settled.forgetTerminal {s : Inner J} {id : JobId} (h : s.Settled id) :
    (s.forgetTerminal id).2 = true := by
  obtain ⟨slot, hslot, hterminal⟩ := h
  unfold Inner.forgetTerminal
  rw [hslot]
  simp only [hterminal, if_true]

/-- An id that has been handed out and whose slot, if there still is one, is terminal. -/
structure Final (c : Config J) (id : JobId) : Prop where
  lt : id < c.inner.nextId
  terminal : ∀ slot, c.inner.slots id = some slot → slot.state.isTerminal = true

theorem Final.settled_or_forgotten {c : Config J} {id : JobId} (h : Final c id) :
    c.inner.slots id = none ∨ c.inner.Settled id := by
  cases hslot : c.inner.slots id with
  | none => exact Or.inl rfl
  | some slot => exact Or.inr ⟨slot, hslot, h.terminal slot hslot⟩

theorem final_of_settled {c : Config J} (hinv : Inv c) {id : JobId} (h : c.inner.Settled id) : Final c id := by
  obtain ⟨slot, hslot, hterminal⟩ := h
  constructor
  · rcases Nat.lt_or_ge id c.inner.nextId with hlt | hge
    · exact hlt
    · rw [(hinv.fresh id hge).1] at hslot
      cases hslot
  · intro slot' hslot'
    rw [hslot] at hslot'
    cases hslot'
    exact hterminal

/-! ## One step -/

/-- The second section of a pause or a resume finds its job not terminal. -/
def Lands : Action J → Config J → Prop
  | .second (.pausing id), c | .second (.resuming id), c => ¬ c.inner.Settled id
  | _, _ => True

namespace Final

variable {c : Config J} {id : JobId}

/-- A step whose new slots hold old states or terminal ones. -/
theorem kept (h : Final c id) {c' : Config J} (hnext : c'.inner.nextId = c.inner.nextId)
    (hslots : ∀ slot', c'.inner.slots id = some slot' → slot'.state.isTerminal = true ∨
      ∃ slot, c.inner.slots id = some slot ∧ slot'.state = slot.state) : Final c' id where
  lt := by
    rw [hnext]
    exact h.lt
  terminal slot' hslot' := by
    rcases hslots slot' hslot' with hterminal | ⟨slot, hslot, hstate⟩
    · exact hterminal
    · rw [hstate]
      exact h.terminal slot hslot

/-- Slots of which one is rewritten. -/
theorem set_cases {slots : Slots J} {i : JobId} {new : Option (Slot J)} {slot' : Slot J}
    (h : slots.set i new id = some slot') : (id = i ∧ new = some slot') ∨ slots id = some slot' := by
  by_cases hi : id = i
  · rw [hi, Slots.set_self] at h
    exact Or.inl ⟨hi, h⟩
  · rw [Slots.set_of_ne hi] at h
    exact Or.inr h

/-- One slot rewritten, to the state it has or a terminal one. -/
theorem rewritten (h : Final c id) {c' : Config J} {i : JobId} {slot new : Slot J} (hslot : c.inner.slots i = some slot)
    (hnext : c'.inner.nextId = c.inner.nextId) (hslots : c'.inner.slots = c.inner.slots.set i (some new))
    (hstate : new.state = slot.state ∨ new.state.isTerminal = true) : Final c' id := by
  refine h.kept hnext fun slot' hslot' => ?_
  rw [hslots] at hslot'
  rcases set_cases hslot' with ⟨rfl, hnew⟩ | hold
  · cases hnew
    rcases hstate with hsame | hterminal
    · exact Or.inr ⟨slot, hslot, hsame⟩
    · exact Or.inl hterminal
  · exact Or.inr ⟨slot', hold, rfl⟩

theorem setState (h : Final c id) {c' : Config J} {i : JobId} {state : JobState}
    (hinner : c'.inner = c.inner.setState i state)
    (hstate : ¬ c.inner.Settled i ∨ state.isTerminal = true) : Final c' id := by
  unfold Inner.setState at hinner
  split at hinner
  · exact h.kept (by rw [hinner]) fun slot' hslot' => Or.inr ⟨slot', by rw [← hinner]; exact hslot', rfl⟩
  · rename_i slot hslot
    rcases hstate with hopen | hterminal
    · -- the rewritten job is another one
      have hne : id ≠ i := by
        rintro rfl
        exact hopen ⟨slot, hslot, h.terminal slot hslot⟩
      refine h.kept (by rw [hinner]) fun slot' hslot' => ?_
      rw [hinner] at hslot'
      simp only [Slots.set_of_ne hne] at hslot'
      exact Or.inr ⟨slot', hslot', rfl⟩
    · exact h.rewritten hslot (by rw [hinner]) (by rw [hinner]) (Or.inr hterminal)

theorem outcome_terminal (outcome : Outcome) : outcome.finalState.isTerminal = true := by
  cases outcome <;> rfl

theorem stepClaim (h : Final c id) {c' : Config J} {w : Nat} (hstep : c.stepClaim w = some c') : Final c' id := by
  unfold Config.stepClaim at hstep
  split at hstep
  · rename_i i threads hworker
    rcases c.inner.claimJob_cases i with ⟨hclaim, -⟩ | ⟨slot, job, state, hslot, hqueued, -, -, hclaim⟩
    · rw [hclaim] at hstep
      cases hstep
      exact h.kept rfl fun slot' hslot' => Or.inr ⟨slot', hslot', rfl⟩
    · rw [hclaim] at hstep
      cases hstep
      refine h.kept rfl fun slot' hslot' => ?_
      rcases set_cases hslot' with ⟨rfl, -⟩ | hold
      · have hterminal := h.terminal slot hslot
        rw [hqueued] at hterminal
        cases hterminal
      · exact Or.inr ⟨slot', hold, rfl⟩
  · cases hstep

theorem stepTryPause (h : Final c id) (i : JobId) : Final (c.stepTryPause i) id := by
  unfold Config.stepTryPause Inner.pauseToken
  cases hslot : c.inner.slots i with
  | none => exact h
  | some slot =>
    simp only
    by_cases hrefused : (slot.state.isTerminal || !slot.interruptible) = true
    · rw [if_pos hrefused]
      exact h
    · rw [if_neg hrefused]
      cases slot.state == .running with
      | true => exact h.rewritten hslot rfl rfl (Or.inl rfl)
      | false => exact h.rewritten hslot rfl rfl (Or.inl rfl)

theorem stepResume (h : Final c id) (i : JobId) : Final (c.stepResume i) id := by
  unfold Config.stepResume Inner.resumeToken
  cases hslot : c.inner.slots i with
  | none => exact h
  | some slot =>
    simp only
    cases slot.state == .paused with
    | true => exact h.rewritten hslot rfl rfl (Or.inl rfl)
    | false => exact h.rewritten hslot rfl rfl (Or.inl rfl)

theorem forget (h : Final c id) (i : JobId) : Final { c with inner := (c.inner.forgetTerminal i).1 } id := by
  unfold Inner.forgetTerminal
  cases hslot : c.inner.slots i with
  | none => exact h
  | some slot =>
    simp only
    split
    · refine h.kept rfl fun slot' hslot' => ?_
      rcases set_cases hslot' with ⟨-, hnone⟩ | hold
      · cases hnone
      · exact Or.inr ⟨slot', hold, rfl⟩
    · exact h

theorem stepCancelMany (h : Final c id) (ids : List JobId) : Final (c.stepCancelMany ids) id := by
  obtain ⟨hcancels, heq⟩ := c.inner.requestCancelMany_cancels ids
  have hnext : (c.inner.requestCancelMany ids).1.nextId = c.inner.nextId := by rw [heq]
  refine h.kept hnext fun slot' hslot' => ?_
  by_cases hi : id ∈ (c.inner.requestCancelMany ids).2.2
  · obtain ⟨-, slot, hslot, -, hstate⟩ := hcancels.cancelled id hi
    have hsame : slot = slot' := Option.some.inj (hslot.symm.trans hslot')
    rw [← hsame, hstate]
    exact Or.inl rfl
  · obtain ⟨slot, hslot, hstate, -⟩ := hcancels.of_kept hi hslot'
    exact Or.inr ⟨slot, hslot, hstate.symm⟩

/-- Every locked section that meets the condition keeps a final job final. -/
theorem step (h : Final c id) {a : Action J} {c' : Config J} (hlands : Lands a c)
    (hstep : step a c = some c') : Final c' id := by
  cases a with
  | submit job cpuThreads =>
    cases hstep
    refine ⟨Nat.lt_succ_of_lt h.lt, fun slot' hslot' => ?_⟩
    rcases set_cases hslot' with ⟨heq, -⟩ | hold
    · exact absurd heq (Nat.ne_of_lt h.lt)
    · exact h.terminal slot' hold
  | second call =>
    rw [Queue.step] at hstep
    split at hstep
    · cases hstep
      cases call with
      | push i => exact h.kept rfl fun slot' hslot' => Or.inr ⟨slot', hslot', rfl⟩
      | pausing i => exact h.setState rfl (Or.inl hlands)
      | resuming i => exact h.setState rfl (Or.inl hlands)
    · cases hstep
  | reserve w =>
    obtain ⟨-, ⟨-, rfl⟩ | ⟨-, queue, rfl⟩ | ⟨-, queue, i, threads, -, -, -, rfl⟩⟩ := stepReserve_cases hstep
    · exact h.kept rfl fun slot' hslot' => Or.inr ⟨slot', hslot', rfl⟩
    · exact h.kept rfl fun slot' hslot' => Or.inr ⟨slot', hslot', rfl⟩
    · exact h.kept rfl fun slot' hslot' => Or.inr ⟨slot', hslot', rfl⟩
  | claim w => exact h.stepClaim hstep
  | jobEnds w outcome =>
    rw [Queue.step, Config.stepJobEnds] at hstep
    split at hstep
    · cases hstep
      exact h.kept rfl fun slot' hslot' => Or.inr ⟨slot', hslot', rfl⟩
    · cases hstep
  | publish w =>
    rw [Queue.step, Config.stepPublish] at hstep
    split at hstep
    · cases hstep
      exact h.setState rfl (Or.inr (outcome_terminal _))
    · cases hstep
  | release w =>
    rw [Queue.step, Config.stepRelease] at hstep
    split at hstep
    · cases hstep
      refine h.kept (c.inner.releaseResources_nextId _) fun slot' hslot' => ?_
      simp only [Inner.releaseResources_slots] at hslot'
      exact Or.inr ⟨slot', hslot', rfl⟩
    · cases hstep
  | phase w interruptible =>
    rw [Queue.step, Config.stepPhase] at hstep
    split at hstep
    · cases hstep
      unfold Inner.onPhase
      split
      · exact h
      · rename_i hslot
        exact h.rewritten hslot rfl rfl (Or.inl rfl)
    · cases hstep
  | tryPause i =>
    cases hstep
    exact h.stepTryPause i
  | resume i =>
    cases hstep
    exact h.stepResume i
  | cancelMany ids =>
    cases hstep
    exact h.stepCancelMany ids
  | moveBefore i before =>
    cases hstep
    obtain ⟨queue, heq, -⟩ := c.inner.moveQueuedBefore_reordered i before
    rw [heq]
    exact h.kept rfl fun slot' hslot' => Or.inr ⟨slot', hslot', rfl⟩
  | move i direction =>
    cases hstep
    obtain ⟨queue, heq, -⟩ := c.inner.moveQueued_reordered i direction
    rw [heq]
    exact h.kept rfl fun slot' hslot' => Or.inr ⟨slot', hslot', rfl⟩
  | forget i =>
    cases hstep
    exact h.forget i
  | setMaxRunning maxRunning =>
    cases hstep
    exact h.kept rfl fun slot' hslot' => Or.inr ⟨slot', hslot', rfl⟩
  | shutdown =>
    cases hstep
    exact h.kept rfl fun slot' hslot' => Or.inr ⟨slot', hslot', rfl⟩

end Final

/-- A second section that does not find its job open takes it out of its terminal state. -/
theorem lands_of_final {a : Action J} {c c' : Config J} (hstep : step a c = some c')
    (hfinal : ∀ id, c.inner.Settled id → c'.inner.slots id = none ∨ c'.inner.Settled id) : Lands a c := by
  have hreopened : ∀ (id : JobId) (state : JobState), state.isTerminal = false →
      c'.inner = c.inner.setState id state → ¬ c.inner.Settled id := by
    rintro id state hstate hinner ⟨slot, hslot, hterminal⟩
    have hnew : c'.inner.slots id = some { slot with state := state } := by
      rw [hinner, Inner.setState, hslot]
      exact Slots.set_self _ _ _
    rcases hfinal id ⟨slot, hslot, hterminal⟩ with hnone | ⟨slot', hslot', hterminal'⟩
    · rw [hnew] at hnone
      cases hnone
    · rw [hnew] at hslot'
      cases hslot'
      rw [hstate] at hterminal'
      cases hterminal'
  cases a with
  | second call =>
    rw [step] at hstep
    split at hstep
    · cases hstep
      cases call with
      | push id => trivial
      | pausing id => exact hreopened id .paused rfl rfl
      | resuming id => exact hreopened id .running rfl rfl
    · cases hstep
  | _ => trivial

/-! ## Whole runs -/

section Runs

variable {workerThreads maxRunning cpuThreadBudget : UInt64} {acts : List (Action J)} {c : Config J}

theorem final_run {m : Config J} {id : JobId} {middle : List (Action J)} (hlands : Meets step Lands middle m)
    (hrun : run step middle m = some c) (h : Final m id) : Final c id :=
  run_invariant_of_meets (I := fun c => Final c id) (fun _ _ _ hfinal hlands hstep => hfinal.step hlands hstep)
    hlands hrun h

/-- Terminal job states are final in a run exactly if every second section of a pause or a resume finds its
job not terminal. -/
theorem terminal_states_final_iff
    (hrun : run step acts (Config.new J workerThreads maxRunning cpuThreadBudget) = some c) :
    (∀ before middle after m n id, acts = before ++ middle ++ after →
        run step before (Config.new J workerThreads maxRunning cpuThreadBudget) = some m →
        run step middle m = some n → m.inner.Settled id →
        n.inner.slots id = none ∨ (n.inner.Settled id ∧ (n.inner.forgetTerminal id).2 = true)) ↔
      Meets step Lands acts (Config.new J workerThreads maxRunning cpuThreadBudget) := by
  constructor
  · intro hfinal
    refine @meets_of_steps _ _ _ _ (fun _ => True) _ _ _ hrun trivial fun before a after m n hsplit hbefore hstep _ =>
      ⟨lands_of_final hstep fun id hsettled => ?_, trivial⟩
    have hone : run step [a] m = some n := run_cons.2 ⟨n, hstep, rfl⟩
    rcases hfinal before [a] after m n id (by rw [hsplit]; simp) hbefore hone hsettled with hnone | ⟨hn, -⟩
    · exact Or.inl hnone
    · exact Or.inr hn
  · intro hmeets before middle after m n id hsplit hbefore hmiddle hsettled
    rw [hsplit] at hmeets
    have hlands := (meets_append.1 (meets_append.1 hmeets).1).2 m hbefore
    have hfinal := final_run hlands hmiddle (final_of_settled (inv_run hbefore) hsettled)
    rcases hfinal.settled_or_forgotten with hnone | hn
    · exact Or.inl hnone
    · exact Or.inr ⟨hn, hn.forgetTerminal⟩

end Runs

/-- A job that is paused while it runs, and ends before the pause has written its state. -/
def latePause : List (Action Unit) :=
  [.submit () 1, .second (.push 1), .reserve 0, .claim 0, .tryPause 1, .jobEnds 0 .ok, .publish 0]

theorem terminal_states_final_iff_late_pause :
    (∀ before middle after m n id, latePause = before ++ middle ++ after →
        run step before (Config.new Unit 1 1 1) = some m → run step middle m = some n → m.inner.Settled id →
        n.inner.slots id = none ∨ (n.inner.Settled id ∧ (n.inner.forgetTerminal id).2 = true)) ↔
      Meets step Lands latePause (Config.new Unit 1 1 1) :=
  have hrun : (run step latePause (Config.new Unit 1 1 1)).isSome := by decide +kernel
  terminal_states_final_iff (Option.some_get hrun).symm

/-- The second section of the pause takes the finished job back to `Paused`, and it cannot be forgotten. -/
theorem late_pause_reopens : ∃ m n, run step latePause (Config.new Unit 1 1 1) = some m ∧
    step (.second (.pausing 1)) m = some n ∧ (m.inner.slots 1).map Slot.state = some .done ∧
      (n.inner.slots 1).map Slot.state = some .paused ∧ (n.inner.forgetTerminal 1).2 = false := by
  have hstates : (run step latePause (Config.new Unit 1 1 1)).map (fun m =>
      ((m.inner.slots 1).map Slot.state, (step (.second (.pausing 1)) m).map fun n =>
        ((n.inner.slots 1).map Slot.state, (n.inner.forgetTerminal 1).2))) =
      some (some .done, some (some .paused, false)) := by
    decide +kernel
  obtain ⟨m, hm, hstates⟩ := Option.map_eq_some_iff.1 hstates
  obtain ⟨hdone, hstates⟩ := Prod.mk.inj hstates
  obtain ⟨n, hn, hstates⟩ := Option.map_eq_some_iff.1 hstates
  obtain ⟨hpaused, hforget⟩ := Prod.mk.inj hstates
  exact ⟨m, n, hm, hn, hdone, hpaused, hforget⟩

end Squallz.Queue
