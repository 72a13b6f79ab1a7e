/-
Safety of the queue over whole runs: where the closure of a waiting job is, which closures have been
executed, and what the counters count.
-/
import Squallz.Queue.Scheduling
import Mathlib.Algebra.BigOperators.Group.List.Basic

namespace Squallz.Queue

open Squallz.System

/-! ## Workers -/

/-- A worker that holds a reservation. -/
def Worker.holds : Worker → Bool
  | .reserved _ _ | .executing _ _ | .finished _ _ _ | .releasing _ => true
  | _ => false

/-- The threads of a worker's reservation. -/
def Worker.threads : Worker → Nat
  | .reserved _ threads | .executing _ threads | .finished _ threads _ | .releasing threads => threads
  | _ => 0

/-- A worker that has reserved a job and not yet claimed it. -/
def Worker.reserves (id : JobId) : Worker → Bool
  | .reserved i _ => i == id
  | _ => false

section Workers

variable {l : List Worker} {w : Nat} {old new : Worker}

theorem countP_set (p : Worker → Bool) (h : l[w]? = some old) :
    (l.set w new).countP p + (if p old then 1 else 0) = l.countP p + if p new then 1 else 0 := by
  obtain ⟨hlt, rfl⟩ := List.getElem?_eq_some_iff.1 h
  have hset := @List.countP_set _ p l w new hlt
  have hle : (if p l[w] then 1 else 0) ≤ l.countP p := by
    split
    · rename_i hp
      exact List.countP_pos_iff.2 ⟨_, List.getElem_mem hlt, hp⟩
    · exact Nat.zero_le _
  omega

theorem sum_set (f : Worker → Nat) (h : l[w]? = some old) :
    ((l.set w new).map f).sum + f old = (l.map f).sum + f new := by
  induction l generalizing w with
  | nil => cases h
  | cons a l ih =>
    cases w with
    | zero =>
      cases h
      simp only [List.set_cons_zero, List.map_cons, List.sum_cons]
      omega
    | succ w =>
      have := ih h
      simp only [List.set_cons_succ, List.map_cons, List.sum_cons]
      omega

end Workers

variable {J : Type}

/-! ## The invariant -/

/-- In how many places an id is: in the queue, before its push, or reserved by a worker. -/
def Config.places (c : Config J) (id : JobId) : Nat :=
  c.inner.queue.count id + c.pending.count (.push id) + c.workers.countP (Worker.reserves id)

structure Inv (c : Config J) : Prop where
  fresh : ∀ id, c.inner.nextId ≤ id → c.inner.slots id = none ∧ c.places id = 0 ∧ id ∉ c.executed ∧
    id ∉ c.cancelledQueued
  placed : ∀ id, c.inner.slots.Waiting id → c.places id = 1
  spent : ∀ id, id ∈ c.executed ∨ id ∈ c.cancelledQueued → ∀ slot, c.inner.slots id = some slot → slot.job = none
  once : c.executed.Nodup
  apart : ∀ id ∈ c.cancelledQueued, id ∉ c.executed

/-- Slots of which none has come up, none waits again and none has its closure back. -/
def Narrows (slots slots' : Slots J) : Prop :=
  ∀ id slot', slots' id = some slot' → ∃ slot, slots id = some slot ∧ (slot'.Waiting → slot.Waiting) ∧
    (slot.job = none → slot'.job = none)

theorem Narrows.refl (slots : Slots J) : Narrows slots slots := fun _ slot' h => ⟨slot', h, id, id⟩

theorem Narrows.waiting {slots slots' : Slots J} (h : Narrows slots slots') {id : JobId} (hw : slots'.Waiting id) :
    slots.Waiting id := by
  obtain ⟨slot', hslot', hw⟩ := hw
  obtain ⟨slot, hslot, hwait, -⟩ := h id slot' hslot'
  exact ⟨slot, hslot, hwait hw⟩

theorem Narrows.none {slots slots' : Slots J} (h : Narrows slots slots') {id : JobId} (hn : slots id = none) :
    slots' id = none := by
  cases hs : slots' id with
  | none => rfl
  | some slot' =>
    obtain ⟨slot, hslot, -⟩ := h id slot' hs
    rw [hn] at hslot
    cases hslot

/-- One slot rewritten, neither waiting nor with a closure it has not had. -/
theorem narrows_set {slots : Slots J} {id : JobId} {slot new : Slot J} (hslot : slots id = some slot)
    (hwait : new.Waiting → slot.Waiting) (hjob : slot.job = none → new.job = none) :
    Narrows slots (slots.set id (some new)) := by
  intro i slot' h
  by_cases hi : i = id
  · rw [hi, Slots.set_self] at h
    cases h
    exact ⟨slot, by rw [hi]; exact hslot, hwait, hjob⟩
  · rw [Slots.set_of_ne hi] at h
    exact ⟨slot', h, fun hw => hw, fun hj => hj⟩

/-- A step that executes nothing and cancels nothing waiting keeps the invariant if it moves the waiting
ids around. -/
theorem Inv.quiet {c c' : Config J} (h : Inv c) (hnext : c'.inner.nextId = c.inner.nextId)
    (hslots : Narrows c.inner.slots c'.inner.slots) (hle : ∀ id, c'.places id ≤ c.places id)
    (hplaces : ∀ id, c.inner.slots.Waiting id → c'.places id = c.places id)
    (hexec : c'.executed = c.executed) (hcancelled : c'.cancelledQueued = c.cancelledQueued) : Inv c' where
  fresh id hid := by
    rw [hnext] at hid
    obtain ⟨hnone, hzero, hexecuted, hcancel⟩ := h.fresh id hid
    refine ⟨hslots.none hnone, Nat.eq_zero_of_le_zero (hzero ▸ hle id), ?_, ?_⟩
    · rw [hexec]
      exact hexecuted
    · rw [hcancelled]
      exact hcancel
  placed id hid := by
    rw [hplaces id (hslots.waiting hid)]
    exact h.placed id (hslots.waiting hid)
  spent id hid slot' hslot' := by
    rw [hexec, hcancelled] at hid
    obtain ⟨slot, hslot, -, hjob⟩ := hslots id slot' hslot'
    exact hjob (h.spent id hid slot hslot)
  once := by
    rw [hexec]
    exact h.once
  apart := by
    rw [hexec, hcancelled]
    exact h.apart

/-! ## Where the ids are -/

section Places

variable {c : Config J} {w : Nat} {old new : Worker}

/-- A worker moved between two places of its loop that are not the one before its claim. -/
theorem countP_reserves_set (h : c.workers[w]? = some old) (hold : ∀ id, old.reserves id = false)
    (hnew : ∀ id, new.reserves id = false) (id : JobId) :
    (c.workers.set w new).countP (Worker.reserves id) = c.workers.countP (Worker.reserves id) := by
  have hset := @countP_set _ _ _ new (Worker.reserves id) h
  rw [hold id, hnew id] at hset
  exact hset

theorem narrows_setState (s : Inner J) (id : JobId) {state : JobState} (hstate : state ≠ .queued) :
    Narrows s.slots (s.setState id state).slots := by
  unfold Inner.setState
  split
  · exact .refl _
  · rename_i slot hslot
    exact narrows_set hslot (fun hw => absurd hw.1 hstate) fun hjob => hjob

theorem setState_eq (s : Inner J) (id : JobId) (state : JobState) :
    s.setState id state = { s with slots := (s.setState id state).slots } := by
  unfold Inner.setState
  split <;> rfl

theorem Outcome.finalState_ne_queued (outcome : Outcome) : outcome.finalState ≠ .queued := by
  cases outcome <;> exact fun h => by cases h

end Places

/-! ## What the workers' steps do -/

/-- What a worker's look at the queue comes to. -/
theorem stepReserve_cases {c c' : Config J} {w : Nat} (hstep : c.stepReserve w = some c') :
    c.workers[w]? = some .idle ∧
      ((c.inner.shutdown = true ∧ c' = { c with workers := c.workers.set w .exited }) ∨
        (c.inner.reserveNextJob.2 = none ∧ ∃ queue, c' = { c with inner := { c.inner with queue := queue } }) ∨
        (c.inner.shutdown = false ∧ ∃ queue id threads, c.inner.reserveNextJob.2 = some (id, threads) ∧
          threads ≤ c.inner.cpuThreadBudget ∧
          (c.inner.cpuThreadsInUse = 0 ∨
            saturatingAdd c.inner.cpuThreadsInUse threads ≤ c.inner.cpuThreadBudget) ∧
          c' = { c with
            inner := { c.inner with
              queue := queue
              running := fetchAdd c.inner.running 1
              cpuThreadsInUse := fetchAdd c.inner.cpuThreadsInUse threads }
            workers := c.workers.set w (.reserved id threads) })) := by
  unfold Config.stepReserve at hstep
  split at hstep
  · rename_i hworker
    refine ⟨hworker, ?_⟩
    split at hstep
    · rename_i hshutdown
      cases hstep
      exact Or.inl ⟨hshutdown, rfl⟩
    · rename_i hshutdown
      have hreserves := c.inner.reserveNextJob_reserves
      revert hstep
      generalize c.inner.reserveNextJob = result at hreserves
      intro hstep
      cases hreserves with
      | nothing count_le count =>
        cases hstep
        exact Or.inr (Or.inl ⟨rfl, _, rfl⟩)
      | job present waiting bounded fits count_le count free threads_eq order =>
        cases hstep
        exact Or.inr (Or.inr ⟨by simpa using hshutdown, _, _, _, rfl, bounded, fits, rfl⟩)
  · cases hstep

/-- What claiming a reserved job does. -/
theorem Inner.claimJob_cases (s : Inner J) (id : JobId) :
    (s.claimJob id = (s, none) ∧ ¬ s.slots.Waiting id) ∨
      ∃ slot job state, s.slots id = some slot ∧ slot.state = .queued ∧ slot.job = some job ∧
        (state = .paused ∨ state = .running) ∧
        s.claimJob id = ({ s with slots := s.slots.set id (some { slot with job := none, state := state }) },
          some job) := by
  unfold Inner.claimJob
  cases hslot : s.slots id with
  | none =>
    refine Or.inl ⟨rfl, ?_⟩
    rintro ⟨slot, hsome, -⟩
    rw [hslot] at hsome
    cases hsome
  | some slot =>
    simp only
    by_cases hstate : slot.state = .queued
    · rw [if_neg (not_not_intro hstate)]
      cases hjob : slot.job with
      | none =>
        refine Or.inl ⟨rfl, ?_⟩
        rintro ⟨slot', hsome, -, hwait⟩
        rw [hslot] at hsome
        cases hsome
        rw [hjob] at hwait
        cases hwait
      | some job =>
        refine Or.inr ⟨slot, job, _, rfl, hstate, hjob, ?_, rfl⟩
        split
        · exact Or.inl rfl
        · exact Or.inr rfl
    · rw [if_pos hstate]
      refine Or.inl ⟨rfl, ?_⟩
      rintro ⟨slot', hsome, hwait, -⟩
      rw [hslot] at hsome
      cases hsome
      exact hstate hwait

@[simp] theorem Inner.releaseResources_slots (s : Inner J) (threads : Nat) :
    (s.releaseResources threads).slots = s.slots := by rw [releaseResources]

@[simp] theorem Inner.releaseResources_queue (s : Inner J) (threads : Nat) :
    (s.releaseResources threads).queue = s.queue := by rw [releaseResources]

@[simp] theorem Inner.releaseResources_nextId (s : Inner J) (threads : Nat) :
    (s.releaseResources threads).nextId = s.nextId := by rw [releaseResources]

/-! ## Every step keeps the invariant -/

namespace Inv

variable {c : Config J} {w : Nat} {old new : Worker}

/-- A worker that moves on and holds no unclaimed reservation, with the slots narrowed. -/
theorem moved (h : Inv c) {inner : Inner J} (hworker : c.workers[w]? = some old)
    (hold : ∀ id, old.reserves id = false) (hnew : ∀ id, new.reserves id = false)
    (hnext : inner.nextId = c.inner.nextId) (hqueue : inner.queue = c.inner.queue)
    (hslots : Narrows c.inner.slots inner.slots) :
    Inv { c with inner := inner, workers := c.workers.set w new } := by
  have hplaces : ∀ id, { c with inner := inner, workers := c.workers.set w new }.places id = c.places id := by
    intro id
    unfold Config.places
    rw [countP_reserves_set hworker hold hnew, hqueue]
  exact h.quiet hnext hslots (fun id => Nat.le_of_eq (hplaces id)) (fun id _ => hplaces id) rfl rfl

/-- A step of a caller that narrows the slots and leaves every id where it is. -/
theorem kept (h : Inv c) {inner : Inner J} {pending : List Pending} (hnext : inner.nextId = c.inner.nextId)
    (hqueue : ∀ id, inner.queue.count id = c.inner.queue.count id)
    (hpending : ∀ id, pending.count (.push id) = c.pending.count (.push id))
    (hslots : Narrows c.inner.slots inner.slots) : Inv { c with inner := inner, pending := pending } := by
  have hplaces : ∀ id, { c with inner := inner, pending := pending }.places id = c.places id := by
    intro id
    unfold Config.places
    rw [hqueue id, hpending id]
  exact h.quiet hnext hslots (fun id => Nat.le_of_eq (hplaces id)) (fun id _ => hplaces id) rfl rfl

theorem stepSubmit (h : Inv c) (job : J) (cpuThreads : Nat) : Inv (c.stepSubmit job cpuThreads) := by
  unfold Config.stepSubmit Inner.submitSlot
  obtain ⟨hnone, hzero, hexec, hcancelled⟩ := h.fresh _ (Nat.le_refl _)
  have hplaces : ∀ id, id ≠ c.inner.nextId → (c.stepSubmit job cpuThreads).places id = c.places id := by
    intro id hne
    unfold Config.places Config.stepSubmit Inner.submitSlot
    simp only
    rw [List.count_cons_of_ne (fun heq => hne (by cases heq; rfl))]
  have hself : (c.stepSubmit job cpuThreads).places c.inner.nextId = 1 := by
    unfold Config.places at hzero
    unfold Config.places Config.stepSubmit Inner.submitSlot
    simp only [List.count_cons_self]
    omega
  constructor
  · intro id hid
    have hlt : c.inner.nextId < id := hid
    have hne : id ≠ c.inner.nextId := Nat.ne_of_gt hlt
    obtain ⟨hnone, hzero, hrest⟩ := h.fresh id (Nat.le_of_lt hlt)
    refine ⟨?_, (hplaces id hne).trans hzero, hrest⟩
    simp only [Slots.set_of_ne hne]
    exact hnone
  · intro id hid
    by_cases hne : id = c.inner.nextId
    · rw [hne]
      exact hself
    · refine (hplaces id hne).trans (h.placed id ?_)
      obtain ⟨slot, hslot, hwait⟩ := hid
      simp only [Slots.set_of_ne hne] at hslot
      exact ⟨slot, hslot, hwait⟩
  · intro id hid slot hslot
    have hne : id ≠ c.inner.nextId := by
      rintro rfl
      rcases hid with hid | hid
      · exact hexec hid
      · exact hcancelled hid
    simp only [Slots.set_of_ne hne] at hslot
    exact h.spent id hid slot hslot
  · exact h.once
  · exact h.apart

theorem stepSecond (h : Inv c) {call : Pending} (hcall : call ∈ c.pending) :
    Inv { c with inner := c.runSecond call, pending := c.pending.erase call } := by
  cases call with
  | push id =>
    have hplaces : ∀ i, { c with inner := c.runSecond (.push id), pending := c.pending.erase (.push id) }.places i =
        c.places i := by
      intro i
      have hpos := List.count_pos_iff.2 hcall
      show (c.inner.queue ++ [id]).count i + (c.pending.erase (.push id)).count (.push i) +
        c.workers.countP (Worker.reserves i) = c.inner.queue.count i + c.pending.count (.push i) +
        c.workers.countP (Worker.reserves i)
      by_cases hi : i = id
      · rw [hi, List.count_append, List.count_singleton_self, List.count_erase_self]
        omega
      · rw [List.count_append, List.count_singleton, if_neg (by simpa using fun heq => hi heq.symm),
          List.count_erase_of_ne (by simpa using hi), Nat.add_zero]
    exact h.quiet rfl (.refl _) (fun i => Nat.le_of_eq (hplaces i)) (fun i _ => hplaces i) rfl rfl
  | pausing id =>
    have hnext : (c.inner.setState id .paused).nextId = c.inner.nextId := by rw [setState_eq]
    have hqueue : (c.inner.setState id .paused).queue = c.inner.queue := by rw [setState_eq]
    exact h.kept hnext (fun i => congrArg (List.count i) hqueue) (fun i => List.count_erase_of_ne (by simp))
      (narrows_setState _ _ (by simp))
  | resuming id =>
    have hnext : (c.inner.setState id .running).nextId = c.inner.nextId := by rw [setState_eq]
    have hqueue : (c.inner.setState id .running).queue = c.inner.queue := by rw [setState_eq]
    exact h.kept hnext (fun i => congrArg (List.count i) hqueue) (fun i => List.count_erase_of_ne (by simp))
      (narrows_setState _ _ (by simp))

theorem stepReserve (h : Inv c) {c' : Config J} (hstep : c.stepReserve w = some c') : Inv c' := by
  unfold Config.stepReserve at hstep
  split at hstep
  · rename_i hworker
    split at hstep
    · cases hstep
      exact h.moved hworker (fun _ => rfl) (fun _ => rfl) rfl rfl (.refl _)
    · have hreserves := c.inner.reserveNextJob_reserves
      revert hstep
      generalize c.inner.reserveNextJob = result at hreserves
      intro hstep
      cases hreserves with
      | nothing count_le count =>
        cases hstep
        refine h.quiet rfl (.refl _) (fun id => ?_) (fun id hid => ?_) rfl rfl
        · exact Nat.add_le_add_right (Nat.add_le_add_right (count_le id) _) _
        · unfold Config.places
          simp only [count id hid]
      | job present waiting bounded fits count_le count free threads_eq order =>
        rename_i queue id threads slot
        cases hstep
        have hworkers : ∀ i, (c.workers.set w (.reserved id threads)).countP (Worker.reserves i) =
            c.workers.countP (Worker.reserves i) + [id].count i := by
          intro i
          have hset := @countP_set _ _ _ (.reserved id threads) (Worker.reserves i) hworker
          rw [List.count_singleton]
          simp only [Worker.reserves] at hset
          simpa using hset
        refine h.quiet rfl (.refl _) (fun i => ?_) (fun i hi => ?_) rfl rfl
        · unfold Config.places
          simp only [hworkers i]
          have := count_le i
          omega
        · unfold Config.places
          simp only [hworkers i]
          have := count i hi
          omega
  · cases hstep

theorem stepClaim (h : Inv c) {c' : Config J} (hstep : c.stepClaim w = some c') : Inv c' := by
  unfold Config.stepClaim at hstep
  split at hstep
  · rename_i id threads hworker
    have hworkers : ∀ (new : Worker), (∀ i, new.reserves i = false) → ∀ i,
        (c.workers.set w new).countP (Worker.reserves i) + [id].count i = c.workers.countP (Worker.reserves i) := by
      intro new hnew i
      have hset := @countP_set _ _ _ new (Worker.reserves i) hworker
      rw [hnew i] at hset
      rw [List.count_singleton]
      simpa [Worker.reserves] using hset
    rcases c.inner.claimJob_cases id with ⟨hclaim, hnot⟩ | ⟨slot, job, state, hslot, hqueued, hjob, hstate, hclaim⟩
    · rw [hclaim] at hstep
      cases hstep
      have hcount := hworkers (.releasing threads) fun _ => rfl
      refine h.quiet rfl (.refl _) (fun i => ?_) (fun i hi => ?_) rfl rfl
      · unfold Config.places
        have := hcount i
        simp only
        omega
      · unfold Config.places
        have := hcount i
        have hne : i ≠ id := fun heq => hnot (heq ▸ hi)
        rw [List.count_singleton, if_neg (by simpa using fun heq => hne heq.symm)] at this
        simp only
        omega
    · rw [hclaim] at hstep
      cases hstep
      have hcount := hworkers (.executing id threads) fun _ => rfl
      have hspent : id ∉ c.executed ∧ id ∉ c.cancelledQueued := by
        constructor
        · intro hmem
          have := h.spent id (Or.inl hmem) slot hslot
          rw [hjob] at this
          cases this
        · intro hmem
          have := h.spent id (Or.inr hmem) slot hslot
          rw [hjob] at this
          cases this
      have hold : id < c.inner.nextId := by
        rcases Nat.lt_or_ge id c.inner.nextId with hlt | hge
        · exact hlt
        · rw [(h.fresh id hge).1] at hslot
          cases hslot
      have hnarrows : Narrows c.inner.slots (c.inner.slots.set id (some { slot with job := none, state := state })) :=
        narrows_set hslot (fun hw => by cases hw.2) fun _ => rfl
      constructor
      · intro i hi
        obtain ⟨hnone, hzero, hexec, hcancelled⟩ := h.fresh i hi
        refine ⟨hnarrows.none hnone, ?_, ?_, hcancelled⟩
        · unfold Config.places at hzero ⊢
          have := hcount i
          simp only
          omega
        · rintro hmem
          rcases List.mem_cons.1 hmem with rfl | hmem
          · exact absurd hi (Nat.not_le_of_lt hold)
          · exact hexec hmem
      · intro i hi
        have hplaced := h.placed i (hnarrows.waiting hi)
        have hne : i ≠ id := by
          rintro rfl
          obtain ⟨slot', hslot', -, hwait⟩ := hi
          simp only [Slots.set_self] at hslot'
          cases hslot'
          cases hwait
        unfold Config.places at hplaced ⊢
        have := hcount i
        rw [List.count_singleton, if_neg (by simpa using fun heq => hne heq.symm)] at this
        simp only
        omega
      · intro i hi slot' hslot'
        simp only at hslot'
        by_cases hne : i = id
        · rw [hne, Slots.set_self] at hslot'
          cases hslot'
          rfl
        · rw [Slots.set_of_ne hne] at hslot'
          refine h.spent i ?_ slot' hslot'
          rcases hi with hi | hi
          · exact Or.inl ((List.mem_cons.1 hi).resolve_left hne)
          · exact Or.inr hi
      · exact List.nodup_cons.2 ⟨hspent.1, h.once⟩
      · intro i hi hmem
        rcases List.mem_cons.1 hmem with rfl | hmem
        · exact hspent.2 hi
        · exact h.apart i hi hmem
  · cases hstep

theorem stepCancelMany (h : Inv c) (ids : List JobId) : Inv (c.stepCancelMany ids) := by
  obtain ⟨hcancels, heq⟩ := c.inner.requestCancelMany_cancels ids
  have hc' : c.stepCancelMany ids = { c with
      inner := (c.inner.requestCancelMany ids).1
      cancelledQueued := (c.inner.requestCancelMany ids).2.2 ++ c.cancelledQueued } := rfl
  rw [hc']
  generalize c.inner.requestCancelMany ids = result at hcancels heq
  obtain ⟨inner, requested, cancelled⟩ := result
  simp only at hcancels heq ⊢
  rw [heq]
  have hcancelled : ∀ i ∈ cancelled, c.inner.slots.Waiting i ∧
      ∃ slot, inner.slots i = some slot ∧ slot.job = none ∧ slot.state = .cancelled := hcancels.cancelled
  have hnarrows : Narrows c.inner.slots inner.slots := by
    intro i slot' hslot'
    by_cases hi : i ∈ cancelled
    · obtain ⟨⟨slot, hslot, -⟩, slot'', hslot'', hjob, hstate⟩ := hcancelled i hi
      rw [hslot'] at hslot''
      cases hslot''
      refine ⟨slot, hslot, fun hw => ?_, fun _ => hjob⟩
      rw [hw.1] at hstate
      cases hstate
    · obtain ⟨slot, hslot, hstate, hjob⟩ := hcancels.of_kept hi hslot'
      refine ⟨slot, hslot, fun hw => ⟨hstate.trans hw.1, ?_⟩, fun hnone => hjob.symm.trans hnone⟩
      rw [hjob]
      exact hw.2
  have hnot : ∀ i, i ∈ cancelled → ¬ inner.slots.Waiting i := by
    rintro i hi ⟨slot, hslot, hwait, -⟩
    obtain ⟨-, slot', hslot', -, hstate⟩ := hcancelled i hi
    rw [hslot] at hslot'
    cases hslot'
    rw [hstate] at hwait
    cases hwait
  have hcount : ∀ i, (c.inner.queue.filter (· ∉ cancelled)).count i ≤ c.inner.queue.count i :=
    fun i => List.Sublist.count_le i List.filter_sublist
  constructor
  · intro i hi
    obtain ⟨hnone, hzero, hexec, hnot⟩ := h.fresh i hi
    refine ⟨hnarrows.none hnone, ?_, hexec, ?_⟩
    · unfold Config.places at hzero ⊢
      have := hcount i
      simp only
      omega
    · intro hmem
      rcases List.mem_append.1 hmem with hmem | hmem
      · obtain ⟨slot, hslot, -⟩ := (hcancelled i hmem).1
        rw [hnone] at hslot
        cases hslot
      · exact hnot hmem
  · intro i hi
    have hplaced := h.placed i (hnarrows.waiting hi)
    have hkept : i ∉ cancelled := fun hmem => hnot i hmem hi
    unfold Config.places at hplaced ⊢
    simp only
    rw [List.count_filter (by simpa using hkept)]
    exact hplaced
  · intro i hi slot' hslot'
    simp only at hslot' hi
    obtain ⟨slot, hslot, -, hjob⟩ := hnarrows i slot' hslot'
    rcases hi with hi | hi
    · exact hjob (h.spent i (Or.inl hi) slot hslot)
    · rcases List.mem_append.1 hi with hi | hi
      · obtain ⟨-, slot'', hslot'', hnone, -⟩ := hcancelled i hi
        rw [hslot'] at hslot''
        cases hslot''
        exact hnone
      · exact hjob (h.spent i (Or.inr hi) slot hslot)
  · exact h.once
  · intro i hi hmem
    rcases List.mem_append.1 hi with hi | hi
    · obtain ⟨⟨slot, hslot, -, hwait⟩, -⟩ := hcancelled i hi
      rw [h.spent i (Or.inl hmem) slot hslot] at hwait
      cases hwait
    · exact h.apart i hi hmem

theorem stepTryPause (h : Inv c) (id : JobId) : Inv (c.stepTryPause id) := by
  unfold Config.stepTryPause Inner.pauseToken
  cases hslot : c.inner.slots id with
  | none => exact h
  | some slot =>
    have hnarrows := @narrows_set _ _ _ _ { slot with token := { slot.token with paused := true } } hslot
      (fun hw => hw) fun hj => hj
    simp only
    by_cases hrefused : (slot.state.isTerminal || !slot.interruptible) = true
    · rw [if_pos hrefused]
      exact h
    · rw [if_neg hrefused]
      cases slot.state == .running with
      | true => exact h.kept rfl (fun _ => rfl) (fun _ => List.count_cons_of_ne (by simp)) hnarrows
      | false => exact h.kept rfl (fun _ => rfl) (fun _ => rfl) hnarrows

theorem stepResume (h : Inv c) (id : JobId) : Inv (c.stepResume id) := by
  unfold Config.stepResume Inner.resumeToken
  cases hslot : c.inner.slots id with
  | none => exact h
  | some slot =>
    have hnarrows := @narrows_set _ _ _ _ { slot with token := { slot.token with paused := false } } hslot
      (fun hw => hw) fun hj => hj
    simp only
    cases slot.state == .paused with
    | true => exact h.kept rfl (fun _ => rfl) (fun _ => List.count_cons_of_ne (by simp)) hnarrows
    | false => exact h.kept rfl (fun _ => rfl) (fun _ => rfl) hnarrows

theorem reordered (h : Inv c) {inner : Inner J} (hreordered : c.inner.Reordered inner) :
    Inv { c with inner := inner } := by
  obtain ⟨queue, rfl, hcount⟩ := hreordered
  exact h.kept rfl hcount (fun _ => rfl) (.refl _)

theorem forget (h : Inv c) (id : JobId) : Inv { c with inner := (c.inner.forgetTerminal id).1 } := by
  unfold Inner.forgetTerminal
  cases hslot : c.inner.slots id with
  | none => exact h
  | some slot =>
    simp only
    split
    · refine h.kept rfl (fun _ => rfl) (fun _ => rfl) fun i slot' hslot' => ?_
      by_cases hi : i = id
      · rw [hi] at hslot'
        simp only [Slots.set_self] at hslot'
        cases hslot'
      · simp only [Slots.set_of_ne hi] at hslot'
        exact ⟨slot', hslot', fun hw => hw, fun hj => hj⟩
    · exact h

/-- Every locked section keeps the invariant. -/
theorem step (h : Inv c) {a : Action J} {c' : Config J} (hstep : step a c = some c') : Inv c' := by
  cases a with
  | submit job cpuThreads =>
    cases hstep
    exact h.stepSubmit job _
  | second call =>
    rw [Queue.step] at hstep
    split at hstep
    · rename_i hcall
      cases hstep
      exact h.stepSecond hcall
    · cases hstep
  | reserve w => exact h.stepReserve hstep
  | claim w => exact h.stepClaim hstep
  | jobEnds w outcome =>
    rw [Queue.step, Config.stepJobEnds] at hstep
    split at hstep
    · rename_i hworker
      cases hstep
      exact h.moved hworker (fun _ => rfl) (fun _ => rfl) rfl rfl (.refl _)
    · cases hstep
  | publish w =>
    rw [Queue.step, Config.stepPublish] at hstep
    split at hstep
    · rename_i id threads outcome hworker
      cases hstep
      exact h.moved hworker (fun _ => rfl) (fun _ => rfl) (by rw [setState_eq]) (by rw [setState_eq])
        (narrows_setState _ _ outcome.finalState_ne_queued)
    · cases hstep
  | release w =>
    rw [Queue.step, Config.stepRelease] at hstep
    split at hstep
    · rename_i threads hworker
      cases hstep
      refine h.moved hworker (fun _ => rfl) (fun _ => rfl) (c.inner.releaseResources_nextId threads)
        (c.inner.releaseResources_queue threads) ?_
      rw [Inner.releaseResources_slots]
      exact .refl _
    · cases hstep
  | phase w interruptible =>
    rw [Queue.step, Config.stepPhase] at hstep
    split at hstep
    · cases hstep
      unfold Inner.onPhase
      split
      · exact h
      · rename_i hslot
        exact h.kept rfl (fun _ => rfl) (fun _ => rfl) (narrows_set hslot (fun hw => hw) fun hj => hj)
    · cases hstep
  | tryPause id =>
    cases hstep
    exact h.stepTryPause id
  | resume id =>
    cases hstep
    exact h.stepResume id
  | cancelMany ids =>
    cases hstep
    exact h.stepCancelMany ids
  | moveBefore id before =>
    cases hstep
    exact h.reordered (Inner.moveQueuedBefore_reordered _ _ _)
  | move id direction =>
    cases hstep
    exact h.reordered (Inner.moveQueued_reordered _ _ _)
  | forget id =>
    cases hstep
    exact h.forget id
  | setMaxRunning maxRunning =>
    cases hstep
    exact h.kept rfl (fun _ => rfl) (fun _ => rfl) (.refl _)
  | shutdown =>
    cases hstep
    exact h.kept rfl (fun _ => rfl) (fun _ => rfl) (.refl _)

end Inv

/-! ## Whole runs -/

section Runs

variable (workerThreads maxRunning cpuThreadBudget : UInt64)

theorem inv_new : Inv (Config.new J workerThreads maxRunning cpuThreadBudget) := by
  refine ⟨?_, ?_, ?_, List.nodup_nil, fun _ h => absurd h List.not_mem_nil⟩
  · intro id _
    refine ⟨rfl, ?_, List.not_mem_nil, List.not_mem_nil⟩
    unfold Config.places Config.new
    simp only [Inner.new, List.count_nil, Nat.zero_add]
    exact List.countP_eq_zero.2 fun worker hworker => by
      rw [List.eq_of_mem_replicate hworker]
      exact Bool.false_ne_true
  · rintro id ⟨slot, hslot, -⟩
    cases hslot
  · rintro id hid
    rcases hid with hid | hid
    · exact absurd hid List.not_mem_nil
    · exact absurd hid List.not_mem_nil

variable {workerThreads maxRunning cpuThreadBudget} {acts : List (Action J)} {c : Config J}

/-- Every run keeps the invariant. -/
theorem inv_run (hrun : run step acts (Config.new J workerThreads maxRunning cpuThreadBudget) = some c) : Inv c :=
  run_invariant (fun _ _ _ h hstep => h.step hstep) hrun (inv_new _ _ _)

end Runs

end Squallz.Queue
