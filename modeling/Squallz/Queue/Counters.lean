/-
The counters of the queue over whole runs: what `running` and `cpu_threads_in_use` count, and exactly
when the sum of the reserved threads stays within its machine word.
-/
import Squallz.Queue.Safety

namespace Squallz.Queue

open Squallz.System

variable {J : Type}

/-! ## The next reservation -/

namespace Inner

/-- The threads that the first reorderable job of the queue would reserve. -/
def nextThreads (s : Inner J) : Option Nat :=
  s.reorderableQueueEntries.head?.bind fun entry =>
    (s.slots entry.2).map fun slot => min slot.cpuThreads s.cpuThreadBudget

/-- A request that has to wait for the CPU budget. -/
def overBudget (s : Inner J) (threads : Nat) : Prop :=
  0 < s.cpuThreadsInUse ∧ s.cpuThreadBudget < saturatingAdd s.cpuThreadsInUse threads

instance (s : Inner J) (threads : Nat) : Decidable (s.overBudget threads) := inferInstanceAs (Decidable (_ ∧ _))

theorem scanQueue_candidate (s : Inner J) (queue : List JobId) (index : Nat) :
    ((scanQueue s.slots s.cpuThreadBudget s.cpuThreadsInUse queue index).2.map (·.2)) =
      ((reorderableFrom s.slots queue index).head?.bind fun entry =>
        (s.slots entry.2).map fun slot => min slot.cpuThreads s.cpuThreadBudget).filter
          fun threads => ¬ s.overBudget threads := by
  induction queue generalizing index with
  | nil => rfl
  | cons id rest ih =>
    rw [scanQueue, reorderableFrom]
    cases hslot : s.slots id with
    | none => exact ih (index + 1)
    | some slot =>
      simp only [Option.any_some]
      by_cases hre : reorderableSlot slot = true
      · rw [if_neg (by simp [hre]), if_pos hre]
        simp only [List.head?_cons, Option.bind_some, hslot, Option.map_some]
        by_cases hover : s.overBudget (min slot.cpuThreads s.cpuThreadBudget)
        · rw [if_pos (show _ ∧ _ from hover), Option.filter_some_neg (by simpa using hover)]
          rfl
        · rw [if_neg (show ¬ (_ ∧ _) from hover), Option.filter_some_pos (by simpa using hover)]
          rfl
      · rw [if_pos (by simp [hre]), if_neg hre]
        split <;> exact ih (index + 1)

/-- The threads of a reservation are those of the first reorderable job, if it need not wait. -/
theorem reserveNextJob_threads (s : Inner J) :
    s.reserveNextJob.2.map (·.2) =
      if s.maxRunning ≤ s.running then none else s.nextThreads.filter fun threads => ¬ s.overBudget threads := by
  unfold reserveNextJob
  split
  · rfl
  rw [nextThreads, reorderableQueueEntries, ← scanQueue_candidate]
  have hscan := scanQueue_scanned s.slots s.cpuThreadBudget s.cpuThreadsInUse [] s.queue
  rw [List.length_nil] at hscan
  cases hresult : scanQueue s.slots s.cpuThreadBudget s.cpuThreadsInUse s.queue 0 with
  | mk stale candidate =>
    rw [hresult] at hscan
    cases hscan with
    | nothing removed count_le count => rfl
    | candidate found =>
      rename_i index threads kept id rest
      have hremoved := found.removed
      rw [List.nil_append, List.nil_append] at hremoved
      have hfilter : stale.filter (· < index) = stale :=
        List.filter_eq_self.2 fun i hi => decide_eq_true (found.stale_lt i hi)
      have hplace : index - stale.length = kept.length := by
        have := found.index_eq
        rw [List.length_nil] at this
        omega
      have hget : (kept ++ id :: rest)[kept.length]? = some id := by simp
      simp only [hremoved, hfilter, hplace, hget]
      rfl

/-- An operation that leaves the counters and the limits of a reservation alone. -/
structure SameCounters (s t : Inner J) : Prop where
  running : t.running = s.running
  cpuThreadsInUse : t.cpuThreadsInUse = s.cpuThreadsInUse
  cpuThreadBudget : t.cpuThreadBudget = s.cpuThreadBudget

theorem SameCounters.refl (s : Inner J) : s.SameCounters s := ⟨rfl, rfl, rfl⟩

theorem SameCounters.trans {s t u : Inner J} (h : s.SameCounters t) (h' : t.SameCounters u) : s.SameCounters u :=
  ⟨h'.running.trans h.running, h'.cpuThreadsInUse.trans h.cpuThreadsInUse,
    h'.cpuThreadBudget.trans h.cpuThreadBudget⟩

theorem Reordered.sameCounters {s t : Inner J} (h : s.Reordered t) : s.SameCounters t := by
  obtain ⟨queue, rfl, -⟩ := h
  exact ⟨rfl, rfl, rfl⟩

theorem setState_sameCounters (s : Inner J) (id : JobId) (state : JobState) :
    s.SameCounters (s.setState id state) := by
  rw [setState_eq]
  exact ⟨rfl, rfl, rfl⟩

theorem onPhase_sameCounters (s : Inner J) (id : JobId) (interruptible : Bool) :
    s.SameCounters (s.onPhase id interruptible) := by
  unfold onPhase
  split
  · exact .refl s
  · exact ⟨rfl, rfl, rfl⟩

theorem pauseToken_sameCounters (s : Inner J) (id : JobId) : s.SameCounters (s.pauseToken id).1 := by
  unfold pauseToken
  split
  · exact .refl s
  · split
    · exact .refl s
    · exact ⟨rfl, rfl, rfl⟩

theorem resumeToken_sameCounters (s : Inner J) (id : JobId) : s.SameCounters (s.resumeToken id).1 := by
  unfold resumeToken
  split
  · exact .refl s
  · exact ⟨rfl, rfl, rfl⟩

theorem forgetTerminal_sameCounters (s : Inner J) (id : JobId) : s.SameCounters (s.forgetTerminal id).1 := by
  unfold forgetTerminal
  split
  · exact .refl s
  · split
    · exact ⟨rfl, rfl, rfl⟩
    · exact .refl s

theorem requestCancelMany_sameCounters (s : Inner J) (ids : List JobId) :
    s.SameCounters (s.requestCancelMany ids).1 := by
  rw [(s.requestCancelMany_cancels ids).2]
  exact ⟨rfl, rfl, rfl⟩

end Inner

/-! ## What the counters count -/

theorem fetchAdd_of_lt {a b : Nat} (h : a + b < usizeMod) : fetchAdd a b = a + b := Nat.mod_eq_of_lt h

theorem fetchSub_of_le {a b : Nat} (hle : b ≤ a) (hlt : a < usizeMod) : fetchSub a b = a - b := by
  unfold fetchSub
  generalize usizeMod = m at hlt
  rw [show a + m - b = m + (a - b) by omega, Nat.add_mod_left, Nat.mod_eq_of_lt (by omega)]

theorem saturatingAdd_of_lt {a b : Nat} (h : a + b < usizeMod) : saturatingAdd a b = a + b := by
  unfold saturatingAdd
  generalize usizeMod = m at h
  exact Nat.min_eq_left (by omega)

/-- The counters agree with the reservations that the workers hold, under a fixed CPU budget. -/
structure Counts (budget : Nat) (c : Config J) : Prop where
  workers_lt : c.workers.length < usizeMod
  budget_lt : budget < usizeMod
  budget_eq : c.inner.cpuThreadBudget = budget
  running : c.inner.running = c.workers.countP Worker.holds
  threads : c.inner.cpuThreadsInUse = (c.workers.map Worker.threads).sum
  within : c.inner.cpuThreadsInUse ≤ c.inner.cpuThreadBudget

namespace Counts

variable {c : Config J} {budget w : Nat} {old new : Worker}

/-- A worker that moves on with its reservation. -/
theorem moved (h : Counts budget c) {inner : Inner J} {executed cancelledQueued : List JobId} {pending : List Pending}
    (hsame : c.inner.SameCounters inner) (hworker : c.workers[w]? = some old) (hholds : new.holds = old.holds)
    (hthreads : new.threads = old.threads) :
    Counts budget ⟨inner, c.workers.set w new, pending, executed, cancelledQueued⟩ where
  workers_lt := by
    simp only [List.length_set]
    exact h.workers_lt
  budget_lt := h.budget_lt
  budget_eq := hsame.cpuThreadBudget.trans h.budget_eq
  running := by
    have hcount := @countP_set _ _ _ new Worker.holds hworker
    rw [hholds] at hcount
    simp only [hsame.running, h.running]
    exact (Nat.add_right_cancel hcount).symm
  threads := by
    have hsum := @sum_set _ _ _ new Worker.threads hworker
    rw [hthreads] at hsum
    simp only [hsame.cpuThreadsInUse, h.threads]
    exact (Nat.add_right_cancel hsum).symm
  within := by
    simp only [hsame.cpuThreadsInUse, hsame.cpuThreadBudget]
    exact h.within

/-- A step that moves no worker. -/
theorem kept (h : Counts budget c) {inner : Inner J} {executed cancelledQueued : List JobId} {pending : List Pending}
    (hsame : c.inner.SameCounters inner) : Counts budget ⟨inner, c.workers, pending, executed, cancelledQueued⟩ where
  workers_lt := h.workers_lt
  budget_lt := h.budget_lt
  budget_eq := hsame.cpuThreadBudget.trans h.budget_eq
  running := hsame.running.trans h.running
  threads := hsame.cpuThreadsInUse.trans h.threads
  within := by
    simp only [hsame.cpuThreadsInUse, hsame.cpuThreadBudget]
    exact h.within

/-- An idle worker leaves room for one more reservation. -/
theorem running_lt (h : Counts budget c) (hworker : c.workers[w]? = some .idle) : c.inner.running + 1 < usizeMod := by
  have hcount := @countP_set _ _ _ (.releasing 0) Worker.holds hworker
  have hle := @List.countP_le_length _ Worker.holds (c.workers.set w (.releasing 0))
  rw [List.length_set] at hle
  have hlt := h.workers_lt
  simp only [Worker.holds] at hcount
  rw [h.running]
  simp at hcount
  omega

theorem reserved (h : Counts budget c) {queue : List JobId} {id : JobId} {threads : Nat}
    (hworker : c.workers[w]? = some .idle)
    (hfits : c.inner.cpuThreadsInUse = 0 ∨ saturatingAdd c.inner.cpuThreadsInUse threads ≤ c.inner.cpuThreadBudget)
    (hbounded : threads ≤ c.inner.cpuThreadBudget) (hroom : c.inner.cpuThreadsInUse + threads < usizeMod) :
    Counts budget { c with
      inner := { c.inner with
        queue := queue
        running := fetchAdd c.inner.running 1
        cpuThreadsInUse := fetchAdd c.inner.cpuThreadsInUse threads }
      workers := c.workers.set w (.reserved id threads) } where
  workers_lt := by
    simp only [List.length_set]
    exact h.workers_lt
  budget_lt := h.budget_lt
  budget_eq := h.budget_eq
  running := by
    have hcount := @countP_set _ _ _ (.reserved id threads) Worker.holds hworker
    simp only [Worker.holds] at hcount
    simp at hcount
    rw [fetchAdd_of_lt (h.running_lt hworker), h.running]
    exact hcount.symm
  threads := by
    have hsum := @sum_set _ _ _ (.reserved id threads) Worker.threads hworker
    simp only [Worker.threads] at hsum
    rw [fetchAdd_of_lt hroom, h.threads]
    exact hsum.symm
  within := by
    simp only [fetchAdd_of_lt hroom]
    rcases hfits with hzero | hle
    · omega
    · rw [saturatingAdd_of_lt hroom] at hle
      exact hle

theorem released (h : Counts budget c) {threads : Nat} (hworker : c.workers[w]? = some (.releasing threads)) :
    Counts budget { c with inner := c.inner.releaseResources threads, workers := c.workers.set w .idle } := by
  have hcount := @countP_set _ _ _ .idle Worker.holds hworker
  have hsum := @sum_set _ _ _ .idle Worker.threads hworker
  have hrunning := h.running
  have hthreads := h.threads
  have hwithin := h.within
  have hbudget := h.budget_eq ▸ h.budget_lt
  have hlt := h.workers_lt
  have hle := @List.countP_le_length _ Worker.holds c.workers
  simp only [Worker.holds] at hcount
  simp only [Worker.threads] at hsum
  simp at hcount
  have heq : c.inner.releaseResources threads = { c.inner with
      cpuThreadsInUse := c.inner.cpuThreadsInUse - threads
      running := c.inner.running - 1 } := by
    unfold Inner.releaseResources
    rw [fetchSub_of_le (by omega) (by omega), fetchSub_of_le (by omega) (by omega)]
  rw [heq]
  constructor
  · rw [List.length_set]
    exact hlt
  · exact h.budget_lt
  · exact h.budget_eq
  · show c.inner.running - 1 = (c.workers.set w .idle).countP Worker.holds
    omega
  · show c.inner.cpuThreadsInUse - threads = ((c.workers.set w .idle).map Worker.threads).sum
    omega
  · show c.inner.cpuThreadsInUse - threads ≤ c.inner.cpuThreadBudget
    omega

end Counts

/-! ## Reservations that fit the counter -/

/-- The condition of a worker's look at the queue: it reserves nothing, the CPU budget is below the largest
`usize`, or the threads of the next reservation fit the counter. -/
def Fits : Action J → Config J → Prop
  | .reserve _, c =>
    c.inner.shutdown = true ∨ c.inner.maxRunning ≤ c.inner.running ∨ c.inner.cpuThreadBudget + 1 < usizeMod ∨
      ∀ threads, c.inner.nextThreads = some threads → c.inner.cpuThreadsInUse + threads < usizeMod
  | _, _ => True

theorem Counts.stepReserve {c c' : Config J} {budget w : Nat} (h : Counts budget c) (hfits : Fits (.reserve w) c)
    (hstep : c.stepReserve w = some c') : Counts budget c' := by
  obtain ⟨hworker, ⟨-, rfl⟩ | ⟨-, queue, rfl⟩ | ⟨hopen, queue, id, threads, hresult, hbounded, hwithin, rfl⟩⟩ :=
    stepReserve_cases hstep
  · exact h.moved (.refl _) hworker rfl rfl
  · exact h.kept ⟨rfl, rfl, rfl⟩
  · refine h.reserved hworker hwithin hbounded ?_
    have hthreads := c.inner.reserveNextJob_threads
    rw [hresult, Option.map_some] at hthreads
    have hbudget := h.budget_eq ▸ h.budget_lt
    rcases hfits with hshutdown | hrunning | hbelow | hroom
    · rw [hopen] at hshutdown
      cases hshutdown
    · rw [if_pos hrunning] at hthreads
      cases hthreads
    · rcases hwithin with hzero | hle
      · omega
      · unfold saturatingAdd at hle
        omega
    · split at hthreads
      · cases hthreads
      · exact hroom threads (Option.eq_some_of_filter_eq_some hthreads.symm)

/-- Every locked section that meets the condition keeps the counters right. -/
theorem Counts.step {budget : Nat} {a : Action J} {c c' : Config J} (h : Counts budget c) (hfits : Fits a c)
    (hstep : step a c = some c') : Counts budget c' := by
  cases a with
  | submit job cpuThreads =>
    cases hstep
    exact h.kept ⟨rfl, rfl, rfl⟩
  | second call =>
    rw [Queue.step] at hstep
    split at hstep
    · cases hstep
      refine h.kept ?_
      cases call with
      | push id => exact ⟨rfl, rfl, rfl⟩
      | pausing id => exact Inner.setState_sameCounters _ _ _
      | resuming id => exact Inner.setState_sameCounters _ _ _
    · cases hstep
  | reserve w => exact h.stepReserve hfits hstep
  | claim w =>
    rw [Queue.step, Config.stepClaim] at hstep
    split at hstep
    · rename_i id threads hworker
      rcases c.inner.claimJob_cases id with ⟨hclaim, -⟩ | ⟨slot, job, state, -, -, -, -, hclaim⟩
      · rw [hclaim] at hstep
        cases hstep
        exact h.moved (.refl _) hworker rfl rfl
      · rw [hclaim] at hstep
        cases hstep
        exact h.moved ⟨rfl, rfl, rfl⟩ hworker rfl rfl
    · cases hstep
  | jobEnds w outcome =>
    rw [Queue.step, Config.stepJobEnds] at hstep
    split at hstep
    · rename_i hworker
      cases hstep
      exact h.moved (.refl _) hworker rfl rfl
    · cases hstep
  | publish w =>
    rw [Queue.step, Config.stepPublish] at hstep
    split at hstep
    · rename_i hworker
      cases hstep
      exact h.moved (Inner.setState_sameCounters _ _ _) hworker rfl rfl
    · cases hstep
  | release w =>
    rw [Queue.step, Config.stepRelease] at hstep
    split at hstep
    · rename_i hworker
      cases hstep
      exact h.released hworker
    · cases hstep
  | phase w interruptible =>
    rw [Queue.step, Config.stepPhase] at hstep
    split at hstep
    · cases hstep
      exact h.kept (Inner.onPhase_sameCounters _ _ _)
    · cases hstep
  | tryPause id =>
    cases hstep
    have hsame := c.inner.pauseToken_sameCounters id
    unfold Config.stepTryPause
    split
    · rename_i heq
      rw [heq] at hsame
      exact h.kept hsame
    · rename_i heq
      rw [heq] at hsame
      exact h.kept hsame
  | resume id =>
    cases hstep
    have hsame := c.inner.resumeToken_sameCounters id
    unfold Config.stepResume
    split
    · rename_i heq
      rw [heq] at hsame
      exact h.kept hsame
    · rename_i heq
      rw [heq] at hsame
      exact h.kept hsame
  | cancelMany ids =>
    cases hstep
    exact h.kept (Inner.requestCancelMany_sameCounters _ _)
  | moveBefore id before =>
    cases hstep
    exact h.kept (Inner.moveQueuedBefore_reordered _ _ _).sameCounters
  | move id direction =>
    cases hstep
    exact h.kept (Inner.moveQueued_reordered _ _ _).sameCounters
  | forget id =>
    cases hstep
    exact h.kept (Inner.forgetTerminal_sameCounters _ _)
  | setMaxRunning maxRunning =>
    cases hstep
    exact h.kept ⟨rfl, rfl, rfl⟩
  | shutdown =>
    cases hstep
    exact h.kept ⟨rfl, rfl, rfl⟩

/-- A step after which the threads in use are still the sum of the reserved ones met the condition. -/
theorem Counts.fits_of_threads {budget : Nat} {a : Action J} {c c' : Config J} (h : Counts budget c) (hstep : Queue.step a c = some c')
    (hsum : c'.inner.cpuThreadsInUse = (c'.workers.map Worker.threads).sum) : Fits a c := by
  cases a with
  | reserve w =>
    by_contra hnot
    simp only [Fits, not_or, not_forall, Nat.not_lt, Nat.not_le] at hnot
    obtain ⟨hopen, hrunning, hbudget, threads, hnext, hover⟩ := hnot
    have hthreads := c.inner.reserveNextJob_threads
    have hfree : ¬ c.inner.overBudget threads := by
      rintro ⟨-, hlt⟩
      have hlimit := h.budget_eq ▸ h.budget_lt
      unfold saturatingAdd at hlt
      omega
    rw [if_neg (Nat.not_le_of_lt hrunning), hnext, Option.filter_some_pos (by simpa using hfree)] at hthreads
    obtain ⟨hworker, ⟨hshutdown, -⟩ | ⟨hresult, -⟩ | ⟨-, queue, id, reserved, hresult, -, -, rfl⟩⟩ :=
      stepReserve_cases hstep
    · exact hopen hshutdown
    · rw [hresult] at hthreads
      cases hthreads
    · rw [hresult] at hthreads
      cases hthreads
      have hset := @sum_set _ _ _ (.reserved id reserved) Worker.threads hworker
      simp only [Worker.threads, Nat.add_zero] at hset
      have hmod : fetchAdd c.inner.cpuThreadsInUse reserved < usizeMod := Nat.mod_lt _ (Nat.two_pow_pos 64)
      have hsum : fetchAdd c.inner.cpuThreadsInUse reserved = c.inner.cpuThreadsInUse + reserved := by
        rw [h.threads, ← hset, ← h.threads]
        exact hsum
      have hover : usizeMod ≤ c.inner.cpuThreadsInUse + reserved := hover
      omega
  | _ => trivial

/-! ## Whole runs -/

/-- What holds of the queue between two locked sections. -/
structure Config.Safe (c : Config J) : Prop where
  once : c.executed.Nodup
  apart : ∀ id ∈ c.cancelledQueued, id ∉ c.executed
  placed : ∀ id, c.inner.slots.Waiting id → c.places id = 1
  running : c.inner.running = c.workers.countP Worker.holds
  threads : c.inner.cpuThreadsInUse = (c.workers.map Worker.threads).sum
  within : c.inner.cpuThreadsInUse ≤ c.inner.cpuThreadBudget
  idle : (∀ worker ∈ c.workers, worker.holds = false) → c.inner.running = 0 ∧ c.inner.cpuThreadsInUse = 0

theorem Worker.threads_of_not_holds {worker : Worker} (h : worker.holds = false) : worker.threads = 0 := by
  cases worker with
  | idle => rfl
  | exited => rfl
  | _ => cases h

theorem Config.safe_of_inv {budget : Nat} {c : Config J} (hinv : Inv c) (hcounts : Counts budget c) : c.Safe where
  once := hinv.once
  apart := hinv.apart
  placed := hinv.placed
  running := hcounts.running
  threads := hcounts.threads
  within := hcounts.within
  idle hidle := by
    refine ⟨?_, ?_⟩
    · rw [hcounts.running]
      exact List.countP_eq_zero.2 fun worker hworker => by rw [hidle worker hworker]; exact Bool.false_ne_true
    · rw [hcounts.threads]
      refine List.sum_eq_zero fun threads hthreads => ?_
      obtain ⟨worker, hworker, rfl⟩ := List.mem_map.1 hthreads
      exact Worker.threads_of_not_holds (hidle worker hworker)

section New

variable (workerThreads maxRunning cpuThreadBudget : UInt64)

theorem counts_new : Counts (max cpuThreadBudget.toNat 1) (Config.new J workerThreads maxRunning cpuThreadBudget) := by
  have hone : 1 < usizeMod := Nat.one_lt_two_pow (by decide)
  have hidle : ∀ worker ∈ List.replicate (max workerThreads.toNat 1) Worker.idle, worker = .idle :=
    fun worker hworker => List.eq_of_mem_replicate hworker
  constructor
  · rw [Config.new, List.length_replicate]
    exact Nat.max_lt.2 ⟨workerThreads.toNat_lt, hone⟩
  · exact Nat.max_lt.2 ⟨cpuThreadBudget.toNat_lt, hone⟩
  · rfl
  · symm
    exact List.countP_eq_zero.2 fun worker hworker => by
      rw [hidle worker hworker]
      exact Bool.false_ne_true
  · symm
    refine List.sum_eq_zero fun threads hthreads => ?_
    obtain ⟨worker, hworker, rfl⟩ := List.mem_map.1 hthreads
    rw [hidle worker hworker]
    rfl
  · exact Nat.zero_le _

variable {workerThreads maxRunning cpuThreadBudget} {acts : List (Action J)} {c : Config J}

/-- A queue is safe in every state of a run exactly if the threads of every reservation fit the counter. -/
theorem safe_iff_reservations_fit
    (hrun : run step acts (Config.new J workerThreads maxRunning cpuThreadBudget) = some c) :
    (∀ before after m, acts = before ++ after →
        run step before (Config.new J workerThreads maxRunning cpuThreadBudget) = some m → m.Safe) ↔
      Meets step Fits acts (Config.new J workerThreads maxRunning cpuThreadBudget) := by
  constructor
  · intro hsafe
    refine meets_of_steps hrun (counts_new _ _ _) fun before a after m n hsplit hbefore hstep hcounts => ?_
    have hnext := hsafe (before ++ [a]) after n (by rw [hsplit]; simp) (run_concat.2 ⟨m, hbefore, hstep⟩)
    have hfits := hcounts.fits_of_threads hstep hnext.threads
    exact ⟨hfits, hcounts.step hfits hstep⟩
  · intro hmeets before after m hsplit hbefore
    rw [hsplit] at hmeets
    exact Config.safe_of_inv (inv_run hbefore)
      (run_invariant_of_meets (fun _ _ _ h hfits hstep => h.step hfits hstep) (meets_append.1 hmeets).1 hbefore
        (counts_new _ _ _))

/-- One job from its submission to its release. -/
def oneJob : List (Action Unit) :=
  [.submit () 1, .second (.push 1), .reserve 0, .claim 0, .jobEnds 0 .ok, .publish 0, .release 0]

theorem safe_iff_reservations_fit_one_job :
    (∀ before after m, oneJob = before ++ after → run step before (Config.new Unit 1 1 1) = some m → m.Safe) ↔
      Meets step Fits oneJob (Config.new Unit 1 1 1) :=
  have hrun : (run step oneJob (Config.new Unit 1 1 1)).isSome := by decide +kernel
  safe_iff_reservations_fit (Option.some_get hrun).symm

/-- With a CPU budget below the largest `usize` every reservation fits. -/
theorem safe_of_budget_lt (hbudget : cpuThreadBudget.toNat + 1 < usizeMod)
    (hrun : run step acts (Config.new J workerThreads maxRunning cpuThreadBudget) = some c) : c.Safe := by
  have hmax : max cpuThreadBudget.toNat 1 + 1 < usizeMod := by
    have htwo : 2 < usizeMod := by decide
    omega
  refine Config.safe_of_inv (inv_run hrun) (run_invariant (fun a _ _ h hstep => h.step ?_ hstep) hrun
    (counts_new workerThreads maxRunning cpuThreadBudget))
  cases a with
  | reserve w => exact Or.inr (Or.inr (Or.inl (h.budget_eq ▸ hmax)))
  | _ => trivial

end New

/-! ## A budget of every thread -/

/-- Two jobs of which one asks for every thread a `usize` counts, both reserved. -/
def wideReservations : List (Action Unit) :=
  [.submit () 0xFFFFFFFFFFFFFFFF, .second (.push 1), .submit () 1, .second (.push 2), .reserve 0, .reserve 1]

theorem wideReservations_run : (run step wideReservations (Config.new Unit 2 2 0xFFFFFFFFFFFFFFFF)).map
    (fun c => (c.inner.running, c.inner.cpuThreadsInUse, (c.workers.map Worker.threads).sum)) =
      some (2, 0, 2 ^ 64) := by
  decide +kernel

/-- With the largest budget the second reservation wraps the counter to zero. -/
theorem not_safe_of_wide_reservations :
    ∃ c, run step wideReservations (Config.new Unit 2 2 0xFFFFFFFFFFFFFFFF) = some c ∧ ¬ c.Safe := by
  have hrun := wideReservations_run
  cases hc : run step wideReservations (Config.new Unit 2 2 0xFFFFFFFFFFFFFFFF) with
  | none =>
    rw [hc] at hrun
    cases hrun
  | some c =>
    rw [hc] at hrun
    simp only [Option.map_some, Option.some.injEq, Prod.mk.injEq] at hrun
    refine ⟨c, rfl, fun hsafe => ?_⟩
    have hsum := hsafe.threads
    rw [hrun.2.1, hrun.2.2] at hsum
    cases hsum

end Squallz.Queue
