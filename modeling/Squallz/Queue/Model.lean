/-
The job queue: its slots, the queue of ids and the counters, and every locked section of its callers
and workers as one step.
-/
import Squallz.System.Runs
import Mathlib.Algebra.Ring.Nat

namespace Squallz.Queue

/-! ## Jobs -/

abbrev JobId := Nat

inductive JobState
  | queued
  | running
  | paused
  | done
  | failed (detail : String)
  | cancelled
deriving DecidableEq, Repr

def JobState.isTerminal : JobState → Bool
  | .done | .failed _ | .cancelled => true
  | _ => false

structure ControlToken where
  cancelled : Bool
  paused : Bool
deriving DecidableEq, Repr

structure Slot (J : Type) where
  state : JobState
  token : ControlToken
  interruptible : Bool
  cpuThreads : Nat
  job : Option J

abbrev Slots (J : Type) := JobId → Option (Slot J)

/-- A map with the slot of one id replaced. -/
def Slots.set {J : Type} (slots : Slots J) (id : JobId) (slot : Option (Slot J)) : Slots J :=
  fun i => if i = id then slot else slots i

def reorderableSlot {J : Type} (slot : Slot J) : Bool :=
  slot.state == .queued && slot.job.isSome && !slot.token.paused

inductive QueueDirection
  | earlier
  | later
deriving DecidableEq, Repr

/-- Why a queued job cannot start. -/
inductive QueueWaitReason
  | parallelLimit
  | cpuBudget
  | queueOrder
deriving DecidableEq, Repr

/-- What is reported of one unpaused queued job. -/
structure QueuedJobStatus where
  id : JobId
  position : Nat
  cpuThreads : Nat
  waitReason : Option QueueWaitReason
deriving DecidableEq, Repr

/-! ## Counters -/

/-- `usize`: additions and subtractions of the counters wrap, sums are compared saturated. -/
def usizeMod : Nat := 2 ^ 64

def fetchAdd (a b : Nat) : Nat := (a + b) % usizeMod

def fetchSub (a b : Nat) : Nat := (a + usizeMod - b) % usizeMod

def saturatingAdd (a b : Nat) : Nat := min (a + b) (usizeMod - 1)

/-! ## Shared state -/

/-- What the queue's locks and atomics guard. -/
structure Inner (J : Type) where
  slots : Slots J
  queue : List JobId
  running : Nat
  cpuThreadsInUse : Nat
  maxRunning : Nat
  maxWorkers : Nat
  cpuThreadBudget : Nat
  shutdown : Bool
  nextId : JobId

namespace Inner

variable {J : Type}

/-- `clamp(1, max_workers)`. -/
def clampRunning (maxRunning maxWorkers : Nat) : Nat := min (max maxRunning 1) maxWorkers

def new (J : Type) (maxWorkers maxRunning cpuThreadBudget : UInt64) : Inner J where
  slots := fun _ => none
  queue := []
  running := 0
  cpuThreadsInUse := 0
  maxRunning := clampRunning maxRunning.toNat (max maxWorkers.toNat 1)
  maxWorkers := max maxWorkers.toNat 1
  cpuThreadBudget := max cpuThreadBudget.toNat 1
  shutdown := false
  nextId := 1

/-- `claim_job`: the closure of a queued job, taken out of its slot. -/
def claimJob (s : Inner J) (id : JobId) : Inner J × Option J :=
  match s.slots id with
  | none => (s, none)
  | some slot =>
    if slot.state ≠ .queued then (s, none)
    else
      match slot.job with
      | none => (s, none)
      | some job =>
        let state := if slot.token.paused then JobState.paused else .running
        ({ s with slots := s.slots.set id (some { slot with job := none, state := state }) }, some job)

/-- One id of `request_cancel_many`: the slots, the requested ids and the ids cancelled while queued. -/
def cancelOne (acc : Slots J × List JobId × List JobId) (id : JobId) : Slots J × List JobId × List JobId :=
  let (slots, requested, cancelledQueued) := acc
  match slots id with
  | none => acc
  | some slot =>
    if slot.state.isTerminal || !slot.interruptible || slot.token.cancelled then acc
    else
      let slot := { slot with token := { slot.token with cancelled := true } }
      let requested := requested ++ [id]
      if slot.state = .queued ∧ slot.job.isSome then
        (slots.set id (some { slot with job := none, state := .cancelled }), requested, cancelledQueued ++ [id])
      else (slots.set id (some slot), requested, cancelledQueued)

/-- `request_cancel_many`: the requested ids, and those of them cancelled while queued. -/
def requestCancelMany (s : Inner J) (ids : List JobId) : Inner J × List JobId × List JobId :=
  let (slots, requested, cancelledQueued) := ids.foldl cancelOne (s.slots, [], [])
  let queue := if cancelledQueued = [] then s.queue else s.queue.filter (· ∉ cancelledQueued)
  ({ s with slots := slots, queue := queue }, requested, cancelledQueued)

def setState (s : Inner J) (id : JobId) (state : JobState) : Inner J :=
  match s.slots id with
  | none => s
  | some slot => { s with slots := s.slots.set id (some { slot with state := state }) }

/-- The loop of `reserve_next_job` over the queue from `index` on: the stale indexes, and the candidate
with the threads it reserves. -/
def scanQueue (slots : Slots J) (budget used : Nat) : List JobId → Nat → List Nat × Option (Nat × Nat)
  | [], _ => ([], none)
  | id :: rest, index =>
    match slots id with
    | none =>
      let (stale, candidate) := scanQueue slots budget used rest (index + 1)
      (index :: stale, candidate)
    | some slot =>
      if !reorderableSlot slot then
        let (stale, candidate) := scanQueue slots budget used rest (index + 1)
        if slot.state.isTerminal || slot.job.isNone then (index :: stale, candidate) else (stale, candidate)
      else
        let reservedThreads := min slot.cpuThreads budget
        if 0 < used ∧ budget < saturatingAdd used reservedThreads then ([], none)
        else ([], some (index, reservedThreads))

/-- `queue.remove` of the stale indexes, the last one first. -/
def removeStale (queue : List JobId) (stale : List Nat) : List JobId :=
  stale.reverse.foldl (fun queue index => queue.eraseIdx index) queue

/-- `reserve_next_job`: the reserved id and its threads. -/
def reserveNextJob (s : Inner J) : Inner J × Option (JobId × Nat) :=
  if s.maxRunning ≤ s.running then (s, none)
  else
    let (stale, candidate) := scanQueue s.slots s.cpuThreadBudget s.cpuThreadsInUse s.queue 0
    let queue := removeStale s.queue stale
    match candidate with
    | none => ({ s with queue := queue }, none)
    | some (index, reservedThreads) =>
      let removedBeforeCandidate := (stale.filter (· < index)).length
      let place := index - removedBeforeCandidate
      match queue[place]? with
      | none => ({ s with queue := queue }, none)
      | some id =>
        ({ s with
          queue := queue.eraseIdx place
          running := fetchAdd s.running 1
          cpuThreadsInUse := fetchAdd s.cpuThreadsInUse reservedThreads }, some (id, reservedThreads))

def releaseResources (s : Inner J) (cpuThreads : Nat) : Inner J :=
  { s with
    cpuThreadsInUse := fetchSub s.cpuThreadsInUse cpuThreads
    running := fetchSub s.running 1 }

/-- The first section of `submit_with_resources`: the new id and its slot. -/
def submitSlot (s : Inner J) (job : J) (cpuThreads : Nat) : Inner J × JobId :=
  let slot : Slot J := ⟨.queued, ⟨false, false⟩, true, cpuThreads, some job⟩
  ({ s with slots := s.slots.set s.nextId (some slot), nextId := s.nextId + 1 }, s.nextId)

def setMaxRunning (s : Inner J) (maxRunning : Nat) : Inner J :=
  { s with maxRunning := clampRunning maxRunning s.maxWorkers }

def forgetTerminal (s : Inner J) (id : JobId) : Inner J × Bool :=
  match s.slots id with
  | none => (s, false)
  | some slot => if slot.state.isTerminal then ({ s with slots := s.slots.set id none }, true) else (s, false)

/-- The first section of `try_pause`: none where it refuses, else whether the job was running. -/
def pauseToken (s : Inner J) (id : JobId) : Inner J × Option Bool :=
  match s.slots id with
  | none => (s, none)
  | some slot =>
    if slot.state.isTerminal || !slot.interruptible then (s, none)
    else
      ({ s with slots := s.slots.set id (some { slot with token := { slot.token with paused := true } }) },
        some (slot.state == .running))

/-- The first section of `resume`: whether the job was paused. -/
def resumeToken (s : Inner J) (id : JobId) : Inner J × Bool :=
  match s.slots id with
  | none => (s, false)
  | some slot =>
    ({ s with slots := s.slots.set id (some { slot with token := { slot.token with paused := false } }) },
      slot.state == .paused)

/-- `on_phase` of a job's gate. -/
def onPhase (s : Inner J) (id : JobId) (interruptible : Bool) : Inner J :=
  match s.slots id with
  | none => s
  | some slot => { s with slots := s.slots.set id (some { slot with interruptible := interruptible }) }

/-! ## Moving queued jobs -/

/-- The places and ids of the reorderable jobs of the queue from `index` on. -/
def reorderableFrom (slots : Slots J) : List JobId → Nat → List (Nat × JobId)
  | [], _ => []
  | id :: rest, index =>
    if (slots id).any reorderableSlot then (index, id) :: reorderableFrom slots rest (index + 1)
    else reorderableFrom slots rest (index + 1)

def reorderableQueueEntries (s : Inner J) : List (Nat × JobId) := reorderableFrom s.slots s.queue 0

/-- Writes ids to places of the queue. -/
def writePlaces (queue : List JobId) (places : List (Nat × JobId)) : List JobId :=
  places.foldl (fun queue place => queue.set place.1 place.2) queue

def moveQueuedBefore (s : Inner J) (id : JobId) (before : Option JobId) : Inner J × Bool :=
  if before = some id then (s, false)
  else
    let reorderable := s.reorderableQueueEntries
    let original := reorderable.map (·.2)
    match original.findIdx? (· == id) with
    | none => (s, false)
    | some sourceIndex =>
      if before.any (· ∉ original) then (s, false)
      else
        let ordered := original.eraseIdx sourceIndex
        let insertionIndex := match before with
          | some target => ordered.findIdx? (· == target)
          | none => some ordered.length
        match insertionIndex with
        | none => (s, false)
        | some insertionIndex =>
          let ordered := ordered.insertIdx insertionIndex id
          if ordered = original then (s, true)
          else ({ s with queue := writePlaces s.queue ((reorderable.map (·.1)).zip ordered) }, true)

def moveQueued (s : Inner J) (id : JobId) (direction : QueueDirection) : Inner J × Bool :=
  let reorderable := s.reorderableQueueEntries
  match reorderable.findIdx? (fun entry => entry.2 == id) with
  | none => (s, false)
  | some position =>
    let neighbor := match direction with
      | .earlier => if position = 0 then none else some (position - 1)
      | .later => if position + 1 < reorderable.length then some (position + 1) else none
    match neighbor.bind (reorderable[·]?), reorderable[position]? with
    | some (there, other), some (here, this) =>
      ({ s with queue := writePlaces s.queue [(here, other), (there, this)] }, true)
    | _, _ => (s, false)

/-! ## Reporting queued jobs -/

/-- The closure of `queued_job_statuses` over the reorderable jobs from `index` on, with the capacity simulated
so far. -/
def statusesFrom (s : Inner J) : List (Nat × JobId) → Nat → Nat → Nat → Bool → List QueuedJobStatus
  | [], _, _, _, _ => []
  | (_, id) :: rest, index, running, cpuThreadsInUse, earlierBlocked =>
    match s.slots id with
    | none => s.statusesFrom rest (index + 1) running cpuThreadsInUse earlierBlocked
    | some slot =>
      let cpuThreads := min slot.cpuThreads s.cpuThreadBudget
      let status := QueuedJobStatus.mk id (saturatingAdd index 1) cpuThreads
      if earlierBlocked then
        status (some .queueOrder) :: s.statusesFrom rest (index + 1) running cpuThreadsInUse true
      else if s.maxRunning ≤ running then
        status (some .parallelLimit) :: s.statusesFrom rest (index + 1) running cpuThreadsInUse true
      else if 0 < cpuThreadsInUse ∧ s.cpuThreadBudget < saturatingAdd cpuThreadsInUse cpuThreads then
        status (some .cpuBudget) :: s.statusesFrom rest (index + 1) running cpuThreadsInUse true
      else
        status none :: s.statusesFrom rest (index + 1) (saturatingAdd running 1)
          (saturatingAdd cpuThreadsInUse cpuThreads) false

def queuedJobStatuses (s : Inner J) : List QueuedJobStatus :=
  s.statusesFrom s.reorderableQueueEntries 0 s.running s.cpuThreadsInUse false

def reorderableJobIds (s : Inner J) : List JobId := s.queuedJobStatuses.map (·.id)

end Inner

/-! ## Callers and workers -/

/-- What the closure of a job comes to. -/
inductive Outcome
  | ok
  | cancelled
  | error (detail : String)
  | panicked
deriving DecidableEq, Repr

/-- The state that the worker publishes. -/
def Outcome.finalState : Outcome → JobState
  | .ok => .done
  | .cancelled => .cancelled
  | .error detail => .failed detail
  | .panicked => .failed "job panicked"

/-- Where a worker stands in its loop. -/
inductive Worker
  | idle
  | reserved (id : JobId) (threads : Nat)
  | executing (id : JobId) (threads : Nat)
  | finished (id : JobId) (threads : Nat) (outcome : Outcome)
  | releasing (threads : Nat)
  | exited
deriving DecidableEq, Repr

/-- The second section that a call still has before it. -/
inductive Pending
  | push (id : JobId)
  | pausing (id : JobId)
  | resuming (id : JobId)
deriving DecidableEq, Repr

/-- The queue with its workers, the calls under way, and what has happened: the ids whose closure has
been executed, and the ids reported cancelled while queued. -/
structure Config (J : Type) where
  inner : Inner J
  workers : List Worker
  pending : List Pending
  executed : List JobId
  cancelledQueued : List JobId

/-- `with_resource_limits`. -/
def Config.new (J : Type) (workerThreads maxRunning cpuThreadBudget : UInt64) : Config J where
  inner := .new J workerThreads maxRunning cpuThreadBudget
  workers := List.replicate (max workerThreads.toNat 1) .idle
  pending := []
  executed := []
  cancelledQueued := []

/-- The locked sections. A worker is named by its place. -/
inductive Action (J : Type)
  | submit (job : J) (cpuThreads : UInt64)
  | second (call : Pending)
  | reserve (worker : Nat)
  | claim (worker : Nat)
  | jobEnds (worker : Nat) (outcome : Outcome)
  | publish (worker : Nat)
  | release (worker : Nat)
  | phase (worker : Nat) (interruptible : Bool)
  | tryPause (id : JobId)
  | resume (id : JobId)
  | cancelMany (ids : List JobId)
  | moveBefore (id : JobId) (before : Option JobId)
  | move (id : JobId) (direction : QueueDirection)
  | forget (id : JobId)
  | setMaxRunning (maxRunning : UInt64)
  | shutdown

namespace Config

variable {J : Type} (c : Config J)

/-- The second section of a call. -/
def runSecond : Pending → Inner J
  | .push id => { c.inner with queue := c.inner.queue ++ [id] }
  | .pausing id => c.inner.setState id .paused
  | .resuming id => c.inner.setState id .running

/-- A worker in its loop over the queue. -/
def stepReserve (w : Nat) : Option (Config J) :=
  match c.workers[w]? with
  | some .idle =>
    if c.inner.shutdown then some { c with workers := c.workers.set w .exited }
    else
      match c.inner.reserveNextJob with
      | (inner, none) => some { c with inner := inner }
      | (inner, some (id, threads)) =>
        some { c with inner := inner, workers := c.workers.set w (.reserved id threads) }
  | _ => none

def stepClaim (w : Nat) : Option (Config J) :=
  match c.workers[w]? with
  | some (.reserved id threads) =>
    match c.inner.claimJob id with
    | (inner, none) => some { c with inner := inner, workers := c.workers.set w (.releasing threads) }
    | (inner, some _) =>
      some { c with
        inner := inner
        workers := c.workers.set w (.executing id threads)
        executed := id :: c.executed }
  | _ => none

def stepJobEnds (w : Nat) (outcome : Outcome) : Option (Config J) :=
  match c.workers[w]? with
  | some (.executing id threads) =>
    some { c with workers := c.workers.set w (.finished id threads outcome) }
  | _ => none

def stepPublish (w : Nat) : Option (Config J) :=
  match c.workers[w]? with
  | some (.finished id threads outcome) =>
    some { c with inner := c.inner.setState id outcome.finalState, workers := c.workers.set w (.releasing threads) }
  | _ => none

def stepRelease (w : Nat) : Option (Config J) :=
  match c.workers[w]? with
  | some (.releasing threads) =>
    some { c with inner := c.inner.releaseResources threads, workers := c.workers.set w .idle }
  | _ => none

def stepPhase (w : Nat) (interruptible : Bool) : Option (Config J) :=
  match c.workers[w]? with
  | some (.executing id _) => some { c with inner := c.inner.onPhase id interruptible }
  | _ => none

def stepSubmit (job : J) (cpuThreads : Nat) : Config J :=
  let (inner, id) := c.inner.submitSlot job cpuThreads
  { c with inner := inner, pending := .push id :: c.pending }

def stepTryPause (id : JobId) : Config J :=
  match c.inner.pauseToken id with
  | (inner, some true) => { c with inner := inner, pending := .pausing id :: c.pending }
  | (inner, _) => { c with inner := inner }

def stepResume (id : JobId) : Config J :=
  match c.inner.resumeToken id with
  | (inner, true) => { c with inner := inner, pending := .resuming id :: c.pending }
  | (inner, false) => { c with inner := inner }

def stepCancelMany (ids : List JobId) : Config J :=
  let (inner, _, cancelledQueued) := c.inner.requestCancelMany ids
  { c with inner := inner, cancelledQueued := cancelledQueued ++ c.cancelledQueued }

end Config

/-- One locked section. -/
def step {J : Type} : Action J → Config J → Option (Config J)
  | .submit job cpuThreads, c => some (c.stepSubmit job cpuThreads.toNat)
  | .second call, c =>
    if call ∈ c.pending then some { c with inner := c.runSecond call, pending := c.pending.erase call } else none
  | .reserve w, c => c.stepReserve w
  | .claim w, c => c.stepClaim w
  | .jobEnds w outcome, c => c.stepJobEnds w outcome
  | .publish w, c => c.stepPublish w
  | .release w, c => c.stepRelease w
  | .phase w interruptible, c => c.stepPhase w interruptible
  | .tryPause id, c => some (c.stepTryPause id)
  | .resume id, c => some (c.stepResume id)
  | .cancelMany ids, c => some (c.stepCancelMany ids)
  | .moveBefore id before, c => some { c with inner := (c.inner.moveQueuedBefore id before).1 }
  | .move id direction, c => some { c with inner := (c.inner.moveQueued id direction).1 }
  | .forget id, c => some { c with inner := (c.inner.forgetTerminal id).1 }
  | .setMaxRunning maxRunning, c => some { c with inner := c.inner.setMaxRunning maxRunning.toNat }
  | .shutdown, c => some { c with inner := { c.inner with shutdown := true } }

end Squallz.Queue
