/-
What the operations on the queue of ids do to it: reserving takes out one waiting job and drops stale
ids only, cancelling drops the cancelled ids, and moving permutes.
-/
import Squallz.Queue.Model
import Mathlib.Data.List.Perm.Basic
import Mathlib.Data.List.Count

namespace Squallz.Queue

variable {J : Type}

/-! ## Slots -/

@[simp] theorem Slots.set_self (slots : Slots J) (id : JobId) (slot : Option (Slot J)) :
    slots.set id slot id = slot := if_pos rfl

theorem Slots.set_of_ne {slots : Slots J} {id i : JobId} {slot : Option (Slot J)} (h : i ≠ id) :
    slots.set id slot i = slots i := if_neg h

/-- A queued slot that still has its closure. -/
def Slot.Waiting (slot : Slot J) : Prop := slot.state = .queued ∧ slot.job.isSome

/-- The ids of waiting jobs. -/
def Slots.Waiting (slots : Slots J) (id : JobId) : Prop := ∃ slot, slots id = some slot ∧ slot.Waiting

theorem Slot.Waiting.of_reorderable {slot : Slot J} (h : reorderableSlot slot = true) : slot.Waiting := by
  unfold reorderableSlot at h
  simp only [Bool.and_eq_true, beq_iff_eq] at h
  exact h.1

/-- A slot that counts as stale is not waiting. -/
theorem Slot.not_waiting_of_stale {slot : Slot J} (h : (slot.state.isTerminal || slot.job.isNone) = true) :
    ¬ slot.Waiting := by
  rintro ⟨hstate, hjob⟩
  rw [hstate, Bool.or_eq_true] at h
  rcases h with h | h
  · cases h
  · cases hj : slot.job with
    | none =>
      rw [hj] at hjob
      cases hjob
    | some job =>
      rw [hj] at h
      cases h

/-- The jobs whose order callers may change, and which the scheduler takes next. -/
def Slots.reorderable (slots : Slots J) (id : JobId) : Bool := (slots id).any reorderableSlot

theorem Slots.reorderable_of_some {slots : Slots J} {id : JobId} {slot : Slot J} (h : slots id = some slot) :
    slots.reorderable id = reorderableSlot slot := by
  unfold Slots.reorderable
  rw [h]
  rfl

theorem Slots.Waiting.of_reorderable {slots : Slots J} {id : JobId} (h : slots.reorderable id = true) :
    slots.Waiting id := by
  unfold Slots.reorderable at h
  cases hslot : slots id with
  | none =>
    rw [hslot] at h
    cases h
  | some slot =>
    rw [hslot] at h
    exact ⟨slot, hslot, .of_reorderable h⟩

/-! ## Reserving -/

namespace Inner

theorem removeStale_cons (queue : List JobId) (index : Nat) (stale : List Nat) :
    removeStale queue (index :: stale) = (removeStale queue stale).eraseIdx index := by
  simp [removeStale]

theorem count_cons_of_not_waiting {slots : Slots J} {id : JobId} {rest : List JobId}
    (h : ¬ slots.Waiting id) {i : JobId} (hi : slots.Waiting i) : (id :: rest).count i = rest.count i := by
  rw [List.count_cons_of_ne]
  rintro rfl
  exact h hi

/-- The candidate of a scan, in the queue without the stale ids. -/
structure Found (slots : Slots J) (budget used : Nat) (before queue : List JobId) (stale : List Nat)
    (index threads : Nat) (kept : List JobId) (id : JobId) (rest : List JobId) : Prop where
  removed : removeStale (before ++ queue) stale = before ++ (kept ++ id :: rest)
  index_eq : index = stale.length + (before.length + kept.length)
  stale_lt : ∀ i ∈ stale, i < index
  slot : ∃ slot, slots id = some slot ∧ reorderableSlot slot = true ∧ threads = min slot.cpuThreads budget
  fits : used = 0 ∨ saturatingAdd used threads ≤ budget
  count_le : ∀ i, (kept ++ id :: rest).count i ≤ queue.count i
  count : ∀ i, slots.Waiting i → (kept ++ id :: rest).count i = queue.count i
  order : queue.filter slots.reorderable = id :: (kept ++ rest).filter slots.reorderable

/-- The next reorderable job does not fit the threads that are in use. -/
def Blocked (slots : Slots J) (budget used : Nat) (queue : List JobId) : Prop :=
  ∃ id rest slot, queue.filter slots.reorderable = id :: rest ∧ slots id = some slot ∧ 0 < used ∧
    budget < saturatingAdd used (min slot.cpuThreads budget)

/-- What a scan of a part of the queue may come to. -/
inductive Scanned (slots : Slots J) (budget used : Nat) (before queue : List JobId) :
    List Nat × Option (Nat × Nat) → Prop
  | nothing {stale : List Nat} {kept : List JobId} (removed : removeStale (before ++ queue) stale = before ++ kept)
      (count_le : ∀ i, kept.count i ≤ queue.count i)
      (count : ∀ i, slots.Waiting i → kept.count i = queue.count i)
      (stuck : queue.filter slots.reorderable = [] ∨ Blocked slots budget used queue) :
      Scanned slots budget used before queue (stale, none)
  | candidate {stale : List Nat} {index threads : Nat} {kept : List JobId} {id : JobId} {rest : List JobId}
      (found : Found slots budget used before queue stale index threads kept id rest) :
      Scanned slots budget used before queue (stale, some (index, threads))

section Scan

variable {slots : Slots J} {budget used : Nat} {before rest : List JobId} {id : JobId} {stale : List Nat}
  {candidate : Option (Nat × Nat)}

theorem filter_cons_of_not_reorderable (h : ¬ slots.reorderable id = true) :
    (id :: rest).filter slots.reorderable = rest.filter slots.reorderable := List.filter_cons_of_neg h

theorem Blocked.cons (h : Blocked slots budget used rest) (hnot : ¬ slots.reorderable id = true) :
    Blocked slots budget used (id :: rest) := by
  obtain ⟨next, later, slot, hfilter, hslot⟩ := h
  exact ⟨next, later, slot, (filter_cons_of_not_reorderable hnot).trans hfilter, hslot⟩

/-- An id that is dropped in front of a scanned part. -/
theorem Scanned.drop (h : Scanned slots budget used (before ++ [id]) rest (stale, candidate))
    (hnot : ¬ slots.Waiting id) :
    Scanned slots budget used before (id :: rest) (before.length :: stale, candidate) := by
  have hmove : before ++ id :: rest = (before ++ [id]) ++ rest := by simp
  have hlen : (before ++ [id]).length = before.length + 1 := by simp
  have hre : ¬ slots.reorderable id = true := fun hre => hnot (.of_reorderable hre)
  cases h with
  | nothing removed count_le count stuck =>
    rename_i kept
    refine @Scanned.nothing _ _ _ _ _ _ _ kept ?_ (fun i => Nat.le_trans (count_le i) List.count_le_count_cons)
      (fun i hi => by rw [count_cons_of_not_waiting hnot hi, count i hi])
      (stuck.imp (filter_cons_of_not_reorderable hre).trans fun hblocked => hblocked.cons hre)
    rw [removeStale_cons, hmove, removed, List.append_assoc, List.eraseIdx_append_of_length_le (Nat.le_refl _),
      Nat.sub_self]
    rfl
  | candidate found =>
    refine .candidate ⟨?_, ?_, ?_, found.slot, found.fits, fun i => Nat.le_trans (found.count_le i)
      List.count_le_count_cons, fun i hi => by rw [count_cons_of_not_waiting hnot hi, found.count i hi],
      (filter_cons_of_not_reorderable hre).trans found.order⟩
    · rw [removeStale_cons, hmove, found.removed, List.append_assoc,
        List.eraseIdx_append_of_length_le (Nat.le_refl _), Nat.sub_self]
      rfl
    · rw [found.index_eq, List.length_cons, hlen]
      omega
    · intro i hi
      rcases List.mem_cons.1 hi with rfl | hi
      · rw [found.index_eq, hlen]
        omega
      · exact found.stale_lt i hi

/-- An id that is passed over in front of a scanned part. -/
theorem Scanned.pass (h : Scanned slots budget used (before ++ [id]) rest (stale, candidate))
    (hre : ¬ slots.reorderable id = true) : Scanned slots budget used before (id :: rest) (stale, candidate) := by
  have hmove : before ++ id :: rest = (before ++ [id]) ++ rest := by simp
  have hlen : (before ++ [id]).length = before.length + 1 := by simp
  cases h with
  | nothing removed count_le count stuck =>
    rename_i kept
    refine @Scanned.nothing _ _ _ _ _ _ _ (id :: kept) ?_ (fun i => by
      rw [List.count_cons, List.count_cons]
      exact Nat.add_le_add_right (count_le i) _) (fun i hi => by rw [List.count_cons, List.count_cons, count i hi])
      (stuck.imp (filter_cons_of_not_reorderable hre).trans fun hblocked => hblocked.cons hre)
    rw [hmove, removed, List.append_assoc]
    rfl
  | candidate found =>
    rename_i kept other rest'
    refine @Scanned.candidate _ _ _ _ _ _ _ _ _ (id :: kept) other rest' ⟨?_, ?_, found.stale_lt, found.slot,
      found.fits, fun i => ?_, fun i hi => ?_, ?_⟩
    · rw [hmove, found.removed, List.append_assoc]
      rfl
    · rw [found.index_eq, hlen, List.length_cons]
      omega
    · rw [List.cons_append, List.count_cons, List.count_cons]
      exact Nat.add_le_add_right (found.count_le i) _
    · rw [List.cons_append, List.count_cons, List.count_cons, found.count i hi]
    · rw [filter_cons_of_not_reorderable hre, List.cons_append, filter_cons_of_not_reorderable hre]
      exact found.order

end Scan

/-- A scan drops ids of jobs that are not waiting, and its candidate is the next one it neither drops nor
passes over. -/
theorem scanQueue_scanned (slots : Slots J) (budget used : Nat) (before queue : List JobId) :
    Scanned slots budget used before queue (scanQueue slots budget used queue before.length) := by
  induction queue generalizing before with
  | nil => exact .nothing rfl (fun _ => Nat.le_refl _) (fun _ _ => rfl) (.inl rfl)
  | cons id rest ih =>
    have hrest := ih (before ++ [id])
    rw [List.length_append, List.length_singleton] at hrest
    rw [scanQueue]
    cases hslot : slots id with
    | none =>
      refine hrest.drop ?_
      rintro ⟨slot, hsome, -⟩
      rw [hslot] at hsome
      cases hsome
    | some slot =>
      simp only
      have hid : slots.reorderable id = reorderableSlot slot := Slots.reorderable_of_some hslot
      by_cases hre : reorderableSlot slot = true
      · rw [if_neg (by simp [hre])]
        have horder : (id :: rest).filter slots.reorderable = id :: rest.filter slots.reorderable :=
          List.filter_cons_of_pos (hid.trans hre)
        split
        · rename_i hbudget
          exact .nothing rfl (fun _ => Nat.le_refl _) (fun _ _ => rfl)
            (.inr ⟨id, _, slot, horder, hslot, hbudget⟩)
        · rename_i hbudget
          refine @Scanned.candidate _ _ _ _ _ _ _ _ _ [] id rest ⟨rfl, (Nat.zero_add _).symm, ?_,
            ⟨slot, hslot, hre, rfl⟩, ?_, fun _ => Nat.le_refl _, fun _ _ => rfl, horder⟩
          · intro i hi
            cases hi
          · by_cases hused : used = 0
            · exact Or.inl hused
            · exact Or.inr (Nat.le_of_not_lt fun hlt => hbudget ⟨Nat.pos_of_ne_zero hused, hlt⟩)
      · rw [if_pos (by simp [hre])]
        split
        · rename_i hstale
          refine hrest.drop ?_
          rintro ⟨slot', hsome, hwaiting⟩
          rw [hslot] at hsome
          cases hsome
          exact Slot.not_waiting_of_stale hstale hwaiting
        · exact hrest.pass (hid ▸ hre)

/-- The state after a reservation attempt. -/
inductive Reserves (s : Inner J) : Inner J × Option (JobId × Nat) → Prop
  | nothing {queue : List JobId} (count_le : ∀ i, queue.count i ≤ s.queue.count i)
      (count : ∀ i, s.slots.Waiting i → queue.count i = s.queue.count i)
      (stuck : s.maxRunning ≤ s.running ∨ s.queue.filter s.slots.reorderable = [] ∨
        Blocked s.slots s.cpuThreadBudget s.cpuThreadsInUse s.queue) :
      Reserves s ({ s with queue := queue }, none)
  | job {queue : List JobId} {id : JobId} {threads : Nat} {slot : Slot J} (present : s.slots id = some slot)
      (waiting : slot.Waiting) (bounded : threads ≤ s.cpuThreadBudget)
      (fits : s.cpuThreadsInUse = 0 ∨ saturatingAdd s.cpuThreadsInUse threads ≤ s.cpuThreadBudget)
      (count_le : ∀ i, queue.count i + [id].count i ≤ s.queue.count i)
      (count : ∀ i, s.slots.Waiting i → queue.count i + [id].count i = s.queue.count i)
      (free : s.running < s.maxRunning) (threads_eq : threads = min slot.cpuThreads s.cpuThreadBudget)
      (order : s.queue.filter s.slots.reorderable = id :: queue.filter s.slots.reorderable) :
      Reserves s ({ s with
        queue := queue
        running := fetchAdd s.running 1
        cpuThreadsInUse := fetchAdd s.cpuThreadsInUse threads }, some (id, threads))

/-- Reserving takes one waiting job that fits out of the queue, or leaves every waiting job in it. -/
theorem reserveNextJob_reserves (s : Inner J) : s.Reserves s.reserveNextJob := by
  unfold reserveNextJob
  split
  · rename_i hfull
    exact .nothing (fun _ => Nat.le_refl _) (fun _ _ => rfl) (.inl hfull)
  rename_i hfree
  have hscan := scanQueue_scanned s.slots s.cpuThreadBudget s.cpuThreadsInUse [] s.queue
  rw [List.length_nil] at hscan
  cases hresult : scanQueue s.slots s.cpuThreadBudget s.cpuThreadsInUse s.queue 0 with
  | mk stale candidate =>
    rw [hresult] at hscan
    cases hscan with
    | nothing removed count_le count stuck =>
      rw [List.nil_append, List.nil_append] at removed
      simp only [removed]
      exact .nothing count_le count (.inr stuck)
    | candidate found =>
      rename_i index threads kept id rest
      have hremoved := found.removed
      rw [List.nil_append, List.nil_append] at hremoved
      obtain ⟨slot, hslot, hre, hthreads⟩ := found.slot
      have hfilter : stale.filter (· < index) = stale :=
        List.filter_eq_self.2 fun i hi => decide_eq_true (found.stale_lt i hi)
      have hplace : index - stale.length = kept.length := by
        have := found.index_eq
        rw [List.length_nil] at this
        omega
      have hget : (kept ++ id :: rest)[kept.length]? = some id := by simp
      have herase : (kept ++ id :: rest).eraseIdx kept.length = kept ++ rest := by
        rw [List.eraseIdx_append_of_length_le (Nat.le_refl _), Nat.sub_self]
        rfl
      simp only [hremoved, hfilter, hplace, hget, herase]
      have hsplit : ∀ i, (kept ++ rest).count i + [id].count i = (kept ++ id :: rest).count i := by
        intro i
        rw [List.count_append, List.count_append, List.count_cons, List.count_cons, List.count_nil]
        omega
      refine .job hslot (.of_reorderable hre) (by rw [hthreads]; exact Nat.min_le_right _ _) found.fits
        (fun i => ?_) (fun i hi => ?_) (Nat.lt_of_not_le hfree) hthreads found.order
      · rw [hsplit i]
        exact found.count_le i
      · rw [hsplit i, found.count i hi]

/-! ## Moving -/

/-- Writing ids to different places of the queue. -/
theorem count_writePlaces {queue : List JobId} {places : List (Nat × JobId)} (i : JobId)
    (hin : ∀ p ∈ places, p.1 < queue.length) (hnodup : (places.map (·.1)).Nodup) :
    (writePlaces queue places).count i + (places.map fun p => queue.getD p.1 0).count i =
      queue.count i + (places.map (·.2)).count i := by
  induction places generalizing queue with
  | nil => rfl
  | cons p places ih =>
    have hp := hin p List.mem_cons_self
    obtain ⟨hnot, hnodup⟩ := List.nodup_cons.1 hnodup
    have hrest := @ih (queue.set p.1 p.2) (fun q hq => by
      rw [List.length_set]
      exact hin q (List.mem_cons_of_mem _ hq)) hnodup
    have hold : (places.map fun q => (queue.set p.1 p.2).getD q.1 0) = places.map fun q => queue.getD q.1 0 := by
      apply List.map_congr_left
      intro q hq
      have hne : p.1 ≠ q.1 := fun h => hnot (List.mem_map.2 ⟨q, hq, h.symm⟩)
      rw [List.getD_eq_getElem?_getD, List.getD_eq_getElem?_getD, List.getElem?_set_ne hne]
    rw [hold] at hrest
    have hset : (queue.set p.1 p.2).count i = queue.count i - (if queue[p.1] == i then 1 else 0) +
        if p.2 == i then 1 else 0 := List.count_set hp
    have hgetD : queue.getD p.1 0 = queue[p.1] := by
      rw [List.getD_eq_getElem?_getD, List.getElem?_eq_getElem hp, Option.getD_some]
    have hone : (if queue[p.1] == i then 1 else 0) ≤ queue.count i := by
      split
      · rename_i h
        rw [beq_iff_eq] at h
        rw [← h]
        exact List.count_pos_iff.2 (List.getElem_mem hp)
      · exact Nat.zero_le _
    simp only [List.map_cons, List.count_cons, hgetD]
    show (writePlaces (queue.set p.1 p.2) places).count i + _ = _
    omega

/-- A place of the queue that holds an id. -/
theorem mem_reorderableFrom {slots : Slots J} {queue : List JobId} {start : Nat} {p : Nat × JobId}
    (h : p ∈ reorderableFrom slots queue start) : start ≤ p.1 ∧ queue[p.1 - start]? = some p.2 := by
  induction queue generalizing start with
  | nil => cases h
  | cons id rest ih =>
    have hrest : p ∈ reorderableFrom slots rest (start + 1) →
        start ≤ p.1 ∧ (id :: rest)[p.1 - start]? = some p.2 := by
      intro hp
      obtain ⟨hle, hget⟩ := ih hp
      refine ⟨by omega, ?_⟩
      rw [show p.1 - start = (p.1 - (start + 1)) + 1 by omega, List.getElem?_cons_succ]
      exact hget
    rw [reorderableFrom] at h
    split at h
    · rcases List.mem_cons.1 h with rfl | hp
      · exact ⟨Nat.le_refl _, by simp⟩
      · exact hrest hp
    · exact hrest h

theorem nodup_reorderableFrom (slots : Slots J) (queue : List JobId) (start : Nat) :
    ((reorderableFrom slots queue start).map (·.1)).Nodup := by
  induction queue generalizing start with
  | nil => exact List.nodup_nil
  | cons id rest ih =>
    rw [reorderableFrom]
    split
    · refine List.nodup_cons.2 ⟨?_, ih _⟩
      intro h
      obtain ⟨p, hp, heq⟩ := List.mem_map.1 h
      have := (mem_reorderableFrom hp).1
      simp only at heq
      omega
    · exact ih _

/-- The queue in another order. -/
def Reordered (s t : Inner J) : Prop :=
  ∃ queue, t = { s with queue := queue } ∧ ∀ i, queue.count i = s.queue.count i

theorem Reordered.refl (s : Inner J) : s.Reordered s := ⟨s.queue, rfl, fun _ => rfl⟩

/-- Places of the queue whose new ids are a permutation of the ids they hold. -/
theorem reordered_writePlaces {s : Inner J} {places : List (Nat × JobId)} {held : List JobId}
    (hheld : places.map (fun p => s.queue[p.1]?) = held.map some) (hnodup : (places.map (·.1)).Nodup)
    (hperm : (places.map (·.2)).Perm held) : s.Reordered { s with queue := writePlaces s.queue places } := by
  refine ⟨_, rfl, fun i => ?_⟩
  have hin : ∀ p ∈ places, p.1 < s.queue.length := by
    intro p hp
    have hmem : s.queue[p.1]? ∈ held.map some := by
      rw [← hheld]
      exact List.mem_map_of_mem hp
    obtain ⟨id, -, hid⟩ := List.mem_map.1 hmem
    exact (List.getElem?_eq_some_iff.1 hid.symm).1
  have hget : places.map (fun p => s.queue.getD p.1 0) = held := by
    have := congrArg (List.map fun o : Option JobId => o.getD 0) hheld
    rw [List.map_map, List.map_map] at this
    have hid : held.map ((fun o : Option JobId => o.getD 0) ∘ some) = held := by
      rw [show ((fun o : Option JobId => o.getD 0) ∘ some) = id from rfl, List.map_id]
    rw [← hid, ← this]
    apply List.map_congr_left
    intro p _
    rw [List.getD_eq_getElem?_getD]
    rfl
  have := count_writePlaces i hin hnodup
  rw [hget, hperm.count_eq i] at this
  omega

theorem getElem?_reorderable {s : Inner J} :
    s.reorderableQueueEntries.map (fun p => s.queue[p.1]?) =
      (s.reorderableQueueEntries.map (·.2)).map some := by
  rw [List.map_map]
  apply List.map_congr_left
  intro p hp
  exact (mem_reorderableFrom hp).2

theorem moveQueuedBefore_reordered (s : Inner J) (id : JobId) (before : Option JobId) :
    s.Reordered (s.moveQueuedBefore id before).1 := by
  unfold moveQueuedBefore
  split
  · exact .refl s
  simp only
  set entries := s.reorderableQueueEntries with hentries
  cases hsource : (entries.map (·.2)).findIdx? (· == id) with
  | none => exact .refl s
  | some source =>
    simp only
    split
    · exact .refl s
    obtain ⟨hlt, hid, -⟩ := List.findIdx?_eq_some_iff_getElem.1 hsource
    rw [beq_iff_eq] at hid
    have hplace : ∀ place : Nat, place ≤ ((entries.map (·.2)).eraseIdx source).length →
        (((entries.map (·.2)).eraseIdx source).insertIdx place id).Perm (entries.map (·.2)) := by
      intro place hplace
      refine (List.perm_insertIdx _ _ hplace).trans ?_
      rw [← hid]
      exact List.getElem_cons_eraseIdx_perm hlt
    have hwrite : ∀ place, place ≤ ((entries.map (·.2)).eraseIdx source).length →
        s.Reordered { s with queue := writePlaces s.queue ((entries.map (·.1)).zip
          (((entries.map (·.2)).eraseIdx source).insertIdx place id)) } := by
      intro place hle
      have hperm := hplace place hle
      have hlen := hperm.length_eq
      rw [List.length_map] at hlen
      have hfst : ((entries.map (·.1)).zip (((entries.map (·.2)).eraseIdx source).insertIdx place id)).map (·.1) =
          entries.map (·.1) := List.map_fst_zip (by
          rw [List.length_map]
          exact Nat.le_of_eq hlen.symm)
      have hsnd : ((entries.map (·.1)).zip (((entries.map (·.2)).eraseIdx source).insertIdx place id)).map (·.2) =
          ((entries.map (·.2)).eraseIdx source).insertIdx place id := List.map_snd_zip (by
          rw [List.length_map]
          exact Nat.le_of_eq hlen)
      refine @reordered_writePlaces _ s _ (entries.map (·.2)) ?_ ?_ ?_
      · have := congrArg (List.map fun k => s.queue[k]?) hfst
        rw [List.map_map, List.map_map] at this
        exact this.trans getElem?_reorderable
      · rw [hfst]
        exact nodup_reorderableFrom _ _ _
      · rw [hsnd]
        exact hperm
    cases before with
    | none =>
      simp only
      split
      · exact .refl s
      · exact hwrite _ (Nat.le_refl _)
    | some target =>
      simp only
      cases htarget : ((entries.map (·.2)).eraseIdx source).findIdx? (· == target) with
      | none => exact .refl s
      | some place =>
        simp only
        split
        · exact .refl s
        · exact hwrite _ (Nat.le_of_lt (List.findIdx?_eq_some_iff_getElem.1 htarget).1)

theorem moveQueued_reordered (s : Inner J) (id : JobId) (direction : QueueDirection) :
    s.Reordered (s.moveQueued id direction).1 := by
  unfold moveQueued
  simp only
  set entries := s.reorderableQueueEntries with hentries
  cases hposition : entries.findIdx? (fun entry => entry.2 == id) with
  | none => exact .refl s
  | some position =>
    simp only
    split
    · rename_i there other here this hthere hhere
      obtain ⟨neighbor, hneighbor, hthere⟩ := Option.bind_eq_some_iff.1 hthere
      have hne : neighbor ≠ position := by
        cases direction with
        | earlier =>
          simp only at hneighbor
          split at hneighbor
          · cases hneighbor
          · cases hneighbor
            omega
        | later =>
          simp only at hneighbor
          split at hneighbor
          · cases hneighbor
            omega
          · cases hneighbor
      have hfst : here ≠ there := by
        rintro rfl
        have h₁ : (entries.map (·.1))[neighbor]? = some here := by rw [List.getElem?_map, hthere]; rfl
        have h₂ : (entries.map (·.1))[position]? = some here := by rw [List.getElem?_map, hhere]; rfl
        exact hne ((List.getElem?_inj (List.getElem?_eq_some_iff.1 h₁).1
          (nodup_reorderableFrom s.slots s.queue 0)).1 (h₁.trans h₂.symm))
      have hhere' := (mem_reorderableFrom (List.mem_of_getElem? hhere)).2
      have hthere' := (mem_reorderableFrom (List.mem_of_getElem? hthere)).2
      refine @reordered_writePlaces _ s _ [this, other] ?_ ?_ ?_
      · simp only [List.map_cons, List.map_nil]
        rw [show s.queue[here]? = some this from hhere', show s.queue[there]? = some other from hthere']
      · simp [hfst]
      · exact List.Perm.swap _ _ _
    · exact .refl s

/-! ## Cancelling -/

/-- What a group of cancellations has done to the slots so far. -/
structure Cancels (slots : Slots J) (acc : Slots J × List JobId × List JobId) : Prop where
  cancelled : ∀ id ∈ acc.2.2, slots.Waiting id ∧ ∃ slot, acc.1 id = some slot ∧ slot.job = none ∧
    slot.state = .cancelled
  kept : ∀ id, id ∉ acc.2.2 → (acc.1 id).map (fun slot => (slot.state, slot.job)) =
    (slots id).map fun slot => (slot.state, slot.job)

theorem Cancels.of_kept {slots : Slots J} {acc : Slots J × List JobId × List JobId} (h : Cancels slots acc)
    {id : JobId} (hid : id ∉ acc.2.2) {slot : Slot J} (hslot : acc.1 id = some slot) :
    ∃ old, slots id = some old ∧ old.state = slot.state ∧ old.job = slot.job := by
  have hkept := h.kept id hid
  rw [hslot] at hkept
  cases hold : slots id with
  | none =>
    rw [hold] at hkept
    cases hkept
  | some old =>
    rw [hold, Option.map_some, Option.map_some, Option.some.injEq, Prod.mk.injEq] at hkept
    exact ⟨old, rfl, hkept.1.symm, hkept.2.symm⟩

theorem cancelOne_cancels {slots : Slots J} {acc : Slots J × List JobId × List JobId} (h : Cancels slots acc)
    (id : JobId) : Cancels slots (cancelOne acc id) := by
  obtain ⟨current, requested, cancelledQueued⟩ := acc
  unfold cancelOne
  simp only
  cases hslot : current id with
  | none => exact h
  | some slot =>
    simp only
    split
    · exact h
    rename_i hopen
    have hnot : id ∉ cancelledQueued := by
      intro hmem
      obtain ⟨-, slot', hslot', -, hstate⟩ := h.cancelled id hmem
      have hsame : slot = slot' := Option.some.inj (hslot.symm.trans hslot')
      rw [hsame, hstate] at hopen
      exact hopen rfl
    obtain ⟨old, hold, hstate, hjob⟩ := h.of_kept hnot hslot
    split
    · rename_i hqueued
      constructor
      · intro i hi
        rcases List.mem_append.1 hi with hi | hi
        · have hne : i ≠ id := fun heq => hnot (heq ▸ hi)
          simp only [Slots.set_of_ne hne]
          exact h.cancelled i hi
        · rw [List.mem_singleton.1 hi]
          exact ⟨⟨old, hold, by rw [hstate]; exact hqueued.1, by rw [hjob]; exact hqueued.2⟩, _,
            Slots.set_self _ _ _, rfl, rfl⟩
      · intro i hi
        have hne : i ≠ id := fun heq => hi (List.mem_append_right _ (List.mem_singleton.2 heq))
        simp only [Slots.set_of_ne hne]
        exact h.kept i fun hmem => hi (List.mem_append_left _ hmem)
    · constructor
      · intro i hi
        have hne : i ≠ id := fun heq => hnot (heq ▸ hi)
        simp only [Slots.set_of_ne hne]
        exact h.cancelled i hi
      · intro i hi
        by_cases hne : i = id
        · simp only [hne, Slots.set_self]
          rw [hold, Option.map_some, Option.map_some, hstate, hjob]
        · simp only [Slots.set_of_ne hne]
          exact h.kept i hi

theorem requestCancelMany_cancels (s : Inner J) (ids : List JobId) :
    Cancels s.slots ((s.requestCancelMany ids).1.slots, (s.requestCancelMany ids).2) ∧
      (s.requestCancelMany ids).1 = { s with
        slots := (s.requestCancelMany ids).1.slots
        queue := s.queue.filter (· ∉ (s.requestCancelMany ids).2.2) } := by
  have hfold : ∀ (ids : List JobId) (acc : Slots J × List JobId × List JobId), Cancels s.slots acc →
      Cancels s.slots (ids.foldl cancelOne acc) := by
    intro ids
    induction ids with
    | nil => exact fun _ h => h
    | cons id ids ih => exact fun acc h => ih _ (cancelOne_cancels h id)
  have hstart : Cancels s.slots (s.slots, [], []) := ⟨fun id hid => absurd hid List.not_mem_nil, fun _ _ => rfl⟩
  have hcancels := hfold ids _ hstart
  unfold requestCancelMany
  revert hcancels
  rcases ids.foldl cancelOne (s.slots, [], []) with ⟨slots, requested, cancelledQueued⟩
  intro hcancels
  refine ⟨hcancels, ?_⟩
  simp only
  congr 1
  split
  · rename_i hnil
    rw [hnil]
    simp
  · rfl

end Inner

end Squallz.Queue
