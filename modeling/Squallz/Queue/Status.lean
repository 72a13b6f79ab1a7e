/-
What `queued_job_statuses` reports against what the scheduler does: the jobs reported without a reason to wait
are the ones that reservations hand out, in the same order, and a move puts the reorderable jobs into the order
asked for and leaves every other job in its slot.
-/
import Squallz.Queue.Scheduling

namespace Squallz.Queue.Inner

variable {J : Type}

/-! ## Admission in order -/

/-- The jobs that are admitted one after the other, up to the first one that does not fit. -/
def admitted (slots : Slots J) (maxRunning budget : Nat) : List JobId → Nat → Nat → List JobId
  | [], _, _ => []
  | id :: rest, running, used =>
    let threads := min ((slots id).elim 0 Slot.cpuThreads) budget
    if maxRunning ≤ running ∨ (0 < used ∧ budget < saturatingAdd used threads) then []
    else id :: admitted slots maxRunning budget rest (saturatingAdd running 1) (saturatingAdd used threads)

section Admitted

variable {slots : Slots J} {maxRunning budget running used : Nat} {id : JobId} {rest : List JobId} {slot : Slot J}

theorem admitted_full (h : maxRunning ≤ running) (ids : List JobId) :
    admitted slots maxRunning budget ids running used = [] := by
  cases ids with
  | nil => rfl
  | cons id rest => exact if_pos (.inl h)

theorem admitted_blocked (hslot : slots id = some slot) (hused : 0 < used)
    (h : budget < saturatingAdd used (min slot.cpuThreads budget)) :
    admitted slots maxRunning budget (id :: rest) running used = [] := by
  refine if_pos (.inr ⟨hused, ?_⟩)
  rw [hslot]
  exact h

/-- A budget that no sum of words exceeds admits jobs whatever is in use. -/
theorem admitted_unbounded (h : usizeMod - 1 ≤ budget) (ids : List JobId) (running used used' : Nat) :
    admitted slots maxRunning budget ids running used = admitted slots maxRunning budget ids running used' := by
  have hfits : ∀ a b, ¬ budget < saturatingAdd a b := by
    intro a b hlt
    unfold saturatingAdd at hlt
    omega
  induction ids generalizing running used used' with
  | nil => rfl
  | cons id rest ih =>
    simp only [admitted, hfits, and_false, or_false]
    split
    · rfl
    · rw [ih]

/-- A ceiling that no word reaches admits jobs whatever is running. -/
theorem admitted_wide (h : usizeMod ≤ maxRunning) (ids : List JobId) {running running' : Nat}
    (hrunning : running < maxRunning) (hrunning' : running' < maxRunning) (used : Nat) :
    admitted slots maxRunning budget ids running used = admitted slots maxRunning budget ids running' used := by
  cases ids with
  | nil => rfl
  | cons id rest =>
    simp only [admitted, Nat.not_le.2 hrunning, Nat.not_le.2 hrunning', false_or]
    split
    · rfl
    · have hlt : ∀ a, saturatingAdd a 1 < maxRunning := by
        intro a
        have hpos : 0 < usizeMod := by decide
        unfold saturatingAdd
        omega
      rw [admitted_wide h rest (hlt running) (hlt running')]

/-- A job that fits is admitted, and the counters a reservation leaves admit the jobs after it. -/
theorem admitted_next (hslot : slots id = some slot) (hfree : running < maxRunning)
    (hfits : used = 0 ∨ saturatingAdd used (min slot.cpuThreads budget) ≤ budget) :
    admitted slots maxRunning budget (id :: rest) running used =
      id :: admitted slots maxRunning budget rest (fetchAdd running 1)
        (fetchAdd used (min slot.cpuThreads budget)) := by
  have hpos : 0 < usizeMod := by decide
  have hopen : ¬ (maxRunning ≤ running ∨ (0 < used ∧ budget < saturatingAdd used (min slot.cpuThreads budget))) := by
    rintro (h | ⟨hused, h⟩)
    · omega
    · rcases hfits with hzero | hle
      · omega
      · omega
  have hrunning : ∀ used', admitted slots maxRunning budget rest (saturatingAdd running 1) used' =
      admitted slots maxRunning budget rest (fetchAdd running 1) used' := by
    intro used'
    by_cases hmax : usizeMod ≤ maxRunning
    · refine admitted_wide hmax rest ?_ ?_ used'
      · unfold saturatingAdd
        omega
      · exact Nat.lt_of_lt_of_le (Nat.mod_lt _ hpos) hmax
    · have hfetch : fetchAdd running 1 = running + 1 := Nat.mod_eq_of_lt (by omega)
      have hsaturating : saturatingAdd running 1 = running + 1 := Nat.min_eq_left (by omega)
      rw [hfetch, hsaturating]
  have hused : ∀ running', admitted slots maxRunning budget rest running'
        (saturatingAdd used (min slot.cpuThreads budget)) =
      admitted slots maxRunning budget rest running' (fetchAdd used (min slot.cpuThreads budget)) := by
    intro running'
    by_cases hbudget : usizeMod - 1 ≤ budget
    · exact admitted_unbounded hbudget rest _ _ _
    · -- below that budget an admitted sum neither saturates nor wraps
      have hmin : min slot.cpuThreads budget ≤ budget := Nat.min_le_right _ _
      have hsum : used + min slot.cpuThreads budget < usizeMod := by
        rcases hfits with hzero | hle
        · omega
        · unfold saturatingAdd at hle
          omega
      have hfetch : fetchAdd used (min slot.cpuThreads budget) = used + min slot.cpuThreads budget :=
        Nat.mod_eq_of_lt hsum
      have hsaturating : saturatingAdd used (min slot.cpuThreads budget) = used + min slot.cpuThreads budget :=
        Nat.min_eq_left (by omega)
      rw [hfetch, hsaturating]
  rw [admitted]
  simp only [hslot, Option.elim_some]
  rw [if_neg hopen, hrunning, hused]

end Admitted

/-! ## The reported statuses -/

/-- The jobs reported without a reason to wait. -/
def ready (statuses : List QueuedJobStatus) : List JobId :=
  (statuses.filter fun status => status.waitReason = none).map (·.id)

theorem ready_cons_of_waiting {status : QueuedJobStatus} {statuses : List QueuedJobStatus}
    (h : status.waitReason ≠ none) : ready (status :: statuses) = ready statuses := by
  unfold ready
  rw [List.filter_cons_of_neg (by simpa using h)]

theorem ready_cons_of_ready {status : QueuedJobStatus} {statuses : List QueuedJobStatus}
    (h : status.waitReason = none) : ready (status :: statuses) = status.id :: ready statuses := by
  unfold ready
  rw [List.filter_cons_of_pos (by simpa using h), List.map_cons]

theorem ready_statusesFrom_blocked (s : Inner J) (entries : List (Nat × JobId)) (index running used : Nat) :
    ready (s.statusesFrom entries index running used true) = [] := by
  induction entries generalizing index with
  | nil => rfl
  | cons entry entries ih =>
    obtain ⟨place, id⟩ := entry
    rw [statusesFrom]
    split
    · exact ih _
    · simp only [if_true]
      rw [ready_cons_of_waiting (by simp)]
      exact ih _

/-- The simulation of `queued_job_statuses` admits the reorderable jobs in their order. -/
theorem ready_statusesFrom {s : Inner J} {entries : List (Nat × JobId)}
    (hentries : ∀ entry ∈ entries, s.slots.reorderable entry.2 = true) (index running used : Nat) :
    ready (s.statusesFrom entries index running used false) =
      admitted s.slots s.maxRunning s.cpuThreadBudget (entries.map (·.2)) running used := by
  induction entries generalizing index running used with
  | nil => rfl
  | cons entry entries ih =>
    obtain ⟨place, id⟩ := entry
    obtain ⟨slot, hslot, -⟩ := Slots.Waiting.of_reorderable (hentries _ List.mem_cons_self)
    rw [statusesFrom, List.map_cons, admitted]
    simp only [hslot, Option.elim_some, if_neg Bool.false_ne_true]
    by_cases hfull : s.maxRunning ≤ running
    · rw [if_pos hfull, if_pos (.inl hfull), ready_cons_of_waiting (by simp), ready_statusesFrom_blocked]
    · rw [if_neg hfull]
      by_cases hblocked : 0 < used ∧ s.cpuThreadBudget < saturatingAdd used (min slot.cpuThreads s.cpuThreadBudget)
      · rw [if_pos hblocked, if_pos (.inr hblocked), ready_cons_of_waiting (by simp), ready_statusesFrom_blocked]
      · rw [if_neg hblocked, if_neg (not_or.2 ⟨hfull, hblocked⟩), ready_cons_of_ready rfl,
          ih fun entry hentry => hentries entry (List.mem_cons_of_mem _ hentry)]

theorem map_reorderableFrom (slots : Slots J) (queue : List JobId) (start : Nat) :
    (reorderableFrom slots queue start).map (·.2) = queue.filter slots.reorderable := by
  induction queue generalizing start with
  | nil => rfl
  | cons id rest ih =>
    rw [reorderableFrom]
    split
    · rename_i h
      have hid : slots.reorderable id = true := h
      rw [List.map_cons, ih, List.filter_cons_of_pos hid]
    · rename_i h
      have hid : ¬ slots.reorderable id = true := h
      rw [ih, List.filter_cons_of_neg hid]

/-- The ids of the reorderable jobs in the order of the queue. -/
def reorderableIds (s : Inner J) : List JobId := s.queue.filter s.slots.reorderable

theorem ready_queuedJobStatuses (s : Inner J) :
    ready s.queuedJobStatuses =
      admitted s.slots s.maxRunning s.cpuThreadBudget s.reorderableIds s.running s.cpuThreadsInUse := by
  have hids : s.reorderableQueueEntries.map (·.2) = s.reorderableIds := map_reorderableFrom _ _ _
  rw [← hids]
  refine ready_statusesFrom (fun entry hentry => ?_) _ _ _
  have hmem : entry.2 ∈ s.reorderableIds := hids ▸ List.mem_map_of_mem hentry
  exact (List.mem_filter.1 hmem).2

/-! ## Repeated reservations -/

/-- The jobs that reservations hand out one after the other, until one hands out none. -/
inductive HandsOut : Inner J → List JobId → Prop
  | none {s : Inner J} (h : s.reserveNextJob.2 = none) : HandsOut s []
  | next {s : Inner J} {id : JobId} {threads : Nat} {ids : List JobId}
      (h : s.reserveNextJob.2 = some (id, threads)) (rest : HandsOut s.reserveNextJob.1 ids) : HandsOut s (id :: ids)

/-- The jobs that the counters of a state admit. -/
def admittedIds (s : Inner J) : List JobId :=
  admitted s.slots s.maxRunning s.cpuThreadBudget s.reorderableIds s.running s.cpuThreadsInUse

/-- A reservation hands out the first admitted job and leaves the others admitted. -/
theorem reserveNextJob_admitted (s : Inner J) :
    (s.reserveNextJob.2 = none ∧ s.admittedIds = []) ∨
      ∃ id threads, s.reserveNextJob.2 = some (id, threads) ∧
        s.admittedIds = id :: s.reserveNextJob.1.admittedIds := by
  have hreserves := s.reserveNextJob_reserves
  generalize s.reserveNextJob = result at hreserves
  cases hreserves with
  | nothing count_le count stuck =>
    refine .inl ⟨rfl, ?_⟩
    unfold admittedIds reorderableIds
    rcases stuck with hfull | hempty | ⟨id, rest, slot, horder, hslot, hused, hbudget⟩
    · exact admitted_full hfull _
    · rw [hempty]
      rfl
    · rw [horder]
      exact admitted_blocked hslot hused hbudget
  | job present waiting bounded fits count_le count free threads_eq order =>
    refine .inr ⟨_, _, rfl, ?_⟩
    unfold admittedIds reorderableIds
    rw [order, threads_eq]
    rw [threads_eq] at fits
    exact admitted_next present free fits

theorem handsOut_iff (s : Inner J) (ids : List JobId) : HandsOut s ids ↔ ids = s.admittedIds := by
  constructor
  · intro h
    induction h with
    | @none s hnone =>
      rcases s.reserveNextJob_admitted with ⟨-, hids⟩ | ⟨id, threads, hsome, -⟩
      · exact hids.symm
      · rw [hnone] at hsome
        cases hsome
    | @next s id threads ids hsome rest ih =>
      rcases s.reserveNextJob_admitted with ⟨hnone, -⟩ | ⟨id, threads, hsome', hids⟩
      · rw [hsome] at hnone
        cases hnone
      · rw [hsome] at hsome'
        cases hsome'
        rw [hids, ih]
  · rintro rfl
    generalize hids : s.admittedIds = ids
    induction ids generalizing s with
    | nil =>
      rcases s.reserveNextJob_admitted with ⟨hnone, -⟩ | ⟨id, threads, -, hcons⟩
      · exact .none hnone
      · rw [hids] at hcons
        cases hcons
    | cons id ids ih =>
      rcases s.reserveNextJob_admitted with ⟨-, hnil⟩ | ⟨id', threads, hsome, hcons⟩
      · rw [hids] at hnil
        cases hnil
      · rw [hids] at hcons
        cases hcons
        exact .next hsome (ih _ rfl)

/-! ## Writing places -/

section Places

variable {queue queue' : List JobId} {places : List (Nat × JobId)}

theorem getElem?_writePlaces_of_not_mem {k : Nat} (h : k ∉ places.map (·.1)) :
    (writePlaces queue places)[k]? = queue[k]? := by
  induction places generalizing queue with
  | nil => rfl
  | cons p places ih =>
    rw [List.map_cons, List.mem_cons, not_or] at h
    show (writePlaces (queue.set p.1 p.2) places)[k]? = queue[k]?
    rw [ih h.2, List.getElem?_set_ne fun heq => h.1 heq.symm]

theorem length_writePlaces (queue : List JobId) (places : List (Nat × JobId)) :
    (writePlaces queue places).length = queue.length := by
  induction places generalizing queue with
  | nil => rfl
  | cons p places ih =>
    show (writePlaces (queue.set p.1 p.2) places).length = queue.length
    rw [ih, List.length_set]

/-- An id written to a place stands there, as no later one is written over it. -/
theorem getElem?_writePlaces_of_mem (hnodup : (places.map (·.1)).Nodup) {p : Nat × JobId} (hp : p ∈ places)
    (hin : p.1 < queue.length) : (writePlaces queue places)[p.1]? = some p.2 := by
  induction places generalizing queue with
  | nil => cases hp
  | cons q places ih =>
    obtain ⟨hnot, hnodup⟩ := List.nodup_cons.1 hnodup
    show (writePlaces (queue.set q.1 q.2) places)[p.1]? = some p.2
    rcases List.mem_cons.1 hp with rfl | hp
    · rw [getElem?_writePlaces_of_not_mem hnot, List.getElem?_set_self hin]
    · exact ih hnodup hp (by rwa [List.length_set])

/-- A queue with new ids in the places of the reorderable jobs: these ids are its reorderable jobs, in their
order, and nothing else has changed. -/
theorem filter_of_places {slots : Slots J} {start : Nat} {order : List JobId} (hlen : queue'.length = queue.length)
    (hfixed : ∀ (k : Nat) (id : JobId), queue[k]? = some id → slots.reorderable id = false → queue'[k]? = some id)
    (hplaces : (reorderableFrom slots queue start).map (fun entry => queue'[entry.1 - start]?) = order.map some)
    (horder : ∀ id ∈ order, slots.reorderable id = true) :
    queue'.filter slots.reorderable = order ∧
      queue'.filter (fun id => !slots.reorderable id) = queue.filter fun id => !slots.reorderable id := by
  induction queue generalizing queue' start order with
  | nil =>
    obtain rfl := List.length_eq_zero_iff.1 hlen
    rw [List.map_eq_nil_iff.1 hplaces.symm]
    exact ⟨rfl, rfl⟩
  | cons id rest ih =>
    obtain ⟨id', rest', rfl⟩ := List.exists_cons_of_length_eq_add_one hlen
    have hlen' : rest'.length = rest.length := Nat.succ.inj hlen
    have hfixed' : ∀ (k : Nat) (i : JobId), rest[k]? = some i → slots.reorderable i = false → rest'[k]? = some i :=
      fun k i hget hi => hfixed (k + 1) i hget hi
    have htail : (reorderableFrom slots rest (start + 1)).map (fun entry => (id' :: rest')[entry.1 - start]?) =
        (reorderableFrom slots rest (start + 1)).map fun entry => rest'[entry.1 - (start + 1)]? := by
      apply List.map_congr_left
      intro entry hentry
      have hle := (mem_reorderableFrom hentry).1
      have hsub : entry.1 - start = entry.1 - (start + 1) + 1 := by omega
      rw [hsub, List.getElem?_cons_succ]
    by_cases hid : slots.reorderable id = true
    · rw [reorderableFrom, if_pos (show (slots id).any reorderableSlot = true from hid), List.map_cons, htail,
        Nat.sub_self, List.getElem?_cons_zero] at hplaces
      rcases order with _ | ⟨next, order⟩
      · cases hplaces
      · rw [List.map_cons] at hplaces
        obtain ⟨hnext, htaken⟩ := List.cons_eq_cons.1 hplaces
        cases hnext
        obtain ⟨hyes, hno⟩ := ih hlen' hfixed' htaken fun i hi => horder i (List.mem_cons_of_mem _ hi)
        have hid' := horder id' List.mem_cons_self
        rw [List.filter_cons_of_pos hid', List.filter_cons_of_neg (by simp [hid']),
          List.filter_cons_of_neg (by simp [hid]), hyes, hno]
        exact ⟨rfl, rfl⟩
    · rw [reorderableFrom, if_neg (show ¬ (slots id).any reorderableSlot = true from hid), htail] at hplaces
      obtain ⟨hyes, hno⟩ := ih hlen' hfixed' hplaces horder
      rw [Bool.not_eq_true] at hid
      cases hfixed 0 id rfl hid
      rw [List.filter_cons_of_neg (by simp [hid]), List.filter_cons_of_pos (by simp [hid]),
        List.filter_cons_of_pos (by simp [hid]), hyes, hno]
      exact ⟨rfl, rfl⟩

end Places

/-! ## Moves -/

/-- The state after a move: the reorderable jobs in the order given, every other job in its slot. -/
structure MovedTo (s t : Inner J) (order : List JobId) : Prop where
  frame : t = { s with queue := t.queue }
  perm : t.queue.Perm s.queue
  fixed : ∀ (place : Nat) (id : JobId), s.slots.reorderable id = false →
    (t.queue[place]? = some id ↔ s.queue[place]? = some id)
  order : t.reorderableIds = order

theorem map_reorderableQueueEntries (s : Inner J) : s.reorderableQueueEntries.map (·.2) = s.reorderableIds :=
  map_reorderableFrom _ _ _

theorem MovedTo.refl (s : Inner J) : s.MovedTo s s.reorderableIds := ⟨rfl, .refl _, fun _ _ _ => Iff.rfl, rfl⟩

/-- Writing the reorderable ids in another order to their places. -/
theorem movedTo_writePlaces {s : Inner J} {places : List (Nat × JobId)} {order : List JobId}
    (hsub : ∀ k ∈ places.map (·.1), k ∈ s.reorderableQueueEntries.map (·.1))
    (hread : s.reorderableQueueEntries.map (fun entry => (writePlaces s.queue places)[entry.1]?) = order.map some)
    (hperm : order.Perm s.reorderableIds) :
    s.MovedTo { s with queue := writePlaces s.queue places } order := by
  have hentry : ∀ entry ∈ s.reorderableQueueEntries, s.queue[entry.1]? = some entry.2 ∧
      s.slots.reorderable entry.2 = true := by
    intro entry hentry
    have hmem : entry.2 ∈ s.reorderableIds := map_reorderableQueueEntries s ▸ List.mem_map_of_mem hentry
    exact ⟨(mem_reorderableFrom hentry).2, (List.mem_filter.1 hmem).2⟩
  have horder : ∀ id ∈ order, s.slots.reorderable id = true :=
    fun id hid => (List.mem_filter.1 (hperm.subset hid)).2
  have hkept : ∀ k, k ∉ s.reorderableQueueEntries.map (·.1) → (writePlaces s.queue places)[k]? = s.queue[k]? :=
    fun k hk => getElem?_writePlaces_of_not_mem fun hmem => hk (hsub k hmem)
  have hfixed : ∀ (k : Nat) (id : JobId), s.queue[k]? = some id → s.slots.reorderable id = false →
      (writePlaces s.queue places)[k]? = some id := by
    intro k id hget hid
    rw [hkept k fun hmem => ?_]
    · exact hget
    · obtain ⟨entry, hin, rfl⟩ := List.mem_map.1 hmem
      obtain ⟨hget', hre⟩ := hentry entry hin
      rw [hget] at hget'
      cases hget'
      rw [hid] at hre
      cases hre
  obtain ⟨hyes, hno⟩ := @filter_of_places _ _ _ s.slots 0 _ (length_writePlaces _ _) hfixed hread horder
  refine ⟨rfl, ?_, fun place id hid => ⟨fun hget => ?_, fun hget => hfixed place id hget hid⟩, hyes⟩
  · refine (List.filter_append_perm s.slots.reorderable _).symm.trans ?_
    refine .trans ?_ (List.filter_append_perm s.slots.reorderable s.queue)
    dsimp only
    rw [hyes, hno]
    exact hperm.append_right _
  · by_cases hmem : place ∈ s.reorderableQueueEntries.map (·.1)
    · obtain ⟨entry, hentry, rfl⟩ := List.mem_map.1 hmem
      have hin : some id ∈ order.map some := by
        rw [← hread, ← hget]
        exact List.mem_map_of_mem hentry
      obtain ⟨id', hid', heq⟩ := List.mem_map.1 hin
      cases heq
      rw [horder id hid'] at hid
      cases hid
    · exact (hkept place hmem).symm.trans hget

/-- The first element a search finds, with what stands before and after it. -/
theorem split_of_findIdx? {α : Type} {found : α → Bool} {l : List α} {i : Nat} (h : l.findIdx? found = some i) :
    ∃ u a v, l = u ++ a :: v ∧ found a = true ∧ (∀ b ∈ u, found b = false) ∧ u.length = i := by
  induction l generalizing i with
  | nil => cases h
  | cons b l ih =>
    rw [List.findIdx?_cons] at h
    split at h
    · rename_i hb
      cases h
      exact ⟨[], b, l, rfl, hb, by simp, rfl⟩
    · rename_i hb
      obtain ⟨j, hj, rfl⟩ := Option.map_eq_some_iff.1 h
      obtain ⟨u, a, v, rfl, ha, hu, rfl⟩ := ih hj
      refine ⟨b :: u, a, v, rfl, ha, ?_, rfl⟩
      rw [List.forall_mem_cons]
      exact ⟨Bool.not_eq_true _ ▸ hb, hu⟩

theorem insertIdx_append {α : Type} (u v : List α) (a : α) : (u ++ v).insertIdx u.length a = u ++ a :: v := by
  induction u with
  | nil => rfl
  | cons b u ih =>
    rw [List.cons_append, List.length_cons, List.insertIdx_succ_cons, ih]
    rfl

/-- The order in which `id` stands immediately before another job, or at the end. -/
def PlacedBefore (original : List JobId) (id : JobId) : Option JobId → List JobId → Prop
  | none, order => order = original.erase id ++ [id]
  | some target, order =>
    ∃ earlier later, original.erase id = earlier ++ target :: later ∧ target ∉ earlier ∧
      order = earlier ++ id :: target :: later

/-- The order in which `id` has changed places with its neighbor. -/
def Shifted (original : List JobId) (id : JobId) : QueueDirection → List JobId → Prop
  | .earlier, order =>
    ∃ before other after, original = before ++ other :: id :: after ∧ id ∉ before ∧ id ≠ other ∧
      order = before ++ id :: other :: after
  | .later, order =>
    ∃ before other after, original = before ++ id :: other :: after ∧ id ∉ before ∧
      order = before ++ other :: id :: after

/-- All reorderable jobs written to their places in another order. -/
theorem movedTo_reordered {s : Inner J} {order : List JobId} (hperm : order.Perm s.reorderableIds) :
    s.MovedTo { s with
      queue := writePlaces s.queue ((s.reorderableQueueEntries.map (·.1)).zip order) } order := by
  have hlen : order.length = (s.reorderableQueueEntries.map (·.1)).length := by
    rw [hperm.length_eq, ← map_reorderableQueueEntries, List.length_map, List.length_map]
  have hfst : ((s.reorderableQueueEntries.map (·.1)).zip order).map (·.1) = s.reorderableQueueEntries.map (·.1) :=
    List.map_fst_zip (Nat.le_of_eq hlen.symm)
  have hsnd : ((s.reorderableQueueEntries.map (·.1)).zip order).map (·.2) = order :=
    List.map_snd_zip (Nat.le_of_eq hlen)
  have hnodup : (((s.reorderableQueueEntries.map (·.1)).zip order).map (·.1)).Nodup := by
    rw [hfst]
    exact nodup_reorderableFrom _ _ _
  refine movedTo_writePlaces (fun k hk => hfst ▸ hk) ?_ hperm
  generalize hplaces : (s.reorderableQueueEntries.map (·.1)).zip order = places at *
  have hread : places.map (fun p => (writePlaces s.queue places)[p.1]?) = places.map fun p => some p.2 := by
    apply List.map_congr_left
    intro p hp
    have hmem : p.1 ∈ s.reorderableQueueEntries.map (·.1) := hfst ▸ List.mem_map_of_mem hp
    obtain ⟨entry, hentry, heq⟩ := List.mem_map.1 hmem
    have hin := (List.getElem?_eq_some_iff.1 (mem_reorderableFrom hentry).2).1
    exact getElem?_writePlaces_of_mem hnodup hp (by omega)
  calc s.reorderableQueueEntries.map (fun entry => (writePlaces s.queue places)[entry.1]?)
      = (s.reorderableQueueEntries.map (·.1)).map (fun k => (writePlaces s.queue places)[k]?) := by
        rw [List.map_map]
        rfl
    _ = (places.map (·.1)).map (fun k => (writePlaces s.queue places)[k]?) := by rw [hfst]
    _ = places.map (fun p => some p.2) := by
        rw [← hread, List.map_map]
        rfl
    _ = (places.map (·.2)).map some := by
        rw [List.map_map]
        rfl
    _ = order.map some := by rw [hsnd]

theorem moveQueuedBefore_movedTo {s t : Inner J} {id : JobId} {before : Option JobId}
    (h : s.moveQueuedBefore id before = (t, true)) :
    ∃ order, PlacedBefore s.reorderableIds id before order ∧ s.MovedTo t order := by
  unfold moveQueuedBefore at h
  split at h
  · cases h
  simp only [map_reorderableQueueEntries] at h
  cases hsource : s.reorderableIds.findIdx? (· == id) with
  | none =>
    rw [hsource] at h
    cases h
  | some source =>
    rw [hsource] at h
    obtain ⟨u, a, v, hsplit, ha, hu, rfl⟩ := split_of_findIdx? hsource
    rw [beq_iff_eq] at ha
    subst ha
    have hnot : a ∉ u := fun hmem => by simpa using hu a hmem
    have herase : s.reorderableIds.erase a = u ++ v := by
      rw [hsplit, List.erase_append_right _ hnot, List.erase_cons_head]
    have heraseIdx : s.reorderableIds.eraseIdx u.length = u ++ v := by
      rw [hsplit, List.eraseIdx_append_of_length_le (Nat.le_refl _), Nat.sub_self]
      rfl
    simp only [heraseIdx] at h
    split at h
    · cases h
    -- the order asked for is written, or stands already
    have hmoved : ∀ {order : List JobId}, order.Perm (a :: (u ++ v)) →
        (if order = s.reorderableIds then (s, true) else
          ({ s with queue := writePlaces s.queue ((s.reorderableQueueEntries.map (·.1)).zip order) }, true)) =
            (t, true) → s.MovedTo t order := by
      intro order hperm heq
      have hsame : order.Perm s.reorderableIds := by
        rw [hsplit]
        exact hperm.trans List.perm_middle.symm
      split at heq
      · rename_i hstands
        cases heq
        rw [hstands]
        exact .refl s
      · cases heq
        exact movedTo_reordered hsame
    cases before with
    | none =>
      simp only [List.insertIdx_length_self] at h
      exact ⟨u ++ v ++ [a], herase.symm ▸ rfl, hmoved List.perm_append_comm h⟩
    | some target =>
      simp only at h
      cases htarget : (u ++ v).findIdx? (· == target) with
      | none =>
        rw [htarget] at h
        cases h
      | some place =>
        obtain ⟨earlier, b, later, hrest, hb, hearlier, rfl⟩ := split_of_findIdx? htarget
        rw [beq_iff_eq] at hb
        subst hb
        simp only [htarget] at h
        simp only [hrest, insertIdx_append] at h
        refine ⟨earlier ++ a :: b :: later, ⟨earlier, later, herase.trans hrest, ?_, rfl⟩, hmoved ?_ h⟩
        · intro hmem
          simpa using hearlier b hmem
        · rw [hrest]
          exact List.perm_middle

/-- Two neighboring reorderable jobs written to each other's places. -/
theorem movedTo_exchanged {s : Inner J} {before after places : List (Nat × JobId)} {a b : Nat × JobId}
    (hentries : s.reorderableQueueEntries = before ++ a :: b :: after)
    (hplaces : places.Perm [(a.1, b.2), (b.1, a.2)]) :
    s.MovedTo { s with queue := writePlaces s.queue places } (before.map (·.2) ++ b.2 :: a.2 :: after.map (·.2)) := by
  have hall := nodup_reorderableFrom s.slots s.queue 0
  rw [show reorderableFrom s.slots s.queue 0 = before ++ a :: b :: after from hentries] at hall
  simp only [List.map_append, List.map_cons, List.nodup_append, List.nodup_cons, List.mem_cons, not_or] at hall
  obtain ⟨-, ⟨⟨hab, ha⟩, hb, -⟩, hbefore⟩ := hall
  have hentry : ∀ entry ∈ before ++ a :: b :: after, s.queue[entry.1]? = some entry.2 :=
    fun entry hentry => (mem_reorderableFrom (hentries ▸ hentry)).2
  have hfst : (places.map (·.1)).Perm [a.1, b.1] := hplaces.map _
  have hnodup : (places.map (·.1)).Nodup := hfst.nodup_iff.2 (by simpa using hab)
  have hkept : ∀ k, k ≠ a.1 → k ≠ b.1 → (writePlaces s.queue places)[k]? = s.queue[k]? := by
    intro k hka hkb
    refine getElem?_writePlaces_of_not_mem fun hmem => ?_
    have := hfst.subset hmem
    simp only [List.mem_cons, List.not_mem_nil, or_false] at this
    exact this.elim hka hkb
  have hwritten : ∀ p ∈ [(a.1, b.2), (b.1, a.2)], (writePlaces s.queue places)[p.1]? = some p.2 := by
    intro p hp
    refine getElem?_writePlaces_of_mem hnodup (hplaces.symm.subset hp) ?_
    simp only [List.mem_cons, List.not_mem_nil, or_false] at hp
    rcases hp with rfl | rfl
    · exact (List.getElem?_eq_some_iff.1 (hentry a (by simp))).1
    · exact (List.getElem?_eq_some_iff.1 (hentry b (by simp))).1
  refine movedTo_writePlaces (fun k hk => ?_) ?_ ?_
  · have hk := hfst.subset hk
    rw [hentries]
    simp only [List.mem_cons, List.not_mem_nil, or_false] at hk
    rcases hk with rfl | rfl
    · simp
    · simp
  · have hleft : ∀ entry ∈ before, (writePlaces s.queue places)[entry.1]? = some entry.2 := by
      intro entry hmem
      have hne := hbefore entry.1 (List.mem_map_of_mem hmem)
      rw [hkept entry.1 (hne _ (.inl rfl)) (hne _ (.inr (.inl rfl)))]
      exact hentry entry (by simp [hmem])
    have hright : ∀ entry ∈ after, (writePlaces s.queue places)[entry.1]? = some entry.2 := by
      intro entry hmem
      have hin : entry.1 ∈ after.map (·.1) := List.mem_map_of_mem hmem
      rw [hkept entry.1 (fun heq => ha (heq ▸ hin)) fun heq => hb (heq ▸ hin)]
      exact hentry entry (by simp [hmem])
    rw [hentries]
    simp only [List.map_append, List.map_cons, List.map_map]
    rw [List.map_congr_left hleft, List.map_congr_left hright, hwritten (a.1, b.2) (by simp),
      hwritten (b.1, a.2) (by simp)]
    rfl
  · rw [← map_reorderableQueueEntries, hentries]
    simp only [List.map_append, List.map_cons]
    exact (List.Perm.swap _ _ _).append_left _

theorem moveQueued_movedTo {s t : Inner J} {id : JobId} {direction : QueueDirection}
    (h : s.moveQueued id direction = (t, true)) :
    ∃ order, Shifted s.reorderableIds id direction order ∧ s.MovedTo t order := by
  unfold moveQueued at h
  simp only at h
  cases hposition : s.reorderableQueueEntries.findIdx? (fun entry => entry.2 == id) with
  | none =>
    rw [hposition] at h
    cases h
  | some position =>
    rw [hposition] at h
    obtain ⟨u, ⟨here, this⟩, v, hsplit, hthis, hu, rfl⟩ := split_of_findIdx? hposition
    obtain rfl : this = id := by simpa using hthis
    have hnot : this ∉ u.map (·.2) := by
      intro hmem
      obtain ⟨entry, hentry, heq⟩ := List.mem_map.1 hmem
      have := hu entry hentry
      simp [heq] at this
    cases direction with
    | earlier =>
      rcases List.eq_nil_or_concat u with rfl | ⟨before, ⟨there, other⟩, rfl⟩
      · cases h
      · have hentries : s.reorderableQueueEntries = before ++ (there, other) :: (here, this) :: v := by
          rw [hsplit]
          simp
        simp only [hentries] at h
        simp at h
        subst h
        have hmoved := movedTo_exchanged hentries (List.Perm.swap (there, this) (here, other) [])
        refine ⟨_, ⟨before.map (·.2), other, v.map (·.2), ?_, ?_, ?_, rfl⟩, hmoved⟩
        · rw [← map_reorderableQueueEntries, hentries]
          simp
        · intro hmem
          exact hnot (by simp [hmem])
        · rintro rfl
          exact hnot (by simp)
    | later =>
      rcases v with _ | ⟨⟨there, other⟩, after⟩
      · rw [hsplit] at h
        simp at h
      · simp only [hsplit] at h
        simp at h
        subst h
        have hmoved := movedTo_exchanged hsplit (List.Perm.refl [(here, other), (there, this)])
        refine ⟨_, ⟨u.map (·.2), other, after.map (·.2), ?_, hnot, rfl⟩, hmoved⟩
        rw [← map_reorderableQueueEntries, hsplit]
        simp

/-! ## Status and scheduler agree -/

/-- The jobs reported without a reason to wait are those that reservations hand out one after the other, and a
move that succeeds keeps the ids, puts the reorderable ones into the order asked for, and leaves every other job in
its slot. -/
theorem queuedJobStatuses_agree (s : Inner J) :
    (∀ ids, s.HandsOut ids ↔ ids = ready s.queuedJobStatuses) ∧
      (∀ id before t, s.moveQueuedBefore id before = (t, true) →
        ∃ order, PlacedBefore s.reorderableIds id before order ∧ s.MovedTo t order) ∧
      ∀ id direction t, s.moveQueued id direction = (t, true) →
        ∃ order, Shifted s.reorderableIds id direction order ∧ s.MovedTo t order := by
  refine ⟨fun ids => ?_, fun id before t h => moveQueuedBefore_movedTo h, fun id direction t h => moveQueued_movedTo h⟩
  rw [ready_queuedJobStatuses]
  exact handsOut_iff s ids

/-- A queue with a paused job, a stale id, a job that fits and one that waits for threads. -/
def sampleQueue : Inner Unit where
  slots := fun id =>
    if id = 1 then some ⟨.queued, ⟨false, false⟩, true, 2, some ()⟩
    else if id = 2 then some ⟨.queued, ⟨false, true⟩, true, 1, some ()⟩
    else if id = 4 then some ⟨.queued, ⟨false, false⟩, true, 8, some ()⟩
    else none
  queue := [2, 3, 1, 4]
  running := 0
  cpuThreadsInUse := 0
  maxRunning := 2
  maxWorkers := 2
  cpuThreadBudget := 4
  shutdown := false
  nextId := 5

theorem queuedJobStatuses_agree_sample : sampleQueue.HandsOut [1] ∧
    (∃ order, PlacedBefore [1, 4] 4 (some 1) order ∧
      sampleQueue.MovedTo (sampleQueue.moveQueuedBefore 4 (some 1)).1 order) ∧
    ∃ order, Shifted [1, 4] 4 .earlier order ∧ sampleQueue.MovedTo (sampleQueue.moveQueued 4 .earlier).1 order :=
  have h := queuedJobStatuses_agree sampleQueue
  ⟨(h.1 [1]).2 (by decide), h.2.1 4 (some 1) _ rfl, h.2.2 4 .earlier _ rfl⟩

example : sampleQueue.queuedJobStatuses = [⟨1, 1, 2, none⟩, ⟨4, 2, 4, some .cpuBudget⟩] := by decide

end Squallz.Queue.Inner
