/-
What the counters of the preview sessions say: the reservations, leases and external uses there are, and the limits that
each operation keeps.
-/
import Squallz.Previews.Resources
import Mathlib.Data.List.Count

namespace Squallz.Previews

open Squallz.Api Squallz.System Squallz.System.Table

/-- A handoff of the file of a session to another program. -/
structure ExternalUse where
  id : String
  owner : String
deriving DecidableEq, Repr

theorem saturatingAdd_eq {a b : Nat} (h : a + b < 2 ^ 64) : saturatingAdd a b = a + b := by
  unfold saturatingAdd
  omega

theorem saturatingAdd_le (a b : Nat) : saturatingAdd a b ≤ a + b := Nat.min_le_left _ _

theorem add_le_of_saturatingAdd_le {a b bound : Nat} (hbound : bound < 2 ^ 64 - 1) (h : saturatingAdd a b ≤ bound) :
    a + b ≤ bound := by
  unfold saturatingAdd at h
  omega

theorem add_lt_of_saturatingAdd_lt {a b bound : Nat} (hbound : bound < 2 ^ 64) (h : saturatingAdd a b < bound) :
    a + b < bound := by
  unfold saturatingAdd at h
  omega

theorem foldl_saturatingAdd {α : Type} (size : α → Nat) (l : List α) {total : Nat} (htotal : total ≤ 2 ^ 64 - 1) :
    l.foldl (fun total a => saturatingAdd total (size a)) total = min (total + (l.map size).sum) (2 ^ 64 - 1) := by
  induction l generalizing total with
  | nil => rw [List.foldl_nil, List.map_nil, List.sum_nil, Nat.add_zero, Nat.min_eq_left htotal]
  | cons a l ih =>
    have hle : saturatingAdd total (size a) ≤ 2 ^ 64 - 1 := Nat.min_le_right _ _
    rw [List.foldl_cons, ih hle, List.map_cons, List.sum_cons]
    unfold saturatingAdd
    omega

/-- A session that counts as active. -/
def PreviewSession.active (session : PreviewSession) : Nat := (!session.stickyExternalPin).toNat

/-- A session whose file another program has or may get. -/
def PreviewSession.retained (session : PreviewSession) : Nat := session.isPinned.toNat

theorem sessionBytes_eq (sessions : Table String PreviewSession) :
    sessionBytes sessions = min (tally PreviewSession.size sessions) (2 ^ 64 - 1) := by
  unfold sessionBytes
  rw [foldl_saturatingAdd (fun e : Sigma fun _ : String => PreviewSession => e.2.size) _ (Nat.zero_le _), Nat.zero_add]
  rfl

/-- The counters and the table, for the reservations, leases and external uses there are, after so many steps; only a
cleanup takes the session of a use away. -/
structure Booked (r : PreviewResources) (reservations : Nat) (leases : List Nat) (uses : List ExternalUse)
    (steps : Nat) (cleaned : Bool) : Prop where
  inFlightCount : r.inFlightCount = reservations
  inFlightBytes : r.inFlightBytes = reservations * maxPreviewEntryBytes
  leaseCount : r.leaseCount = leases.length
  leaseBytes : r.leaseBytes = leases.sum
  active : tally PreviewSession.active r.sessions + reservations + leases.length ≤ maxActivePreviewResources
  stored : tally PreviewSession.size r.sessions + reservations * maxPreviewEntryBytes + leases.sum ≤
    maxPreviewResourceBytes
  retained : tally PreviewSession.retained r.sessions ≤ maxRetainedExternalSessions
  pending : ∀ id session, r.sessions.lookup id = some session →
    session.pendingExternalUses = uses.count ⟨id, session.owner⟩
  used : ∀ use ∈ uses, (∃ session, r.sessions.lookup use.id = some session ∧ session.owner = use.owner) ∨
    (cleaned && r.closing) = true ∧ r.sessions.lookup use.id = none
  requested : ∀ id session, r.sessions.lookup id = some session → session.releaseRequested = true →
    session.isPinned = true
  few : uses.length ≤ steps
  generations : ∀ owner, r.ownerGeneration owner ≤ steps

variable {r r' : PreviewResources} {reservations steps : Nat} {leases : List Nat} {uses : List ExternalUse}
  {id owner : String} {session : PreviewSession} {closes : Closes} {cleaned : Bool}

theorem isPinned_eq_false :
    session.isPinned = false ↔ session.stickyExternalPin = false ∧ session.pendingExternalUses = 0 := by
  unfold PreviewSession.isPinned
  rw [Bool.or_eq_false_iff, decide_eq_false_iff_not, Nat.not_lt, Nat.le_zero]

theorem active_of_not_pinned (h : session.isPinned = false) : session.active = 1 := by
  rw [PreviewSession.active, (isPinned_eq_false.1 h).1]
  rfl

theorem booked_default : Booked .default 0 [] [] 0 false where
  inFlightCount := rfl
  inFlightBytes := rfl
  leaseCount := rfl
  leaseBytes := rfl
  active := Nat.zero_le _
  stored := Nat.zero_le _
  retained := Nat.zero_le _
  pending _ _ h := by cases h
  used _ h := by cases h
  requested _ _ h := by cases h
  few := Nat.le_refl _
  generations _ := Nat.le_refl _

theorem makeRoom_ownerGeneration (closes : Closes) (rounds : Nat) (r : PreviewResources) :
    (r.makeRoom closes rounds).1.ownerGeneration = r.ownerGeneration := by
  induction rounds generalizing r with
  | zero => rfl
  | succ rounds ih =>
    unfold PreviewResources.makeRoom
    split
    · rfl
    · split
      · rfl
      · split
        · rfl
        · exact ih _

namespace Booked

variable (h : Booked r reservations leases uses steps cleaned)

include h

/-! ## What the counters say -/

theorem activeCount_eq :
    r.activeCount = tally PreviewSession.active r.sessions + reservations + leases.length := by
  have hactive := h.active
  have hmax : maxActivePreviewResources = 8 := rfl
  unfold PreviewResources.activeCount
  rw [length_filter_eq (fun session : PreviewSession => !session.stickyExternalPin), h.inFlightCount, h.leaseCount,
    saturatingAdd_eq (a := tally _ _) (by change tally PreviewSession.active r.sessions + _ < _; omega),
    saturatingAdd_eq (by change tally PreviewSession.active r.sessions + _ + _ < _; omega)]
  rfl

theorem bytes_eq :
    r.bytes = tally PreviewSession.size r.sessions + reservations * maxPreviewEntryBytes + leases.sum := by
  have hstored := h.stored
  have hmax : maxPreviewResourceBytes = 536870912 := rfl
  unfold PreviewResources.bytes
  have hsessions : tally PreviewSession.size r.sessions + reservations * maxPreviewEntryBytes < 2 ^ 64 := by omega
  rw [sessionBytes_eq, h.inFlightBytes, h.leaseBytes, Nat.min_eq_left (by omega), saturatingAdd_eq hsessions,
    saturatingAdd_eq (by omega)]

omit h in
theorem retainedOrPendingExternalCount_eq :
    r.retainedOrPendingExternalCount = tally PreviewSession.retained r.sessions :=
  length_filter_eq (s := r.sessions) PreviewSession.isPinned

theorem step : Booked r reservations leases uses (steps + 1) cleaned :=
  { h with
    few := h.few.trans (Nat.le_succ _)
    generations := fun owner => (h.generations owner).trans (Nat.le_succ _) }

/-! ## Sessions that go -/

/-- Nobody uses the file of a session that is not pinned. -/
theorem unused (hfound : r.sessions.lookup id = some session) (hpin : session.isPinned = false) :
    ∀ use ∈ uses, use.id ≠ id := by
  rintro use huse rfl
  have hpending := h.pending use.id session hfound
  rw [(isPinned_eq_false.1 hpin).2] at hpending
  rcases h.used use huse with ⟨session', hfound', howner⟩ | ⟨-, hnone⟩
  · rw [hfound] at hfound'
    cases hfound'
    rw [howner] at hpending
    exact absurd huse (List.count_eq_zero.1 hpending.symm)
  · rw [hfound] at hnone
    cases hnone

/-- Sessions go, with their uses, and what is known of each of the others stays known. -/
theorem shrink (sessions : Table String PreviewSession) (closing : Bool) {cleaned' : Bool} {uses' : List ExternalUse}
    (hactive : tally PreviewSession.active sessions ≤ tally PreviewSession.active r.sessions)
    (hsize : tally PreviewSession.size sessions ≤ tally PreviewSession.size r.sessions)
    (hretained : tally PreviewSession.retained sessions ≤ tally PreviewSession.retained r.sessions)
    (hsession : ∀ id session, sessions.lookup id = some session →
      session.pendingExternalUses = uses'.count ⟨id, session.owner⟩ ∧
        (session.releaseRequested = true → session.isPinned = true))
    (hused : ∀ use ∈ uses', (∃ session, sessions.lookup use.id = some session ∧ session.owner = use.owner) ∨
      (cleaned' && closing) = true ∧ sessions.lookup use.id = none) (hfew : uses'.length ≤ steps) :
    Booked { r with sessions := sessions, closing := closing } reservations leases uses' steps cleaned' where
  inFlightCount := h.inFlightCount
  inFlightBytes := h.inFlightBytes
  leaseCount := h.leaseCount
  leaseBytes := h.leaseBytes
  active := (Nat.add_le_add_right (Nat.add_le_add_right hactive _) _).trans h.active
  stored := (Nat.add_le_add_right (Nat.add_le_add_right hsize _) _).trans h.stored
  retained := hretained.trans h.retained
  pending id session hfound := (hsession id session hfound).1
  used := hused
  requested id session hfound := (hsession id session hfound).2
  few := hfew
  generations := h.generations

theorem remove (hfound : r.sessions.lookup id = some session) (hpin : session.isPinned = false) :
    Booked (r.remove id) reservations leases uses steps cleaned := by
  refine h.shrink _ _ (tally_erase_le id) (tally_erase_le id) (tally_erase_le id) (fun id' session' hfound' => ?_)
    (fun use huse => ?_) h.few
  · have hother := (lookup_erase_eq_some.1 hfound').2
    exact ⟨h.pending _ _ hother, h.requested _ _ hother⟩
  · have hne := h.unused hfound hpin use huse
    rw [AList.lookup_erase_ne hne]
    exact h.used use huse

/-! ## Reservations -/

omit h in
theorem candidate_eq_some {r : PreviewResources} (hcandidate : r.candidate = some id) :
    ∃ session, r.sessions.lookup id = some session ∧ session.isPinned = false ∧
      ∀ id' session', r.sessions.lookup id' = some session' → session'.isPinned = false →
        session.sequence ≤ session'.sequence := by
  obtain ⟨e, he, rfl⟩ := Option.map_eq_some_iff.1 hcandidate
  have hmem := List.mem_filter.1 (List.argmin_mem he)
  refine ⟨e.2, (mem_entries e).1 hmem.1, by simpa using hmem.2, fun id' session' hfound hpin => ?_⟩
  have hmem' : (⟨id', session'⟩ : Sigma fun _ : String => PreviewSession) ∈
      r.sessions.entries.filter fun e => !e.2.isPinned :=
    List.mem_filter.2 ⟨(mem_entries ⟨id', session'⟩).2 hfound, by simp [hpin]⟩
  exact List.le_of_mem_argmin (f := fun e : Sigma fun _ : String => PreviewSession => e.2.sequence) hmem' he

theorem makeRoom (closes : Closes) (rounds : Nat) : Booked (r.makeRoom closes rounds).1 reservations leases uses steps cleaned ∧
    ((r.makeRoom closes rounds).2 = .ok () → (r.makeRoom closes rounds).1.hasRoom = true) := by
  induction rounds generalizing r with
  | zero =>
    refine ⟨h, fun hok => ?_⟩
    unfold PreviewResources.makeRoom at hok
    dsimp only at hok
    split at hok
    · assumption
    · cases hok
  | succ rounds ih =>
    unfold PreviewResources.makeRoom
    by_cases hroom : r.hasRoom = true
    · rw [if_pos hroom]
      exact ⟨h, fun _ => hroom⟩
    · rw [if_neg hroom]
      cases hcandidate : r.candidate with
      | none => exact ⟨h, fun hok => by cases hok⟩
      | some id =>
        obtain ⟨session, hfound, hpin, -⟩ := candidate_eq_some hcandidate
        have hremoved := h.remove hfound hpin
        cases hclose : closes id with
        | error error =>
          simp only [hclose]
          exact ⟨hremoved, fun hok => by cases hok⟩
        | ok _ =>
          simp only [hclose]
          exact ih hremoved

theorem hasRoom_eq : r.hasRoom = true ↔
    tally PreviewSession.active r.sessions + reservations + leases.length < maxActivePreviewResources ∧
    tally PreviewSession.size r.sessions + reservations * maxPreviewEntryBytes + leases.sum + maxPreviewEntryBytes ≤
      maxPreviewResourceBytes := by
  have hstored := h.stored
  have hmax : maxPreviewResourceBytes = 536870912 := rfl
  have hentry : maxPreviewEntryBytes = 268435456 := rfl
  unfold PreviewResources.hasRoom PreviewResources.activeCapacityFull PreviewResources.storageCapacityFull
  rw [h.activeCount_eq, h.bytes_eq, saturatingAdd_eq (by omega)]
  simp

theorem grow (hroom : r.hasRoom = true) :
    Booked { r with
      inFlightCount := saturatingAdd r.inFlightCount 1
      inFlightBytes := saturatingAdd r.inFlightBytes maxPreviewEntryBytes } (reservations + 1) leases uses steps cleaned := by
  obtain ⟨hactive, hstored⟩ := h.hasRoom_eq.1 hroom
  have hmax : maxPreviewResourceBytes = 536870912 := rfl
  have hentry : maxPreviewEntryBytes = 268435456 := rfl
  have hcount : maxActivePreviewResources = 8 := rfl
  refine { h with inFlightCount := ?_, inFlightBytes := ?_, active := ?_, stored := ?_ }
  · dsimp only
    rw [h.inFlightCount, saturatingAdd_eq (by omega)]
  · dsimp only
    rw [h.inFlightBytes, saturatingAdd_eq (by omega), Nat.add_mul, Nat.one_mul]
  · dsimp only
    omega
  · dsimp only
    rw [Nat.add_mul, Nat.one_mul]
    omega

theorem reserve (closes : Closes) (owner : String) :
    ((∃ generation, (r.reserve closes owner).2 = .ok generation ∧ generation = r.ownerGeneration owner) ∧
        Booked (r.reserve closes owner).1 (reservations + 1) leases uses steps cleaned) ∨
      ((∃ error, (r.reserve closes owner).2 = .error error) ∧
        Booked (r.reserve closes owner).1 reservations leases uses steps cleaned) := by
  unfold PreviewResources.reserve
  by_cases hclosing : r.closing = true
  · rw [if_pos hclosing]
    exact .inr ⟨⟨_, rfl⟩, h⟩
  · rw [if_neg hclosing]
    obtain ⟨hbooked, hroom⟩ := h.makeRoom closes r.sessions.entries.length
    have hkept := makeRoom_ownerGeneration closes r.sessions.entries.length r
    generalize r.makeRoom closes r.sessions.entries.length = made at hbooked hroom hkept
    obtain ⟨r', _ | _⟩ := made
    · exact .inr ⟨⟨_, rfl⟩, hbooked⟩
    · exact .inl ⟨⟨_, rfl, congrFun hkept owner⟩, hbooked.grow (hroom rfl)⟩

theorem releaseReservationUsage (hheld : 0 < reservations) :
    Booked r.releaseReservationUsage (reservations - 1) leases uses steps cleaned := by
  obtain ⟨left, rfl⟩ := Nat.exists_eq_succ_of_ne_zero hheld.ne'
  have hactive := h.active
  have hstored := h.stored
  rw [Nat.succ_mul] at hstored
  refine { h with inFlightCount := ?_, inFlightBytes := ?_, active := ?_, stored := ?_ }
  · exact congrArg (· - 1) h.inFlightCount
  · have hbytes := h.inFlightBytes
    rw [Nat.succ_mul] at hbytes
    change r.inFlightBytes - maxPreviewEntryBytes = left * maxPreviewEntryBytes
    omega
  · change tally PreviewSession.active r.sessions + left + leases.length ≤ _
    omega
  · change tally PreviewSession.size r.sessions + left * maxPreviewEntryBytes + leases.sum ≤ _
    omega

/-- A preview that another window has not opened before becomes a session. -/
theorem intoSession (owner : String) (generation : Nat) (id : String) (session : PreviewSession) (hheld : 0 < reservations)
    (hnew : session.stickyExternalPin = false ∧ session.pendingExternalUses = 0 ∧ session.releaseRequested = false) :
    ((r.intoSession owner generation id session).2 = .ok () ∧
        Booked (r.intoSession owner generation id session).1 (reservations - 1) leases uses steps cleaned) ∨
      ((∃ error, (r.intoSession owner generation id session).2 = .error error) ∧
        (r.intoSession owner generation id session).1 = r) := by
  obtain ⟨hsticky, hpending, hrequested⟩ := hnew
  unfold PreviewResources.intoSession
  by_cases hlarge : maxPreviewEntryBytes < session.size
  · rw [if_pos hlarge]
    exact .inr ⟨⟨_, rfl⟩, rfl⟩
  rw [if_neg hlarge]
  by_cases hgone : (r.closing || r.ownerGeneration owner != generation) = true
  · rw [if_pos hgone]
    exact .inr ⟨⟨_, rfl⟩, rfl⟩
  rw [if_neg hgone]
  have hopen : r.closing = false := (Bool.or_eq_false_iff.1 (Bool.eq_false_of_not_eq_true hgone)).1
  cases hfound : r.sessions.lookup id with
  | some other => exact .inr ⟨⟨_, rfl⟩, rfl⟩
  | none =>
    have hreleased := h.releaseReservationUsage hheld
    have hactive := h.active
    have hstored := h.stored
    obtain ⟨left, rfl⟩ := Nat.exists_eq_succ_of_ne_zero hheld.ne'
    rw [Nat.succ_mul] at hstored
    -- every external use is of a session that is there
    have hunused : ∀ use ∈ uses, use.id ≠ id := by
      rintro use huse rfl
      rcases h.used use huse with ⟨session', hfound', -⟩ | ⟨hclosing, -⟩
      · rw [hfound] at hfound'
        cases hfound'
      · rw [hopen, Bool.and_false] at hclosing
        cases hclosing
    refine .inl ⟨rfl, { hreleased with
      active := ?_, stored := ?_, retained := ?_, pending := ?_, used := ?_, requested := ?_ }⟩
    · change tally PreviewSession.active (r.sessions.insert id session) + left + leases.length ≤ _
      rw [tally_insert_fresh hfound, active_of_not_pinned (isPinned_eq_false.2 ⟨hsticky, hpending⟩)]
      omega
    · change tally PreviewSession.size (r.sessions.insert id session) + left * maxPreviewEntryBytes + leases.sum ≤ _
      rw [tally_insert_fresh hfound]
      omega
    · change tally PreviewSession.retained (r.sessions.insert id session) ≤ _
      rw [tally_insert_fresh hfound, PreviewSession.retained, isPinned_eq_false.2 ⟨hsticky, hpending⟩, Bool.toNat_false,
        Nat.zero_add]
      exact h.retained
    · intro id' session' hfound'
      rcases lookup_insert_eq_some.1 hfound' with ⟨rfl, rfl⟩ | ⟨-, hfound'⟩
      · rw [hpending, eq_comm, List.count_eq_zero]
        exact fun hmem => hunused _ hmem rfl
      · exact h.pending id' session' hfound'
    · intro use huse
      rcases h.used use huse with ⟨session', hfound', howner⟩ | ⟨hclosing, -⟩
      · exact .inl ⟨session', lookup_insert_eq_some.2 (.inr ⟨hunused use huse, hfound'⟩), howner⟩
      · rw [hopen, Bool.and_false] at hclosing
        cases hclosing
    · intro id' session' hfound' hrequested'
      rcases lookup_insert_eq_some.1 hfound' with ⟨rfl, rfl⟩ | ⟨-, hfound'⟩
      · rw [hrequested] at hrequested'
        cases hrequested'
      · exact h.requested id' session' hfound' hrequested'

theorem intoLease (owner : String) (generation size : Nat) (hheld : 0 < reservations) :
    ((r.intoLease owner generation size).2 = .ok () ∧
        Booked (r.intoLease owner generation size).1 (reservations - 1) (size :: leases) uses steps cleaned) ∨
      ((∃ error, (r.intoLease owner generation size).2 = .error error) ∧
        (r.intoLease owner generation size).1 = r) := by
  unfold PreviewResources.intoLease
  by_cases hlarge : maxPreviewEntryBytes < size
  · rw [if_pos hlarge]
    exact .inr ⟨⟨_, rfl⟩, rfl⟩
  rw [if_neg hlarge]
  by_cases hgone : (r.closing || r.ownerGeneration owner != generation) = true
  · rw [if_pos hgone]
    exact .inr ⟨⟨_, rfl⟩, rfl⟩
  rw [if_neg hgone]
  have hreleased := h.releaseReservationUsage hheld
  have hactive := h.active
  have hstored := h.stored
  have hcount : maxActivePreviewResources = 8 := rfl
  have hmax : maxPreviewResourceBytes = 536870912 := rfl
  obtain ⟨left, rfl⟩ := Nat.exists_eq_succ_of_ne_zero hheld.ne'
  rw [Nat.succ_mul] at hstored
  refine .inl ⟨rfl, { hreleased with leaseCount := ?_, leaseBytes := ?_, active := ?_, stored := ?_ }⟩
  · change saturatingAdd r.leaseCount 1 = _
    rw [h.leaseCount, saturatingAdd_eq (by omega), List.length_cons]
  · change saturatingAdd r.leaseBytes size = _
    rw [h.leaseBytes, saturatingAdd_eq (by omega), List.sum_cons, Nat.add_comm]
  · change tally PreviewSession.active r.sessions + left + (size :: leases).length ≤ _
    rw [List.length_cons]
    omega
  · change tally PreviewSession.size r.sessions + left * maxPreviewEntryBytes + (size :: leases).sum ≤ _
    rw [List.sum_cons]
    omega

theorem dropLease {size : Nat} (hlease : size ∈ leases) :
    Booked (r.dropLease size) reservations (leases.erase size) uses steps cleaned := by
  have hlength := List.length_erase_of_mem hlease
  have hpos := List.length_pos_of_mem hlease
  have hsum : size + (leases.erase size).sum = leases.sum := by
    rw [(List.perm_cons_erase hlease).sum_eq, List.sum_cons]
  have hactive := h.active
  have hstored := h.stored
  have hbytes := h.leaseBytes
  refine { h with leaseCount := ?_, leaseBytes := ?_, active := ?_, stored := ?_ }
  · change r.leaseCount - 1 = _
    rw [h.leaseCount, hlength]
  · change r.leaseBytes - size = _
    omega
  · change tally PreviewSession.active r.sessions + reservations + (leases.erase size).length ≤ _
    omega
  · change tally PreviewSession.size r.sessions + reservations * maxPreviewEntryBytes + (leases.erase size).sum ≤ _
    omega

/-! ## Handoffs -/

omit h in
theorem sessionForOwner_eq_ok {r : PreviewResources} :
    r.sessionForOwner id owner = .ok session ↔ r.sessions.lookup id = some session ∧ session.owner = owner := by
  unfold PreviewResources.sessionForOwner
  cases r.sessions.lookup id with
  | none => simp
  | some session' =>
    by_cases howner : session'.owner = owner
    · simp only [if_pos howner, Except.ok.injEq, Option.some.injEq]
      constructor
      · rintro rfl
        exact ⟨rfl, howner⟩
      · exact fun h' => h'.1
    · simp only [if_neg howner, reduceCtorEq, Option.some.injEq, false_iff]
      rintro ⟨rfl, h'⟩
      exact howner h'

/-- One more use of a session, or one less, and the flags that are set with it. -/
theorem replace {uses' : List ExternalUse} {session' : PreviewSession} (hfound : r.sessions.lookup id = some session)
    (howner : session'.owner = session.owner) (hsize : session'.size = session.size)
    (hactive : session'.active ≤ session.active)
    (hretained : tally PreviewSession.retained r.sessions + session'.retained ≤
      maxRetainedExternalSessions + session.retained)
    (hpending : session'.pendingExternalUses = uses'.count ⟨id, session.owner⟩)
    (hrequested : session'.releaseRequested = true → session'.isPinned = true)
    (hothers : ∀ use, use.id ≠ id → uses'.count use = uses.count use)
    (huses : ∀ use ∈ uses', use ∈ uses ∨ use = ⟨id, session.owner⟩) (hfew : uses'.length ≤ steps) :
    Booked { r with sessions := r.sessions.insert id session' } reservations leases uses' steps cleaned := by
  refine { h with active := ?_, stored := ?_, retained := ?_, pending := ?_, used := ?_, requested := ?_, few := hfew }
  · have hreplace := tally_replace (f := PreviewSession.active) hfound session'
    have := h.active
    dsimp only
    omega
  · have hreplace := tally_replace (f := PreviewSession.size) hfound session'
    have := h.stored
    dsimp only
    omega
  · have hreplace := tally_replace (f := PreviewSession.retained) hfound session'
    dsimp only
    omega
  · intro id' other hother
    rcases lookup_insert_eq_some.1 hother with ⟨rfl, rfl⟩ | ⟨hne, hother⟩
    · rw [howner]
      exact hpending
    · rw [hothers _ hne]
      exact h.pending id' other hother
  · intro use huse
    by_cases hid : use.id = id
    · refine .inl ⟨session', lookup_insert_eq_some.2 (.inl ⟨hid, rfl⟩), ?_⟩
      rcases huses use huse with hold | rfl
      · rcases h.used use hold with ⟨other, hother, howner'⟩ | ⟨-, hnone⟩
        · rw [hid, hfound] at hother
          cases hother
          exact howner.trans howner'
        · rw [hid, hfound] at hnone
          cases hnone
      · exact howner
    · rcases huses use huse with hold | rfl
      · rcases h.used use hold with ⟨other, hother, howner'⟩ | ⟨hclosing, hnone⟩
        · exact .inl ⟨other, lookup_insert_eq_some.2 (.inr ⟨hid, hother⟩), howner'⟩
        · refine .inr ⟨hclosing, ?_⟩
          dsimp only
          rw [AList.lookup_insert_ne hid]
          exact hnone
      · exact absurd rfl hid
  · intro id' other hother hrequested'
    rcases lookup_insert_eq_some.1 hother with ⟨rfl, rfl⟩ | ⟨-, hother⟩
    · exact hrequested hrequested'
    · exact h.requested id' other hother hrequested'

theorem beginExternalUse (id owner : String) (hsteps : steps < 2 ^ 64 - 1) :
    ((r.beginExternalUse id owner).2 = .ok () ∧
        Booked (r.beginExternalUse id owner).1 reservations leases (⟨id, owner⟩ :: uses) (steps + 1) cleaned) ∨
      ((∃ error, (r.beginExternalUse id owner).2 = .error error) ∧ (r.beginExternalUse id owner).1 = r) := by
  unfold PreviewResources.beginExternalUse
  by_cases hclosing : r.closing = true
  · rw [if_pos hclosing]
    exact .inr ⟨⟨_, rfl⟩, rfl⟩
  rw [if_neg hclosing]
  cases hsession : r.sessionForOwner id owner with
  | error error => exact .inr ⟨⟨_, rfl⟩, rfl⟩
  | ok session =>
    obtain ⟨hfound, rfl⟩ := sessionForOwner_eq_ok.1 hsession
    dsimp only
    split
    · exact .inr ⟨⟨_, rfl⟩, rfl⟩
    · rename_i hslot
      have hpending := h.pending id session hfound
      have hfew := h.few
      have hcount : uses.count ⟨id, session.owner⟩ ≤ uses.length := List.count_le_length
      refine .inl ⟨rfl, h.step.replace hfound rfl rfl (Nat.le_refl _) ?_ ?_ ?_ ?_ ?_ ?_⟩
      · have hretained := h.retained
        rw [retainedOrPendingExternalCount_eq] at hslot
        have hle := Bool.toNat_le (PreviewSession.isPinned
          { session with pendingExternalUses := saturatingAdd session.pendingExternalUses 1 })
        by_cases hpin : session.isPinned = true
        · have hone : session.retained = 1 := by rw [PreviewSession.retained, hpin, Bool.toNat_true]
          rw [hone]
          exact Nat.add_le_add hretained hle
        · -- a slot was free
          have hpin := isPinned_eq_false.1 (Bool.eq_false_of_not_eq_true hpin)
          simp only [hpin.1, hpin.2, Bool.not_false, decide_true, Bool.true_and, decide_eq_true_eq, Nat.not_le] at hslot
          have : maxRetainedExternalSessions = 64 := rfl
          change _ + Bool.toNat _ ≤ _
          omega
      · rw [List.count_cons_self, ← hpending]
        exact saturatingAdd_eq (by omega)
      · intro _
        have hpos : 0 < saturatingAdd session.pendingExternalUses 1 := by
          rw [saturatingAdd_eq (by omega)]
          exact Nat.succ_pos _
        simp [PreviewSession.isPinned, hpos]
      · intro use hne
        exact List.count_cons_of_ne (fun heq => hne (by rw [← heq]))
      · intro use huse
        rcases List.mem_cons.1 huse with rfl | hold
        · exact .inr rfl
        · exact .inl hold
      · exact Nat.succ_le_succ hfew

end Booked

end Squallz.Previews
