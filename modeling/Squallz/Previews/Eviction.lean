/-
What makes room for a preview: the oldest sessions that nobody uses go, no more of them than it takes, and there is room in
the end exactly when the others leave it.
-/
import Squallz.Previews.Windows

namespace Squallz.Previews

open Squallz.Api Squallz.System Squallz.System.Table

variable {r r' : PreviewResources} {id owner : String} {session : PreviewSession} {closes : Closes}

/-- Room depends on the sums of the sessions alone. -/
theorem hasRoom_congr {sessions : Table String PreviewSession}
    (hactive : tally PreviewSession.active sessions = tally PreviewSession.active r.sessions)
    (hsize : tally PreviewSession.size sessions = tally PreviewSession.size r.sessions) :
    PreviewResources.hasRoom { r with sessions := sessions } = r.hasRoom := by
  unfold PreviewResources.hasRoom PreviewResources.activeCapacityFull PreviewResources.storageCapacityFull
    PreviewResources.activeCount PreviewResources.bytes
  dsimp only
  have hfilter : ∀ s : Table String PreviewSession, (s.entries.filter fun e => !e.2.stickyExternalPin).length =
      tally PreviewSession.active s :=
    fun s => length_filter_eq (fun session : PreviewSession => !session.stickyExternalPin)
  rw [sessionBytes_eq, sessionBytes_eq, hfilter, hfilter, hactive, hsize]

/-- The sessions that have gone, and those that are left. -/
structure Evicts (r r' : PreviewResources) : Prop where
  kept : ∀ id session, r'.sessions.lookup id = some session → r.sessions.lookup id = some session
  oldest : ∀ id session, r.sessions.lookup id = some session → r'.sessions.lookup id = none →
    session.isPinned = false ∧ ∀ id' session', r'.sessions.lookup id' = some session' → session'.isPinned = false →
      session.sequence ≤ session'.sequence
  needed : r' = r ∨ ∃ id session, r.sessions.lookup id = some session ∧ r'.sessions.lookup id = none ∧
    PreviewResources.hasRoom { r' with sessions := r'.sessions.insert id session } = false

theorem Evicts.refl (r : PreviewResources) : Evicts r r where
  kept _ _ hfound := hfound
  oldest id session hfound hnone := by
    rw [hfound] at hnone
    cases hnone
  needed := .inl rfl

/-- One more session goes first. -/
theorem Evicts.remove (hevicts : Evicts (r.remove id) r') (hcandidate : r.candidate = some id)
    (hroom : r.hasRoom = false) : Evicts r r' := by
  obtain ⟨session, hfound, hpin, holdest⟩ := Booked.candidate_eq_some hcandidate
  have hgone : r'.sessions.lookup id = none := by
    rw [Option.eq_none_iff_forall_ne_some]
    intro session' hfound'
    exact (lookup_erase_eq_some.1 (hevicts.kept id session' hfound')).1 rfl
  refine ⟨fun id' session' hfound' => (lookup_erase_eq_some.1 (hevicts.kept id' session' hfound')).2,
    fun id' session' hfound' hnone => ?_, .inr ?_⟩
  · by_cases hid : id' = id
    · subst hid
      rw [hfound] at hfound'
      cases hfound'
      exact ⟨hpin, fun id' session' hleft => holdest id' session' (lookup_erase_eq_some.1 (hevicts.kept _ _ hleft)).2⟩
    · exact hevicts.oldest id' session' (lookup_erase_eq_some.2 ⟨hid, hfound'⟩) hnone
  · rcases hevicts.needed with rfl | ⟨last, session', hfound', hnone, hfull⟩
    · refine ⟨id, session, hfound, hgone, ?_⟩
      -- the last one put back gives the sums of the sessions before
      have hsum : ∀ f : PreviewSession → Nat,
          tally f ((r.remove id).sessions.insert id session) = tally f r.sessions := by
        intro f
        rw [tally_insert_fresh hgone, tally_erase hfound]
        rfl
      exact (hasRoom_congr (r := r) (hsum _) (hsum _)).trans hroom
    · exact ⟨last, session', (lookup_erase_eq_some.1 hfound').2, hnone, hfull⟩

theorem length_entries_remove (hfound : r.sessions.lookup id = some session) :
    r.sessions.entries.length = (r.remove id).sessions.entries.length + 1 := by
  rw [(entries_perm hfound).length_eq, List.length_cons]
  rfl

theorem candidate_eq_none (hcandidate : r.candidate = none) (hfound : r.sessions.lookup id = some session) :
    session.isPinned = true := by
  have hnone := List.argmin_eq_none.1 (Option.map_eq_none_iff.1 hcandidate)
  have hmem := List.filter_eq_nil_iff.1 hnone ⟨id, session⟩ ((mem_entries ⟨id, session⟩).2 hfound)
  simpa using hmem

/-- With a round for each session, the loop ends with room, or without a session that could go. -/
theorem makeRoom_evicts (hcloses : ∀ id, closes id = .ok ()) {rounds : Nat}
    (hrounds : r.sessions.entries.length ≤ rounds) :
    Evicts r (r.makeRoom closes rounds).1 ∧
      ((r.makeRoom closes rounds).2 = .ok () ∧ (r.makeRoom closes rounds).1.hasRoom = true ∨
        (∃ error, (r.makeRoom closes rounds).2 = .error error) ∧ (r.makeRoom closes rounds).1.hasRoom = false ∧
          ∀ id session, (r.makeRoom closes rounds).1.sessions.lookup id = some session → session.isPinned = true) := by
  induction rounds generalizing r with
  | zero =>
    unfold PreviewResources.makeRoom
    refine ⟨.refl r, ?_⟩
    dsimp only
    by_cases hroom : r.hasRoom = true
    · exact .inl ⟨if_pos hroom, hroom⟩
    · refine .inr ⟨⟨_, if_neg hroom⟩, Bool.eq_false_of_not_eq_true hroom, fun id session hfound => ?_⟩
      have hmem := (mem_entries ⟨id, session⟩).2 hfound
      rw [List.eq_nil_of_length_eq_zero (Nat.le_zero.1 hrounds)] at hmem
      cases hmem
  | succ rounds ih =>
    unfold PreviewResources.makeRoom
    cases hroom : r.hasRoom with
    | true =>
      rw [if_pos rfl]
      exact ⟨.refl r, .inl ⟨rfl, hroom⟩⟩
    | false =>
      rw [if_neg Bool.false_ne_true]
      cases hcandidate : r.candidate with
      | none => exact ⟨.refl r, .inr ⟨⟨_, rfl⟩, hroom, fun id session => candidate_eq_none hcandidate⟩⟩
      | some id =>
        obtain ⟨session, hfound, -, -⟩ := Booked.candidate_eq_some hcandidate
        have hlength := length_entries_remove hfound
        obtain ⟨hevicts, hend⟩ := ih (r := r.remove id) (by omega)
        simp only [hcloses id]
        exact ⟨hevicts.remove hcandidate hroom, hend⟩

/-- A measure of the sessions that cannot go. -/
def pinnedOnly (f : PreviewSession → Nat) (session : PreviewSession) : Nat := if session.isPinned then f session else 0

theorem pinnedOnly_le (f : PreviewSession → Nat) (session : PreviewSession) : pinnedOnly f session ≤ f session := by
  unfold pinnedOnly
  split
  · exact Nat.le_refl _
  · exact Nat.zero_le _

theorem Evicts.tally_pinned (hevicts : Evicts r r') (f : PreviewSession → Nat) :
    tally (pinnedOnly f) r'.sessions = tally (pinnedOnly f) r.sessions :=
  tally_eq_of_subset hevicts.kept fun id session hfound hnone => by
    rw [pinnedOnly, (hevicts.oldest id session hfound hnone).1, if_neg Bool.false_ne_true]

/-- There is room when the sessions that cannot go leave it. -/
def PinnedRoom (w : World) : Prop :=
  tally (pinnedOnly PreviewSession.active) w.resources.sessions + w.reservations.length + w.leases.length <
      maxActivePreviewResources ∧
    tally (pinnedOnly PreviewSession.size) w.resources.sessions + w.reservations.length * maxPreviewEntryBytes +
      w.leases.sum + maxPreviewEntryBytes ≤ maxPreviewResourceBytes

end Squallz.Previews
