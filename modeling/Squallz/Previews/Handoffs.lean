/-
Files that other programs get: a handoff that ends, a session that its window gives up, and the end of the windows and of
the application.
-/
import Squallz.Previews.Accounts

namespace Squallz.Previews

open Squallz.Api Squallz.System Squallz.System.Table

variable {r : PreviewResources} {reservations steps : Nat} {leases : List Nat} {uses : List ExternalUse}
  {id owner : String} {session : PreviewSession} {closes : Closes} {cleaned : Bool}

/-- A session with a use less, handed over or not. -/
def PreviewSession.finished (session : PreviewSession) (succeeded : Bool) : PreviewSession :=
  { session with
    pendingExternalUses := session.pendingExternalUses - 1
    stickyExternalPin := session.stickyExternalPin || succeeded }

/-- What the end of a use leaves of its session. -/
theorem finish_eq (hfound : r.sessions.lookup id = some session) (howner : session.owner = owner) (succeeded : Bool) :
    r.finish id owner succeeded =
      if session.releaseRequested && !(session.finished succeeded).isPinned then r.remove id
      else { r with sessions := r.sessions.insert id (session.finished succeeded) } := by
  unfold PreviewResources.finish
  simp only [hfound, if_pos howner]
  change (if session.releaseRequested && !(session.finished succeeded).isPinned then
    PreviewResources.remove { r with sessions := r.sessions.insert id (session.finished succeeded) } id else _) = _
  split
  · unfold PreviewResources.remove
    congr 1
    exact erase_insert _
  · rfl

namespace Booked

variable (h : Booked r reservations leases uses steps cleaned)

include h

/-- The use of a session ends, and the session stays. -/
theorem finished (huse : ⟨id, owner⟩ ∈ uses) (hfound : r.sessions.lookup id = some session)
    (howner : session.owner = owner) (succeeded : Bool)
    (hstays : session.releaseRequested = true → (session.finished succeeded).isPinned = true) :
    Booked { r with sessions := r.sessions.insert id (session.finished succeeded) } reservations leases
      (uses.erase ⟨id, owner⟩) steps cleaned := by
  subst howner
  have hpending := h.pending id session hfound
  have hpos : 0 < session.pendingExternalUses := by
    rw [hpending]
    exact List.count_pos_iff.2 huse
  have hpin : session.isPinned = true := by simp [PreviewSession.isPinned, hpos]
  refine h.replace hfound rfl rfl ?_ ?_ ?_ hstays ?_ ?_ ?_
  · unfold PreviewSession.active PreviewSession.finished
    dsimp only
    cases session.stickyExternalPin with
    | true => exact Nat.le_refl _
    | false => exact Bool.toNat_le _
  · have hone : session.retained = 1 := by rw [PreviewSession.retained, hpin, Bool.toNat_true]
    rw [hone]
    exact Nat.add_le_add h.retained (Bool.toNat_le _)
  · rw [List.count_erase_self, ← hpending]
    rfl
  · intro use hne
    exact List.count_erase_of_ne fun heq => hne (by rw [heq])
  · exact fun use hmem => .inl (List.mem_of_mem_erase hmem)
  · exact (List.length_erase_le).trans h.few

theorem finish (huse : ⟨id, owner⟩ ∈ uses) (succeeded : Bool) :
    Booked (r.finish id owner succeeded) reservations leases (uses.erase ⟨id, owner⟩) steps cleaned := by
  rcases h.used _ huse with ⟨session, hfound, howner⟩ | ⟨hclosing, hnone⟩
  · rw [finish_eq hfound howner]
    dsimp only at hfound howner
    subst howner
    have hpending := h.pending id session hfound
    split
    · rename_i hgone
      rw [Bool.and_eq_true, Bool.not_eq_true'] at hgone
      obtain ⟨hrequested, hpin⟩ := hgone
      obtain ⟨-, hlast⟩ := isPinned_eq_false.1 hpin
      change session.pendingExternalUses - 1 = 0 at hlast
      -- it was the last use of the session
      have hunused : ∀ use ∈ uses.erase ⟨id, session.owner⟩, use.id ≠ id := by
        intro use hmem hid
        rcases h.used use (List.mem_of_mem_erase hmem) with ⟨session', hfound', howner⟩ | ⟨-, hnone⟩
        · rw [hid, hfound] at hfound'
          cases hfound'
          have hcount : 0 < (uses.erase ⟨id, session.owner⟩).count use := List.count_pos_iff.2 hmem
          have heq : use = ⟨id, session.owner⟩ := by
            rw [howner, ← hid]
          rw [heq, List.count_erase_self] at hcount
          omega
        · rw [hid, hfound] at hnone
          cases hnone
      refine h.shrink _ _ (tally_erase_le id) (tally_erase_le id) (tally_erase_le id) (fun id' session' hfound' => ?_)
        (fun use hmem => ?_) ((List.length_erase_le).trans h.few)
      · obtain ⟨hne, hother⟩ := lookup_erase_eq_some.1 hfound'
        rw [List.count_erase_of_ne (by
          intro heq
          exact hne (congrArg ExternalUse.id heq))]
        exact ⟨h.pending _ _ hother, h.requested _ _ hother⟩
      · rw [AList.lookup_erase_ne (hunused use hmem)]
        exact h.used use (List.mem_of_mem_erase hmem)
    · rename_i hstays
      refine h.finished huse hfound rfl succeeded fun hrequested => ?_
      rw [hrequested, Bool.true_and, Bool.not_eq_true', Bool.not_eq_false] at hstays
      exact hstays
  · have hfinish : r.finish id owner succeeded = r := by
      unfold PreviewResources.finish
      dsimp only at hnone
      rw [hnone]
    rw [hfinish]
    refine { h with pending := ?_, used := ?_, few := (List.length_erase_le).trans h.few }
    · intro id' session' hfound'
      rw [h.pending id' session' hfound', List.count_erase_of_ne]
      rintro heq
      cases heq
      rw [hnone] at hfound'
      cases hfound'
    · exact fun use hmem => h.used use (List.mem_of_mem_erase hmem)

/-! ## Sessions that are given up -/

/-- A session in use is kept until its last use ends. -/
theorem request (hfound : r.sessions.lookup id = some session) (hpin : session.isPinned = true) :
    Booked { r with sessions := r.sessions.insert id { session with releaseRequested := true } } reservations leases
      uses steps cleaned :=
  h.replace hfound rfl rfl (Nat.le_refl _) (Nat.add_le_add_right h.retained _) (h.pending id session hfound)
    (fun _ => hpin) (fun _ _ => rfl) (fun _ huse => .inl huse) h.few

theorem release : Booked (r.release closes id owner).1 reservations leases uses steps cleaned := by
  unfold PreviewResources.release
  cases hsession : r.sessionForOwner id owner with
  | error error => exact h
  | ok session =>
    obtain ⟨hfound, -⟩ := sessionForOwner_eq_ok.1 hsession
    cases hpin : session.isPinned with
    | true =>
      simp only [hpin, if_true]
      exact h.request hfound hpin
    | false =>
      simp only [hpin, Bool.false_eq_true, if_false]
      split
      · exact h.remove hfound hpin
      · exact h.remove hfound hpin

omit h in
/-- The sessions after a window has gone. -/
theorem lookup_releaseWindow : (r.releaseWindow owner).1.sessions.lookup id = some session ↔
    ∃ before, r.sessions.lookup id = some before ∧ session = PreviewResources.requestRelease owner before ∧
      (before.owner = owner → before.isPinned = true) := by
  unfold PreviewResources.releaseWindow
  dsimp only
  rw [lookup_eraseAll_eq_some, lookup_mapValues, Option.map_eq_some_iff]
  constructor
  · rintro ⟨hkept, before, hfound, rfl⟩
    refine ⟨before, hfound, rfl, fun howner => ?_⟩
    by_contra hpin
    refine hkept (List.mem_map.2 ⟨⟨id, before⟩, List.mem_filter.2 ⟨(mem_entries ⟨id, before⟩).2 hfound, ?_⟩, rfl⟩)
    simp [howner, Bool.eq_false_of_not_eq_true hpin]
  · rintro ⟨before, hfound, rfl, hpin⟩
    refine ⟨fun hmem => ?_, before, hfound, rfl⟩
    obtain ⟨⟨id', before'⟩, he, rfl⟩ := List.mem_map.1 hmem
    obtain ⟨he, hgone⟩ := List.mem_filter.1 he
    have hfound' := (mem_entries _).1 he
    dsimp only at hfound' hfound
    rw [hfound] at hfound'
    cases hfound'
    simp only [Bool.and_eq_true, decide_eq_true_eq, Bool.not_eq_true'] at hgone
    rw [hpin hgone.1] at hgone
    exact Bool.noConfusion hgone.2

omit h in
@[simp] theorem requestRelease_owner (session : PreviewSession) :
    (PreviewResources.requestRelease owner session).owner = session.owner := by
  unfold PreviewResources.requestRelease
  split
  · rfl
  · rfl

omit h in
theorem requestRelease_kept (session : PreviewSession) :
    (PreviewResources.requestRelease owner session).isPinned = session.isPinned ∧
      (PreviewResources.requestRelease owner session).size = session.size ∧
      (PreviewResources.requestRelease owner session).stickyExternalPin = session.stickyExternalPin ∧
      (PreviewResources.requestRelease owner session).pendingExternalUses = session.pendingExternalUses := by
  unfold PreviewResources.requestRelease
  split
  · exact ⟨rfl, rfl, rfl, rfl⟩
  · exact ⟨rfl, rfl, rfl, rfl⟩

theorem releaseWindow : Booked (r.releaseWindow owner).1 reservations leases uses (steps + 1) cleaned := by
  have hsessions : ∀ f : PreviewSession → Nat,
      (∀ session, f (PreviewResources.requestRelease owner session) = f session) →
        tally f (r.releaseWindow owner).1.sessions ≤ tally f r.sessions := by
    intro f hf
    refine (tally_eraseAll_le _).trans ?_
    rw [tally_mapValues]
    simp only [hf]
    exact Nat.le_refl _
  have hshrunk := h.step.shrink (r.releaseWindow owner).1.sessions r.closing
    (hsessions _ fun session => by
      unfold PreviewSession.active
      rw [(requestRelease_kept session).2.2.1])
    (hsessions _ fun session => (requestRelease_kept session).2.1)
    (hsessions _ fun session => by
      unfold PreviewSession.retained
      rw [(requestRelease_kept session).1])
    (fun id session hfound => by
      obtain ⟨before, hbefore, rfl, hpin⟩ := lookup_releaseWindow.1 hfound
      rw [requestRelease_owner, (requestRelease_kept before).1, (requestRelease_kept before).2.2.2]
      refine ⟨h.pending id before hbefore, fun hrequested => ?_⟩
      by_cases howner : before.owner = owner
      · exact hpin howner
      · rw [PreviewResources.requestRelease, if_neg howner] at hrequested
        exact h.requested id before hbefore hrequested)
    (fun use huse => by
      rcases h.used use huse with ⟨session, hfound, howner⟩ | ⟨hclosing, hnone⟩
      · refine .inl ⟨_, lookup_releaseWindow.2 ⟨session, hfound, rfl, fun _ => ?_⟩, ?_⟩
        · by_contra hpin
          exact h.unused hfound (Bool.eq_false_of_not_eq_true hpin) use huse rfl
        · rw [requestRelease_owner]
          exact howner
      · refine .inr ⟨hclosing, ?_⟩
        rw [Option.eq_none_iff_forall_ne_some]
        intro session hfound
        obtain ⟨before, hbefore, -⟩ := lookup_releaseWindow.1 hfound
        rw [hnone] at hbefore
        cases hbefore)
    (h.few.trans (Nat.le_succ _))
  refine { hshrunk with generations := fun o => ?_ }
  change (if o = owner then saturatingAdd (r.ownerGeneration owner) 1 else r.ownerGeneration o) ≤ steps + 1
  split
  · exact (saturatingAdd_le _ _).trans (Nat.succ_le_succ (h.generations owner))
  · exact (h.generations o).trans (Nat.le_succ _)

theorem beginShutdown : Booked r.beginShutdown reservations leases uses steps cleaned :=
  h.shrink r.sessions true (Nat.le_refl _) (Nat.le_refl _) (Nat.le_refl _)
    (fun id session hfound => ⟨h.pending id session hfound, h.requested id session hfound⟩)
    (fun use huse => (h.used use huse).imp_right fun hnone =>
      ⟨Bool.and_eq_true_iff.2 ⟨(Bool.and_eq_true_iff.1 hnone.1).1, rfl⟩, hnone.2⟩) h.few

theorem cleanup : Booked r.cleanup reservations leases uses steps true :=
  h.shrink ∅ true (Nat.zero_le _) (Nat.zero_le _) (Nat.zero_le _)
    (fun _ _ hfound => by cases hfound) (fun _ _ => .inr ⟨rfl, rfl⟩) h.few

end Booked

end Squallz.Previews
