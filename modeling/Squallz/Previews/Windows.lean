/-
What becomes of the sessions of a window that goes: nothing new comes of what it had begun, and what is left of it is a file
that another program has or is about to get.
-/
import Squallz.Previews.Sessions

namespace Squallz.Previews

open Squallz.Api Squallz.System Squallz.System.Table

variable {r r' : PreviewResources} {id owner : String} {session before after : PreviewSession} {closes : Closes}
  {w w' : World} {action : Action} {actions : List Action} {reservation : PreviewResourceReservation}

/-! ## What an operation leaves of the sessions -/

structure PreviewSession.Grows (before after : PreviewSession) : Prop where
  owner : after.owner = before.owner
  size : after.size = before.size
  sequence : after.sequence = before.sequence
  sticky : before.stickyExternalPin = true → after.stickyExternalPin = true
  requested : before.releaseRequested = true → after.releaseRequested = true

theorem PreviewSession.Grows.refl (session : PreviewSession) : session.Grows session := ⟨rfl, rfl, rfl, id, id⟩

/-- No session comes, but for those a condition holds of, and one that has been handed over stays. -/
structure Follows (r r' : PreviewResources) (fresh handed : String → PreviewSession → Prop) (cleaned : Prop) : Prop where
  sessions : ∀ id after, r'.sessions.lookup id = some after →
    (∃ before, r.sessions.lookup id = some before ∧ before.Grows after ∧
      (after.stickyExternalPin = true → before.stickyExternalPin = true ∨ handed id after)) ∨ fresh id after
  kept : ∀ id before, r.sessions.lookup id = some before → before.stickyExternalPin = true →
    (∃ after, r'.sessions.lookup id = some after ∧ before.Grows after) ∨ cleaned
  generations : ∀ owner, r.ownerGeneration owner ≤ r'.ownerGeneration owner

variable {fresh handed : String → PreviewSession → Prop} {cleaned : Prop}

theorem Follows.same (hsessions : r'.sessions = r.sessions) (hgenerations : r'.ownerGeneration = r.ownerGeneration) :
    Follows r r' fresh handed cleaned where
  sessions id after hfound := .inl ⟨after, by rw [← hsessions, hfound], .refl after, .inl⟩
  kept id before hfound _ := .inl ⟨before, by rw [hsessions, hfound], .refl before⟩
  generations owner := (congrFun hgenerations owner).ge

/-- A session that is not pinned goes. -/
theorem follows_remove (hfound : r.sessions.lookup id = some session) (hpin : session.isPinned = false) :
    Follows r (r.remove id) fresh handed cleaned where
  sessions id' after hafter := .inl ⟨after, (lookup_erase_eq_some.1 hafter).2, .refl after, .inl⟩
  kept id' before hbefore hsticky := by
    refine .inl ⟨before, lookup_erase_eq_some.2 ⟨?_, hbefore⟩, .refl before⟩
    rintro rfl
    rw [hfound] at hbefore
    cases hbefore
    rw [(isPinned_eq_false.1 hpin).1] at hsticky
    cases hsticky
  generations _ := Nat.le_refl _

/-- A session is replaced by what it has grown to. -/
theorem follows_insert (hfound : r.sessions.lookup id = some before) (hgrows : before.Grows after)
    (hsticky : after.stickyExternalPin = true → before.stickyExternalPin = true ∨ handed id after) :
    Follows r { r with sessions := r.sessions.insert id after } fresh handed cleaned where
  sessions id' after' hafter := by
    rcases lookup_insert_eq_some.1 hafter with ⟨rfl, rfl⟩ | ⟨-, hother⟩
    · exact .inl ⟨before, hfound, hgrows, hsticky⟩
    · exact .inl ⟨after', hother, .refl after', .inl⟩
  kept id' before' hbefore _ := by
    by_cases hid : id' = id
    · subst hid
      rw [hfound] at hbefore
      cases hbefore
      exact .inl ⟨after, lookup_insert_eq_some.2 (.inl ⟨rfl, rfl⟩), hgrows⟩
    · exact .inl ⟨before', lookup_insert_eq_some.2 (.inr ⟨hid, hbefore⟩), .refl before'⟩
  generations _ := Nat.le_refl _

theorem PreviewSession.Grows.trans {last : PreviewSession} (h : before.Grows after) (h' : after.Grows last) :
    before.Grows last where
  owner := h'.owner.trans h.owner
  size := h'.size.trans h.size
  sequence := h'.sequence.trans h.sequence
  sticky hsticky := h'.sticky (h.sticky hsticky)
  requested hrequested := h'.requested (h.requested hrequested)

theorem follows_makeRoom (rounds : Nat) : Follows r (r.makeRoom closes rounds).1 fresh handed cleaned := by
  induction rounds generalizing r with
  | zero => exact .same rfl rfl
  | succ rounds ih =>
    unfold PreviewResources.makeRoom
    split
    · exact .same rfl rfl
    · cases hcandidate : r.candidate with
      | none => exact .same rfl rfl
      | some id =>
        obtain ⟨session, hfound, hpin, -⟩ := Booked.candidate_eq_some hcandidate
        have hremove : Follows r (r.remove id) fresh handed cleaned := follows_remove hfound hpin
        cases hclose : closes id with
        | error error =>
          simp only [hclose]
          exact hremove
        | ok _ =>
          simp only [hclose]
          have hrest := @ih (r.remove id)
          refine ⟨fun id' last hlast => ?_, fun id' first hfirst hsticky => ?_, fun owner => ?_⟩
          · rcases hrest.sessions id' last hlast with ⟨middle, hmiddle, hgrows, hhanded⟩ | hfresh
            · exact .inl ⟨middle, (lookup_erase_eq_some.1 hmiddle).2, hgrows, hhanded⟩
            · exact .inr hfresh
          · rcases hremove.kept id' first hfirst hsticky with ⟨middle, hmiddle, hgrows⟩ | hcleaned
            · rcases hrest.kept id' middle hmiddle (hgrows.sticky hsticky) with ⟨last, hlast, hgrows'⟩ | hcleaned
              · exact .inl ⟨last, hlast, hgrows.trans hgrows'⟩
              · exact .inr hcleaned
            · exact .inr hcleaned
          · exact hrest.generations owner

theorem follows_reserve : Follows r (r.reserve closes owner).1 fresh handed cleaned := by
  unfold PreviewResources.reserve
  split
  · exact .same rfl rfl
  · have hroom : Follows r (r.makeRoom closes r.sessions.entries.length).1 fresh handed cleaned := follows_makeRoom _
    generalize r.makeRoom closes r.sessions.entries.length = made at hroom
    obtain ⟨r', _ | _⟩ := made
    · exact hroom
    · exact ⟨hroom.sessions, hroom.kept, hroom.generations⟩

theorem follows_beginExternalUse : Follows r (r.beginExternalUse id owner).1 fresh handed cleaned := by
  unfold PreviewResources.beginExternalUse
  split
  · exact .same rfl rfl
  · cases hsession : r.sessionForOwner id owner with
    | error error => exact .same rfl rfl
    | ok session =>
      obtain ⟨hfound, -⟩ := Booked.sessionForOwner_eq_ok.1 hsession
      dsimp only
      split
      · exact .same rfl rfl
      · exact follows_insert hfound ⟨rfl, rfl, rfl, fun h => h, fun h => h⟩ .inl

theorem follows_finish (succeeded : Bool)
    (hhanded : ∀ session, session.owner = owner → succeeded = true → handed id session) :
    Follows r (r.finish id owner succeeded) fresh handed cleaned := by
  cases hfound : r.sessions.lookup id with
  | none =>
    unfold PreviewResources.finish
    rw [hfound]
    exact .same rfl rfl
  | some session =>
    by_cases howner : session.owner = owner
    · rw [finish_eq hfound howner]
      have hgrows : session.Grows (session.finished succeeded) := by
        refine ⟨rfl, rfl, rfl, fun hsticky => ?_, fun h => h⟩
        change (session.stickyExternalPin || succeeded) = true
        rw [hsticky, Bool.true_or]
      split
      · rename_i hgone
        rw [Bool.and_eq_true, Bool.not_eq_true'] at hgone
        refine ⟨fun id' after hafter => .inl ⟨after, (lookup_erase_eq_some.1 hafter).2, .refl after, .inl⟩,
          fun id' before hbefore hsticky => ?_, fun _ => Nat.le_refl _⟩
        refine .inl ⟨before, lookup_erase_eq_some.2 ⟨?_, hbefore⟩, .refl before⟩
        rintro rfl
        rw [hfound] at hbefore
        cases hbefore
        have hpin := (isPinned_eq_false.1 hgone.2).1
        rw [hgrows.sticky hsticky] at hpin
        cases hpin
      · refine follows_insert hfound hgrows fun hsticky => ?_
        rcases Bool.or_eq_true_iff.1 hsticky with hbefore | hsucceeded
        · exact .inl hbefore
        · exact .inr (hhanded _ howner hsucceeded)
    · unfold PreviewResources.finish
      simp only [hfound, if_neg howner]
      exact .same rfl rfl

theorem follows_release : Follows r (r.release closes id owner).1 fresh handed cleaned := by
  unfold PreviewResources.release
  cases hsession : r.sessionForOwner id owner with
  | error error => exact .same rfl rfl
  | ok session =>
    obtain ⟨hfound, -⟩ := Booked.sessionForOwner_eq_ok.1 hsession
    cases hpin : session.isPinned with
    | true =>
      simp only [hpin, if_true]
      exact follows_insert hfound ⟨rfl, rfl, rfl, fun h => h, fun _ => rfl⟩ .inl
    | false =>
      simp only [hpin, Bool.false_eq_true, if_false]
      split
      · exact follows_remove hfound hpin
      · exact follows_remove hfound hpin

theorem requestRelease_grows (session : PreviewSession) :
    session.Grows (PreviewResources.requestRelease owner session) := by
  unfold PreviewResources.requestRelease
  split
  · exact ⟨rfl, rfl, rfl, fun h => h, fun _ => rfl⟩
  · exact .refl session

theorem follows_releaseWindow (hgeneration : r.ownerGeneration owner < 2 ^ 64) :
    Follows r (r.releaseWindow owner).1 fresh handed cleaned where
  sessions id after hafter := by
    obtain ⟨before, hbefore, rfl, -⟩ := Booked.lookup_releaseWindow.1 hafter
    refine .inl ⟨before, hbefore, requestRelease_grows before, fun hsticky => .inl ?_⟩
    rwa [(Booked.requestRelease_kept before).2.2.1] at hsticky
  kept id before hbefore hsticky := by
    refine .inl ⟨_, Booked.lookup_releaseWindow.2 ⟨before, hbefore, rfl, fun _ => ?_⟩, requestRelease_grows before⟩
    rw [PreviewSession.isPinned, hsticky, Bool.true_or]
  generations o := by
    change r.ownerGeneration o ≤ if o = owner then saturatingAdd (r.ownerGeneration owner) 1 else r.ownerGeneration o
    split
    · rename_i ho
      subst ho
      unfold saturatingAdd
      omega
    · exact Nat.le_refl _

theorem follows_intoSession (owner : String) (generation : Nat) (id : String) (session : PreviewSession)
    (hfresh : r.ownerGeneration owner = generation → fresh id session) :
    Follows r (r.intoSession owner generation id session).1 fresh handed cleaned := by
  unfold PreviewResources.intoSession
  split
  · exact .same rfl rfl
  · split
    · exact .same rfl rfl
    · rename_i hgone
      cases hfound : r.sessions.lookup id with
      | some other => exact .same rfl rfl
      | none =>
        refine ⟨fun id' after hafter => ?_, fun id' before hbefore _ => ?_, fun _ => Nat.le_refl _⟩
        · rcases lookup_insert_eq_some.1 hafter with ⟨rfl, rfl⟩ | ⟨-, hother⟩
          · have hgeneration := (Bool.or_eq_false_iff.1 (Bool.eq_false_of_not_eq_true hgone)).2
            exact .inr (hfresh (by simpa using hgeneration))
          · exact .inl ⟨after, hother, .refl after, .inl⟩
        · refine .inl ⟨before, lookup_insert_eq_some.2 (.inr ⟨?_, hbefore⟩), .refl before⟩
          rintro rfl
          rw [hfound] at hbefore
          cases hbefore

/-! ## What a step leaves of the sessions and the reservations -/

/-- A new session, of a reservation that was made for the window as it still is. -/
def Current (w : World) (session : PreviewSession) : Prop :=
  session.stickyExternalPin = false ∧ ∃ reservation ∈ w.reservations, reservation.owner = session.owner ∧
    reservation.ownerGeneration = w.resources.ownerGeneration session.owner

theorem next_follows (hgenerations : ∀ owner, w.resources.ownerGeneration owner < 2 ^ 64)
    (hnext : w.next action = some w') :
    Follows w.resources w'.resources (fun _ session => Current w session)
      (fun id session => action = .finish ⟨id, session.owner⟩ true) (action.isCleanup = true) := by
  cases action with
  | reserve owner closes =>
    cases hnext
    unfold World.reserve
    split
    · have hfollows : Follows w.resources (w.resources.reserve closes owner).1 (fun _ session => Current w session)
          (fun id session => Action.reserve owner closes = .finish ⟨id, session.owner⟩ true)
          ((Action.reserve owner closes).isCleanup = true) := follows_reserve
      generalize w.resources.reserve closes owner = reserved at hfollows
      obtain ⟨r, _ | _⟩ := reserved
      · exact hfollows
      · exact hfollows
    · exact .same rfl rfl
  | write reservation id size =>
    obtain ⟨-, heq⟩ := Option.ite_none_right_eq_some.1 hnext
    cases heq
    exact .same rfl rfl
  | intoSession reservation =>
    obtain ⟨hheld, heq⟩ := Option.ite_none_right_eq_some.1 hnext
    split at heq
    · rename_i id size sequence hstage
      cases heq
      unfold World.intoSession
      have hfollows : Follows w.resources _ (fun _ session => Current w session)
          (fun id session => Action.intoSession reservation = .finish ⟨id, session.owner⟩ true)
          ((Action.intoSession reservation).isCleanup = true) :=
        follows_intoSession reservation.owner reservation.ownerGeneration id
          ⟨reservation.owner, size, sequence, false, 0, false⟩
          fun hgeneration => ⟨rfl, reservation, hheld, rfl, hgeneration.symm⟩
      dsimp only
      generalize w.resources.intoSession _ _ _ _ = result at hfollows
      obtain ⟨r, _ | _⟩ := result
      · exact .same rfl rfl
      · exact hfollows
    · cases heq
  | intoLease reservation size =>
    obtain ⟨-, heq⟩ := Option.ite_none_right_eq_some.1 hnext
    cases heq
    have hsame : (w.intoLease reservation size).resources.sessions = w.resources.sessions ∧
        (w.intoLease reservation size).resources.ownerGeneration = w.resources.ownerGeneration := by
      unfold World.intoLease PreviewResources.intoLease
      split
      · rename_i heq
        split at heq
        · cases heq
        · split at heq
          · cases heq
          · cases heq
            exact ⟨rfl, rfl⟩
      · exact ⟨rfl, rfl⟩
    exact .same hsame.1 hsame.2
  | dropReservation reservation =>
    obtain ⟨-, heq⟩ := Option.ite_none_right_eq_some.1 hnext
    cases heq
    exact .same rfl rfl
  | dropLease size =>
    obtain ⟨-, heq⟩ := Option.ite_none_right_eq_some.1 hnext
    cases heq
    exact .same rfl rfl
  | beginExternalUse id owner =>
    cases hnext
    unfold World.beginExternalUse
    have hfollows : Follows w.resources (w.resources.beginExternalUse id owner).1 (fun _ session => Current w session)
        (fun id' session => Action.beginExternalUse id owner = .finish ⟨id', session.owner⟩ true)
        ((Action.beginExternalUse id owner).isCleanup = true) := follows_beginExternalUse
    generalize w.resources.beginExternalUse id owner = result at hfollows
    obtain ⟨r, _ | _⟩ := result
    · exact .same rfl rfl
    · exact hfollows
  | finish use succeeded =>
    obtain ⟨-, heq⟩ := Option.ite_none_right_eq_some.1 hnext
    cases heq
    refine follows_finish succeeded fun session howner hsucceeded => ?_
    rw [howner, hsucceeded]
  | release id owner closes =>
    cases hnext
    exact follows_release
  | releaseWindow owner =>
    cases hnext
    exact follows_releaseWindow (hgenerations owner)
  | beginShutdown =>
    cases hnext
    exact .same rfl rfl
  | cleanup =>
    cases hnext
    exact ⟨fun _ _ hafter => (by cases hafter), fun _ _ _ _ => .inr rfl, fun _ => Nat.le_refl _⟩

/-- A reservation is an old one, or it is made now for the window as it is. -/
theorem next_reservations (hnext : w.next action = some w') (hmem : reservation ∈ w'.reservations) :
    (∃ old ∈ w.reservations, old.owner = reservation.owner ∧ old.ownerGeneration = reservation.ownerGeneration) ∨
      (∃ closes, action = .reserve reservation.owner closes) ∧
        reservation.ownerGeneration = w.resources.ownerGeneration reservation.owner := by
  have hrefuse : ∀ {held : PreviewResourceReservation}, held ∈ w.reservations →
      reservation ∈ (w.refuse held).reservations → ∃ old ∈ w.reservations,
        old.owner = reservation.owner ∧ old.ownerGeneration = reservation.ownerGeneration := by
    intro held hheld hmem
    rcases List.mem_cons.1 hmem with rfl | hmem
    · exact ⟨held, hheld, rfl, rfl⟩
    · exact ⟨reservation, List.mem_of_mem_erase hmem, rfl, rfl⟩
  cases action with
  | reserve owner closes =>
    cases hnext
    unfold World.reserve at hmem
    split at hmem
    · split at hmem
      · rename_i r generation hreserve
        rcases List.mem_cons.1 hmem with rfl | hmem
        · refine .inr ⟨⟨closes, rfl⟩, ?_⟩
          unfold PreviewResources.reserve at hreserve
          split at hreserve
          · cases hreserve
          · split at hreserve
            · cases hreserve
            · rename_i made hmade
              cases hreserve
              have hkept := makeRoom_ownerGeneration closes w.resources.sessions.entries.length w.resources
              rw [hmade] at hkept
              exact congrFun hkept owner
        · exact .inl ⟨reservation, hmem, rfl, rfl⟩
      · exact .inl ⟨reservation, hmem, rfl, rfl⟩
    · exact .inl ⟨reservation, hmem, rfl, rfl⟩
  | write held id size =>
    obtain ⟨hheld, heq⟩ := Option.ite_none_right_eq_some.1 hnext
    cases heq
    rcases List.mem_cons.1 hmem with rfl | hmem
    · exact .inl ⟨held, hheld.1, rfl, rfl⟩
    · exact .inl ⟨reservation, List.mem_of_mem_erase hmem, rfl, rfl⟩
  | intoSession held =>
    obtain ⟨hheld, heq⟩ := Option.ite_none_right_eq_some.1 hnext
    split at heq
    · cases heq
      unfold World.intoSession at hmem
      dsimp only at hmem
      split at hmem
      · exact .inl ⟨reservation, List.mem_of_mem_erase hmem, rfl, rfl⟩
      · exact .inl (hrefuse hheld hmem)
    · cases heq
  | intoLease held size =>
    obtain ⟨hheld, heq⟩ := Option.ite_none_right_eq_some.1 hnext
    cases heq
    unfold World.intoLease at hmem
    split at hmem
    · exact .inl ⟨reservation, List.mem_of_mem_erase hmem, rfl, rfl⟩
    · exact .inl (hrefuse hheld.1 hmem)
  | dropReservation held =>
    obtain ⟨-, heq⟩ := Option.ite_none_right_eq_some.1 hnext
    cases heq
    exact .inl ⟨reservation, List.mem_of_mem_erase hmem, rfl, rfl⟩
  | dropLease size =>
    obtain ⟨-, heq⟩ := Option.ite_none_right_eq_some.1 hnext
    cases heq
    exact .inl ⟨reservation, hmem, rfl, rfl⟩
  | beginExternalUse id owner =>
    cases hnext
    unfold World.beginExternalUse at hmem
    split at hmem
    · exact .inl ⟨reservation, hmem, rfl, rfl⟩
    · exact .inl ⟨reservation, hmem, rfl, rfl⟩
  | finish use succeeded =>
    obtain ⟨-, heq⟩ := Option.ite_none_right_eq_some.1 hnext
    cases heq
    exact .inl ⟨reservation, hmem, rfl, rfl⟩
  | release id owner closes =>
    cases hnext
    exact .inl ⟨reservation, hmem, rfl, rfl⟩
  | releaseWindow owner =>
    cases hnext
    exact .inl ⟨reservation, hmem, rfl, rfl⟩
  | beginShutdown =>
    cases hnext
    exact .inl ⟨reservation, hmem, rfl, rfl⟩
  | cleanup =>
    cases hnext
    exact .inl ⟨reservation, hmem, rfl, rfl⟩

/-! ## Windows that have gone -/

/-- Reservations are for windows as they are or were, and what has been handed over has been so by a finished use. -/
structure World.Dated (w : World) (done : List Action) : Prop where
  reservations : ∀ reservation ∈ w.reservations,
    reservation.ownerGeneration ≤ w.resources.ownerGeneration reservation.owner
  handed : ∀ id session, w.resources.sessions.lookup id = some session → session.stickyExternalPin = true →
    .finish ⟨id, session.owner⟩ true ∈ done

/-- A window has gone: nothing that it had begun becomes a session, and each session it has left is to be released. -/
structure World.Gone (w : World) (owner : String) : Prop where
  reservations : ∀ reservation ∈ w.reservations, reservation.owner = owner →
    reservation.ownerGeneration < w.resources.ownerGeneration owner
  sessions : ∀ id session, w.resources.sessions.lookup id = some session → session.owner = owner →
    session.releaseRequested = true

theorem World.Dated.next {done : List Action} (h : w.Dated done)
    (hgenerations : ∀ owner, w.resources.ownerGeneration owner < 2 ^ 64) (hnext : w.next action = some w') :
    w'.Dated (done ++ [action]) := by
  have hfollows := next_follows hgenerations hnext
  refine ⟨fun reservation hmem => ?_, fun id session hfound hsticky => ?_⟩
  · rcases next_reservations hnext hmem with ⟨old, hold, howner, hgeneration⟩ | ⟨-, hgeneration⟩
    · rw [← hgeneration, ← howner]
      exact (h.reservations old hold).trans (hfollows.generations _)
    · rw [hgeneration]
      exact hfollows.generations _
  · rcases hfollows.sessions id session hfound with ⟨before, hbefore, hgrows, hhanded⟩ | ⟨hnew, -⟩
    · rcases hhanded hsticky with hsticky | rfl
      · rw [hgrows.owner]
        exact List.mem_append_left _ (h.handed id before hbefore hsticky)
      · exact List.mem_append_right _ List.mem_cons_self
    · rw [hsticky] at hnew
      cases hnew

theorem World.Gone.next {owner : String} (h : w.Gone owner)
    (hgenerations : ∀ owner, w.resources.ownerGeneration owner < 2 ^ 64) (hnext : w.next action = some w')
    (hother : ∀ closes, action ≠ .reserve owner closes) : w'.Gone owner := by
  have hfollows := next_follows hgenerations hnext
  refine ⟨fun reservation hmem howner => ?_, fun id session hfound howner => ?_⟩
  · rcases next_reservations hnext hmem with ⟨old, hold, howner', hgeneration⟩ | ⟨⟨closes, heq⟩, -⟩
    · rw [← hgeneration]
      exact (h.reservations old hold (howner'.trans howner)).trans_le (hfollows.generations owner)
    · rw [howner] at heq
      exact absurd heq (hother closes)
  · rcases hfollows.sessions id session hfound with ⟨before, hbefore, hgrows, -⟩ | ⟨-, reservation, hmem, howner', heq⟩
    · exact hgrows.requested (h.sessions id before hbefore (hgrows.owner.symm.trans howner))
    · rw [howner] at howner' heq
      exact absurd heq (h.reservations reservation hmem howner').ne

/-- A window goes. -/
theorem World.Dated.gone {done : List Action} (h : w.Dated done) (hgeneration : w.resources.ownerGeneration owner < 2 ^ 64 - 1) :
    World.Gone { w with resources := (w.resources.releaseWindow owner).1 } owner := by
  refine ⟨fun reservation hmem howner => ?_, fun id session hfound howner => ?_⟩
  · have hle := h.reservations reservation hmem
    rw [howner] at hle
    change _ < if owner = owner then saturatingAdd (w.resources.ownerGeneration owner) 1 else _
    rw [if_pos rfl, saturatingAdd_eq (by omega)]
    omega
  · obtain ⟨before, -, rfl, -⟩ := Booked.lookup_releaseWindow.1 hfound
    rw [Booked.requestRelease_owner] at howner
    rw [PreviewResources.requestRelease, if_pos howner]

theorem dated_fromWorkspace (workspace : Bool) : (World.fromWorkspace workspace).Dated [] :=
  ⟨fun _ hmem => (by cases hmem), fun _ _ hfound => (by cases hfound)⟩

theorem World.Accounted.generations_lt {steps : Nat} {cleaned : Bool} (h : w.Accounted steps cleaned)
    (hsteps : steps < 2 ^ 64) (owner : String) : w.resources.ownerGeneration owner < 2 ^ 64 :=
  (Booked.generations h owner).trans_lt hsteps

theorem World.Dated.run {done : List Action} {steps : Nat} {cleaned : Bool} (h : w.Dated done)
    (haccounted : w.Accounted steps cleaned) (hrun : Squallz.System.run World.next actions w = some w')
    (hsteps : steps + actions.length < 2 ^ 64) : w'.Dated (done ++ actions) := by
  induction actions generalizing w steps cleaned done with
  | nil =>
    cases hrun
    rwa [List.append_nil]
  | cons action actions ih =>
    obtain ⟨m, hnext, hrun⟩ := run_cons.1 hrun
    rw [List.length_cons] at hsteps
    have hrest := ih (h.next (haccounted.generations_lt (by omega)) hnext) (haccounted.next (by omega) hnext) hrun
      (by omega)
    rwa [List.append_assoc] at hrest

theorem World.Gone.run {steps : Nat} {cleaned : Bool} (h : w.Gone owner) (haccounted : w.Accounted steps cleaned)
    (hrun : Squallz.System.run World.next actions w = some w') (hsteps : steps + actions.length < 2 ^ 64)
    (hnone : ∀ closes, .reserve owner closes ∉ actions) : w'.Gone owner := by
  induction actions generalizing w steps cleaned with
  | nil =>
    cases hrun
    exact h
  | cons action actions ih =>
    obtain ⟨m, hnext, hrun⟩ := run_cons.1 hrun
    rw [List.length_cons] at hsteps
    refine ih (h.next (haccounted.generations_lt (by omega)) hnext fun closes heq => ?_) (haccounted.next (by omega) hnext)
      hrun (by omega) fun closes hmem => hnone closes (List.mem_cons_of_mem _ hmem)
    exact hnone closes (heq ▸ List.mem_cons_self)

/-- When a window has gone and opens nothing more, whatever it had begun is refused, and a session it has left is one whose
file another program has or is about to get. -/
theorem window_gone {workspace : Bool} {earlier later : List Action}
    (hrun : run World.next (earlier ++ .releaseWindow owner :: later) (World.fromWorkspace workspace) = some w)
    (hshort : (earlier ++ .releaseWindow owner :: later).length < 2 ^ 64)
    (hnone : ∀ closes, .reserve owner closes ∉ later) :
    (∀ id session, w.resources.sessions.lookup id = some session → session.owner = owner →
      session.releaseRequested = true ∧
        (⟨id, owner⟩ ∈ w.uses ∨ .finish ⟨id, owner⟩ true ∈ earlier ++ .releaseWindow owner :: later)) ∧
    ∀ reservation ∈ w.reservations, reservation.owner = owner →
      (∀ size, ∃ error, (w.resources.intoLease owner reservation.ownerGeneration size).2 = .error error) ∧
      ∀ id session, ∃ error, (w.resources.intoSession owner reservation.ownerGeneration id session).2 = .error error := by
  have haccounted := accounted_run hrun hshort
  have hdated := (dated_fromWorkspace workspace).run (accounted_fromWorkspace workspace) hrun (by omega)
  rw [List.nil_append] at hdated
  obtain ⟨m, hearlier, hlater⟩ := run_append.1 hrun
  obtain ⟨m', hrelease, hlater⟩ := run_cons.1 hlater
  rw [List.length_append, List.length_cons] at hshort
  have hm := accounted_run hearlier (by omega)
  have hmdated := (dated_fromWorkspace workspace).run (accounted_fromWorkspace workspace) hearlier (by omega)
  have hm' := hm.next (by omega) hrelease
  cases hrelease
  have hgone := (hmdated.gone ((Booked.generations hm owner).trans_lt (by omega))).run hm' hlater (by omega) hnone
  refine ⟨fun id session hfound howner => ?_, fun reservation hmem howner => ?_⟩
  · have hrequested := hgone.sessions id session hfound howner
    refine ⟨hrequested, ?_⟩
    have hpin := Booked.requested haccounted id session hfound hrequested
    rcases Bool.or_eq_true_iff.1 hpin with hsticky | hpending
    · have hhanded := hdated.handed id session hfound hsticky
      rw [howner] at hhanded
      exact .inr hhanded
    · have hcount := Booked.pending haccounted id session hfound
      rw [← howner]
      refine .inl (List.count_pos_iff.1 ?_)
      rw [← hcount]
      exact of_decide_eq_true hpending
  · have hlt := hgone.reservations reservation hmem howner
    have hrefused : (w.resources.closing || w.resources.ownerGeneration owner != reservation.ownerGeneration) = true := by
      rw [bne_iff_ne.2 hlt.ne', Bool.or_true]
    refine ⟨fun size => ?_, fun id session => ?_⟩
    · unfold PreviewResources.intoLease
      rw [if_pos hrefused]
      split
      · exact ⟨_, rfl⟩
      · exact ⟨_, rfl⟩
    · unfold PreviewResources.intoSession
      rw [if_pos hrefused]
      split
      · exact ⟨_, rfl⟩
      · exact ⟨_, rfl⟩

/-- The window of the sample run opens nothing more, and its file has been handed over. -/
theorem window_gone_sample : ∃ w session, run World.next (sampleActions ++ [.finish ⟨"file-1", "main"⟩ true])
    (World.fromWorkspace true) = some w ∧ w.resources.sessions.lookup "file-1" = some session ∧
    session.releaseRequested = true := by
  have hsome : ((run World.next (sampleActions ++ [.finish ⟨"file-1", "main"⟩ true]) (World.fromWorkspace true)).bind
      fun w => w.resources.sessions.lookup "file-1") = some ⟨"main", 4096, 1, true, 0, true⟩ := by decide +kernel
  obtain ⟨w, hrun, hfound⟩ := Option.bind_eq_some_iff.1 hsome
  have hsplit : run World.next ([.reserve "main" fun _ => .ok (), .write ⟨"main", 0, .held⟩ "file-1" 4096,
      .intoSession ⟨"main", 0, .prepared "file-1" 4096 1⟩, .beginExternalUse "file-1" "main"] ++
      .releaseWindow "main" :: [.finish ⟨"file-1", "main"⟩ true]) (World.fromWorkspace true) = some w := hrun
  have hgone := window_gone hsplit (by decide) fun closes hmem => by
      rcases List.mem_cons.1 hmem with heq | hmem
      · cases heq
      · cases hmem
  exact ⟨w, _, hrun, hfound, (hgone.1 "file-1" _ hfound rfl).1⟩

/-! ## Files of other programs -/

theorem kept_run {steps : Nat} {cleaned : Bool} (haccounted : w.Accounted steps cleaned)
    (hrun : run World.next actions w = some w') (hsteps : steps + actions.length < 2 ^ 64)
    (hkeep : actions.any Action.isCleanup = false) (hfound : w.resources.sessions.lookup id = some before)
    (hsticky : before.stickyExternalPin = true) :
    ∃ after, w'.resources.sessions.lookup id = some after ∧ before.Grows after := by
  induction actions generalizing w steps cleaned before with
  | nil =>
    cases hrun
    exact ⟨before, hfound, .refl before⟩
  | cons action actions ih =>
    obtain ⟨m, hnext, hrun⟩ := run_cons.1 hrun
    rw [List.length_cons] at hsteps
    rw [List.any_cons, Bool.or_eq_false_iff] at hkeep
    have hfollows := next_follows (haccounted.generations_lt (by omega)) hnext
    rcases hfollows.kept id before hfound hsticky with ⟨middle, hmiddle, hgrows⟩ | hcleaned
    · obtain ⟨after, hafter, hgrows'⟩ := ih (haccounted.next (by omega) hnext) hrun (by omega) hkeep.2 hmiddle
        (hgrows.sticky hsticky)
      exact ⟨after, hafter, hgrows.trans hgrows'⟩
    · rw [hkeep.1] at hcleaned
      cases hcleaned

/-- Until the application cleans up, a file that another program is about to get is there, and one that it has got stays. -/
theorem external_files_kept {workspace : Bool} {later : List Action}
    (hrun : run World.next actions (World.fromWorkspace workspace) = some w) (hlater : run World.next later w = some w')
    (hshort : actions.length + later.length < 2 ^ 64) (hkeep : (actions ++ later).any Action.isCleanup = false) :
    (∀ use ∈ w'.uses, ∃ session, w'.resources.sessions.lookup use.id = some session ∧ session.owner = use.owner) ∧
    ∀ id before, w.resources.sessions.lookup id = some before → before.stickyExternalPin = true →
      ∃ after, w'.resources.sessions.lookup id = some after ∧ before.Grows after := by
  rw [List.any_append, Bool.or_eq_false_iff] at hkeep
  have haccounted := accounted_run hrun (by omega)
  have haccounted' := haccounted.run hlater hshort
  rw [hkeep.1, hkeep.2, Bool.or_false] at haccounted'
  refine ⟨fun use huse => ?_, fun id before hfound hsticky => kept_run haccounted hlater hshort hkeep.2 hfound hsticky⟩
  rcases Booked.used haccounted' use huse with hpresent | ⟨hcleaned, -⟩
  · exact hpresent
  · cases hcleaned

/-- The file of the sample run stays when its window asks for it again and goes once more. -/
theorem external_files_kept_sample : ∃ w w' after,
    run World.next (sampleActions ++ [.finish ⟨"file-1", "main"⟩ true]) (World.fromWorkspace true) = some w ∧
    run World.next [.release "file-1" "main" fun _ => .ok (), .releaseWindow "main"] w = some w' ∧
    w'.resources.sessions.lookup "file-1" = some after ∧ after.stickyExternalPin = true := by
  have hsome : ((run World.next (sampleActions ++ [.finish ⟨"file-1", "main"⟩ true]) (World.fromWorkspace true)).bind
      fun w => w.resources.sessions.lookup "file-1") = some ⟨"main", 4096, 1, true, 0, true⟩ := by decide +kernel
  obtain ⟨w, hrun, hfound⟩ := Option.bind_eq_some_iff.1 hsome
  obtain ⟨w', hlater⟩ : ∃ w', run World.next [.release "file-1" "main" fun _ => .ok (), .releaseWindow "main"] w =
      some w' := ⟨_, rfl⟩
  obtain ⟨after, hafter, hgrows⟩ := (external_files_kept hrun hlater (by decide) (by decide)).2 "file-1" _ hfound rfl
  exact ⟨w, w', after, hrun, hlater, hafter, hgrows.sticky rfl⟩

end Squallz.Previews
