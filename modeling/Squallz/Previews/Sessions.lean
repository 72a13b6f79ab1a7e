/-
The preview sessions over whole runs: windows that come and go, previews that are written, nested archives that are kept
open and files that are handed over, one locked section at a time.
-/
import Squallz.Previews.Handoffs
import Squallz.System.Runs

namespace Squallz.Previews

open Squallz.Api Squallz.System Squallz.System.Table

/-! ## Runs -/

/-- How far the holder of a reservation has come. -/
inductive Stage
  | held
  | prepared (id : String) (size sequence : Nat)
  | refused
deriving DecidableEq, Repr

structure PreviewResourceReservation where
  owner : String
  ownerGeneration : Nat
  stage : Stage
deriving DecidableEq, Repr

/-- The shared state, and the handles that threads hold. -/
structure World where
  workspace : Bool
  resources : PreviewResources
  nextSequence : Nat
  reservations : List PreviewResourceReservation
  leases : List Nat
  uses : List ExternalUse

def World.fromWorkspace (workspace : Bool) : World := ⟨workspace, .default, 1, [], [], []⟩

/-- A locked section, or the number that a written preview takes. -/
inductive Action
  | reserve (owner : String) (closes : Closes)
  | write (reservation : PreviewResourceReservation) (id : String) (size : Nat)
  | intoSession (reservation : PreviewResourceReservation)
  | intoLease (reservation : PreviewResourceReservation) (size : Nat)
  | dropReservation (reservation : PreviewResourceReservation)
  | dropLease (size : Nat)
  | beginExternalUse (id owner : String)
  | finish (use : ExternalUse) (succeeded : Bool)
  | release (id owner : String) (closes : Closes)
  | releaseWindow (owner : String)
  | beginShutdown
  | cleanup

namespace World

/-- A reservation that is refused is still to be dropped. -/
def refuse (reservation : PreviewResourceReservation) (w : World) : World :=
  { w with reservations := { reservation with stage := .refused } :: w.reservations.erase reservation }

def reserve (owner : String) (closes : Closes) (w : World) : World :=
  if w.workspace then
    match w.resources.reserve closes owner with
    | (r, .ok generation) => { w with resources := r, reservations := ⟨owner, generation, .held⟩ :: w.reservations }
    | (r, .error _) => { w with resources := r }
  else w

/-- The last steps of `prepare_archive_entry`. -/
def intoSession (reservation : PreviewResourceReservation) (id : String) (size sequence : Nat) (w : World) : World :=
  let session : PreviewSession := ⟨reservation.owner, size, sequence, false, 0, false⟩
  match w.resources.intoSession reservation.owner reservation.ownerGeneration id session with
  | (r, .ok ()) => { w with resources := r, reservations := w.reservations.erase reservation }
  | (_, .error _) => w.refuse reservation

def intoLease (reservation : PreviewResourceReservation) (size : Nat) (w : World) : World :=
  match w.resources.intoLease reservation.owner reservation.ownerGeneration size with
  | (r, .ok ()) =>
    { w with resources := r, reservations := w.reservations.erase reservation, leases := size :: w.leases }
  | (_, .error _) => w.refuse reservation

def beginExternalUse (id owner : String) (w : World) : World :=
  match w.resources.beginExternalUse id owner with
  | (r, .ok ()) => { w with resources := r, uses := ⟨id, owner⟩ :: w.uses }
  | (_, .error _) => w

def next : Action → World → Option World
  | .reserve owner closes, w => some (w.reserve owner closes)
  | .write reservation id size, w =>
    if reservation ∈ w.reservations ∧ reservation.stage = .held then
      some { w with
        nextSequence := (w.nextSequence + 1) % 2 ^ 64
        reservations := { reservation with stage := .prepared id size w.nextSequence } ::
          w.reservations.erase reservation }
    else none
  | .intoSession reservation, w =>
    if reservation ∈ w.reservations then
      match reservation.stage with
      | .prepared id size sequence => some (w.intoSession reservation id size sequence)
      | _ => none
    else none
  | .intoLease reservation size, w =>
    if reservation ∈ w.reservations ∧ reservation.stage = .held then some (w.intoLease reservation size) else none
  | .dropReservation reservation, w =>
    if reservation ∈ w.reservations then
      some { w with
        resources := w.resources.releaseReservationUsage
        reservations := w.reservations.erase reservation }
    else none
  | .dropLease size, w =>
    if size ∈ w.leases then some { w with resources := w.resources.dropLease size, leases := w.leases.erase size }
    else none
  | .beginExternalUse id owner, w => some (w.beginExternalUse id owner)
  | .finish use succeeded, w =>
    if use ∈ w.uses then
      some { w with resources := w.resources.finish use.id use.owner succeeded, uses := w.uses.erase use }
    else none
  | .release id owner closes, w => some { w with resources := (w.resources.release closes id owner).1 }
  | .releaseWindow owner, w => some { w with resources := (w.resources.releaseWindow owner).1 }
  | .beginShutdown, w => some { w with resources := w.resources.beginShutdown }
  | .cleanup, w => some { w with resources := w.resources.cleanup }

end World

variable {w w' : World} {action : Action} {actions : List Action} {steps : Nat} {cleaned : Bool}
  {reservation : PreviewResourceReservation}

/-! ## The accounts over runs -/

/-- The counters and the handles agree, after so many steps, with or without a cleanup. -/
def World.Accounted (w : World) (steps : Nat) (cleaned : Bool) : Prop :=
  Booked w.resources w.reservations.length w.leases w.uses steps cleaned

def Action.isCleanup : Action → Bool
  | .cleanup => true
  | _ => false

theorem accounted_fromWorkspace (workspace : Bool) : (World.fromWorkspace workspace).Accounted 0 false :=
  booked_default

namespace World.Accounted

theorem refuse (h : w.Accounted steps cleaned) (hheld : reservation ∈ w.reservations) :
    (w.refuse reservation).Accounted (steps + 1) cleaned := by
  unfold World.Accounted World.refuse
  dsimp only
  rw [List.length_cons, List.length_erase_of_mem hheld, Nat.sub_add_cancel (List.length_pos_of_mem hheld)]
  exact Booked.step h

theorem reserve (h : w.Accounted steps cleaned) (owner : String) (closes : Closes) :
    (w.reserve owner closes).Accounted (steps + 1) cleaned := by
  unfold World.reserve
  split
  · have hreserve := Booked.reserve h closes owner
    generalize w.resources.reserve closes owner = reserved at hreserve
    obtain ⟨r, error | generation⟩ := reserved
    · rcases hreserve with ⟨⟨_, hok, -⟩, -⟩ | ⟨-, hbooked⟩
      · cases hok
      · exact hbooked.step
    · rcases hreserve with ⟨-, hbooked⟩ | ⟨⟨_, herror⟩, -⟩
      · exact hbooked.step
      · cases herror
  · exact Booked.step h

theorem intoSession (h : w.Accounted steps cleaned) (hheld : reservation ∈ w.reservations) (id : String) (size sequence : Nat) :
    (w.intoSession reservation id size sequence).Accounted (steps + 1) cleaned := by
  have hinto := Booked.intoSession h reservation.owner reservation.ownerGeneration id
    ⟨reservation.owner, size, sequence, false, 0, false⟩ (List.length_pos_of_mem hheld) ⟨rfl, rfl, rfl⟩
  unfold World.intoSession
  dsimp only
  generalize w.resources.intoSession _ _ _ _ = result at hinto
  obtain ⟨r, error | _⟩ := result
  · exact h.refuse hheld
  · rcases hinto with ⟨-, hbooked⟩ | ⟨⟨_, herror⟩, -⟩
    · unfold World.Accounted
      dsimp only
      rw [List.length_erase_of_mem hheld]
      exact hbooked.step
    · cases herror

theorem intoLease (h : w.Accounted steps cleaned) (hheld : reservation ∈ w.reservations) (size : Nat) :
    (w.intoLease reservation size).Accounted (steps + 1) cleaned := by
  have hinto := Booked.intoLease h reservation.owner reservation.ownerGeneration size
    (List.length_pos_of_mem hheld)
  unfold World.intoLease
  generalize w.resources.intoLease _ _ _ = result at hinto
  obtain ⟨r, error | _⟩ := result
  · exact h.refuse hheld
  · rcases hinto with ⟨-, hbooked⟩ | ⟨⟨_, herror⟩, -⟩
    · unfold World.Accounted
      dsimp only
      rw [List.length_erase_of_mem hheld]
      exact hbooked.step
    · cases herror

theorem beginExternalUse (h : w.Accounted steps cleaned) (hsteps : steps < 2 ^ 64 - 1) (id owner : String) :
    (w.beginExternalUse id owner).Accounted (steps + 1) cleaned := by
  have hbegin := Booked.beginExternalUse h id owner hsteps
  unfold World.beginExternalUse
  generalize w.resources.beginExternalUse id owner = result at hbegin
  obtain ⟨r, error | _⟩ := result
  · exact Booked.step h
  · rcases hbegin with ⟨-, hbooked⟩ | ⟨⟨_, herror⟩, -⟩
    · exact hbooked
    · cases herror

theorem next_other (h : w.Accounted steps cleaned) (hsteps : steps < 2 ^ 64 - 1)
    (hother : action.isCleanup = false) (hnext : w.next action = some w') :
    w'.Accounted (steps + 1) cleaned := by
  cases action with
  | cleanup => cases hother
  | reserve owner closes =>
    cases hnext
    exact h.reserve owner closes
  | write reservation id size =>
    obtain ⟨hheld, heq⟩ := Option.ite_none_right_eq_some.1 hnext
    cases heq
    unfold World.Accounted
    dsimp only
    rw [List.length_cons, List.length_erase_of_mem hheld.1, Nat.sub_add_cancel (List.length_pos_of_mem hheld.1)]
    exact Booked.step h
  | intoSession reservation =>
    obtain ⟨hheld, heq⟩ := Option.ite_none_right_eq_some.1 hnext
    split at heq
    · cases heq
      exact h.intoSession hheld _ _ _
    · cases heq
  | intoLease reservation size =>
    obtain ⟨hheld, heq⟩ := Option.ite_none_right_eq_some.1 hnext
    cases heq
    exact h.intoLease hheld.1 size
  | dropReservation reservation =>
    obtain ⟨hheld, heq⟩ := Option.ite_none_right_eq_some.1 hnext
    cases heq
    unfold World.Accounted
    dsimp only
    rw [List.length_erase_of_mem hheld]
    exact (Booked.releaseReservationUsage h (List.length_pos_of_mem hheld)).step
  | dropLease size =>
    obtain ⟨hheld, heq⟩ := Option.ite_none_right_eq_some.1 hnext
    cases heq
    exact (Booked.dropLease h hheld).step
  | beginExternalUse id owner =>
    cases hnext
    exact h.beginExternalUse hsteps id owner
  | finish use succeeded =>
    obtain ⟨huse, heq⟩ := Option.ite_none_right_eq_some.1 hnext
    cases heq
    exact (Booked.finish h huse succeeded).step
  | release id owner closes =>
    cases hnext
    exact (Booked.release h).step
  | releaseWindow owner =>
    cases hnext
    exact Booked.releaseWindow h
  | beginShutdown =>
    cases hnext
    exact (Booked.beginShutdown h).step

theorem next (h : w.Accounted steps cleaned) (hsteps : steps < 2 ^ 64 - 1) (hnext : w.next action = some w') :
    w'.Accounted (steps + 1) (cleaned || action.isCleanup) := by
  cases hother : action.isCleanup with
  | false =>
    rw [Bool.or_false]
    exact h.next_other hsteps hother hnext
  | true =>
    cases action with
    | cleanup =>
      cases hnext
      rw [Bool.or_true]
      exact (Booked.cleanup h).step
    | _ => cases hother

/-- The accounts are kept over every run of fewer than 2^64 steps. -/
theorem run (h : w.Accounted steps cleaned) (hrun : Squallz.System.run World.next actions w = some w')
    (hsteps : steps + actions.length < 2 ^ 64) :
    w'.Accounted (steps + actions.length) (cleaned || actions.any Action.isCleanup) := by
  induction actions generalizing w steps cleaned with
  | nil =>
    cases hrun
    rw [List.any_nil, Bool.or_false]
    exact h
  | cons action actions ih =>
    obtain ⟨m, hnext, hrun⟩ := run_cons.1 hrun
    rw [List.length_cons] at hsteps ⊢
    have hrest := ih (h.next (by omega) hnext) hrun (by omega)
    rwa [Nat.add_assoc, Nat.add_comm 1, Bool.or_assoc] at hrest

end World.Accounted

/-- What a run starts from nothing with. -/
theorem accounted_run {workspace : Bool} (hrun : run World.next actions (World.fromWorkspace workspace) = some w)
    (hshort : actions.length < 2 ^ 64) : w.Accounted actions.length (actions.any Action.isCleanup) := by
  have h := (accounted_fromWorkspace workspace).run hrun (by omega)
  rwa [Nat.zero_add, Bool.false_or] at h

/-! ## The limits -/

/-- Whatever the windows and threads do, the limits hold, and the counters are what the handles there are make up. -/
theorem preview_limits {workspace : Bool} (hrun : run World.next actions (World.fromWorkspace workspace) = some w)
    (hshort : actions.length < 2 ^ 64) :
    (w.resources.activeCount ≤ maxActivePreviewResources ∧ w.resources.bytes ≤ maxPreviewResourceBytes ∧
      w.resources.retainedOrPendingExternalCount ≤ maxRetainedExternalSessions) ∧
    (w.resources.inFlightCount = w.reservations.length ∧
      w.resources.inFlightBytes = w.reservations.length * maxPreviewEntryBytes) ∧
    (w.resources.leaseCount = w.leases.length ∧ w.resources.leaseBytes = w.leases.sum) ∧
    ∀ id session, w.resources.sessions.lookup id = some session →
      session.pendingExternalUses = w.uses.count ⟨id, session.owner⟩ := by
  have h := accounted_run hrun hshort
  refine ⟨⟨?_, ?_, ?_⟩, ⟨h.inFlightCount, h.inFlightBytes⟩, ⟨h.leaseCount, h.leaseBytes⟩, h.pending⟩
  · rw [Booked.activeCount_eq h]
    exact h.active
  · rw [Booked.bytes_eq h]
    exact h.stored
  · rw [Booked.retainedOrPendingExternalCount_eq]
    exact h.retained

/-- A preview that is written, opened elsewhere, and whose window goes before it has been handed over. -/
def sampleActions : List Action :=
  [.reserve "main" fun _ => .ok (), .write ⟨"main", 0, .held⟩ "file-1" 4096,
    .intoSession ⟨"main", 0, .prepared "file-1" 4096 1⟩, .beginExternalUse "file-1" "main", .releaseWindow "main"]

theorem preview_limits_sample : ∃ w, run World.next sampleActions (World.fromWorkspace true) = some w ∧
    w.resources.bytes = 4096 ∧ w.resources.retainedOrPendingExternalCount = 1 ∧
    w.resources.activeCount ≤ maxActivePreviewResources := by
  have hsome : ((run World.next sampleActions (World.fromWorkspace true)).map fun w =>
      (w.resources.bytes, w.resources.retainedOrPendingExternalCount)) = some (4096, 1) := by decide +kernel
  obtain ⟨w, hrun, heq⟩ := Option.map_eq_some_iff.1 hsome
  obtain ⟨hbytes, hretained⟩ := Prod.mk.inj heq
  exact ⟨w, hrun, hbytes, hretained, (preview_limits hrun (by decide)).1.1⟩

end Squallz.Previews
