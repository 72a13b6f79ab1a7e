/-
The preview sessions of the windows: the counters and the table that one lock guards, and each operation on them.
-/
import Squallz.Api.Error
import Squallz.System.Tally
import Mathlib.Data.List.MinMax

namespace Squallz.Previews

open Squallz.Api Squallz.System

def maxPreviewEntryBytes : Nat := 256 * 1024 * 1024
def maxPreviewResourceBytes : Nat := 512 * 1024 * 1024
def maxActivePreviewResources : Nat := 8
def maxRetainedExternalSessions : Nat := 64

/-! ## Failures -/

inductive PreviewFailureKind
  | entryTooLarge
  | activeCapacity
  | retainedExternalCapacity
  | storageCapacity
  | workspaceUnavailable
  | sessionUnavailable
deriving DecidableEq, Repr

namespace PreviewFailureKind

def detail : PreviewFailureKind → String
  | entryTooLarge => "preview entry exceeds the temporary-file limit"
  | activeCapacity => "preview active-session capacity is full"
  | retainedExternalCapacity => "preview external-file capacity is full"
  | storageCapacity => "preview temporary-file storage is full"
  | workspaceUnavailable => "preview workspace is unavailable"
  | sessionUnavailable => "preview session is no longer available"

def key : PreviewFailureKind → String
  | entryTooLarge => "error.preview_entry_too_large"
  | activeCapacity => "error.preview_active_capacity"
  | retainedExternalCapacity => "error.preview_retained_capacity"
  | storageCapacity => "error.preview_storage_capacity"
  | workspaceUnavailable => "error.preview_workspace_unavailable"
  | sessionUnavailable => "error.preview_session_unavailable"

def ofDetail (detail : String) : Option PreviewFailureKind :=
  if detail = entryTooLarge.detail then some entryTooLarge
  else if detail = activeCapacity.detail then some activeCapacity
  else if detail = retainedExternalCapacity.detail then some retainedExternalCapacity
  else if detail = storageCapacity.detail then some storageCapacity
  else if detail = workspaceUnavailable.detail then some workspaceUnavailable
  else if detail = sessionUnavailable.detail then some sessionUnavailable
  else none

end PreviewFailureKind

def previewFailureKind : FormatError → Option PreviewFailureKind
  | .resourceLimitExceeded detail | .other detail => PreviewFailureKind.ofDetail detail
  | _ => none

def previewUnavailable : FormatError := .other PreviewFailureKind.workspaceUnavailable.detail
def sessionUnavailable : FormatError := .other PreviewFailureKind.sessionUnavailable.detail
def previewEntryTooLarge : FormatError := .resourceLimitExceeded PreviewFailureKind.entryTooLarge.detail
def previewActiveCapacity : FormatError := .resourceLimitExceeded PreviewFailureKind.activeCapacity.detail
def previewRetainedCapacity : FormatError := .resourceLimitExceeded PreviewFailureKind.retainedExternalCapacity.detail
def previewStorageCapacity : FormatError := .resourceLimitExceeded PreviewFailureKind.storageCapacity.detail

/-! ## State -/

/-- `u64` and `usize`: sums stop at the largest number. -/
def saturatingAdd (a b : Nat) : Nat := min (a + b) (2 ^ 64 - 1)

structure PreviewSession where
  owner : String
  size : Nat
  sequence : Nat
  stickyExternalPin : Bool
  pendingExternalUses : Nat
  releaseRequested : Bool
deriving DecidableEq, Repr

def PreviewSession.isPinned (session : PreviewSession) : Bool :=
  session.stickyExternalPin || decide (0 < session.pendingExternalUses)

/-- What the lock guards; the key of a session is the id of its file. -/
structure PreviewResources where
  sessions : Table String PreviewSession
  inFlightCount : Nat
  inFlightBytes : Nat
  leaseCount : Nat
  leaseBytes : Nat
  ownerGeneration : String → Nat
  closing : Bool

/-- How closing the file of a session ends. -/
abbrev Closes := String → Except FormatError Unit

def sessionBytes (sessions : Table String PreviewSession) : Nat :=
  sessions.entries.foldl (fun total e => saturatingAdd total e.2.size) 0

namespace PreviewResources

def default : PreviewResources := ⟨∅, 0, 0, 0, 0, fun _ => 0, false⟩

def activeCount (r : PreviewResources) : Nat :=
  saturatingAdd (saturatingAdd (r.sessions.entries.filter fun e => !e.2.stickyExternalPin).length r.inFlightCount)
    r.leaseCount

def retainedOrPendingExternalCount (r : PreviewResources) : Nat :=
  (r.sessions.entries.filter fun e => e.2.stickyExternalPin || decide (0 < e.2.pendingExternalUses)).length

def bytes (r : PreviewResources) : Nat := saturatingAdd (saturatingAdd (sessionBytes r.sessions) r.inFlightBytes) r.leaseBytes

/-! ## Reservations -/

def activeCapacityFull (r : PreviewResources) : Bool := decide (maxActivePreviewResources ≤ r.activeCount)

def storageCapacityFull (r : PreviewResources) : Bool :=
  decide (maxPreviewResourceBytes < saturatingAdd r.bytes maxPreviewEntryBytes)

def hasRoom (r : PreviewResources) : Bool := !r.activeCapacityFull && !r.storageCapacityFull

/-- The unpinned session of the least sequence. -/
def candidate (r : PreviewResources) : Option String :=
  ((r.sessions.entries.filter fun e => !e.2.isPinned).argmin (·.2.sequence)).map (·.1)

def capacityError (r : PreviewResources) : FormatError :=
  if r.storageCapacityFull then previewStorageCapacity else previewActiveCapacity

def remove (r : PreviewResources) (id : String) : PreviewResources := { r with sessions := r.sessions.erase id }

/-- The loop of `reserve`: a round for each session that there is, and none to remove after the last. -/
def makeRoom (closes : Closes) : Nat → PreviewResources → PreviewResources × Except FormatError Unit
  | 0, r => (r, if r.hasRoom then .ok () else .error r.capacityError)
  | rounds + 1, r =>
    if r.hasRoom then (r, .ok ())
    else
      match r.candidate with
      | none => (r, .error r.capacityError)
      | some id =>
        match closes id with
        | .error error => (r.remove id, .error error)
        | .ok () => makeRoom closes rounds (r.remove id)

/-- `reserve` after the check of the workspace: the generation of the owner the reservation is for. -/
def reserve (closes : Closes) (owner : String) (r : PreviewResources) : PreviewResources × Except FormatError Nat :=
  if r.closing then (r, .error previewUnavailable)
  else
    match makeRoom closes r.sessions.entries.length r with
    | (r, .error error) => (r, .error error)
    | (r, .ok ()) =>
      ({ r with
        inFlightCount := saturatingAdd r.inFlightCount 1
        inFlightBytes := saturatingAdd r.inFlightBytes maxPreviewEntryBytes }, .ok (r.ownerGeneration owner))

def releaseReservationUsage (r : PreviewResources) : PreviewResources :=
  { r with
    inFlightCount := r.inFlightCount - 1
    inFlightBytes := r.inFlightBytes - maxPreviewEntryBytes }

/-- `into_session` of a reservation of an owner and a generation. -/
def intoSession (owner : String) (generation : Nat) (id : String) (session : PreviewSession) (r : PreviewResources) :
    PreviewResources × Except FormatError Unit :=
  if maxPreviewEntryBytes < session.size then (r, .error previewEntryTooLarge)
  else if r.closing || r.ownerGeneration owner != generation then (r, .error sessionUnavailable)
  else if (r.sessions.lookup id).isSome then (r, .error (.other "preview session identifier collision"))
  else
    let r := r.releaseReservationUsage
    ({ r with sessions := r.sessions.insert id session }, .ok ())

/-- `into_lease` of a reservation of an owner and a generation. -/
def intoLease (owner : String) (generation size : Nat) (r : PreviewResources) :
    PreviewResources × Except FormatError Unit :=
  if maxPreviewEntryBytes < size then (r, .error previewEntryTooLarge)
  else if r.closing || r.ownerGeneration owner != generation then (r, .error sessionUnavailable)
  else
    let r := r.releaseReservationUsage
    ({ r with
      leaseCount := saturatingAdd r.leaseCount 1
      leaseBytes := saturatingAdd r.leaseBytes size }, .ok ())

def dropLease (size : Nat) (r : PreviewResources) : PreviewResources :=
  { r with
    leaseCount := r.leaseCount - 1
    leaseBytes := r.leaseBytes - size }

/-! ## Sessions -/

def sessionForOwner (r : PreviewResources) (id owner : String) : Except FormatError PreviewSession :=
  match r.sessions.lookup id with
  | some session => if session.owner = owner then .ok session else .error sessionUnavailable
  | none => .error sessionUnavailable

/-- The locked section of `begin_external_use`. -/
def beginExternalUse (id owner : String) (r : PreviewResources) : PreviewResources × Except FormatError Unit :=
  if r.closing then (r, .error sessionUnavailable)
  else
    match r.sessionForOwner id owner with
    | .error error => (r, .error error)
    | .ok session =>
      let needsExternalSlot := !session.stickyExternalPin && decide (session.pendingExternalUses = 0)
      if needsExternalSlot && decide (maxRetainedExternalSessions ≤ r.retainedOrPendingExternalCount) then
        (r, .error previewRetainedCapacity)
      else
        let session := { session with pendingExternalUses := saturatingAdd session.pendingExternalUses 1 }
        ({ r with sessions := r.sessions.insert id session }, .ok ())

/-- `finish` of an external use, with whether the file has been handed over. -/
def finish (id owner : String) (succeeded : Bool) (r : PreviewResources) : PreviewResources :=
  match r.sessions.lookup id with
  | none => r
  | some session =>
    if session.owner = owner then
      let session := { session with
        pendingExternalUses := session.pendingExternalUses - 1
        stickyExternalPin := session.stickyExternalPin || succeeded }
      let r := { r with sessions := r.sessions.insert id session }
      if session.releaseRequested && !session.isPinned then r.remove id else r
    else r

/-- `release`: whether the session is gone. -/
def release (closes : Closes) (id owner : String) (r : PreviewResources) :
    PreviewResources × Except FormatError Bool :=
  match r.sessionForOwner id owner with
  | .error error => (r, .error error)
  | .ok session =>
    if session.isPinned then
      ({ r with sessions := r.sessions.insert id { session with releaseRequested := true } }, .ok false)
    else
      match closes id with
      | .error error => (r.remove id, .error error)
      | .ok () => (r.remove id, .ok true)

/-- A session of a window that goes. -/
def requestRelease (owner : String) (session : PreviewSession) : PreviewSession :=
  if session.owner = owner then { session with releaseRequested := true } else session

/-- `release_window`: how many sessions are gone. -/
def releaseWindow (owner : String) (r : PreviewResources) : PreviewResources × Nat :=
  let nextGeneration := saturatingAdd (r.ownerGeneration owner) 1
  let ids := (r.sessions.entries.filter fun e => decide (e.2.owner = owner) && !e.2.isPinned).map (·.1)
  ({ r with
    ownerGeneration := fun o => if o = owner then nextGeneration else r.ownerGeneration o
    sessions := Table.eraseAll ids (Table.mapValues (requestRelease owner) r.sessions) }, ids.length)

def beginShutdown (r : PreviewResources) : PreviewResources := { r with closing := true }

def cleanup (r : PreviewResources) : PreviewResources := { r with closing := true, sessions := ∅ }

end PreviewResources

/-! ## Failures are told apart -/

/-- Each failure of the sessions is reported as the kind it is of. -/
theorem previewFailureKind_detail (kind : PreviewFailureKind) :
    previewFailureKind (.other kind.detail) = some kind ∧
      previewFailureKind (.resourceLimitExceeded kind.detail) = some kind := by
  cases kind <;> exact ⟨by decide +kernel, by decide +kernel⟩

end Squallz.Previews
