/-
The parts of extraction that leave its counters, its reports and its events as they are: calls, checks of the destination,
conflicts and metadata.
-/
import Squallz.Extract.Entries
import Squallz.System.Views

namespace Squallz.Extract

open Squallz.Api Squallz.System Squallz.System.Prog

/-- What can be seen of a state without the world. -/
structure View (H I : Type) where
  sink : ExtractSink H I
  reports : List Progress
  events : List Event

def State.view {W H I : Type} (s : State W H I) : View H I := ⟨s.sink, s.reports, s.events⟩

section

variable {W H I α : Type}

abbrev Untouching (p : Run W H I α) : Prop := Blind State.view p

theorem tryCall_blind {ε : Type} (f : Call W ε α) : Untouching (tryCall f : Run W H I (Except ε α)) :=
  blind_step (fun _ => rfl) fun _ => blind_ret _

theorem call_blind (f : Call W IoError α) : Untouching (call f : Run W H I α) :=
  blind_bind (tryCall_blind f) fun _ => blind_ofExcept _

theorem callRes_blind {ε : Type} (wrap : ε → Fault) (f : Call W ε α) : Untouching (callRes wrap f : Run W H I α) := by
  refine blind_bind (tryCall_blind f) fun r => ?_
  cases r with
  | ok a => exact blind_pure a
  | error e => exact blind_fail _

theorem getSink_blind : Untouching (getSink : Run W H I (ExtractSink H I)) :=
  blind_step (fun _ => rfl) fun _ => blind_ret _

theorem nextSequence_blind : Untouching (nextSequence : Run W H I Nat) := blind_step (fun _ => rfl) fun _ => blind_ret _

theorem onFailure_blind {cleanup : Run W H I Unit} {body : Run W H I α} (hcleanup : Untouching cleanup)
    (hbody : Untouching body) : Untouching (onFailure cleanup body) := by
  refine blind_bind (blind_attempt hbody) fun r => ?_
  cases r with
  | ok a => exact blind_pure a
  | error fault => exact blind_bind (blind_attempt hcleanup) fun _ => blind_fail fault

variable (env : Environment W H I) (opts : ExtractOptions)

theorem checkpoint_blind : Untouching (checkpoint env) := callRes_blind id env.checkpoint

/-! ## Conflicts -/

theorem renamedSiblingFrom_blind (target : DestPath) (left n : Nat) :
    Untouching (renamedSiblingFrom env target left n) := by
  induction left generalizing n with
  | zero => exact blind_fail _
  | succ left ih =>
    refine blind_bind (tryCall_blind _) fun r => ?_
    cases r with
    | ok kind => exact ih (n + 1)
    | error e => exact blind_pure _

theorem resolveConflictPath_blind (target : DestPath) (entry : EntryMeta) :
    Untouching (resolveConflictPath env opts target entry) := by
  refine blind_bind (tryCall_blind _) fun r => ?_
  cases r with
  | error e =>
    simp only
    split
    · exact blind_pure _
    · exact blind_fail _
  | ok kind =>
    simp only
    cases opts.overwrite with
    | overwrite => exact blind_pure _
    | skip => exact blind_pure _
    | renameBoth => exact blind_bind (renamedSiblingFrom_blind env target _ 1) fun _ => blind_pure _
    | ask =>
      simp only
      split
      · refine blind_bind (blind_step (fun _ => rfl) fun _ => blind_ret _) fun decision => ?_
        cases decision with
        | overwrite => exact blind_pure _
        | skip => exact blind_pure _
        | rename name => exact blind_pure _
        | abort => exact blind_fail _
      · exact blind_pure _

/-! ## Staying inside the destination -/

theorem ensureExistingPathInside_blind (canonicalDest path reportedPath : DestPath) :
    Untouching (ensureExistingPathInside env canonicalDest path reportedPath) := by
  refine blind_bind (call_blind _) fun canonical => ?_
  split
  · exact blind_pure _
  · exact blind_fail _

theorem existingAncestor_blind (left : Nat) (path : DestPath) (missing : List String) :
    Untouching (existingAncestor env left path missing) := by
  induction left generalizing path missing with
  | zero => exact blind_fail _
  | succ left ih =>
    refine blind_bind (tryCall_blind _) fun r => ?_
    cases r with
    | ok kind => exact blind_pure _
    | error e =>
      simp only
      split
      · split
        · split
          · exact blind_fail _
          · exact ih _ _
        · exact blind_fail _
      · exact blind_fail _

theorem createMissing_blind (canonicalDest path parent : DestPath) (missing : List String) :
    Untouching (createMissing env canonicalDest path parent missing) := by
  induction missing generalizing parent with
  | nil => exact blind_pure _
  | cons name missing ih =>
    refine blind_bind (tryCall_blind _) fun r => ?_
    have hrest := blind_bind (ensureExistingPathInside_blind env canonicalDest (parent ++ [name]) path)
      fun _ => ih (parent ++ [name])
    cases r with
    | ok u => exact hrest
    | error e =>
      simp only
      split
      · exact hrest
      · exact blind_fail _

theorem ensureParentInside_blind (canonicalDest path : DestPath) :
    Untouching (ensureParentInside env canonicalDest path) :=
  blind_bind (existingAncestor_blind env _ _ _) fun _ =>
    blind_bind (ensureExistingPathInside_blind env _ _ _) fun _ => createMissing_blind env _ _ _ _

theorem validateExistingDirectory_blind (canonicalDest path : DestPath) (kind : FileKind) :
    Untouching (validateExistingDirectory env canonicalDest path kind) := by
  cases kind with
  | symlink => exact blind_fail _
  | dir => exact ensureExistingPathInside_blind env _ _ _
  | file => exact call_blind _
  | other => exact call_blind _

theorem ensureDirectoryInside_blind (canonicalDest path : DestPath) :
    Untouching (ensureDirectoryInside env canonicalDest path) := by
  refine blind_bind (ensureParentInside_blind env _ _) fun _ => blind_bind (tryCall_blind _) fun r => ?_
  cases r with
  | ok kind => exact validateExistingDirectory_blind env _ _ _
  | error e =>
    simp only
    split
    · refine blind_bind (tryCall_blind _) fun r => ?_
      cases r with
      | ok u => exact ensureExistingPathInside_blind env _ _ _
      | error e =>
        simp only
        split
        · exact blind_bind (call_blind _) fun kind => validateExistingDirectory_blind env _ _ _
        · exact blind_fail _
    · exact blind_fail _

/-! ## Staged outputs and metadata -/

theorem createPendingValue_blind (target : DestPath) (create : DestPath → Call W IoError α) (left : Nat) :
    Untouching (createPendingValue env target create left) := by
  induction left with
  | zero => exact blind_fail _
  | succ left ih =>
    refine blind_bind nextSequence_blind fun sequence => blind_bind (tryCall_blind _) fun r => ?_
    cases r with
    | ok value => exact blind_pure _
    | error e =>
      simp only
      split
      · exact ih
      · exact blind_fail _

theorem hardLinkPending_blind (source target : DestPath) : Untouching (hardLinkPending env source target) :=
  blind_bind (createPendingValue_blind env _ _ _) fun _ => blind_pure _

theorem restoreModified_blind (handle : H) (modified : Option SystemTime) :
    Untouching (restoreModified env handle modified) := by
  cases modified with
  | none => exact blind_pure _
  | some modified => exact call_blind _

theorem restorePermissions_blind (handle : H) (mode : Option UInt32) :
    Untouching (restorePermissions env opts handle mode) := by
  unfold restorePermissions
  split
  · exact blind_bind (tryCall_blind _) fun _ => blind_pure _
  · exact blind_pure _

theorem restoreFile_blind (handle : H) (entry : EntryMeta) : Untouching (restoreFile env opts handle entry) :=
  blind_bind (restoreModified_blind env _ _) fun _ => restorePermissions_blind env opts _ _

theorem restoreSymlink_blind (staged destination : DestPath) (modified : Option SystemTime) :
    Untouching (restoreSymlink env staged destination modified) := by
  cases modified with
  | none => exact blind_pure _
  | some modified =>
    refine blind_bind (call_blind _) fun handle => blind_bind (call_blind _) fun link => ?_
    split
    · exact call_blind _
    · exact blind_fail _

theorem newDirectories_blind (root : DestPath) :
    Untouching (DeferredDirectories.new env root) := blind_bind (call_blind _) fun _ => blind_pure _

theorem record_blind [DecidableEq I] (directories : DeferredDirectories H I) (relative : DestPath) (entry : EntryMeta) :
    Untouching (directories.record env relative entry) :=
  blind_bind (call_blind _) fun _ => blind_bind (call_blind _) fun _ => blind_pure _

theorem validatedMaterializedSource_blind (source : DestPath) : Untouching (validatedMaterializedSource env source) := by
  refine blind_bind (tryCall_blind _) fun r => ?_
  cases r with
  | error e =>
    simp only
    split
    · exact blind_pure _
    · exact blind_fail _
  | ok kind =>
    cases kind with
    | symlink => exact blind_fail _
    | file =>
      refine blind_bind (call_blind _) fun canonical => blind_bind getSink_blind fun sink => ?_
      split
      · exact blind_pure _
      · exact blind_fail _
    | dir => exact blind_pure _
    | other => exact blind_pure _

end

end Squallz.Extract
