/-
Files that are written or not at all: what a write of a file that fails leaves on the disk.
-/
import Squallz.Extract.Disk
import Squallz.System.Views

namespace Squallz.Extract

open Squallz.Api Squallz.System Squallz.System.Prog

/-! ## Calls -/

namespace Disk

theorem attempt_error {α : Type} {change : Disk → Except IoError (α × Disk)} {disk disk' : Disk} {e : IoError}
    (h : attempt change disk = (.error e, disk')) : disk' = { disk with calls := disk.calls + 1 } := by
  unfold attempt at h
  simp only at h
  split at h
  · cases h
    rfl
  · split at h
    · cases h
    · cases h
      rfl

theorem attempt_ok {α : Type} {change : Disk → Except IoError (α × Disk)} {disk disk' : Disk} {a : α}
    (h : attempt change disk = (.ok a, disk')) : change { disk with calls := disk.calls + 1 } = .ok (a, disk') := by
  unfold attempt at h
  simp only at h
  split at h
  · cases h
  · split at h
    · rename_i hchange
      cases h
      exact hchange
    · cases h

end Disk

section

variable {I α β : Type} {rest : Environment Disk Nat I} {opts : ExtractOptions} {s : State Disk Nat I}

/-! ## What can be seen of a disk -/

/-- The entries and contents of a disk, the removals that it has refused, and the bytes that are reported. -/
structure Tree where
  entries : DestPath → Option Node
  contents : Nat → List UInt8
  next : Nat
  stuck : List DestPath
  outputBytes : UInt64

def treeOf (disk : Disk) (outputBytes : UInt64) : Tree :=
  ⟨disk.entries, disk.contents, disk.next, disk.stuck, outputBytes⟩

def State.tree (s : State Disk Nat I) : Tree := treeOf s.world s.sink.report.outputBytes

abbrev Leaving (p : Run Disk Nat I α) : Prop := Blind State.tree p

theorem tryCall_leaves {ε : Type} {f : Call Disk ε α} {P : Except ε α → State Disk Nat I → Prop} {F : State Disk Nat I → Prop}
    (h : ∀ r disk, f s.world = (r, disk) → P r { s with world := disk }) :
    (tryCall f : Run Disk Nat I (Except ε α)).Leaves P F s :=
  leaves_step (leaves_pure (h _ _ rfl))

theorem run_call (f : Call Disk IoError α) :
    (call f : Run Disk Nat I α).run s = (ofIo (f s.world).1, { s with world := (f s.world).2 }) := run_ofExcept _

theorem call_leaves {f : Call Disk IoError α} {P : α → State Disk Nat I → Prop} {F : State Disk Nat I → Prop}
    (hok : ∀ a disk, f s.world = (.ok a, disk) → P a { s with world := disk })
    (herror : ∀ e disk, f s.world = (.error e, disk) → F { s with world := disk }) :
    (call f : Run Disk Nat I α).Leaves P F s := by
  unfold Leaves
  rw [run_call]
  rcases hf : f s.world with ⟨r, disk⟩
  cases r with
  | ok a =>
    constructor
    · rintro b t hrun
      cases hrun
      exact hok a disk hf
    · rintro e t hrun
      cases hrun
  | error e =>
    constructor
    · rintro a t hrun
      cases hrun
    · rintro e' t hrun
      cases hrun
      exact herror e disk hf

/-! ## Parts that change no file -/

theorem tryCall_leaving {ε : Type} {f : Call Disk ε α} (h : ∀ disk n, treeOf (f disk).2 n = treeOf disk n) :
    Leaving (tryCall f : Run Disk Nat I (Except ε α)) := blind_step (fun s => h s.world _) fun _ => blind_ret _

theorem call_leaving {f : Call Disk IoError α} (h : ∀ disk n, treeOf (f disk).2 n = treeOf disk n) :
    Leaving (call f : Run Disk Nat I α) := blind_bind (tryCall_leaving h) fun _ => blind_ofExcept _

theorem modifySink_leaving {f : ExtractSink Nat I → ExtractSink Nat I}
    (h : ∀ sink, (f sink).report.outputBytes = sink.report.outputBytes) : Leaving (modifySink f : Run Disk Nat I Unit) :=
  blind_step (fun s => congrArg (treeOf s.world) (h s.sink)) fun _ => blind_ret _

theorem addDone_leaving (n : UInt64) : Leaving (addDone n : Run Disk Nat I Unit) := modifySink_leaving fun _ => rfl

theorem recordProblem_leaving : Leaving (recordProblem : Run Disk Nat I Unit) := modifySink_leaving fun _ => rfl

theorem getSink_leaving : Leaving (getSink : Run Disk Nat I (ExtractSink Nat I)) :=
  blind_step (fun _ => rfl) fun _ => blind_ret _

theorem log_leaving (event : Event) : Leaving (log event : Run Disk Nat I Unit) :=
  blind_step (fun _ => rfl) fun _ => blind_ret _

theorem reportProgress_leaving (path : EntryPath) (entry : Option (UInt64 × UInt64)) :
    Leaving (reportProgress path entry : Run Disk Nat I Unit) :=
  blind_bind getSink_leaving fun _ => blind_step (fun _ => rfl) fun _ => blind_ret _

theorem charge_leaving (f : LimitsAccountant → Except FormatError α × LimitsAccountant) :
    Leaving (charge f : Run Disk Nat I α) := by
  refine blind_bind getSink_leaving fun sink => blind_bind (modifySink_leaving fun _ => rfl) fun _ => ?_
  cases (f sink.accountant).1 with
  | ok a => exact blind_pure a
  | error e => exact blind_fail _

theorem quiet_tree (disk : Disk) (n : UInt64) : treeOf (Disk.quiet disk).2 n = treeOf disk n := by
  unfold Disk.quiet Disk.attempt
  simp only
  split
  · rfl
  · rfl

theorem checkpoint_leaving : Leaving (checkpoint (onDisk rest)) := by
  refine blind_bind (tryCall_leaving fun disk n => ?_) fun r => ?_
  · show treeOf (Disk.checkpoint disk).2 n = treeOf disk n
    unfold Disk.checkpoint
    simp only
    split
    · rfl
    · rfl
  · cases r with
    | ok u => exact blind_pure u
    | error e => exact blind_fail _

theorem restoreFile_leaving (handle : Nat) (entry : EntryMeta) : Leaving (restoreFile (onDisk rest) opts handle entry) := by
  refine blind_bind ?_ fun _ => ?_
  · unfold restoreModified
    split
    · exact call_leaving quiet_tree
    · exact blind_pure _
  · unfold restorePermissions
    split
    · exact blind_bind (tryCall_leaving quiet_tree) fun _ => blind_pure _
    · exact blind_pure _

theorem takePendingOutput_leaving (outPath : DestPath) :
    Leaving (takePendingOutput outPath : Run Disk Nat I ResolvedOutput) :=
  blind_bind getSink_leaving fun _ => blind_bind (modifySink_leaving fun _ => rfl) fun _ => blind_pure _

/-! ## While a file is staged -/

/-- The disk is as it was, but for a new file that is staged. -/
structure Staged (before : Tree) (staged : DestPath) (inode : Nat) (tree : Tree) : Prop where
  entries_eq : tree.entries = Function.update before.entries staged (some (.file inode))
  vacant : before.entries staged = none
  fresh : before.next ≤ inode
  next_le : before.next ≤ tree.next
  contents_eq : ∀ i < before.next, tree.contents i = before.contents i
  stuck_eq : tree.stuck = before.stuck
  outputBytes_eq : tree.outputBytes = before.outputBytes

/-- The disk is as it was, but for a file that may be staged, and for the target where nothing was. -/
structure Beside (before : Tree) (outPath staged : DestPath) (tree : Tree) : Prop where
  entries_eq : ∀ path, path ≠ staged → path ≠ outPath → tree.entries path = before.entries path
  target_eq : before.entries outPath ≠ none → tree.entries outPath = before.entries outPath
  vacant : before.entries staged = none
  removable : tree.entries staged ≠ some .dir
  contents_eq : ∀ i < before.next, tree.contents i = before.contents i
  stuck_eq : ∃ refused, tree.stuck = refused ++ before.stuck
  outputBytes_eq : tree.outputBytes = before.outputBytes

/-- The disk is as it was, but for files whose removal has been refused, and for the target where nothing was. -/
structure Restored (before : Tree) (outPath : DestPath) (tree : Tree) : Prop where
  entries_eq : ∃ refused, tree.stuck = refused ++ before.stuck ∧
    ∀ path, path ≠ outPath → tree.entries path = before.entries path ∨ path ∈ refused
  target_eq : before.entries outPath ≠ none → tree.entries outPath = before.entries outPath
  contents_eq : ∀ i < before.next, tree.contents i = before.contents i
  outputBytes_eq : tree.outputBytes = before.outputBytes

variable {before tree : Tree} {outPath staged : DestPath} {inode : Nat}

theorem Staged.beside (h : Staged before staged inode tree) : Beside before outPath staged tree where
  entries_eq := fun path hne _ => by rw [h.entries_eq, Function.update_of_ne hne]
  target_eq := fun hsome => by
    rw [h.entries_eq, Function.update_of_ne]
    rintro rfl
    exact hsome h.vacant
  vacant := h.vacant
  removable := by
    rw [h.entries_eq, Function.update_self]
    exact fun heq => by cases heq
  contents_eq := h.contents_eq
  stuck_eq := ⟨[], h.stuck_eq⟩
  outputBytes_eq := h.outputBytes_eq

theorem writeAll_staged {disk disk' : Disk} {n : UInt64} {bytes : List UInt8} {r : Except IoError Unit}
    (h : Staged before staged inode (treeOf disk n)) (hwrite : Disk.writeAll inode bytes disk = (r, disk')) :
    Staged before staged inode (treeOf disk' n) := by
  have happend (bytes : List UInt8) : Staged before staged inode
      (treeOf (Disk.append { disk with calls := disk.calls + 1 } inode bytes) n) := {
    h with
    contents_eq := fun i hi => by
      have hne : i ≠ inode := Nat.ne_of_lt (Nat.lt_of_lt_of_le hi h.fresh)
      exact (Function.update_of_ne hne _ _).trans (h.contents_eq i hi) }
  unfold Disk.writeAll at hwrite
  simp only at hwrite
  split at hwrite
  · cases hwrite
    exact happend _
  · cases hwrite
    exact happend _

theorem copyChunks_staged {entry : EntryMeta} {entryStart written : UInt64} {data : Stream}
    (h : Staged before staged inode s.tree) :
    (copyChunks (onDisk rest) entry staged inode entryStart written data).Leaves
      (fun _ t => Staged before staged inode t.tree) (fun t => Staged before staged inode t.tree) s := by
  induction data generalizing s written with
  | nil => exact checkpoint_leaving.leaves_bind (fun t ht => ht ▸ h) fun _ t ht => leaves_pure (ht ▸ h)
  | cons read data ih =>
    cases read with
    | error e => exact checkpoint_leaving.leaves_bind (fun t ht => ht ▸ h) fun _ t ht => leaves_pure (ht ▸ h)
    | ok chunk =>
      refine checkpoint_leaving.leaves_bind (fun t ht => ht ▸ h) fun _ t ht => ?_
      rw [← ht] at h
      split
      · exact leaves_pure h
      · refine (charge_leaving _).leaves_bind (fun u hu => hu ▸ h) fun written u hu => ?_
        rw [← hu] at h
        refine leaves_bind (P := fun _ t => Staged before staged inode t.tree) (call_leaves
          (fun _ disk hwrite => writeAll_staged h hwrite) fun _ disk hwrite => writeAll_staged h hwrite) fun _ v hv => ?_
        refine (log_leaving _).leaves_bind (fun w hw => hw ▸ hv) fun _ w hw => ?_
        refine (addDone_leaving _).leaves_bind (fun x hx => hx ▸ hw ▸ hv) fun _ x hx => ?_
        refine getSink_leaving.leaves_bind (fun y hy => hy ▸ hx ▸ hw ▸ hv) fun _ y hy => ?_
        refine (reportProgress_leaving _ _).leaves_bind (fun z hz => hz ▸ hy ▸ hx ▸ hw ▸ hv) fun _ z hz => ?_
        exact ih (hz ▸ hy ▸ hx ▸ hw ▸ hv)

/-! ## Publishing -/

/-- A call that is refused, or finds that it cannot be done, has changed nothing. -/
theorem attempt_error_tree {change : Disk → Except IoError (α × Disk)} {disk disk' : Disk} {e : IoError} {n : UInt64}
    (h : Disk.attempt change disk = (.error e, disk')) : treeOf disk' n = treeOf disk n := by
  rw [Disk.attempt_error h]
  rfl

/-- A removal leaves every other entry and all contents. -/
theorem removeFile_tree {path : DestPath} {disk disk' : Disk} {n : UInt64} {r : Except IoError Unit}
    (h : Disk.removeFile path disk = (r, disk')) (hdir : disk.entries path ≠ some .dir) :
    treeOf disk' n = { treeOf disk n with entries := Function.update disk.entries path none } ∨
      treeOf disk' n = { treeOf disk n with stuck := path :: disk.stuck } := by
  unfold Disk.removeFile at h
  simp only at h
  split at h
  · cases h
    exact .inr rfl
  · split at h
    · rename_i hnone
      cases h
      refine .inl ?_
      rw [← hnone, Function.update_eq_self]
      rfl
    · rename_i hsome
      exact absurd hsome hdir
    · cases h
      exact .inl rfl

/-- Where a change may happen beside a target that is there. -/
def Free (before : Tree) (outPath staged path : DestPath) : Prop :=
  path = staged ∨ path = outPath ∧ before.entries outPath = none

theorem Beside.changed {tree' : Tree} {path : DestPath} (h : Beside before outPath staged tree)
    (hfree : Free before outPath staged path) (hentries : ∀ other, other ≠ path → tree'.entries other = tree.entries other)
    (hremovable : tree'.entries staged ≠ some .dir)
    (hcontents : ∀ i < before.next, tree'.contents i = tree.contents i)
    (hstuck : ∃ refused, tree'.stuck = refused ++ tree.stuck) (hbytes : tree'.outputBytes = tree.outputBytes) :
    Beside before outPath staged tree' where
  entries_eq := fun other hstaged houtPath => by
    have hne : other ≠ path := by
      rcases hfree with rfl | ⟨rfl, -⟩
      · exact hstaged
      · exact houtPath
    exact (hentries other hne).trans (h.entries_eq other hstaged houtPath)
  target_eq := fun hsome => by
    have hne : outPath ≠ path := by
      rcases hfree with rfl | ⟨rfl, hnone⟩
      · rintro rfl
        exact hsome h.vacant
      · exact absurd hnone hsome
    exact (hentries outPath hne).trans (h.target_eq hsome)
  vacant := h.vacant
  removable := hremovable
  contents_eq := fun i hi => (hcontents i hi).trans (h.contents_eq i hi)
  stuck_eq := by
    obtain ⟨refused, hrefused⟩ := h.stuck_eq
    obtain ⟨others, hothers⟩ := hstuck
    exact ⟨others ++ refused, by rw [hothers, hrefused, List.append_assoc]⟩
  outputBytes_eq := hbytes.trans h.outputBytes_eq

theorem Beside.removed {path : DestPath} {disk disk' : Disk} {n : UInt64} {r : Except IoError Unit}
    (h : Beside before outPath staged (treeOf disk n)) (hfree : Free before outPath staged path)
    (hdir : disk.entries path ≠ some .dir) (hremove : Disk.removeFile path disk = (r, disk')) :
    Beside before outPath staged (treeOf disk' n) := by
  rcases removeFile_tree hremove hdir with htree | htree
  · rw [htree]
    refine h.changed hfree (fun other hne => Function.update_of_ne hne _ _) ?_ (fun _ _ => rfl) ⟨[], rfl⟩ rfl
    show Function.update disk.entries path none staged ≠ some .dir
    rcases eq_or_ne staged path with rfl | hne
    · rw [Function.update_self]
      exact fun heq => by cases heq
    · rw [Function.update_of_ne hne]
      exact h.removable
  · rw [htree]
    exact h.changed hfree (fun _ _ => rfl) h.removable (fun _ _ => rfl) ⟨[path], rfl⟩ rfl

theorem hardLink_tree {source target : DestPath} {disk disk' : Disk} {n : UInt64}
    (h : Disk.hardLink source target disk = (.ok (), disk')) : ∃ node, disk.entries source = some node ∧
      disk.entries target = none ∧
      treeOf disk' n = { treeOf disk n with entries := Function.update disk.entries target (some node) } := by
  have hchange := Disk.attempt_ok h
  simp only at hchange
  split at hchange
  · cases hchange
  · rename_i node hnode
    split at hchange
    · cases hchange
    · rename_i hnone
      cases hchange
      exact ⟨node, hnode, hnone, rfl⟩

theorem createNew_tree {path : DestPath} {disk disk' : Disk} {n : UInt64} {inode : Nat}
    (h : Disk.createNew path disk = (.ok inode, disk')) : inode = disk.next ∧ disk.entries path = none ∧
      treeOf disk' n = { treeOf disk n with
        entries := Function.update disk.entries path (some (.file disk.next))
        contents := Function.update disk.contents disk.next []
        next := disk.next + 1 } := by
  have hchange := Disk.attempt_ok h
  simp only at hchange
  split at hchange
  · cases hchange
  · rename_i hnone
    cases hchange
    exact ⟨rfl, hnone, rfl⟩

theorem Staged.entries_target {disk : Disk} {n : UInt64} (h : Staged before staged inode (treeOf disk n))
    (hnone : disk.entries outPath = none) : outPath ≠ staged ∧ before.entries outPath = none := by
  have hentries : disk.entries = Function.update before.entries staged (some (.file inode)) := h.entries_eq
  have hne : outPath ≠ staged := by
    rintro rfl
    rw [hentries, Function.update_self] at hnone
    cases hnone
  refine ⟨hne, ?_⟩
  rw [hentries, Function.update_of_ne hne] at hnone
  exact hnone

theorem log_published (before : Tree) (source target : DestPath) (t : State Disk Nat I) :
    (log (.published source target) : Run Disk Nat I Unit).Leaves (fun _ _ => True)
      (fun t => Beside before target source t.tree) t := leaves_step (leaves_pure trivial)

theorem rename_error {source target : DestPath} {disk disk' : Disk} {e : IoError} (n : UInt64)
    (h : Disk.rename source target disk = (.error e, disk')) : treeOf disk' n = treeOf disk n := attempt_error_tree h

theorem hardLink_error {source target : DestPath} {disk disk' : Disk} {e : IoError} (n : UInt64)
    (h : Disk.hardLink source target disk = (.error e, disk')) : treeOf disk' n = treeOf disk n := attempt_error_tree h

theorem createNew_error {path : DestPath} {disk disk' : Disk} {e : IoError} (n : UInt64)
    (h : Disk.createNew path disk = (.error e, disk')) : treeOf disk' n = treeOf disk n := attempt_error_tree h

/-- What is done on failure starts where the program has failed. -/
theorem onFailure_leaves {cleanup : Run Disk Nat I Unit} {body : Run Disk Nat I α} {P : α → State Disk Nat I → Prop}
    {F G : State Disk Nat I → Prop} (hbody : body.Leaves P F s)
    (hcleanup : ∀ t, F t → cleanup.Leaves (fun _ u => G u) G t) : (onFailure cleanup body).Leaves P G s := by
  refine leaves_bind (leaves_attempt hbody) fun r t ht => ?_
  cases r with
  | ok a => exact leaves_pure ht
  | error fault =>
    refine leaves_bind (leaves_attempt (hcleanup t ht)) fun r u hu => ?_
    cases r with
    | ok a => exact leaves_fail hu
    | error e => exact leaves_fail hu

/-- A name that a hard link or a new file has just got was vacant. -/
theorem Staged.linked {disk : Disk} {n : UInt64} {tree' : Tree} (h : Staged before staged inode (treeOf disk n))
    (hnone : disk.entries outPath = none) (hentries : ∀ other, other ≠ outPath → tree'.entries other = disk.entries other)
    (hcontents : ∀ i < disk.next, tree'.contents i = disk.contents i) (hstuck : tree'.stuck = disk.stuck)
    (hbytes : tree'.outputBytes = n) : Beside before outPath staged tree' ∧ Free before outPath staged outPath := by
  obtain ⟨hne, hvacant⟩ := h.entries_target hnone
  have hfree : Free before outPath staged outPath := .inr ⟨rfl, hvacant⟩
  refine ⟨h.beside.changed hfree hentries ?_ ?_ ⟨[], hstuck⟩ hbytes, hfree⟩
  · rw [hentries staged hne.symm]
    have hbeside : Beside before outPath staged (treeOf disk n) := h.beside
    exact hbeside.removable
  · exact fun i hi => hcontents i (Nat.lt_of_lt_of_le hi h.next_le)

/-- The disk after the hard link of a commit: the target may be there, or nothing has changed. -/
def AfterLink (before : Tree) (outPath staged : DestPath) (inode : Nat) (r : Except IoError Unit) (tree : Tree) : Prop :=
  (r.isOk = true → Beside before outPath staged tree) ∧ (r.isOk = false → Staged before staged inode tree)

/-- A commit that fails leaves the disk beside what it was. -/
theorem commit_beside {replaceExisting : Bool} (h : Staged before staged inode s.tree) :
    (commit (onDisk rest) staged outPath replaceExisting .file).Leaves (fun _ _ => True)
      (fun t => Beside before outPath staged t.tree) s := by
  unfold commit
  split
  · refine leaves_bind (call_leaves (P := fun _ _ => True) (fun _ _ _ => trivial)
      fun e disk hf => ?_) fun _ t _ => log_published _ _ _ t
    show Beside before outPath staged (treeOf disk _)
    rw [rename_error _ hf]
    exact h.beside
  · rw [if_neg (fun hne => hne rfl)]
    refine leaves_bind (P := fun r t => AfterLink before outPath staged inode r t.tree) (tryCall_leaves fun r disk hf => ?_)
      fun r t ht => ?_
    · cases r with
      | ok u =>
        obtain ⟨node, -, hnone, htree⟩ := @hardLink_tree _ _ _ _ s.sink.report.outputBytes hf
        have hentries : disk.entries = Function.update s.world.entries outPath (some node) := congrArg Tree.entries htree
        have hcontents : disk.contents = s.world.contents := congrArg Tree.contents htree
        refine ⟨fun _ => (h.linked hnone (fun other hne => ?_) (fun i _ => ?_) (congrArg Tree.stuck htree) rfl).1,
          fun hok => by cases hok⟩
        · exact (congrFun hentries other).trans (Function.update_of_ne hne _ _)
        · exact congrFun hcontents i
      | error e =>
        refine ⟨fun hok => (by cases hok), fun _ => ?_⟩
        show Staged before staged inode (treeOf disk _)
        rw [hardLink_error _ hf]
        exact h
    · cases r with
      | ok u =>
        have ht := ht.1 rfl
        refine (log_leaving _).leaves_bind (fun u hu => hu ▸ ht) fun _ u hu => ?_
        have hu : Beside before outPath staged u.tree := hu ▸ ht
        exact call_leaves (fun _ _ _ => trivial) fun e disk hf => hu.removed (.inl rfl) hu.removable hf
      | error e =>
        have ht := ht.2 rfl
        simp only
        split
        · exact leaves_fail ht.beside
        · refine leaves_bind (P := fun _ t => Beside before outPath staged t.tree ∧ Free before outPath staged outPath ∧
            t.world.entries outPath ≠ some .dir) (call_leaves (fun i disk hf => ?_) fun e disk hf => ?_) fun _ u hu => ?_
          · obtain ⟨-, hnone, htree⟩ := @createNew_tree _ _ _ t.sink.report.outputBytes _ hf
            have hentries : disk.entries = Function.update t.world.entries outPath (some (.file t.world.next)) :=
              congrArg Tree.entries htree
            have hcontents : disk.contents = Function.update t.world.contents t.world.next [] :=
              congrArg Tree.contents htree
            have hlinked := @Staged.linked before outPath staged inode t.world t.sink.report.outputBytes
              (treeOf disk t.sink.report.outputBytes) ht hnone
              (fun other hne => (congrFun hentries other).trans (Function.update_of_ne hne _ _))
              (fun j hj => (congrFun hcontents j).trans (Function.update_of_ne (Nat.ne_of_lt hj) _ _))
              (congrArg Tree.stuck htree) rfl
            refine ⟨hlinked.1, hlinked.2, ?_⟩
            show disk.entries outPath ≠ some .dir
            rw [hentries, Function.update_self]
            exact fun heq => by cases heq
          · show Beside before outPath staged (treeOf disk _)
            rw [createNew_error _ hf]
            exact ht.beside
          · obtain ⟨hbeside, hfree, hdir⟩ := hu
            refine leaves_bind (P := fun _ _ => True) (onFailure_leaves (call_leaves (fun _ _ _ => trivial)
              (F := fun v => Beside before outPath staged v.tree ∧ v.world.entries outPath ≠ some .dir)
              fun e disk hf => ?_) ?_) fun _ v _ => log_published _ _ _ v
            · have htree := rename_error u.sink.report.outputBytes hf
              refine ⟨?_, ?_⟩
              · show Beside before outPath staged (treeOf disk _)
                rw [htree]
                exact hbeside
              · have hentries : disk.entries = u.world.entries := congrArg Tree.entries htree
                exact hentries ▸ hdir
            · rintro v ⟨hv, hvdir⟩
              exact leaves_bind (P := fun _ w => Beside before outPath staged w.tree) (tryCall_leaves fun r disk hf =>
                hv.removed hfree hvdir hf) fun _ w hw => leaves_pure hw

/-! ## Dropping and creating a staging file -/

theorem restored_refl (before : Tree) (outPath : DestPath) : Restored before outPath before :=
  ⟨⟨[], rfl, fun _ _ => .inl rfl⟩, fun _ => rfl, fun _ _ => rfl, rfl⟩

/-- A staging file that is dropped is gone, or its removal has been refused. -/
theorem discard_restored {F : State Disk Nat I → Prop} (h : Beside before outPath staged s.tree) :
    (discard (onDisk rest) staged).Leaves (fun _ t => Restored before outPath t.tree) F s := by
  refine leaves_bind (P := fun _ t => Beside before outPath staged t.tree) (leaves_step (leaves_pure h)) fun _ t ht => ?_
  refine leaves_bind (P := fun _ u => Restored before outPath u.tree) (tryCall_leaves fun r disk hf => ?_) fun _ u hu =>
    leaves_pure hu
  obtain ⟨refused, hrefused⟩ := ht.stuck_eq
  show Restored before outPath (treeOf disk _)
  rcases removeFile_tree hf ht.removable with htree | htree
  · rw [htree]
    refine ⟨⟨refused, hrefused, fun path hne => .inl ?_⟩, fun hsome => ?_, ht.contents_eq, ht.outputBytes_eq⟩
    · rcases eq_or_ne path staged with rfl | hstaged
      · exact (Function.update_self _ _ _).trans ht.vacant.symm
      · exact (Function.update_of_ne hstaged _ _).trans (ht.entries_eq path hstaged hne)
    · have hne : outPath ≠ staged := by
        rintro rfl
        exact hsome ht.vacant
      exact (Function.update_of_ne hne _ _).trans (ht.target_eq hsome)
  · rw [htree]
    refine ⟨⟨staged :: refused, congrArg (staged :: ·) hrefused, fun path hne => ?_⟩, ht.target_eq, ht.contents_eq,
      ht.outputBytes_eq⟩
    rcases eq_or_ne path staged with rfl | hstaged
    · exact .inr List.mem_cons_self
    · exact .inl (ht.entries_eq path hstaged hne)

theorem createPendingValue_staged {target : DestPath} (left : Nat) (h : s.tree = before) :
    (createPendingValue (onDisk rest) target (onDisk rest).createNew left).Leaves
      (fun pending t => Staged before pending.1 pending.2 t.tree) (fun t => t.tree = before) s := by
  induction left generalizing s with
  | zero => exact leaves_fail h
  | succ left ih =>
    refine leaves_bind (P := fun _ t => t.tree = before) (leaves_step (leaves_pure h)) fun sequence t ht => ?_
    generalize target.dropLast ++ [s!".squallz-extract-{(onDisk rest).processId}-{sequence}.tmp"] = path
    refine leaves_bind (P := fun r u => match r with
      | .ok inode => Staged before path inode u.tree
      | .error _ => u.tree = before) (tryCall_leaves fun r disk hf => ?_) fun r u hu => ?_
    · cases r with
      | ok inode =>
        obtain ⟨rfl, hnone, htree⟩ := @createNew_tree _ _ _ t.sink.report.outputBytes _ hf
        show Staged before path _ (treeOf disk _)
        rw [htree, ← ht]
        refine ⟨rfl, hnone, Nat.le_refl _, Nat.le_succ _, fun i hi => ?_, rfl, rfl⟩
        exact Function.update_of_ne (Nat.ne_of_lt hi) _ _
      | error e => exact (createNew_error _ hf).trans ht
    · cases r with
      | ok inode => exact leaves_pure hu
      | error e =>
        simp only
        split
        · exact ih hu
        · exact leaves_fail hu

/-! ## Writing a file -/

theorem writeStaged_restored {tolerant : Bool} {entry : EntryMeta} {data : Stream} :
    (writeStaged (onDisk rest) opts tolerant entry outPath data).Leaves
      (fun r t => r = none → Restored s.tree outPath t.tree) (fun t => Restored s.tree outPath t.tree) s := by
  have hself {t : State Disk Nat I} (ht : t.tree = s.tree) : Restored s.tree outPath t.tree := ht ▸ restored_refl _ _
  refine getSink_leaving.leaves_bind (fun t ht => hself ht) fun sink t ht => ?_
  refine (takePendingOutput_leaving outPath).leaves_bind (fun u hu => hself (hu.trans ht)) fun resolved u hu => ?_
  refine leaves_bind (P := fun pending t => Staged s.tree pending.1 pending.2 t.tree)
    (leaves_bind ((createPendingValue_staged tempPathAttempts (hu.trans ht)).mono (fun _ _ h => h) fun _ h => hself h)
    fun pending v hv => leaves_step (leaves_pure hv)) fun pending v hv => ?_
  obtain ⟨staged, inode⟩ := pending
  refine leaves_bind (P := fun r w => r = none → Beside s.tree outPath staged w.tree) (onFailure_leaves
    (F := fun w => Beside s.tree outPath staged w.tree) ?_ fun w hw => discard_restored hw) fun r w hw => ?_
  · refine (blind_ofExcept _ : Leaving _).leaves_bind (fun w hw => hw ▸ hv.beside) fun _ w hw => ?_
    rw [← hw] at hv
    refine leaves_bind ((copyChunks_staged hv).mono (fun _ _ h => h) fun _ h => h.beside) fun copied x hx => ?_
    cases copied with
    | error e =>
      simp only
      split
      · refine recordProblem_leaving.leaves_bind (fun y hy => hy ▸ hx.beside) fun _ y hy => leaves_pure fun _ => ?_
        rw [hy]
        exact hx.beside
      · exact leaves_fail hx.beside
    | ok written =>
      refine checkpoint_leaving.leaves_bind (fun y hy => hy ▸ hx.beside) fun _ y hy => ?_
      rw [← hy] at hx
      refine (restoreFile_leaving _ _).leaves_bind (fun z hz => hz ▸ hx.beside) fun _ z hz => ?_
      rw [← hz] at hx
      exact leaves_bind (commit_beside hx) fun _ _ _ => leaves_pure fun heq => by cases heq
  · cases r with
    | none => exact leaves_bind (discard_restored (hw rfl)) fun _ x hx => leaves_pure fun _ => hx
    | some written => exact leaves_pure fun heq => by cases heq

theorem writeFile_restored {tolerant : Bool} {entry : EntryMeta} {data : Stream} :
    (writeFile (onDisk rest) opts tolerant entry outPath data).Leaves
      (fun r t => r = false → Restored s.tree outPath t.tree) (fun t => Restored s.tree outPath t.tree) s := by
  refine leaves_bind writeStaged_restored fun r t ht => ?_
  cases r with
  | none => exact leaves_pure fun _ => ht rfl
  | some written =>
    refine leaves_bind (P := fun _ _ => True) (leaves_step (leaves_pure trivial)) fun _ u _ => ?_
    exact leaves_bind (P := fun _ _ => True) (leaves_step (leaves_pure trivial)) fun _ v _ =>
      leaves_pure fun heq => by cases heq

/-- A write of a file that fails leaves what was at its target, all contents and the bytes that are reported as they were,
and every other path too, apart from staging files whose removal has been refused as well. -/
theorem failed_write_atomic (rest : Environment Disk Nat I) (opts : ExtractOptions) (tolerant : Bool) (entry : EntryMeta)
    (outPath : DestPath) (data : Stream) (s t : State Disk Nat I) (r : Except Fault Bool)
    (hrun : (writeFile (onDisk rest) opts tolerant entry outPath data).run s = (r, t)) (hfailed : r ≠ .ok true) :
    (∀ node, s.world.entries outPath = some node → t.world.entries outPath = some node) ∧
      (∀ inode < s.world.next, t.world.contents inode = s.world.contents inode) ∧
      (∃ refused, t.world.stuck = refused ++ s.world.stuck ∧
        ∀ path, path ≠ outPath → t.world.entries path = s.world.entries path ∨ path ∈ refused) ∧
      t.sink.report.outputBytes = s.sink.report.outputBytes := by
  have hleaves := @writeFile_restored I rest opts s outPath tolerant entry data
  have hrestored : Restored s.tree outPath t.tree := by
    cases r with
    | error e => exact hleaves.2 e t hrun
    | ok wrote =>
      cases wrote with
      | true => exact absurd rfl hfailed
      | false => exact hleaves.1 false t hrun rfl
  refine ⟨fun node hnode => ?_, hrestored.contents_eq, hrestored.entries_eq, hrestored.outputBytes_eq⟩
  have htarget : t.world.entries outPath = s.world.entries outPath := hrestored.target_eq fun hnone => by
    have hnone : s.world.entries outPath = none := hnone
    rw [hnode] at hnone
    cases hnone
  rw [htarget, hnode]

end

/-- A disk with one file named a, on which some calls are refused. -/
def smallDisk (refused : List Nat) : Disk where
  entries := fun path => if path = [] then some .dir else if path = ["a"] then some (.file 0) else none
  contents := fun _ => [1]
  next := 1
  lt_next := by
    intro path inode h
    split at h
    · cases h
    · split at h
      · cases h
        exact Nat.zero_lt_one
      · cases h
  calls := 0
  refusals := fun n => if n ∈ refused then some ⟨⟨.storageFull, "No space left on device"⟩, 1⟩ else none
  stops := fun _ => none
  stuck := []

/-- The file on a small disk is overwritten with two bytes. -/
def overwriting (refused : List Nat) : Except Fault Bool × State Disk Nat Unit :=
  (writeFile (onDisk (willing [])) unlimited false (plainFile 2) ["a"] [.ok ⟨[7, 8], by decide⟩]).run
    ⟨smallDisk refused, ⟨[], [], .new unlimited.limits, [], [], [(["a"], ⟨["a"], true, .replaced⟩)], none, 0, 2,
      .empty []⟩, 0, [], []⟩

/-- The write is refused. -/
theorem failed_write_atomic_refused : (overwriting [2]).2.world.entries ["a"] = some (.file 0) ∧
    (overwriting [2]).2.world.contents 0 = [1] ∧ (overwriting [2]).2.sink.report.outputBytes = 0 := by
  have hfailed : (overwriting [2]).1 ≠ .ok true := by
    intro heq
    have hok : (overwriting [2]).1.isOk = false := by decide +kernel
    rw [heq] at hok
    cases hok
  obtain ⟨htarget, hcontents, -, hbytes⟩ := failed_write_atomic (willing []) unlimited false (plainFile 2) ["a"]
    [.ok ⟨[7, 8], by decide⟩] ⟨smallDisk [2], ⟨[], [], .new unlimited.limits, [], [],
      [(["a"], ⟨["a"], true, .replaced⟩)], none, 0, 2, .empty []⟩, 0, [], []⟩ (overwriting [2]).2 (overwriting [2]).1 rfl
    hfailed
  exact ⟨htarget (.file 0) rfl, hcontents 0 Nat.zero_lt_one, hbytes⟩

/-- The write is refused, and so is the removal of the staging file. -/
theorem staging_file_remains : (overwriting [2, 3]).1.isOk = false ∧
    (overwriting [2, 3]).2.world.entries [".squallz-extract-1-0.tmp"] = some (.file 1) := by
  decide +kernel

end Squallz.Extract
