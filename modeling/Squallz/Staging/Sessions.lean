/-
The life of a workspace, from the number its session draws to its removal: every action of it is one that a session may
take.
-/
import Squallz.Staging.Sweep

namespace Squallz.Staging

open Squallz.Api Squallz.Core Squallz.System Squallz.System.FileSystem Squallz.System.Prog
open Squallz.Destination (osStr)

variable {registry : Identity} {m m' : Machine} {me : Session} {workspace : List Char} {owner d i : Identity} {name : Name}

theorem stable_sound : Stable registry me (Sound registry) := stable_of_foreign (fun _ h => h) fun _ _ _ hs _ => hs

/-! ## A workspace of the session's own -/

/-- The record of a workspace whose name was made with a number of the session. -/
structure Begun (registry : Identity) (me : Session) (workspace : List Char) (owner : Identity) (m : Machine) : Prop
    extends Tending registry m me workspace where
  sweep : SweepHolder registry m me
  own : Own m me workspace
  record : m.files.find registry (ownerName workspace) = some owner

/-- The same with the lock of the record. -/
structure Claimed (registry : Identity) (me : Session) (workspace : List Char) (owner : Identity) (m : Machine) : Prop
    extends Begun registry me workspace owner m where
  held : m.locks owner = some ⟨me, ownerName workspace, true⟩

/-- A workspace in use: its members are linked nowhere else. -/
structure Using (registry : Identity) (me : Session) (workspace : List Char) (owner d : Identity) (m : Machine) : Prop where
  sound : Sound registry m
  record : m.files.find registry (ownerName workspace) = some owner
  held : m.locks owner = some ⟨me, ownerName workspace, true⟩
  found : m.files.find registry (osStr workspace) = some d
  isDir : (m.files.inodes d).isDir = true
  inner : ∀ name i, m.files.find d name = some i → ∀ d' name', m.files.find d' name' = some i → d' = d

/-- A workspace to be dropped. -/
structure Dropping (registry : Identity) (me : Session) (workspace : List Char) (owner : Identity) (m : Machine) : Prop
    extends Tending registry m me workspace where
  own : Own m me workspace
  only : ∀ i, m.files.find registry (ownerName workspace) = some i → i = owner

/-- A workspace that is gone, and whose record the session no longer holds. -/
structure Dropped (registry : Identity) (me : Session) (workspace : List Char) (m : Machine) : Prop where
  sound : Sound registry m
  own : Own m me workspace
  cleared : Cleared registry m workspace
  released : ∀ i, m.files.find registry (ownerName workspace) = some i →
    m.locks i ≠ some ⟨me, ownerName workspace, true⟩

namespace Using

variable (h : Using registry me workspace owner d m)

include h

theorem live : Live registry m me workspace := ⟨owner, h.record, h.held⟩

theorem own : Own m me workspace := h.live.own h.sound

theorem dropping : Dropping registry me workspace owner m := by
  refine ⟨⟨h.sound, h.own.ends, h.live.charge, fun _ _ => ⟨owner, h.record⟩⟩, h.own, fun i hfound => ?_⟩
  rw [h.record] at hfound
  exact (Option.some.inj hfound).symm

end Using

theorem Begun.dropping (h : Begun registry me workspace owner m) : Dropping registry me workspace owner m := by
  refine ⟨h.toTending, h.own, fun i hfound => ?_⟩
  rw [h.record] at hfound
  exact (Option.some.inj hfound).symm

/-! ## What the others leave -/

namespace Foreign

variable (h : Foreign registry me m m')

include h

theorem begun (hs : Sound registry m') (hm : Begun registry me workspace owner m) : Begun registry me workspace owner m' :=
  ⟨h.tending hm.toTending hs, h.sweepHolder hm.sound hm.sweep, h.own hm.own,
    h.record hm.sound hm.own (.inl hm.sweep) hm.record⟩

/-- Nobody else makes a record for a workspace of the session's own. -/
theorem ownRecord (hs : Sound registry m) (hown : Own m me workspace)
    (hfound : m'.files.find registry (ownerName workspace) = some i) :
    m.files.find registry (ownerName workspace) = some i := by
  rcases h.found _ _ _ hfound with hold | ⟨-, -, other, hne, hplace⟩
  · exact hold
  · exfalso
    rcases hplace.at_registry hs with heq | ⟨workspace', -, hother, heq | heq⟩
    · exact ownerName_ne_sweepLockName workspace heq
    · rw [← ownerName_injective heq] at hother
      exact hne (hother.unique hown)
    · exact hother.ends.ne_ownerName workspace heq.symm

theorem inUse (hs : Sound registry m') (hm : Using registry me workspace owner d m) :
    Using registry me workspace owner d m' := by
  have hcharge := hm.live.charge
  refine ⟨hs, h.record hm.sound hm.own (.inr hm.held) hm.record, (h.kept _ _ rfl).2 hm.held, ?_, ?_,
    fun name i hfound d' name' hfound' => ?_⟩
  · rcases h.lost _ _ _ hm.found with hkept | ⟨other, hne, hremoval⟩
    · exact hkept
    · exfalso
      rcases hremoval.at_registry hm.sound with ⟨workspace', hname, -⟩ | ⟨workspace', hname, -, hother⟩
      · exact hm.own.ends.ne_ownerName workspace' hname
      · rw [← Squallz.Destination.osStr_injective hname] at hother
        exact hne (hother.unique hcharge)
  · rw [← (h.kind_of_registry hm.sound hm.found).isDir]
    exact hm.isDir
  · have hold : m.files.find d name = some i := by
      rcases h.found _ _ _ hfound with hold | ⟨-, -, other, hne, hplace⟩
      · exact hold
      · exact absurd ((hplace.at_directory hm.sound hm.found hm.isDir).charge.unique hcharge) hne
    rcases h.found _ _ _ hfound' with hold' | ⟨-, hnew, -⟩
    · exact hm.inner name i hold d' name' hold'
    · exact absurd (hm.sound.below _ _ _ hold).2 (by omega)

theorem dropping (hs : Sound registry m') (hm : Dropping registry me workspace owner m) :
    Dropping registry me workspace owner m' :=
  ⟨h.tending hm.toTending hs, h.own hm.own, fun i hfound => hm.only i (h.ownRecord hm.sound hm.own hfound)⟩

theorem dropped (hs : Sound registry m') (hm : Dropped registry me workspace m) : Dropped registry me workspace m' := by
  refine ⟨hs, h.own hm.own, h.cleared_of_own hm.sound hm.own hm.cleared, fun i hfound hlock => ?_⟩
  exact hm.released i (h.ownRecord hm.sound hm.own hfound) ((h.kept _ _ rfl).1 hlock)

end Foreign

theorem stable_begun : Stable registry me (Begun registry me workspace owner) :=
  stable_of_foreign (fun _ h => h.sound) fun _ _ h hs hm => h.begun hs hm

theorem stable_claimed : Stable registry me (Claimed registry me workspace owner) :=
  stable_of_foreign (fun _ h => h.sound) fun _ _ h hs hm => ⟨h.begun hs hm.toBegun, (h.kept _ _ rfl).2 hm.held⟩

theorem stable_using : Stable registry me (Using registry me workspace owner d) :=
  stable_of_foreign (fun _ h => h.sound) fun _ _ h hs hm => h.inUse hs hm

theorem stable_dropping : Stable registry me (Dropping registry me workspace owner) :=
  stable_of_foreign (fun _ h => h.sound) fun _ _ h hs hm => h.dropping hs hm

theorem stable_dropping_cleared :
    Stable registry me fun m => Dropping registry me workspace owner m ∧ Cleared registry m workspace :=
  stable_of_foreign (fun _ h => h.1.sound) fun _ _ h hs hm =>
    ⟨h.dropping hs hm.1, h.cleared_of_own hm.1.sound hm.1.own hm.2⟩

theorem stable_dropped : Stable registry me (Dropped registry me workspace) :=
  stable_of_foreign (fun _ h => h.sound) fun _ _ h hs hm => h.dropped hs hm

/-! ## Dropping a workspace -/

theorem Trim.dropping (htrim : Trim registry me workspace m m') (h : Dropping registry me workspace owner m) :
    Dropping registry me workspace owner m' := by
  have howner := htrim.entry (h.ends.ne_ownerName workspace).symm
  refine ⟨htrim.tending h.toTending, ?_, fun i hfound => h.only i (howner ▸ hfound)⟩
  obtain ⟨kind, sequence, nanos, rfl, hissued⟩ := h.own
  exact ⟨kind, sequence, nanos, rfl, by rw [htrim.rest.2.1, hissued]⟩

/-- The record is closed. -/
theorem Dropping.dropped (h : Dropping registry me workspace owner m) (hcleared : Cleared registry m workspace) :
    Dropped registry me workspace (m.unlock owner ⟨me, ownerName workspace, true⟩) := by
  refine ⟨Step.sound h.sound (.unlocked rfl), ?_, ?_, fun i hfound hlock => ?_⟩
  · obtain ⟨kind, sequence, nanos, rfl, hissued⟩ := h.own
    exact ⟨kind, sequence, nanos, rfl, by rw [issued_unlock, hissued]⟩
  · rw [Cleared, files_unlock]
    exact hcleared
  · rw [files_unlock] at hfound
    rw [h.only i hfound, Machine.unlock] at hlock
    split at hlock
    · dsimp only at hlock
      rw [Function.update_self] at hlock
      cases hlock
    · rename_i hne
      exact hne hlock

theorem Dropped.removeFile {files : FileSystem} (h : Dropped registry me workspace m)
    (hremove : m.files.removeFile ⟨registry, [ownerName workspace]⟩ = .ok ((), files)) :
    Step registry me m { m with files } ∧ Dropped registry me workspace { m with files } := by
  obtain ⟨d, name, i, hloc, hfound, -, rfl⟩ := removeFile_eq_ok.1 hremove
  rw [locate_one] at hloc
  cases hloc
  have hremoved := removed_unlink hfound
  have hstep : Step registry me m { m with files := (m.files.unlink registry (ownerName workspace)).touch i } :=
    .removed hfound hremoved (.record h.own h.cleared (h.released i hfound))
  refine ⟨hstep, hstep.sound h.sound, h.own, ?_, fun j hj => ?_⟩
  · rw [Cleared, hremoved.others _ _ fun heq => h.own.ends.ne_ownerName workspace (Prod.mk.inj heq).2]
    exact h.cleared
  · rw [show _ = none from hremoved.gone] at hj
    cases hj

theorem dropStaging_guarantees (staging : PrivateStagingDir)
    (h : Dropping registry me staging.record.workspace staging.owner m) :
    (dropStaging registry me staging).Guarantees (Rely registry me) (Step registry me) (fun _ t => Sound registry t) m := by
  unfold dropStaging
  refine guarantees_read_then step_refl stable_dropping h (fun identity t ht _ => ?_) fun e t ht => ht.sound
  have hclean := (cleanupOwnedWorkspace_guarantees staging.record ht.toTending).keeping
    (fun v w hrely hv => stable_dropping v w hrely hv) (fun v w htrim hv => htrim.dropping hv) ht
  refine guarantees_attempt_then _ (hclean.mono fun _ _ htrim => htrim.step) fun cleaned u hu => ?_
  obtain ⟨⟨-, hcleared⟩, hu⟩ := hu
  by_cases hok : cleaned = .ok true
  · subst hok
    refine closeFile_guarantees_then stable_dropping_cleared rfl ⟨hu, hcleared rfl⟩ fun v hv => ?_
    exact guarantees_attempt_then _ (removePrivateFileIfBound_guarantees _ step_refl stable_dropped stable_dropped
      (fun w node hw _ _ => hw) (fun w hw => hw) (fun w files hw hremove => hw.removeFile hremove) (hv.1.dropped hv.2))
      fun _ w hw => hw.sound
  · refine closeFile_guarantees_then stable_dropping rfl hu fun v hv => ?_
    have hsound : Sound registry (v.unlock staging.owner ⟨me, ownerName staging.record.workspace, true⟩) :=
      Step.sound hv.sound (.unlocked rfl)
    split
    · exact absurd rfl hok
    · exact hsound

/-! ## Changes of the machine -/

/-- A call that changes the machine, and what follows it. -/
theorem change_guarantees_then {α β : Type} {f : Machine → Except Errno (α × Machine)} {k : α → Io β} {P : Machine → Prop}
    {Q : Except FormatError β → Machine → Prop} (hP : Stable registry me P) (hm : P m)
    (hok : ∀ a v t, P v → f v = .ok (a, t) →
      Step registry me v t ∧ (k a).Guarantees (Rely registry me) (Step registry me) Q t)
    (herror : ∀ e t, P t → Q (.error e) t) :
    (change f >>= k).Guarantees (Rely registry me) (Step registry me) Q m := by
  unfold change
  rw [bind_assoc]
  refine guarantees_act_shared step_refl hP hm (fun a v t hv hact => ?_) fun e v hv => herror _ v hv
  exact hok a v t hv hact

/-- The bytes of a file are overwritten, and what follows. -/
theorem write_guarantees_then {β : Type} {file : Identity} {bytes : List UInt8} {k : Unit → Io β} {P : Machine → Prop}
    {Q : Except FormatError β → Machine → Prop} (hP : Stable registry me P) (hm : P m)
    (hwrite : ∀ t, P t → P (t.write file bytes))
    (hk : ∀ t, P t → (k ()).Guarantees (Rely registry me) (Step registry me) Q t) :
    (Prog.update (·.write file bytes) >>= k).Guarantees (Rely registry me) (Step registry me) Q m := by
  rw [guarantees_bind, guarantees_update]
  exact fun t ht => ⟨.written _ _, hk _ (hwrite t (hP m t ht hm))⟩

/-- A lock is taken, and what follows; where it is held by another, the call fails. -/
theorem lockFile_guarantees_then {β : Type} {file : Identity} {handle : Handle} {k : Unit → Io β} {P locked : Machine → Prop}
    {Q : Except FormatError β → Machine → Prop} (hP : Stable registry me P) (hm : P m)
    (hlock : ∀ t, P t → t.locks file = none → Step registry me t (t.lock file handle) ∧ locked (t.lock file handle))
    (hk : ∀ t, locked t → (k ()).Guarantees (Rely registry me) (Step registry me) Q t)
    (herror : ∀ e t, P t → Q (.error e) t) :
    (lockFile file handle >>= k).Guarantees (Rely registry me) (Step registry me) Q m := by
  unfold lockFile
  rw [bind_assoc]
  refine guarantees_then _ (tryLock_guarantees hP hlock hm) (fun taken t ht => ?_) fun e t ht => ?_
  · rcases ht with ⟨heq, ht⟩ | ⟨heq, ht⟩
    · cases heq
      exact hk t ht
    · cases heq
      exact herror _ t ht
  · rcases ht with ⟨heq, -⟩ | ⟨heq, -⟩ <;> cases heq

/-! ## Making a workspace -/

theorem begun_of_created (h : Sweeping registry me m) (hown : Own m me workspace)
    (hcreate : m.create (ownerPath registry workspace) privateFile = .ok (owner, m')) :
    Step registry me m m' ∧ Begun registry me workspace owner m' := by
  have hloc : m.files.locate registry [ownerName workspace] = .ok (registry, ownerName workspace) := locate_one _ _ _
  have hstep : Step registry me m m' := .created hloc (.owner h.sweep hown) hcreate
  obtain ⟨heq, -, hlocks, hissued, -, hfound, -, hothers, -⟩ := create_created h.sound hloc hcreate
  obtain ⟨j, hj, hlock⟩ := h.sweep
  have hsweep : SweepHolder registry m' me := by
    refine ⟨j, ?_, by rw [hlocks, hlock]⟩
    rw [hothers _ _ fun heq => ownerName_ne_sweepLockName workspace (Prod.mk.inj heq).2.symm]
    exact hj
  refine ⟨hstep, ⟨hstep.sound h.sound, hown.ends, ⟨.inl hsweep, fun i handle hi hheld => ?_⟩, fun _ _ => ⟨owner, hfound⟩⟩,
    hsweep, ?_, hfound⟩
  · -- the record is new, and nobody holds an inode that is not there yet
    rw [hfound] at hi
    cases hi
    rw [hlocks] at hheld
    have hlt := (h.sound.named _ _ hheld).1
    rw [heq] at hlt
    exact absurd hlt (lt_irrefl _)
  · obtain ⟨kind, sequence, nanos, rfl, hnumber⟩ := hown
    exact ⟨kind, sequence, nanos, rfl, by rw [hissued, hnumber]⟩

theorem Begun.claimed (h : Begun registry me workspace owner m) (hfree : m.locks owner = none) :
    Step registry me m (m.lock owner ⟨me, ownerName workspace, true⟩) ∧
      Claimed registry me workspace owner (m.lock owner ⟨me, ownerName workspace, true⟩) := by
  have hstep : Step registry me m (m.lock owner ⟨me, ownerName workspace, true⟩) :=
    .locked hfree (.own h.sweep h.own h.record)
  have hheld : (m.lock owner ⟨me, ownerName workspace, true⟩).locks owner = some ⟨me, ownerName workspace, true⟩ :=
    Function.update_self _ _ _
  have hlive : Live registry (m.lock owner ⟨me, ownerName workspace, true⟩) me workspace := ⟨owner, h.record, hheld⟩
  exact ⟨hstep, ⟨⟨hstep.sound h.sound, h.ends, hlive.charge, h.registered⟩, h.sweep.lock hfree, h.own, h.record⟩, hheld⟩

theorem Claimed.write (h : Claimed registry me workspace owner m) (file : Identity) (bytes : List UInt8) :
    Claimed registry me workspace owner (m.write file bytes) := by
  have hstep : Step registry me m (m.write file bytes) := .written file bytes
  obtain ⟨hlocks, hissued, -⟩ := write_rest m file bytes
  have hheld : (m.write file bytes).locks owner = some ⟨me, ownerName workspace, true⟩ := by rw [hlocks, h.held]
  have hrecord : (m.write file bytes).files.find registry (ownerName workspace) = some owner := by
    rw [find_write, h.record]
  have hlive : Live registry (m.write file bytes) me workspace := ⟨owner, hrecord, hheld⟩
  obtain ⟨j, hj, hlock⟩ := h.sweep
  refine ⟨⟨⟨hstep.sound h.sound, h.ends, hlive.charge, fun _ _ => ⟨owner, hrecord⟩⟩,
    ⟨j, by rw [find_write, hj], by rw [hlocks, hlock]⟩, ?_, hrecord⟩, hheld⟩
  obtain ⟨kind, sequence, nanos, rfl, hnumber⟩ := h.own
  exact ⟨kind, sequence, nanos, rfl, by rw [hissued, hnumber]⟩

/-- The new directory of a workspace is empty. -/
theorem Claimed.furnished (h : Claimed registry me workspace owner m)
    (hcreate : m.create (workspacePath registry workspace) privateDirectory = .ok (d, m')) :
    Step registry me m m' ∧ Using registry me workspace owner d m' := by
  have hloc : m.files.locate registry [osStr workspace] = .ok (registry, osStr workspace) := locate_one _ _ _
  have hstep : Step registry me m m' := .created hloc (.directory h.sweep h.own) hcreate
  obtain ⟨heq, -, hlocks, -, -, hfound, hnode, hothers, -⟩ := create_created h.sound hloc hcreate
  refine ⟨hstep, hstep.sound h.sound, ?_, by rw [hlocks, h.held], hfound, ?_, fun name i hi => ?_⟩
  · rw [hothers _ _ fun heq => h.ends.ne_ownerName workspace (Prod.mk.inj heq).2.symm]
    exact h.record
  · rw [Inode.isDir_of_sameFile hnode]
    rfl
  · exfalso
    have hroot := h.sound.root
    rw [hothers d name ?_] at hi
    · have hlt := (h.sound.below _ _ _ hi).1
      rw [heq] at hlt
      exact absurd hlt (lt_irrefl _)
    · intro hk
      rw [← (Prod.mk.inj hk).1, heq] at hroot
      exact absurd hroot (lt_irrefl _)

/-! ## Using a workspace -/

namespace Using

variable (h : Using registry me workspace owner d m)

include h

theorem ne_registry : d ≠ registry := by
  rintro rfl
  exact h.sound.outer _ _ h.found

theorem locate : m.files.locate registry [osStr workspace, name] = .ok (d, name) :=
  locate_two_of_directory h.found (content_of_isDir h.isDir)

theorem identity (hfile : m.files.identity ((workspacePath registry workspace).join name) = .ok i) :
    m.files.find d name = some i := by
  rw [join_workspacePath, identity_two_of_directory h.found (content_of_isDir h.isDir)] at hfile
  exact found_eq_ok.1 hfile

/-- What changes neither entries nor directories nor the lock of the record. -/
theorem congr (hs : Sound registry m') (hlocks : m'.locks owner = m.locks owner)
    (hfind : ∀ d name, m'.files.find d name = m.files.find d name)
    (hdir : (m'.files.inodes d).isDir = (m.files.inodes d).isDir) : Using registry me workspace owner d m' := by
  refine ⟨hs, (hfind _ _).trans h.record, hlocks.trans h.held, (hfind _ _).trans h.found, hdir.trans h.isDir,
    fun name i hi d' name' hi' => ?_⟩
  exact h.inner name i ((hfind _ _).symm.trans hi) d' name' ((hfind _ _).symm.trans hi')

theorem write (file : Identity) (bytes : List UInt8) : Using registry me workspace owner d (m.write file bytes) :=
  h.congr (Step.sound h.sound (.written file bytes : Step registry me m _)) (by rw [(write_rest m file bytes).1])
    (fun _ _ => find_write m file bytes) (sameKind_write m file d bytes).isDir.symm

theorem created {node : Inode}
    (hcreate : m.create ((workspacePath registry workspace).join name) node = .ok (i, m')) :
    Step registry me m m' ∧ Using registry me workspace owner d m' := by
  have hloc : m.files.locate registry [osStr workspace, name] = .ok (d, name) := h.locate
  have hstep : Step registry me m m' := .created hloc (.member name h.live h.found h.isDir) hcreate
  obtain ⟨heq, -, hlocks, -, -, hfound, -, hothers, hinodes⟩ := create_created h.sound hloc hcreate
  have hold : ∀ {name : Name} {j : Identity}, m.files.find registry name = some j → m'.files.find registry name = some j := by
    intro name' j hj
    rw [hothers _ _ fun hk => h.ne_registry (Prod.mk.inj hk).1.symm]
    exact hj
  have hcases : ∀ {d' : Identity} {name' : Name} {j : Identity}, m'.files.find d' name' = some j →
      d' = d ∧ j = i ∨ m.files.find d' name' = some j ∧ j ≠ i := by
    intro d' name' j hj
    by_cases hk : (d', name') = (d, name)
    · cases hk
      rw [hfound] at hj
      exact .inl ⟨rfl, (Option.some.inj hj).symm⟩
    · rw [hothers _ _ hk] at hj
      refine .inr ⟨hj, ?_⟩
      rintro rfl
      have hlt := (h.sound.below _ _ _ hj).2
      rw [heq] at hlt
      exact absurd hlt (lt_irrefl _)
  refine ⟨hstep, hstep.sound h.sound, hold h.record, by rw [hlocks, h.held], hold h.found, ?_,
    fun name₁ j hj d' name' hj' => ?_⟩
  · rw [hinodes _ _ _ h.found]
    exact h.isDir
  · rcases hcases hj' with ⟨rfl, -⟩ | ⟨hj', hne⟩
    · rfl
    · rcases hcases hj with ⟨-, rfl⟩ | ⟨hj, -⟩
      · exact absurd rfl hne
      · exact h.inner name₁ j hj d' name' hj'

theorem setMode (mode : Nat) (hfile : m.files.find d name = some i) :
    Step registry me m (m.setMode i mode) ∧ Using registry me workspace owner d (m.setMode i mode) := by
  have hstep : Step registry me m (m.setMode i mode) :=
    .moded mode ⟨workspace, h.live, h.found, h.isDir, fun d' name' hi => h.inner name i hfile d' name' hi⟩ hfile
  exact ⟨hstep, h.congr (hstep.sound h.sound) (by rw [(setMode_rest m i mode).1]) (fun _ _ => find_setMode m i mode)
    (isDir_setMode m i d mode)⟩

theorem removed {files : FileSystem}
    (hremove : m.files.removeFile ((workspacePath registry workspace).join name) = .ok ((), files)) :
    Step registry me m { m with files } ∧ Using registry me workspace owner d { m with files } := by
  obtain ⟨d', name', i, hloc, hfound, -, rfl⟩ := removeFile_eq_ok.1 hremove
  rw [join_workspacePath, h.locate] at hloc
  cases hloc
  have hremoved := removed_unlink hfound
  have hstep : Step registry me m { m with files := (m.files.unlink d name).touch i } :=
    .removed hfound hremoved (.used name h.live h.found h.isDir)
  have hold : ∀ name' : Name, ((m.files.unlink d name).touch i).find registry name' = m.files.find registry name' :=
    fun name' => hremoved.others _ _ fun hk => h.ne_registry (Prod.mk.inj hk).1.symm
  have hsub : ∀ {d' : Identity} {name' : Name} {j : Identity},
      ((m.files.unlink d name).touch i).find d' name' = some j → m.files.find d' name' = some j := by
    intro d' name' j hj
    rcases hremoved.pruned.find d' name' with heq | heq
    · rw [← heq, hj]
    · rw [heq] at hj
      cases hj
  exact ⟨hstep, hstep.sound h.sound, (hold _).trans h.record, h.held, (hold _).trans h.found,
    (Inode.isDir_of_sameFile (hremoved.sameFile d)).trans h.isDir,
    fun name₁ j hj d' name' hj' => h.inner name₁ j (hsub hj) d' name' (hsub hj')⟩

theorem act {use : Use} {u : Unit} (hact : use.act (workspacePath registry workspace) m = .ok (u, m')) :
    Step registry me m m' ∧ Using registry me workspace owner d m' := by
  cases use with
  | create name node =>
    cases hcreate : m.create ((workspacePath registry workspace).join name) node with
    | error e =>
      rw [Use.act, hcreate] at hact
      cases hact
    | ok result =>
      obtain ⟨i, m''⟩ := result
      rw [Use.act, hcreate] at hact
      cases hact
      exact h.created hcreate
  | write name bytes =>
    cases hfile : m.files.identity ((workspacePath registry workspace).join name) with
    | error e =>
      rw [Use.act, hfile] at hact
      cases hact
    | ok file =>
      rw [Use.act, hfile] at hact
      cases hact
      exact ⟨.written _ _, h.write file bytes⟩
  | setMode name mode =>
    cases hfile : m.files.identity ((workspacePath registry workspace).join name) with
    | error e =>
      rw [Use.act, hfile] at hact
      cases hact
    | ok file =>
      rw [Use.act, hfile] at hact
      cases hact
      exact h.setMode mode (h.identity hfile)
  | remove name =>
    rw [Use.act] at hact
    obtain ⟨files, hremove, rfl⟩ := onFiles_eq_ok hact
    exact h.removed hremove

end Using

theorem useStaging_guarantees (uses : List Use) (h : Using registry me workspace owner d m) :
    (useStaging (workspacePath registry workspace) uses).Guarantees (Rely registry me) (Step registry me)
      (fun _ t => Using registry me workspace owner d t) m := by
  induction uses generalizing m with
  | nil => exact h
  | cons use uses ih =>
    unfold useStaging
    exact guarantees_act_shared step_refl stable_using h (fun _ v t hv hact => ⟨(hv.act hact).1, ih (hv.act hact).2⟩)
      fun e v hv => ih hv

/-! ## A session -/

/-- A workspace is filled, or it is left to be dropped. -/
def Filled (registry : Identity) (me : Session) (workspace : List Char) (owner : Identity) :
    Except FormatError Unit → Machine → Prop
  | .ok _, m => ∃ d, Using registry me workspace owner d m
  | .error _, m => Dropping registry me workspace owner m

theorem fillStaging_guarantees (staging : PrivateStagingDir)
    (h : Begun registry me staging.record.workspace staging.owner m) :
    (fillStaging registry me staging).Guarantees (Rely registry me) (Step registry me)
      (Filled registry me staging.record.workspace staging.owner) m := by
  unfold fillStaging writeOwnerRecord writeWorkspaceMarker
  refine lockFile_guarantees_then stable_begun h (fun t ht hfree => ht.claimed hfree) (fun t ht => ?_)
    fun e t ht => ht.dropping
  rw [bind_assoc]
  refine write_guarantees_then stable_claimed ht (fun t ht => ht.write _ _) fun t ht => ?_
  refine write_guarantees_then stable_claimed ht (fun t ht => ht.write _ _) fun t ht => ?_
  refine (readOnly_verifyPrivateFileBinding _ _).guarantees_then step_refl stable_claimed ht (fun _ t ht => ?_)
    fun e t ht => ht.dropping
  refine change_guarantees_then stable_claimed ht (fun d v t hv hact => ⟨(hv.furnished hact).1, ?_⟩)
    fun e t ht => ht.dropping
  have ht := (hv.furnished hact).2
  rw [bind_assoc]
  refine change_guarantees_then stable_using ht (fun marker v t hv hact => ⟨(hv.created hact).1, ?_⟩)
    fun e t ht => ht.dropping
  refine write_guarantees_then stable_using (hv.created hact).2 (fun t ht => ht.write _ _) fun t ht => ?_
  refine ((readOnly_verifyPrivateDirectory _).guarantees step_refl stable_using ht).post fun r t ht => ?_
  cases r with
  | ok _ => exact ⟨d, ht⟩
  | error e => exact ht.dropping

/-- The session has drawn a number under the sweep lock. -/
structure Drawn (me : Session) (registry : Identity) (sequence : Nat) (m : Machine) : Prop extends
    Sweeping registry me m where
  number : (m.issued me.process)[sequence]? = some me

theorem stable_drawn {sequence : Nat} : Stable registry me (Drawn me registry sequence) := by
  refine stable_of_foreign (fun _ h => h.sound) fun m m' h hs hm => ⟨h.sweeping hs hm.toSweeping, ?_⟩
  rcases h.issued with heq | ⟨other, -, heq⟩
  · rw [heq, hm.number]
  · rw [heq, List.getElem?_append_left (List.getElem?_eq_some_iff.1 hm.number).1, hm.number]

theorem nextId_guarantees (h : Sweeping registry me m) :
    (nextId me).Guarantees (Rely registry me) (Step registry me)
      (fun r t => ∃ sequence, r = .ok sequence ∧ Drawn me registry sequence t) m := by
  intro t ht
  have ht := stable_sweeping m t ht h
  have hstep : Step registry me t
      { t with issued := Function.update t.issued me.process (t.issued me.process ++ [me]) } := .drawn
  refine ⟨hstep, (t.issued me.process).length, rfl, ⟨hstep.sound ht.sound, ht.sweep⟩, ?_⟩
  dsimp only
  rw [Function.update_self, List.getElem?_append_right (Nat.le_refl _), Nat.sub_self]
  rfl

theorem now_guarantees {sequence : Nat} (h : Drawn me registry sequence m) :
    now.Guarantees (Rely registry me) (Step registry me) (fun r t => (∃ nanos, r = .ok nanos) ∧ Drawn me registry sequence t)
      m := by
  intro t ht
  have ht := stable_drawn m t ht h
  have hstep : Step registry me t { t with time := fun n => t.time (n + 1) } := .idle rfl rfl rfl rfl
  exact ⟨hstep, ⟨_, rfl⟩, ⟨hstep.sound ht.sound, ht.sweep⟩, ht.number⟩

/-- What a reservation comes to. -/
def Reserved (registry : Identity) (me : Session) : Except FormatError PrivateStagingDir → Machine → Prop
  | .ok staging, m => ∃ d, Using registry me staging.record.workspace staging.owner d m
  | .error _, m => Sound registry m

theorem reserve_guarantees (kind : StagingKind) (attempts : Nat) (h : Sweeping registry me m) :
    (reserve registry me kind attempts).Guarantees (Rely registry me) (Step registry me) (Reserved registry me) m := by
  induction attempts generalizing m with
  | zero => exact h.sound
  | succ attempts ih =>
    unfold reserve
    refine guarantees_then _ (nextId_guarantees h) (fun sequence t ht => ?_) fun e t ht => ?_
    · obtain ⟨_, heq, ht⟩ := ht
      cases heq
      refine guarantees_then _ (now_guarantees ht) (fun nanos t ht => ?_) fun e t ht => ht.2.sound
      refine guarantees_act_shared step_refl stable_drawn ht.2 (fun owner v t hv hact => ?_) fun e v hv => ?_
      · have hbegun := begun_of_created hv.toSweeping ⟨kind, sequence, nanos, rfl, hv.number⟩ hact
        refine ⟨hbegun.1, ?_⟩
        refine guarantees_attempt_then _ (fillStaging_guarantees
          ⟨owner, .new (workspaceName kind me.process sequence nanos) sequence nanos⟩ hbegun.2) fun filled u hu => ?_
        cases filled with
        | ok _ => exact hu
        | error e =>
          exact guarantees_then _ (dropStaging_guarantees
            ⟨owner, .new (workspaceName kind me.process sequence nanos) sequence nanos⟩ hu) (fun _ w hw => hw)
            fun _ w hw => hw
      · cases e with
        | alreadyExists => exact ih hv.toSweeping
        | _ => exact hv.sound
    · obtain ⟨_, heq, -⟩ := ht
      cases heq

/-- The sweep lock is there. -/
structure LockThere (registry file : Identity) (m : Machine) : Prop where
  sound : Sound registry m
  found : m.files.find registry sweepLockName = some file

theorem stable_lockThere : Stable registry me (LockThere registry i) :=
  stable_of_foreign (fun _ h => h.sound) fun _ _ h hs hm => ⟨hs, h.sweepEntry hm.sound hm.found⟩

theorem openOrCreate_sweepLock (me : Session) (hs : Sound registry m)
    (hopen : m.openOrCreate ⟨registry, [sweepLockName]⟩ privateFile = .ok (i, m')) :
    Step registry me m m' ∧ LockThere registry i m' := by
  unfold Machine.openOrCreate at hopen
  split at hopen
  · rename_i j hj
    cases hopen
    exact ⟨step_refl m, hs, found_eq_ok.1 hj⟩
  · have hloc : m.files.locate registry [sweepLockName] = .ok (registry, sweepLockName) := locate_one _ _ _
    have hstep : Step registry me m m' := .created hloc .sweepLock hopen
    obtain ⟨-, -, -, -, -, hfound, -⟩ := create_created hs hloc hopen
    exact ⟨hstep, hstep.sound hs, hfound⟩

theorem LockThere.sweeping (h : LockThere registry i m) (hfree : m.locks i = none) :
    Step registry me m (m.lock i ⟨me, sweepLockName, false⟩) ∧
      Sweeping registry me (m.lock i ⟨me, sweepLockName, false⟩) := by
  have hstep : Step registry me m (m.lock i ⟨me, sweepLockName, false⟩) := .locked hfree (.sweepLock h.found)
  exact ⟨hstep, hstep.sound h.sound, i, h.found, Function.update_self _ _ _⟩

/-- The lock of a record is not the sweep lock. -/
theorem Using.unlock (h : Using registry me workspace owner d m) (file : Identity) :
    Using registry me workspace owner d (m.unlock file ⟨me, sweepLockName, false⟩) := by
  have hstep : Step registry me m (m.unlock file ⟨me, sweepLockName, false⟩) := .unlocked rfl
  refine h.congr (hstep.sound h.sound) (locks_unlock_ne ?_) (fun _ _ => by rw [files_unlock]) (by rw [files_unlock])
  rw [h.held]
  exact fun heq => ownerName_ne_sweepLockName workspace (congrArg Handle.name (Option.some.inj heq))

theorem createPrivateStagingDirIn_guarantees (front : List Char) (h : Sound registry m) :
    (createPrivateStagingDirIn registry me front).Guarantees (Rely registry me) (Step registry me) (Reserved registry me)
      m := by
  unfold createPrivateStagingDirIn
  refine guarantees_then (fun _ t => Sound registry t) (guarantees_ofExcept.2 h) (fun kind t ht => ?_) fun e t ht => ht
  refine (readOnly_verifyPrivateDirectory _).guarantees_then step_refl stable_sound ht (fun _ t ht => ?_) fun e t ht => ht
  refine change_guarantees_then stable_sound ht (fun file v t hv hact => ?_) fun e t ht => ht
  obtain ⟨hstep, ht⟩ := openOrCreate_sweepLock me hv hact
  refine ⟨hstep, ?_⟩
  refine (readOnly_verifyPrivateFileBinding _ _).guarantees_then step_refl stable_lockThere ht (fun _ t ht => ?_)
    fun e t ht => ht.sound
  refine lockFile_guarantees_then stable_lockThere ht (fun t ht hfree => ht.sweeping hfree) (fun t ht => ?_)
    fun e t ht => ht.sound
  have hreserved := guarantees_then (Q := Reserved registry me) _ (reclaimStaleWorkspaces_guarantees ht)
    (fun _ t ht => reserve_guarantees kind 128 ht) fun e t ht => ht.sound
  refine guarantees_attempt_then _ hreserved fun result t ht => ?_
  cases result with
  | error e =>
    exact closeFile_guarantees_then stable_sound rfl ht fun t ht =>
      Step.sound ht (.unlocked rfl : Step registry me t _)
  | ok staging =>
    obtain ⟨d, ht⟩ := ht
    exact closeFile_guarantees_then stable_using rfl ht fun t ht => ⟨d, ht.unlock file⟩

/-- All that a session does to the machine is what a session may do. -/
theorem session_guarantees (front : List Char) (uses : List Use) (h : Sound registry m) :
    (session registry me front uses).Guarantees (Rely registry me) (Step registry me) (fun _ t => Sound registry t) m := by
  unfold session
  refine guarantees_then _ (createPrivateStagingDirIn_guarantees front h) (fun staging t ht => ?_) fun e t ht => ht
  obtain ⟨d, ht⟩ := ht
  exact guarantees_then _ (useStaging_guarantees uses ht)
    (fun _ t ht => dropStaging_guarantees staging ht.dropping) fun e t ht => ht.sound

end Squallz.Staging
