/-
The cleanup of a workspace that a session is in charge of: all that it does is to remove allowed private files of the
workspace, its marker and the emptied directory.
-/
import Squallz.Staging.Foreign

namespace Squallz.Staging

open Squallz.Api Squallz.Core Squallz.System Squallz.System.FileSystem Squallz.System.Prog
open Squallz.Destination (osStr)

variable {registry : Identity} {m m' : Machine} {me : Session} {workspace : List Char} {d i : Identity} {name : Name}

/-! ## Programs that only read -/

section ReadOnly

variable {α : Type} (path : System.Path) (kind : String)

theorem readOnly_look (f : FileSystem → Except Errno α) : (look f).ReadOnly := readOnly_observe _

theorem readOnly_lookUp (f : FileSystem → Except Errno α) : (lookUp f).ReadOnly := readOnly_observe _

theorem readOnly_demand (c : Bool) (error : FormatError) : (demand c error).ReadOnly := by
  unfold demand
  split <;> trivial

theorem readOnly_openRegularFileNoFollow : (openRegularFileNoFollow path kind).ReadOnly := by
  unfold openRegularFileNoFollow
  refine (readOnly_look _).bind fun _ => (readOnly_demand _ _).bind fun _ => (readOnly_look _).bind fun _ => ?_
  exact (readOnly_look _).bind fun _ => (readOnly_demand _ _).bind fun _ => trivial

theorem readOnly_verifySourceBinding (expected : SourceIdentity) :
    (verifySourceBinding path expected kind).ReadOnly := by
  unfold verifySourceBinding
  refine (readOnly_look _).bind fun _ => (readOnly_demand _ _).bind fun _ => ?_
  refine (readOnly_openRegularFileNoFollow _ _).bind fun _ => ?_
  exact (readOnly_look _).bind fun _ => readOnly_demand _ _

theorem readOnly_verifyPrivateFileBinding (file : Identity) : (verifyPrivateFileBinding path file).ReadOnly := by
  unfold verifyPrivateFileBinding
  refine (readOnly_look _).bind fun _ => (readOnly_demand _ _).bind fun _ => ?_
  exact (readOnly_look _).bind fun _ => readOnly_verifySourceBinding _ _ _

theorem readOnly_verifyPrivateDirectory : (verifyPrivateDirectory path).ReadOnly := by
  unfold verifyPrivateDirectory
  exact (readOnly_look _).bind fun _ => readOnly_demand _ _

/-- What follows the first look of `privateFileIdentity`. -/
theorem readOnly_privateFileIdentity_rest : (Prog.attempt (openRegularFileNoFollow path "private archive staging file") >>=
    fun file => match file with
      | .error _ => (Prog.ret none : Io (Option SourceIdentity))
      | .ok file => do
        let identity ← look fun s => .ok (.fromFile s file)
        let bound ← (verifySourceBinding path identity "private archive staging file").attempt
        .ret (if bound.isOk then some identity else none)).ReadOnly := by
  refine (readOnly_openRegularFileNoFollow _ _).attempt.bind fun file => ?_
  cases file with
  | error e => trivial
  | ok file =>
    refine (readOnly_look _).bind fun _ => (readOnly_verifySourceBinding _ _ _).attempt.bind fun _ => ?_
    trivial

theorem readOnly_privateFileIdentity : (privateFileIdentity path).ReadOnly := by
  unfold privateFileIdentity
  refine (readOnly_lookUp _).bind fun metadata => ?_
  split
  · trivial
  · exact readOnly_privateFileIdentity_rest path

theorem readOnly_readPrivateFile : (readPrivateFile path).ReadOnly := by
  unfold readPrivateFile
  refine (readOnly_privateFileIdentity _).bind fun identity => ?_
  cases identity with
  | none => trivial
  | some identity =>
    refine (readOnly_openRegularFileNoFollow _ _).bind fun _ => (readOnly_look _).bind fun _ => ?_
    split
    · trivial
    · exact (readOnly_look _).bind fun _ => trivial

theorem readOnly_openPrivateLockFile_rest (file : Identity) :
    ((verifyPrivateFileBinding path file).attempt >>= fun bound => match bound with
      | .ok () => (Prog.ret (some file) : Io (Option Identity))
      | .error (.io ⟨.notFound, _⟩) | .error (.corruptArchive _) => .ret none
      | .error e => .fail e).ReadOnly := by
  refine (readOnly_verifyPrivateFileBinding _ _).attempt.bind fun bound => ?_
  split <;> trivial

theorem readOnly_readOwnerRecord (owner : Identity) (expectedWorkspace : List Char) :
    (readOwnerRecord owner expectedWorkspace).ReadOnly := by
  unfold readOwnerRecord
  exact (readOnly_look _).bind fun _ => trivial

theorem readOnly_inspectEntries (kind : StagingKind) (expectedMarker : List UInt8) (names : List Name)
    (seen : Inspection) : (inspectEntries path kind expectedMarker names seen).ReadOnly := by
  induction names generalizing seen with
  | nil => trivial
  | cons name names ih =>
    unfold inspectEntries
    split
    · trivial
    split
    · split
      · trivial
      · refine (readOnly_readPrivateFile _).bind fun read => ?_
        rcases read with _ | ⟨bytes, identity⟩
        · trivial
        · exact ih _
    split
    · refine (readOnly_look _).bind fun _ => ?_
      split
      · trivial
      · exact ih _
    · trivial

end ReadOnly

/-! ## Looks and removals -/

section Rules

variable {α : Type} {guar : Machine → Machine → Prop} {P P' : Machine → Prop} {path : System.Path}

theorem mapError_eq_ok {r : Except Errno α} {a : α} : r.mapError ioError = .ok a ↔ r = .ok a := by
  cases r with
  | ok b =>
    constructor
    · rintro ⟨⟩
      rfl
    · rintro ⟨⟩
      rfl
  | error e =>
    constructor
    · rintro ⟨⟩
    · rintro ⟨⟩

theorem orNone_eq_ok {x : Except Errno α} {r : Option α} (h : orNone x = .ok r) :
    (∃ a, r = some a ∧ x = .ok a) ∨ r = none ∧ x = .error .notFound := by
  unfold orNone at h
  split at h
  · cases h
    exact .inl ⟨_, rfl, rfl⟩
  · cases h
    exact .inr ⟨rfl, rfl⟩
  · cases h

theorem onFiles_eq_ok {f : FileSystem → Except Errno (Unit × FileSystem)} {u : Unit}
    (h : m.onFiles f = .ok (u, m')) : ∃ files, f m.files = .ok ((), files) ∧ m' = { m with files } := by
  unfold Machine.onFiles at h
  cases hf : f m.files with
  | error e =>
    rw [hf] at h
    cases h
  | ok result =>
    obtain ⟨⟨⟩, files⟩ := result
    rw [hf] at h
    cases h
    exact ⟨files, rfl, rfl⟩

theorem onFiles_eq_error {f : FileSystem → Except Errno (Unit × FileSystem)} {e : Errno}
    (h : m.onFiles f = .error e) : f m.files = .error e := by
  unfold Machine.onFiles at h
  cases hf : f m.files with
  | error e' =>
    rw [hf] at h
    cases h
    rfl
  | ok result =>
    rw [hf] at h
    cases h

theorem privateFileIdentity_guarantees (hguar : ∀ m, guar m m) (hP : Stable registry me P) (hP' : Stable registry me P')
    (hseen : ∀ m node, P m → m.files.metadata path = .ok node → isPrivateRegularMetadata node = true → P' m)
    (hle : ∀ m, P' m → P m) (hm : P m) :
    (privateFileIdentity path).Guarantees (Rely registry me) guar
      (fun r t => P t ∧ ∀ identity, r = .ok (some identity) → P' t) m := by
  unfold privateFileIdentity
  refine guarantees_read_then hguar hP hm (fun metadata t ht hlook => ?_) fun e t ht => ⟨ht, fun _ h => by cases h⟩
  split
  · exact ⟨ht, fun _ h => by cases h⟩
  · rename_i hprivate
    have ht' : P' t := by
      rcases orNone_eq_ok hlook with ⟨node, rfl, hnode⟩ | ⟨rfl, -⟩
      · refine hseen t node ht hnode ?_
        simpa using hprivate
      · exact absurd rfl hprivate
    refine ((readOnly_privateFileIdentity_rest path).guarantees hguar hP' ht').post fun r u hu => ?_
    exact ⟨hle u hu, fun _ _ => hu⟩

/-- A removal that succeeds also where there is nothing. -/
theorem removal_guarantees {f : FileSystem → Except Errno (Unit × FileSystem)} (hguar : ∀ m, guar m m)
    (hP' : Stable registry me P') (hle : ∀ m, P' m → P m)
    (hremove : ∀ m files, P' m → f m.files = .ok ((), files) → guar m { m with files } ∧ P { m with files })
    (hm : P' m) : (removal (Machine.onFiles f)).Guarantees (Rely registry me) guar (fun _ t => P t) m := by
  unfold removal
  refine guarantees_act_shared hguar hP' hm (fun _ v t hv hact => ?_) fun e v hv => ?_
  · obtain ⟨files, hf, rfl⟩ := onFiles_eq_ok hact
    exact hremove v files hv hf
  · cases e <;> exact hle v hv

theorem removePrivateFileIfBound_guarantees (expected : SourceIdentity) (hguar : ∀ m, guar m m)
    (hP : Stable registry me P) (hP' : Stable registry me P')
    (hseen : ∀ m node, P m → m.files.metadata path = .ok node → isPrivateRegularMetadata node = true → P' m)
    (hle : ∀ m, P' m → P m)
    (hremove : ∀ m files, P' m → m.files.removeFile path = .ok ((), files) → guar m { m with files } ∧
      P { m with files })
    (hm : P m) : (removePrivateFileIfBound path expected).Guarantees (Rely registry me) guar (fun _ t => P t) m := by
  unfold removePrivateFileIfBound
  refine guarantees_then _ (privateFileIdentity_guarantees hguar hP hP' hseen hle hm) (fun current t ht => ?_)
    fun e t ht => ht.1
  cases current with
  | none =>
    refine ReadOnly.guarantees_then (readOnly_look _).attempt hguar hP ht.1 (fun gone u hu => ?_) fun e u hu => hu
    exact hu
  | some current =>
    dsimp only
    split
    · exact ht.1
    · exact removal_guarantees hguar hP' hle hremove (ht.2 current rfl)

theorem removePrivateRegularFile_guarantees (hguar : ∀ m, guar m m)
    (hP : Stable registry me P) (hP' : Stable registry me P')
    (hseen : ∀ m node, P m → m.files.metadata path = .ok node → isPrivateRegularMetadata node = true → P' m)
    (hle : ∀ m, P' m → P m)
    (hremove : ∀ m files, P' m → m.files.removeFile path = .ok ((), files) → guar m { m with files } ∧
      P { m with files })
    (hm : P m) : (removePrivateRegularFile path).Guarantees (Rely registry me) guar (fun _ t => P t) m := by
  unfold removePrivateRegularFile
  refine guarantees_read_then hguar hP hm (fun metadata t ht hlook => ?_) fun e t ht => ht
  rcases orNone_eq_ok hlook with ⟨node, rfl, hnode⟩ | ⟨rfl, -⟩
  · dsimp only
    split
    · exact ht
    · rename_i hprivate
      refine removal_guarantees hguar hP' hle hremove (hseen t node ht hnode ?_)
      simpa using hprivate
  · exact ht

end Rules

/-! ## Removing members -/

/-- What a cleanup does: it reads, or it removes something of the workspace. -/
inductive Trim (registry : Identity) (me : Session) (workspace : List Char) (m : Machine) : Machine → Prop
  | read : Trim registry me workspace m m
  | removed {d i : Identity} {name : Name} {files : FileSystem} : m.files.find d name = some i →
      m.files.Removed d name files → Reclaimed registry m me d name i → (d = registry → name = osStr workspace) →
      Trim registry me workspace m { m with files }

theorem Trim.step (h : Trim registry me workspace m m') : Step registry me m m' := by
  cases h with
  | read => exact .idle rfl rfl rfl rfl
  | removed hfound hremoved hreclaimed => exact .removed hfound hremoved (.reclaimed hreclaimed)

theorem Trim.sound (hs : Sound registry m) (h : Trim registry me workspace m m') : Sound registry m' := h.step.sound hs

theorem Trim.entry (hne : name ≠ osStr workspace) (h : Trim registry me workspace m m') :
    m'.files.find registry name = m.files.find registry name := by
  cases h with
  | read => rfl
  | removed _ hremoved _ hplace =>
    refine hremoved.others _ _ ?_
    rintro ⟨⟩
    exact hne (hplace rfl)

theorem Trim.rest (h : Trim registry me workspace m m') :
    m'.locks = m.locks ∧ m'.issued = m.issued ∧ m'.next = m.next := by
  cases h <;> exact ⟨rfl, rfl, rfl⟩

theorem Trim.sweepHolder (hends : EndsInDigit workspace) (h : Trim registry me workspace m m')
    (hsweep : SweepHolder registry m me) : SweepHolder registry m' me := by
  obtain ⟨i, hfound, hlock⟩ := hsweep
  refine ⟨i, (h.entry hends.ne_sweepLockName.symm).trans hfound, ?_⟩
  rw [h.rest.1, hlock]

theorem Trim.tending (ht : Tending registry m me workspace) (h : Trim registry me workspace m m') :
    Tending registry m' me workspace := by
  have howner := h.entry (ht.ends.ne_ownerName workspace).symm
  refine ⟨h.sound ht.sound, ht.ends, ⟨?_, ?_⟩, fun d hfound => ?_⟩
  · refine ht.charge.holds.imp (h.sweepHolder ht.ends) ?_
    rintro ⟨i, hfound, hlock⟩
    exact ⟨i, howner.trans hfound, by rw [h.rest.1, hlock]⟩
  · intro i handle hfound hlock
    rw [howner] at hfound
    rw [h.rest.1] at hlock
    exact ht.charge.free i handle hfound hlock
  · rw [howner]
    cases h with
    | read => exact ht.registered d hfound
    | removed _ hremoved =>
      rcases hremoved.pruned.find registry (osStr workspace) with heq | heq
      · exact ht.registered d (heq ▸ hfound)
      · dsimp only at hfound
        rw [heq] at hfound
        cases hfound

theorem join_workspacePath : (workspacePath registry workspace).join name = ⟨registry, [osStr workspace, name]⟩ := rfl

namespace Inside

variable (h : Inside registry m me workspace d)

include h

theorem content : (m.files.inodes d).content = .directory := content_of_isDir (isDir_of_isPrivateDirectory h.isPrivate)

theorem ne_registry : d ≠ registry := by
  rintro rfl
  exact h.sound.outer _ _ h.found

theorem locate : m.files.locate registry [osStr workspace, name] = .ok (d, name) :=
  locate_two_of_directory h.found h.content

theorem metadata {node : Inode} (hnode : m.files.metadata ((workspacePath registry workspace).join name) = .ok node) :
    ∃ i, m.files.find d name = some i ∧ node = m.files.inodes i := by
  rw [join_workspacePath, FileSystem.metadata, identity_two_of_directory h.found h.content] at hnode
  cases hfound : m.files.find d name with
  | none =>
    rw [hfound] at hnode
    cases hnode
  | some i =>
    rw [hfound] at hnode
    cases hnode
    exact ⟨i, rfl, rfl⟩

/-- The removal of a private member with one of the names of the workspace's kind. -/
theorem removeFile {kind : StagingKind} {files : FileSystem} (hkind : parseWorkspaceKind workspace = some kind)
    (hname : name = workspaceMarkerName ∨ archiveFileNameAllowed kind name = true)
    (hmember : ∀ i, m.files.find d name = some i → isPrivateRegularMetadata (m.files.inodes i) = true)
    (hremove : m.files.removeFile ((workspacePath registry workspace).join name) = .ok ((), files)) :
    Trim registry me workspace m { m with files } ∧ Inside registry { m with files } me workspace d := by
  obtain ⟨d', name', i, hloc, hfound, hdir, rfl⟩ := removeFile_eq_ok.1 hremove
  rw [join_workspacePath, h.locate] at hloc
  cases hloc
  obtain ⟨owner, howner⟩ := h.registered d h.found
  have hremoved := removed_unlink hfound
  have htrim : Trim registry me workspace m { m with files := (m.files.unlink d name).touch i } :=
    .removed hfound hremoved (.member hkind h.charge howner h.found h.isPrivate hname hfound (hmember i hfound))
      fun heq => absurd heq h.ne_registry
  refine ⟨htrim, htrim.tending h.toTending, ?_, ?_⟩
  · rw [← h.found]
    refine hremoved.others _ _ ?_
    rintro ⟨⟩
    exact h.ne_registry rfl
  · rw [(SameKind.of_sameFile (hremoved.sameFile d)).isPrivateDirectory]
    exact h.isPrivate

end Inside

/-! ## Emptying a workspace -/

section Emptying

variable {kind : StagingKind} {node : Inode} {files : FileSystem}

namespace Inside

variable (h : Inside registry m me workspace d)

include h

theorem seen (hnode : m.files.metadata ((workspacePath registry workspace).join name) = .ok node)
    (hregular : isPrivateRegularMetadata node = true) : ∃ i, Member registry m me workspace d name i := by
  obtain ⟨i, hfound, rfl⟩ := h.metadata hnode
  exact ⟨i, h, hfound, hregular⟩

theorem removeDir (hkind : parseWorkspaceKind workspace = some kind)
    (hremove : m.files.removeDir (workspacePath registry workspace) = .ok ((), files)) :
    Trim registry me workspace m { m with files } ∧ Tending registry { m with files } me workspace ∧
      Cleared registry { m with files } workspace := by
  obtain ⟨d', name', i, hloc, hfound, hdir, hempty, rfl⟩ := removeDir_eq_ok.1 hremove
  rw [workspacePath, locate_one] at hloc
  cases hloc
  obtain ⟨owner, howner⟩ := h.registered d h.found
  rw [h.found] at hfound
  cases hfound
  have hgone : (m.files.unlink registry (osStr workspace)).find registry (osStr workspace) = none := by
    rw [find_unlink, if_pos ⟨rfl, rfl⟩]
  have hremoved : m.files.Removed registry (osStr workspace) (m.files.unlink registry (osStr workspace)) := by
    refine ⟨⟨d, h.found⟩, hgone, fun d' name' hne => ?_, fun j => .refl _⟩
    rw [find_unlink, if_neg fun heq => hne (by rw [heq.1, heq.2])]
  have htrim : Trim registry me workspace m { m with files := m.files.unlink registry (osStr workspace) } :=
    .removed h.found hremoved (.directory hkind h.charge howner h.found h.isPrivate hempty) fun _ => rfl
  exact ⟨htrim, htrim.tending h.toTending, hgone⟩

theorem removeDir_found : m.files.removeDir (workspacePath registry workspace) ≠ .error .notFound := by
  intro hremove
  rw [FileSystem.removeDir, workspacePath, locate_one] at hremove
  dsimp only [Bind.bind, Except.bind] at hremove
  rw [h.found] at hremove
  dsimp only at hremove
  split at hremove
  · split at hremove <;> cases hremove
  · cases hremove

end Inside

theorem stable_exists_member :
    Stable registry me fun m => ∃ i, Member registry m me workspace d name i := by
  rintro m m' hrely ⟨i, hi⟩
  exact ⟨i, stable_member m m' hrely hi⟩

theorem remove_member (hkind : parseWorkspaceKind workspace = some kind)
    (hname : name = workspaceMarkerName ∨ archiveFileNameAllowed kind name = true)
    (h : ∃ i, Member registry m me workspace d name i)
    (hremove : m.files.removeFile ((workspacePath registry workspace).join name) = .ok ((), files)) :
    Trim registry me workspace m { m with files } ∧ Inside registry { m with files } me workspace d := by
  obtain ⟨i, hi⟩ := h
  refine hi.toInside.removeFile hkind hname (fun j hj => ?_) hremove
  rw [hi.entry] at hj
  cases hj
  exact hi.regular

theorem removeMembers_guarantees (hkind : parseWorkspaceKind workspace = some kind) (names : List Name)
    (h : Inside registry m me workspace d) :
    (removeMembers (workspacePath registry workspace) kind names).Guarantees (Rely registry me)
      (Trim registry me workspace) (fun _ t => Inside registry t me workspace d) m := by
  induction names generalizing m with
  | nil => exact h
  | cons name names ih =>
    unfold removeMembers
    split
    · exact ih h
    split
    · exact h
    · rename_i hallowed
      rw [Bool.not_eq_true', Bool.not_eq_false] at hallowed
      refine guarantees_then (fun _ t => Inside registry t me workspace d)
        (removePrivateRegularFile_guarantees (fun m => .read) stable_inside stable_exists_member
          (fun t node ht => ht.seen) (fun t ⟨i, hi⟩ => hi.toInside)
          (fun t files ht hremove => remove_member hkind (.inr hallowed) ht hremove) h)
        (fun removed t ht => ?_) fun e t ht => ht
      cases removed with
      | true => exact ih ht
      | false => exact ht

/-- What a cleanup comes to. -/
def Cleaned (registry : Identity) (me : Session) (workspace : List Char) (r : Except FormatError Bool) (m : Machine) :
    Prop := Tending registry m me workspace ∧ (r = .ok true → Cleared registry m workspace)

theorem Tending.uncleaned (h : Tending registry m me workspace) : Cleaned registry me workspace (.ok false) m :=
  ⟨h, fun heq => by cases heq⟩

theorem Tending.failed (h : Tending registry m me workspace) (e : FormatError) :
    Cleaned registry me workspace (.error e) m := ⟨h, fun heq => by cases heq⟩

theorem removeEmptied_guarantees (hkind : parseWorkspaceKind workspace = some kind)
    (markerIdentity : Option SourceIdentity) (h : Inside registry m me workspace d) :
    (removeEmptied (workspacePath registry workspace) markerIdentity).Guarantees (Rely registry me)
      (Trim registry me workspace) (Cleaned registry me workspace) m := by
  unfold removeEmptied
  refine guarantees_then (fun _ t => Inside registry t me workspace d) ?_ (fun unmarked t ht => ?_)
    fun e t ht => ht.toTending.failed e
  · cases markerIdentity with
    | none => exact h
    | some identity =>
      exact removePrivateFileIfBound_guarantees _ (fun m => .read) stable_inside stable_exists_member
        (fun t node ht => ht.seen) (fun t ⟨i, hi⟩ => hi.toInside)
        (fun t files ht hremove => remove_member hkind (.inl rfl) ht hremove) h
  · cases unmarked with
    | false => exact ht.toTending.uncleaned
    | true =>
      refine guarantees_act_outcome (fun m => .read) stable_inside ht (fun u v w hv hact => ?_) fun e v hv hact => ?_
      · obtain ⟨files, hf, rfl⟩ := onFiles_eq_ok hact
        obtain ⟨htrim, htending, hcleared⟩ := hv.removeDir hkind hf
        exact ⟨htrim, htending, fun _ => hcleared⟩
      · cases e with
        | notFound => exact absurd (onFiles_eq_error hact) hv.removeDir_found
        | directoryNotEmpty => exact hv.toTending.uncleaned
        | _ => exact hv.toTending.failed _

theorem cleanupOwnedWorkspace_guarantees (record : StagingOwnerRecord) (h : Tending registry m me record.workspace) :
    (cleanupOwnedWorkspace (workspacePath registry record.workspace) record).Guarantees (Rely registry me)
      (Trim registry me record.workspace) (Cleaned registry me record.workspace) m := by
  unfold cleanupOwnedWorkspace
  refine guarantees_read_then (fun m => .read) stable_tending h (fun metadata t ht hlook => ?_) fun e t ht => ht.failed e
  have hmetadata : t.files.metadata (workspacePath registry record.workspace) =
      (found (t.files.find registry (osStr record.workspace))).map t.files.inodes := rfl
  dsimp only at hlook
  rw [hmetadata] at hlook
  rcases orNone_eq_ok hlook with ⟨node, rfl, hnode⟩ | ⟨rfl, hnone⟩
  · cases hfound : t.files.find registry (osStr record.workspace) with
    | none =>
      rw [hfound] at hnode
      cases hnode
    | some d =>
      rw [hfound] at hnode
      cases hnode
      dsimp only
      split
      · exact ht.uncleaned
      · rename_i hprivate
        rw [Bool.not_eq_true', Bool.not_eq_false] at hprivate
        have hinside : Inside registry t me record.workspace d := ⟨ht, hfound, hprivate⟩
        split
        · exact ht.uncleaned
        · rename_i kind hkind
          have hread : ∀ m, Trim registry me record.workspace m m := fun m => .read
          refine (readOnly_look _).guarantees_then hread stable_inside hinside (fun names u hu => ?_)
            fun e u hu => hu.toTending.failed e
          refine (readOnly_inspectEntries _ _ _ _ _).guarantees_then hread stable_inside hu (fun inspection u hu => ?_)
            fun e u hu => hu.toTending.failed e
          cases inspection with
          | none => exact hu.toTending.uncleaned
          | some seen =>
            dsimp only
            split
            · exact hu.toTending.uncleaned
            · refine (readOnly_look _).guarantees_then hread stable_inside hu (fun names u hu => ?_)
                fun e u hu => hu.toTending.failed e
              refine guarantees_then _ (removeMembers_guarantees hkind names hu) (fun removed v hv => ?_)
                fun e v hv => hv.toTending.failed e
              cases removed with
              | true => exact removeEmptied_guarantees hkind seen.markerIdentity hv
              | false => exact hv.toTending.uncleaned
  · refine ⟨ht, fun _ => ?_⟩
    cases hfound : t.files.find registry (osStr record.workspace) with
    | none => exact hfound
    | some d =>
      rw [hfound] at hnone
      cases hnone

end Emptying

end Squallz.Staging
