/-
Directories as a forest, and the removal of a whole directory, one entry at a time.
-/
import Squallz.System.FileSystem
import Squallz.System.Guarantee

namespace Squallz.System

namespace FileSystem

/-! ## The forest of directories -/

/-- A directory in another one. -/
def Sub (s : FileSystem) (d i : Identity) : Prop := ∃ name, s.find d name = some i ∧ (s.inodes i).isDir = true

/-- A directory at or below another one. -/
def Within (s : FileSystem) : Identity → Identity → Prop := Relation.ReflTransGen s.Sub

/-- A rank of the directories that grows from each one to those in it. -/
def Ranked (s : FileSystem) (rank : Identity → Nat) : Prop := ∀ d i, s.Sub d i → rank d < rank i

/-- No directory lies in itself. -/
def Forest (s : FileSystem) : Prop := ∃ rank, s.Ranked rank

/-- Fewer entries, and the same files. -/
structure Pruned (s t : FileSystem) : Prop where
  find : ∀ d name, t.find d name = s.find d name ∨ t.find d name = none
  sameFile : ∀ i, (t.inodes i).SameFile (s.inodes i)

/-- One entry less. -/
structure Removed (s : FileSystem) (d : Identity) (name : Name) (t : FileSystem) : Prop where
  linked : ∃ i, s.find d name = some i
  gone : t.find d name = none
  others : ∀ d' name', (d', name') ≠ (d, name) → t.find d' name' = s.find d' name'
  sameFile : ∀ i, (t.inodes i).SameFile (s.inodes i)

theorem Inode.isDir_of_sameFile {i j : Inode} (h : i.SameFile j) : i.isDir = j.isDir := by
  unfold Inode.isDir
  rw [h.1]

section

variable {s t u : FileSystem} {d : Identity} {name : Name} {rank : Identity → Nat}

theorem Pruned.refl (s : FileSystem) : s.Pruned s := ⟨fun _ _ => .inl rfl, fun _ => .refl _⟩

theorem Pruned.trans (h : s.Pruned t) (h' : t.Pruned u) : s.Pruned u := by
  refine ⟨fun d name => ?_, fun i => (h'.sameFile i).trans (h.sameFile i)⟩
  rcases h'.find d name with heq | heq
  · rw [heq]
    exact h.find d name
  · exact .inr heq

theorem Removed.pruned (h : s.Removed d name t) : s.Pruned t := by
  refine ⟨fun d' name' => ?_, h.sameFile⟩
  by_cases hk : (d', name') = (d, name)
  · cases hk
    exact .inr h.gone
  · exact .inl (h.others d' name' hk)

theorem Pruned.ranked (h : s.Pruned t) (hs : s.Ranked rank) : t.Ranked rank := by
  rintro d i ⟨name, hfind, hdir⟩
  refine hs d i ⟨name, ?_, ?_⟩
  · rcases h.find d name with heq | heq
    · rw [← heq, hfind]
    · rw [heq] at hfind
      cases hfind
  · rwa [← Inode.isDir_of_sameFile (h.sameFile i)]

theorem Ranked.le_of_within (hs : s.Ranked rank) {i : Identity} (h : s.Within d i) : rank d ≤ rank i := by
  induction h with
  | refl => exact le_rfl
  | tail _ hsub ih => exact le_trans ih (le_of_lt (hs _ _ hsub))

/-- What lies in a directory still does as long as the entries of a smaller rank stay. -/
theorem Pruned.within (h : s.Pruned t) (hs : s.Ranked rank) {root i : Identity}
    (hkeep : ∀ d name, rank d < rank i → t.find d name = s.find d name) (hi : s.Within root i) :
    t.Within root i := by
  induction hi with
  | refl => exact .refl
  | @tail j k _ hsub ih =>
    have hlt := hs _ _ hsub
    refine .tail (ih fun d name hd => hkeep d name (lt_trans hd hlt)) ?_
    obtain ⟨name, hfind, hdir⟩ := hsub
    refine ⟨name, ?_, ?_⟩
    · rw [hkeep _ _ hlt, hfind]
    · rwa [Inode.isDir_of_sameFile (h.sameFile k)]

theorem removeFile_removed (h : s.removeFile ⟨d, [name]⟩ = .ok ((), t)) : s.Removed d name t := by
  obtain ⟨d', name', i, hloc, hi, -, rfl⟩ := removeFile_eq_ok.1 h
  cases hloc
  refine ⟨⟨i, hi⟩, ?_, fun d' name' hne => ?_, fun j => sameFile_touch _ _ _⟩
  · rw [find_touch, find_unlink, if_pos ⟨rfl, rfl⟩]
  · rw [find_touch, find_unlink, if_neg fun heq => hne (by rw [heq.1, heq.2])]

theorem removeDir_removed (h : s.removeDir ⟨d, [name]⟩ = .ok ((), t)) : s.Removed d name t := by
  obtain ⟨d', name', i, hloc, hi, -, -, rfl⟩ := removeDir_eq_ok.1 h
  cases hloc
  refine ⟨⟨i, hi⟩, ?_, fun d' name' hne => ?_, fun j => .refl _⟩
  · rw [find_unlink, if_pos ⟨rfl, rfl⟩]
  · rw [find_unlink, if_neg fun heq => hne (by rw [heq.1, heq.2])]

theorem found_eq_ok {r : Option Identity} {i : Identity} : found r = .ok i ↔ r = some i := by
  cases r <;> simp

theorem found_eq_error {r : Option Identity} {e : Errno} : found r = .error e → r = none := by
  cases r <;> simp

/-- No entry was there for an operation that says so. -/
theorem find_of_removeFile_notFound (h : s.removeFile ⟨d, [name]⟩ = .error .notFound) : s.find d name = none := by
  unfold removeFile at h
  simp only [locate_one, bind, Except.bind] at h
  split at h
  · assumption
  · split at h <;> cases h

theorem find_of_removeDir_notFound (h : s.removeDir ⟨d, [name]⟩ = .error .notFound) : s.find d name = none := by
  unfold removeDir at h
  simp only [locate_one, bind, Except.bind] at h
  split at h
  · assumption
  · split at h
    · split at h <;> cases h
    · cases h

end

end FileSystem

/-! ## Removing a directory with all that it holds -/

open FileSystem Prog

/-- An entry that is gone already counts as removed. -/
def ignoreNotFound {S : Type} (p : Prog S Errno Unit) : Prog S Errno Unit := do
  let result ← p.attempt
  match result with
  | .ok () | .error .notFound => .ret ()
  | .error e => .fail e

/-- One change by a call, with its error. -/
def call {S α : Type} (f : S → Except Errno (α × S)) : Prog S Errno α := do
  let result ← .act f
  .ofExcept result

/-- `remove_dir_all_recursive`: the entry of an open directory under a name, and first all that lies in it;
symbolic links are not followed. No directory is deeper than there are entries. -/
def removeTree : Nat → Identity → Name → Prog FileSystem Errno Unit
  | 0, _, _ => .fail .invalid
  | depth + 1, d, name => do
    let i ← .observe fun s => found (s.find d name)
    let isDir ← .observe fun s => .ok (s.inodes i).isDir
    if isDir then
      let names ← .observe fun s => .ok (s.children i)
      names.forM fun name => ignoreNotFound (removeTree depth i name)
      ignoreNotFound (call (·.removeDir ⟨d, [name]⟩))
    else call (·.removeFile ⟨d, [name]⟩)

/-- `std::fs::remove_dir_all`. -/
def removeDirAll (path : Path) : Prog FileSystem Errno Unit := do
  let metadata ← .observe (·.metadata path)
  match metadata.content with
  | .symlink _ => call (·.removeFile path)
  | .directory =>
    let place ← .observe fun s => s.locate path.base path.names
    let depth ← .observe fun s => .ok (s.links.entries.length + 1)
    removeTree depth place.1 place.2
  | _ => .fail .notADirectory

/-! ## What a removal does, entry by entry -/

section

variable {guar : FileSystem → FileSystem → Prop}

theorem guarantees_ignoreNotFound {S : Type} {rely guar : S → S → Prop} {p : Prog S Errno Unit}
    {Q R : Except Errno Unit → S → Prop} {s : S} (hp : p.Guarantees rely guar R s)
    (hgone : ∀ r t, R r t → r = .ok () ∨ r = .error .notFound → Q (.ok ()) t)
    (herror : ∀ e t, R (.error e) t → e ≠ .notFound → Q (.error e) t) :
    (ignoreNotFound p).Guarantees rely guar Q s := by
  unfold ignoreNotFound
  rw [guarantees_bind, guarantees_attempt]
  refine hp.post fun r t hr => ?_
  dsimp only
  split
  · exact hgone _ t hr (.inl rfl)
  · exact hgone _ t hr (.inr rfl)
  · rename_i e hne
    exact herror e t hr hne

theorem guarantees_call {S α : Type} {guar : S → S → Prop} {f : S → Except Errno (α × S)}
    {Q : Except Errno α → S → Prop} {s : S} (hs : guar s s) (hok : ∀ a t, f s = .ok (a, t) → guar s t ∧ Q (.ok a) t)
    (herror : ∀ e, f s = .error e → Q (.error e) s) : (call f).Guarantees Eq guar Q s := by
  refine guarantees_act_then hs (fun a t h => ?_) (fun e h => ?_)
  · exact hok a t h
  · exact herror e h

/-- What the removal of an entry leaves: fewer entries, and all of those that are not below it. -/
structure Cleared (rank : Identity → Nat) (s : FileSystem) (d : Identity) (name : Name) (t : FileSystem) : Prop where
  pruned : s.Pruned t
  above : ∀ d' name', rank d' ≤ rank d → (d', name') ≠ (d, name) → t.find d' name' = s.find d' name'

/-- An entry that is the top one, or lies in the directory that the top one leads to. -/
def Under (s : FileSystem) (base : Identity) (top : Name) (d : Identity) (name : Name) : Prop :=
  (d, name) = (base, top) ∨ ∃ root, s.find base top = some root ∧ (s.inodes root).isDir = true ∧ s.Within root d

variable {rank : Identity → Nat} {s t u : FileSystem} {base d i : Identity} {top name : Name}

theorem Cleared.refl (rank : Identity → Nat) (s : FileSystem) (d : Identity) (name : Name) :
    Cleared rank s d name s := ⟨.refl s, fun _ _ _ _ => rfl⟩

theorem Under.rank_le (h : Under s base top d name) (hs : s.Ranked rank) :
    (d, name) = (base, top) ∨ rank base < rank d := by
  rcases h with h | ⟨root, hfind, hdir, hwithin⟩
  · exact .inl h
  · exact .inr (lt_of_lt_of_le (hs base root ⟨top, hfind, hdir⟩) (hs.le_of_within hwithin))

/-- The removal of an entry under the top one is a part of the removal of the top one. -/
theorem Cleared.trans (h : Cleared rank s base top t) (hunder : Under t base top d name) (ht : t.Ranked rank)
    (h' : Cleared rank t d name u) : Cleared rank s base top u := by
  refine ⟨h.pruned.trans h'.pruned, fun d' name' hle hne => ?_⟩
  rw [← h.above d' name' hle hne]
  rcases hunder.rank_le ht with heq | hlt
  · cases heq
    exact h'.above d' name' hle hne
  · refine h'.above d' name' (le_trans hle (le_of_lt hlt)) fun heq => ?_
    cases heq
    omega

theorem FileSystem.Removed.cleared (h : s.Removed d name t) : Cleared rank s d name t :=
  ⟨h.pruned, fun d' name' _ hne => h.others d' name' hne⟩

/-- An entry under the top one stays under it as long as the entries that are not of a greater rank do. -/
theorem Under.kept (h : Under s base top d name) (hs : s.Ranked rank) (hpruned : s.Pruned t)
    (hkeep : ∀ d' name', rank d' ≤ rank d → t.find d' name' = s.find d' name') : Under t base top d name := by
  rcases h with heq | ⟨root, hroot, hdir, hwithin⟩
  · exact .inl heq
  · have hbase : rank base < rank d := lt_of_lt_of_le (hs base root ⟨top, hroot, hdir⟩) (hs.le_of_within hwithin)
    refine .inr ⟨root, ?_, ?_, ?_⟩
    · rw [hkeep base top (le_of_lt hbase), hroot]
    · rwa [Inode.isDir_of_sameFile (hpruned.sameFile root)]
    · exact hpruned.within hs (fun d' name' hd => hkeep d' name' (le_of_lt hd)) hwithin

/-- So is every entry of a directory under the top one. -/
theorem Under.child (h : Under s base top d name) (hfind : s.find d name = some i)
    (hdir : (s.inodes i).isDir = true) (child : Name) : Under s base top i child := by
  rcases h with heq | ⟨root, hroot, hrootDir, hwithin⟩
  · cases heq
    exact .inr ⟨i, hfind, hdir, .refl⟩
  · exact .inr ⟨root, hroot, hrootDir, hwithin.tail ⟨name, hfind, hdir⟩⟩

/-- What is left of a file system while a directory in it is being emptied. -/
structure Emptying (rank : Identity → Nat) (s : FileSystem) (i : Identity) (t : FileSystem) : Prop where
  pruned : s.Pruned t
  above : ∀ d name, rank d < rank i → t.find d name = s.find d name

theorem Emptying.cleared (h : Emptying rank s i t) (hlt : rank d < rank i) (name : Name) : Cleared rank s d name t :=
  ⟨h.pruned, fun d' name' hle _ => h.above d' name' (lt_of_le_of_lt hle hlt)⟩

theorem Emptying.step {child : Name} (h : Emptying rank s i t) (h' : Cleared rank t i child u) :
    Emptying rank s i u := by
  refine ⟨h.pruned.trans h'.pruned, fun d name hd => ?_⟩
  rw [h'.above d name (le_of_lt hd), h.above d name hd]
  intro heq
  cases heq
  exact lt_irrefl _ hd

/-- A removal takes away entries under the top one only, one at a time, and where it ends well the entry it
was called for is gone. -/
theorem removeTree_guarantees (hranked : s.Ranked rank) (hread : ∀ t, Cleared rank s base top t → guar t t)
    (hremove : ∀ t d name t', Cleared rank s base top t → Under t base top d name → t.Removed d name t' → guar t t') :
    ∀ depth d name t, Cleared rank s base top t → Under t base top d name →
      (removeTree depth d name).Guarantees Eq guar (fun r t' => Cleared rank t d name t' ∧
        (r = .ok () ∨ r = .error .notFound → t'.find d name = none)) t := by
  intro depth
  induction depth with
  | zero =>
    intro d name t _ _
    refine ⟨.refl rank t d name, ?_⟩
    rintro (h | h) <;> cases h
  | succ depth ih =>
    intro d name t ht hunder
    have hrt := ht.pruned.ranked hranked
    have hself := hread t ht
    unfold removeTree
    refine guarantees_observe_then hself (fun i hi => ?_) (fun e he => ?_)
    · have hfind := found_eq_ok.1 hi
      refine guarantees_observe_then hself (fun isDir hdir => ?_) (fun e he => by cases he)
      cases hdir
      by_cases hdir : (t.inodes i).isDir = true
      · rw [if_pos hdir]
        have hlt : rank d < rank i := hrt d i ⟨name, hfind, hdir⟩
        -- while the directory is emptied the way that leads to it stays
        have hstays : ∀ u, Emptying rank t i u →
            Cleared rank s base top u ∧ Under u base top d name ∧ u.find d name = some i ∧
              (u.inodes i).isDir = true := by
          intro u hu
          refine ⟨ht.trans hunder hrt (hu.cleared hlt name), ?_, ?_, ?_⟩
          · exact hunder.kept hrt hu.pruned fun d' name' hle => hu.above d' name' (lt_of_le_of_lt hle hlt)
          · rw [hu.above d name hlt, hfind]
          · rwa [Inode.isDir_of_sameFile (hu.pruned.sameFile i)]
        refine guarantees_observe_then hself (fun names hnames => ?_) (fun e he => by cases he)
        refine guarantees_then (fun r u => Emptying rank t i u ∧ r ≠ .error .notFound) ?_ ?_ ?_
        · refine guarantees_forM (fun _ u => Emptying rank t i u) (fun child rest u _ hu => ?_) (fun u hu => ?_) ?_
          · obtain ⟨hcleared, hunder', hfind', hdir'⟩ := hstays u hu
            refine guarantees_ignoreNotFound (ih i child u hcleared (hunder'.child hfind' hdir' child)) ?_ ?_
            · rintro r v ⟨hv, -⟩ -
              exact hu.step hv
            · rintro e v ⟨hv, -⟩ hne
              refine ⟨hu.step hv, fun heq => ?_⟩
              cases heq
              exact hne rfl
          · exact ⟨hu, fun heq => by cases heq⟩
          · exact ⟨.refl t, fun _ _ _ => rfl⟩
        · rintro ⟨⟩ u ⟨hu, -⟩
          obtain ⟨hcleared, hunder', -, -⟩ := hstays u hu
          have hcu := hu.cleared hlt name
          refine @guarantees_ignoreNotFound _ Eq guar _ _ (fun r v => Cleared rank t d name v ∧
            (r = .ok () ∨ r = .error .notFound → v.find d name = none)) _ ?_ ?_ ?_
          · refine guarantees_call (hread u hcleared) (fun _ v hv => ?_) (fun e he => ⟨hcu, ?_⟩)
            · have hremoved := removeDir_removed hv
              refine ⟨hremove u d name v hcleared hunder' hremoved, ?_, fun _ => hremoved.gone⟩
              exact hcu.trans (.inl rfl) (hu.pruned.ranked hrt) hremoved.cleared
            · rintro (heq | heq) <;> cases heq
              exact find_of_removeDir_notFound he
          · rintro r v ⟨hv, hgone⟩ hr
            exact ⟨hv, fun _ => hgone hr⟩
          · rintro e v ⟨hv, hgone⟩ -
            exact ⟨hv, hgone⟩
        · rintro e u ⟨hu, hne⟩
          refine ⟨hu.cleared hlt name, ?_⟩
          rintro (heq | heq)
          · cases heq
          · exact absurd heq hne
      · rw [if_neg hdir]
        refine guarantees_call hself (fun _ v hv => ?_) (fun e he => ⟨.refl rank t d name, ?_⟩)
        · have hremoved := removeFile_removed hv
          exact ⟨hremove t d name v ht hunder hremoved, hremoved.cleared, fun _ => hremoved.gone⟩
        · rintro (heq | heq) <;> cases heq
          exact find_of_removeFile_notFound he
    · exact ⟨.refl rank t d name, fun _ => found_eq_error he⟩

end

end Squallz.System
