/-
What an operation on the entries of a directory does, and what it leaves alone.
-/
import Squallz.System.Tree

namespace Squallz.System.FileSystem

variable {s t u : FileSystem} {d d' : Identity} {name name' a b : Name} {i : Identity}

/-- An entry as it was, leading to the file as it was up to the time of its last change of status. -/
structure Keeps (s t : FileSystem) (d : Identity) (name : Name) : Prop where
  find : t.find d name = s.find d name
  sameFile : ∀ i, s.find d name = some i → (t.inodes i).SameFile (s.inodes i)

/-- The entry `a` of a directory under the name `b`. -/
structure Moved (s : FileSystem) (d : Identity) (a b : Name) (i : Identity) (t : FileSystem) : Prop where
  source : s.find d a = some i
  target : t.find d b = some i
  gone : t.find d a = none
  others : ∀ d' name, (d', name) ≠ (d, a) → (d', name) ≠ (d, b) → t.find d' name = s.find d' name
  sameFile : ∀ j, (t.inodes j).SameFile (s.inodes j)

/-- The entry at `k` at another place, where there was none. -/
structure Relocated (s : FileSystem) (k k' : Identity × Name) (i : Identity) (t : FileSystem) : Prop where
  source : s.find k.1 k.2 = some i
  vacant : s.find k'.1 k'.2 = none
  target : t.find k'.1 k'.2 = some i
  gone : t.find k.1 k.2 = none
  others : ∀ d name, (d, name) ≠ k → (d, name) ≠ k' → t.find d name = s.find d name
  sameFile : ∀ j, (t.inodes j).SameFile (s.inodes j)

/-- A new entry that leads to a new inode. -/
structure Created (s : FileSystem) (d : Identity) (name : Name) (node : Inode) (i : Identity) (t : FileSystem) : Prop where
  vacant : s.find d name = none
  target : t.find d name = some i
  fresh : ∀ d' name', s.find d' name' ≠ some i
  ne : i ≠ d
  empty : ∀ name', s.find i name' = none
  entry : i.entry ≠ 0
  node : (t.inodes i).SameFile node
  others : ∀ d' name', (d', name') ≠ (d, name) → t.find d' name' = s.find d' name'
  inodes : ∀ j, j ≠ i → t.inodes j = s.inodes j

/-! ## What is left alone -/

theorem Keeps.refl (s : FileSystem) (d : Identity) (name : Name) : s.Keeps s d name := ⟨rfl, fun _ _ => .refl _⟩

theorem Keeps.trans (h : s.Keeps t d name) (h' : t.Keeps u d name) : s.Keeps u d name := by
  refine ⟨h'.find.trans h.find, fun i hi => (h'.sameFile i ?_).trans (h.sameFile i hi)⟩
  rw [h.find, hi]

theorem Pruned.keeps (h : s.Pruned t) (hfind : t.find d name = s.find d name) : s.Keeps t d name :=
  ⟨hfind, fun i _ => h.sameFile i⟩

theorem Removed.keeps (h : s.Removed d name t) (hne : (d', name') ≠ (d, name)) : s.Keeps t d' name' :=
  h.pruned.keeps (h.others d' name' hne)

theorem Moved.keeps (h : s.Moved d a b i t) (ha : (d', name') ≠ (d, a)) (hb : (d', name') ≠ (d, b)) :
    s.Keeps t d' name' := ⟨h.others d' name' ha hb, fun j _ => h.sameFile j⟩

theorem Relocated.keeps {k k' : Identity × Name} (h : s.Relocated k k' i t) (hk : (d', name') ≠ k)
    (hk' : (d', name') ≠ k') : s.Keeps t d' name' := ⟨h.others d' name' hk hk', fun j _ => h.sameFile j⟩

theorem Created.keeps {node : Inode} (h : s.Created d name node i t) (hne : (d', name') ≠ (d, name)) :
    s.Keeps t d' name' := by
  refine ⟨h.others d' name' hne, fun j hj => ?_⟩
  rw [h.inodes j fun heq => h.fresh d' name' (heq ▸ hj)]
  exact .refl _

theorem keeps_write {bytes : List UInt8} (h : s.find d name ≠ some i) : s.Keeps (s.write i bytes) d name := by
  refine ⟨rfl, fun j hj => ?_⟩
  have hji : j ≠ i := by
    rintro rfl
    exact h hj
  rw [inodes_write_ne _ _ _ _ hji]
  exact .refl _

/-! ## What is done -/

theorem create_created {node : Inode} (h : s.create ⟨d, [name]⟩ node = .ok (i, t)) : s.Created d name node i t := by
  obtain ⟨d', name', hloc, hvacant, hi, rfl⟩ := create_eq_ok.1 h
  cases hloc
  have hfresh : ∀ d' name', s.find d' name' ≠ some i := fun d' name' hj => (fresh_not_linked hj d).1 hi
  refine ⟨hvacant, ?_, hfresh, hi ▸ fresh_ne s d, fun name' => ?_, ?_, ?_, fun d' name' hne => ?_, fun j hj => ?_⟩
  · rw [find_touch, find_link, if_pos ⟨rfl, rfl⟩]
  · cases hf : s.find i name' with
    | none => rfl
    | some j => exact absurd hi (fresh_not_linked hf d).2
  · rw [hi, fresh]
    exact Nat.succ_ne_zero _
  · have h := sameFile_touch ((s.setInode i node).link d name i) i i
    rw [inodes_link, inodes_setInode_self] at h
    exact h
  · rw [find_touch, find_link, if_neg fun heq => hne (by rw [heq.1, heq.2]), find_setInode]
  · rw [inodes_touch_ne _ _ _ hj, inodes_link, inodes_setInode_ne _ _ _ _ hj]

theorem renameNoReplace_relocated {src dest : Path} {k k' : Identity × Name}
    (h : s.renameNoReplace src dest = .ok ((), t)) (hsrc : s.locate src.base src.names = .ok k)
    (hdest : s.locate dest.base dest.names = .ok k') : ∃ i, s.Relocated k k' i t := by
  obtain ⟨d, name, i, d', name', hloc, hi, hloc', hvacant, rfl⟩ := renameNoReplace_eq_ok.1 h
  rw [hsrc] at hloc
  rw [hdest] at hloc'
  cases hloc
  cases hloc'
  refine ⟨i, hi, hvacant, ?_, ?_, fun d'' name'' hk hk' => ?_, fun j => sameFile_touch _ _ _⟩
  · rw [find_touch, find_link, if_pos ⟨rfl, rfl⟩]
  · rw [find_touch, find_link, if_neg, find_unlink, if_pos ⟨rfl, rfl⟩]
    rintro ⟨rfl, rfl⟩
    rw [hi] at hvacant
    cases hvacant
  · rw [find_touch, find_link, if_neg fun heq => hk' (by rw [heq.1, heq.2]), find_unlink,
      if_neg fun heq => hk (by rw [heq.1, heq.2])]

theorem renameNoReplace_moved (h : s.renameNoReplace ⟨d, [a]⟩ ⟨d, [b]⟩ = .ok ((), t)) :
    s.find d b = none ∧ ∃ i, s.Moved d a b i t := by
  obtain ⟨i, hi⟩ := renameNoReplace_relocated h (locate_one s d a) (locate_one s d b)
  exact ⟨hi.vacant, i, hi.source, hi.target, hi.gone, hi.others, hi.sameFile⟩

/-- Two names of one file both stay, otherwise the first name's file gets the second name. -/
theorem renameReplace_moved (hne : b ≠ a) (h : s.renameReplace ⟨d, [a]⟩ ⟨d, [b]⟩ = .ok ((), t)) :
    (∃ i, s.find d a = some i ∧ s.find d b = some i ∧ t = s) ∨ ∃ i, s.Moved d a b i t := by
  have hmoved : ∀ i, s.find d a = some i → s.Moved d a b i (((s.unlink d a).link d b i).touch i) := by
    intro i hi
    refine ⟨hi, ?_, ?_, fun d' name ha hb => ?_, fun j => sameFile_touch _ _ _⟩
    · rw [find_touch, find_link, if_pos ⟨rfl, rfl⟩]
    · rw [find_touch, find_link, if_neg fun heq => hne heq.2.symm, find_unlink, if_pos ⟨rfl, rfl⟩]
    · rw [find_touch, find_link, if_neg fun heq => hb (by rw [heq.1, heq.2]), find_unlink,
        if_neg fun heq => ha (by rw [heq.1, heq.2])]
  unfold renameReplace at h
  simp only [locate_one, bind, Except.bind] at h
  split at h
  · cases h
  · rename_i i hi
    split at h
    · rename_i j hj
      split at h
      · rename_i heq
        cases h
        exact .inl ⟨i, hi, heq ▸ hj, rfl⟩
      · split at h
        · cases h
        · split at h
          · cases h
          · cases h
            exact .inr ⟨i, hmoved i hi⟩
    · cases h
      exact .inr ⟨i, hmoved i hi⟩

/-! ## Forests stay forests -/

theorem Forest.of_sub (hs : s.Forest) (h : ∀ d i, t.Sub d i → s.Sub d i) : t.Forest := by
  obtain ⟨rank, hrank⟩ := hs
  exact ⟨rank, fun d i hsub => hrank d i (h d i hsub)⟩

theorem Forest.pruned (hs : s.Forest) (h : s.Pruned t) : t.Forest := by
  obtain ⟨rank, hrank⟩ := hs
  exact ⟨rank, h.ranked hrank⟩

theorem Forest.moved (hs : s.Forest) (h : s.Moved d a b i t) : t.Forest := by
  refine hs.of_sub fun d' j hsub => ?_
  obtain ⟨name, hfind, hdir⟩ := hsub
  have hdir' : (s.inodes j).isDir = true := by rwa [← Inode.isDir_of_sameFile (h.sameFile j)]
  by_cases hb : (d', name) = (d, b)
  · cases hb
    have hj : i = j := Option.some.inj (h.target.symm.trans hfind)
    exact ⟨a, hj ▸ h.source, hdir'⟩
  · by_cases ha : (d', name) = (d, a)
    · cases ha
      rw [h.gone] at hfind
      cases hfind
    · exact ⟨name, by rw [← h.others d' name ha hb, hfind], hdir'⟩

theorem Forest.write {bytes : List UInt8} (hs : s.Forest) : (s.write i bytes).Forest := by
  refine hs.of_sub fun d j hsub => ?_
  obtain ⟨name, hfind, hdir⟩ := hsub
  by_cases hj : j = i
  · subst hj
    rw [Inode.isDir, content_write] at hdir
    cases hdir
  · rw [inodes_write_ne _ _ _ _ hj] at hdir
    exact ⟨name, hfind, hdir⟩

/-- A new entry is given a rank above that of its directory; nothing lies in it yet. -/
theorem Forest.created {node : Inode} (hs : s.Forest) (h : s.Created d name node i t) : t.Forest := by
  obtain ⟨rank, hrank⟩ := hs
  refine ⟨fun j => if j = i then rank d + 1 else rank j, ?_⟩
  rintro d' j ⟨name', hfind, hdir⟩
  by_cases hk : (d', name') = (d, name)
  · cases hk
    have hj : i = j := Option.some.inj (h.target.symm.trans hfind)
    subst hj
    dsimp only
    rw [if_pos rfl]
    rw [if_neg h.ne.symm]
    exact Nat.lt_succ_self _
  · rw [h.others d' name' hk] at hfind
    have hj : j ≠ i := fun heq => h.fresh d' name' (heq ▸ hfind)
    have hd : d' ≠ i := by
      rintro rfl
      rw [h.empty name'] at hfind
      cases hfind
    dsimp only
    rw [if_neg hj, if_neg hd]
    rw [h.inodes j hj] at hdir
    exact hrank d' j ⟨name', hfind, hdir⟩

end Squallz.System.FileSystem
