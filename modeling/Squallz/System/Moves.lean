/-
Plans of moves between the names of a directory: each move takes an entry from one name to a vacant one, and what the directory
holds under each name tells which of the moves are done.
-/
import Squallz.System.Frame

namespace Squallz.System

/-- A move of an entry from one name to another. -/
structure Move (N I : Type) where
  source : N
  target : N
  identity : I
deriving DecidableEq

variable {N I : Type} [DecidableEq N]

/-- What is found under each name after a move. -/
def Move.apply (m : Move N I) (f : N → Option I) : N → Option I := fun name =>
  if name = m.target then some m.identity else if name = m.source then none else f name

/-- What is found under each name after some moves. -/
def afterMoves (moves : List (Move N I)) (f : N → Option I) : N → Option I := moves.foldl (fun f m => m.apply f) f

/-- Moves that can be made one after the other: every entry is at its place, and a name is moved to once, at a time when it is
vacant, and never moved from after that. -/
structure Plan (moves : List (Move N I)) (f : N → Option I) : Prop where
  present : ∀ m ∈ moves, f m.source = some m.identity
  apart : moves.Pairwise fun a b => a.source ≠ b.source ∧ a.target ≠ b.target ∧ a.target ≠ b.source
  vacant : ∀ done m rest, moves = done ++ m :: rest → f m.target = none ∨ ∃ a ∈ done, a.source = m.target

variable {moves done rest : List (Move N I)} {m : Move N I} {f : N → Option I} {name : N}

@[simp] theorem afterMoves_nil (f : N → Option I) : afterMoves [] f = f := rfl

theorem afterMoves_concat (done : List (Move N I)) (m : Move N I) (f : N → Option I) :
    afterMoves (done ++ [m]) f = m.apply (afterMoves done f) := by
  unfold afterMoves
  rw [List.foldl_append, List.foldl_cons, List.foldl_nil]

/-- A name after some moves holds what was moved to it, nothing where it was only moved from, and otherwise what it held. -/
theorem afterMoves_eq (h : done.Pairwise fun a b => a.target ≠ b.target ∧ a.target ≠ b.source) (f : N → Option I)
    (name : N) : afterMoves done f name = match done.find? fun m => m.target = name with
      | some m => some m.identity
      | none => if name ∈ done.map (·.source) then none else f name := by
  unfold afterMoves
  induction done generalizing f with
  | nil => rfl
  | cons m done ih =>
    obtain ⟨hm, hdone⟩ := List.pairwise_cons.1 h
    rw [List.foldl_cons, ih hdone, List.find?_cons, List.map_cons]
    by_cases htarget : m.target = name
    · -- no later move has to do with the target of this one
      have hfind : done.find? (fun m => decide (m.target = name)) = none := by
        rw [List.find?_eq_none]
        intro a ha heq
        exact (hm a ha).1 (htarget.trans (of_decide_eq_true heq).symm)
      have hsource : name ∉ done.map (·.source) := by
        intro hmem
        obtain ⟨a, ha, heq⟩ := List.mem_map.1 hmem
        exact (hm a ha).2 (htarget.trans heq.symm)
      rw [hfind, decide_eq_true htarget]
      dsimp only
      rw [if_neg hsource, Move.apply, if_pos htarget.symm]
    · rw [decide_eq_false htarget]
      cases done.find? (fun m => decide (m.target = name)) with
      | some a => rfl
      | none =>
        dsimp only
        rw [Move.apply, if_neg (Ne.symm htarget)]
        by_cases hsource : name = m.source
        · rw [if_pos hsource, ite_self, if_pos (List.mem_cons.2 (.inl hsource))]
        · rw [if_neg hsource]
          by_cases hlater : name ∈ done.map (·.source)
          · rw [if_pos hlater, if_pos (List.mem_cons_of_mem _ hlater)]
          · rw [if_neg hlater, if_neg fun hmem => (List.mem_cons.1 hmem).elim hsource hlater]

namespace Plan

omit [DecidableEq N] in
theorem apart_done (h : Plan moves f) (split : moves = done ++ rest) :
    done.Pairwise fun a b => a.target ≠ b.target ∧ a.target ≠ b.source := by
  have hapart := h.apart
  rw [split] at hapart
  exact (List.pairwise_append.1 hapart).1.imp fun hab => hab.2

omit [DecidableEq N] in
theorem apart_rest (h : Plan moves f) (split : moves = done ++ rest) {a b : Move N I} (ha : a ∈ done) (hb : b ∈ rest) :
    a.source ≠ b.source ∧ a.target ≠ b.target ∧ a.target ≠ b.source := by
  have hapart := h.apart
  rw [split] at hapart
  exact (List.pairwise_append.1 hapart).2.2 a ha b hb

private theorem find?_target_eq_none {name : N} (h : ∀ a ∈ done, a.target ≠ name) :
    done.find? (fun m => decide (m.target = name)) = none := by
  rw [List.find?_eq_none]
  exact fun a ha heq => h a ha (of_decide_eq_true heq)

private theorem of_find?_target {name : N} (h : done.find? (fun m => decide (m.target = name)) = some m) :
    m ∈ done ∧ m.target = name := by
  have hname := List.find?_some h
  exact ⟨List.mem_of_find?_eq_some h, of_decide_eq_true hname⟩

/-- An entry that has still to be moved is at its source. -/
theorem source_rest (h : Plan moves f) (split : moves = done ++ rest) (hm : m ∈ rest) :
    afterMoves done f m.source = some m.identity := by
  have hnot : m.source ∉ done.map (·.source) := by
    intro hmem
    obtain ⟨a, ha, heq⟩ := List.mem_map.1 hmem
    exact (h.apart_rest split ha hm).1 heq
  rw [afterMoves_eq (h.apart_done split), find?_target_eq_none fun a ha => (h.apart_rest split ha hm).2.2]
  dsimp only
  rw [if_neg hnot]
  exact h.present m (split ▸ List.mem_append_right _ hm)

/-- The next move finds its target vacant. -/
theorem target_next (h : Plan moves f) (split : moves = done ++ m :: rest) : afterMoves done f m.target = none := by
  rw [afterMoves_eq (h.apart_done split),
    find?_target_eq_none fun a ha => (h.apart_rest split ha List.mem_cons_self).2.1]
  dsimp only
  rcases h.vacant done m rest split with hnone | ⟨a, ha, heq⟩
  · rw [hnone, ite_self]
  · rw [if_pos (List.mem_map.2 ⟨a, ha, heq⟩)]

/-- An entry that was moved is at its target. -/
theorem target_done (h : Plan moves f) (split : moves = done ++ rest) (hm : m ∈ done) :
    afterMoves done f m.target = some m.identity := by
  have hapart := h.apart_done split
  obtain ⟨before, after, rfl⟩ := List.append_of_mem hm
  have hbefore : ∀ a ∈ before, a.target ≠ m.target := fun a ha =>
    ((List.pairwise_append.1 hapart).2.2 a ha m List.mem_cons_self).1
  rw [afterMoves_eq hapart, List.find?_append, find?_target_eq_none hbefore, Option.none_or, List.find?_cons,
    decide_eq_true rfl]

/-- The name that an entry was moved from is vacant, or another entry was moved to it. -/
theorem source_done (h : Plan moves f) (split : moves = done ++ rest) (hm : m ∈ done) :
    afterMoves done f m.source = none ∨
      ∃ a ∈ done, a.target = m.source ∧ afterMoves done f m.source = some a.identity := by
  rw [afterMoves_eq (h.apart_done split)]
  cases hfind : done.find? (fun a => decide (a.target = m.source)) with
  | none => exact .inl (if_pos (List.mem_map_of_mem hm))
  | some a =>
    obtain ⟨ha, heq⟩ := of_find?_target hfind
    exact .inr ⟨a, ha, heq, rfl⟩

/-- A name that no entry was moved from or to. -/
theorem other (h : Plan moves f) (split : moves = done ++ rest) (hsource : ∀ a ∈ done, a.source ≠ name)
    (htarget : ∀ a ∈ done, a.target ≠ name) : afterMoves done f name = f name := by
  rw [afterMoves_eq (h.apart_done split), find?_target_eq_none htarget]
  dsimp only
  rw [if_neg]
  intro hmem
  obtain ⟨a, ha, heq⟩ := List.mem_map.1 hmem
  exact hsource a ha heq

/-- What is found under a name after some moves is what was moved there, or what was there before and was not moved. -/
theorem of_some (h : Plan moves f) (split : moves = done ++ rest) {i : I} (hi : afterMoves done f name = some i) :
    (∃ m ∈ done, m.target = name ∧ m.identity = i) ∨ (f name = some i ∧ name ∉ done.map (·.source)) := by
  rw [afterMoves_eq (h.apart_done split)] at hi
  cases hfind : done.find? (fun a => decide (a.target = name)) with
  | some a =>
    rw [hfind] at hi
    obtain ⟨ha, heq⟩ := of_find?_target hfind
    exact .inl ⟨a, ha, heq, Option.some.inj hi⟩
  | none =>
    rw [hfind] at hi
    dsimp only at hi
    split at hi
    · cases hi
    · rename_i hsource
      exact .inr ⟨hi, hsource⟩

end Plan

/-! ## Directories -/

namespace FileSystem

variable {s t : FileSystem} {d : Identity} {f g : Name → Option Identity}

/-- A directory with its entries. -/
structure Lists (s : FileSystem) (d : Identity) (f : Name → Option Identity) : Prop where
  directory : (s.inodes d).content = .directory
  find : ∀ name, s.find d name = f name

theorem Lists.identity (h : s.Lists d f) (name : Name) : s.identity ⟨d, [name]⟩ = found (f name) := by
  rw [identity_one, h.find]

/-- A move of a plan, made on the file system. -/
theorem Lists.rename {m : Move Name Identity} (h : s.Lists d f) (hsource : f m.source = some m.identity)
    (htarget : f m.target = none) : ∃ t, s.renameNoReplace ⟨d, [m.source]⟩ ⟨d, [m.target]⟩ = .ok ((), t) ∧
      t.Lists d (m.apply f) ∧ ∀ i, (t.inodes i).SameFile (s.inodes i) := by
  refine ⟨((s.unlink d m.source).link d m.target m.identity).touch m.identity, ?_, ?_, fun i => sameFile_touch _ _ _⟩
  · refine renameNoReplace_eq_ok.2 ⟨d, m.source, m.identity, d, m.target, rfl, ?_, rfl, ?_, rfl⟩
    · rw [h.find, hsource]
    · rw [h.find, htarget]
  · constructor
    · rw [(sameFile_touch _ _ _).1, inodes_link, inodes_unlink, h.directory]
    · intro name
      rw [find_touch, find_link, find_unlink, h.find, Move.apply]
      simp only [true_and]

/-- An entry that is no directory, removed. -/
theorem Lists.remove {name : Name} {i : Identity} (h : s.Lists d f) (hi : f name = some i) (hfile : (s.inodes i).isDir = false) :
    ∃ t, s.removeFile ⟨d, [name]⟩ = .ok ((), t) ∧ t.Lists d (fun n => if n = name then none else f n) ∧
      ∀ i, (t.inodes i).SameFile (s.inodes i) := by
  refine ⟨(s.unlink d name).touch i, ?_, ?_, fun i => sameFile_touch _ _ _⟩
  · refine removeFile_eq_ok.2 ⟨d, name, i, rfl, ?_, hfile, rfl⟩
    rw [h.find, hi]
  · constructor
    · rw [(sameFile_touch _ _ _).1, inodes_unlink, h.directory]
    · intro n
      rw [find_touch, find_unlink, h.find]
      simp only [true_and]

end FileSystem

end Squallz.System
