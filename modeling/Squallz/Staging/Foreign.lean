/-
What the others leave to a session: its locks and its numbers, the workspace that it is in charge of, and while it
holds the sweep lock, the owner records that nobody holds.
-/
import Squallz.Staging.Charge

namespace Squallz.Staging

open Squallz.Core Squallz.System Squallz.System.FileSystem
open Squallz.Destination (osStr)

variable {registry : Identity} {m m' : Machine} {me : Session} {workspace : List Char} {d i : Identity} {name : Name}

/-! ## What the others do -/

/-- What others do, seen by a session. -/
structure Foreign (registry : Identity) (me : Session) (m m' : Machine) : Prop where
  issued : m'.issued me.process = m.issued me.process ∨
    ∃ other, other ≠ me ∧ m'.issued me.process = m.issued me.process ++ [other]
  next : m.next ≤ m'.next
  kept : ∀ i h, h.owner = me → (m'.locks i = some h ↔ m.locks i = some h)
  held : ∀ i h, m'.locks i = some h →
    m.locks i = some h ∨ m.locks i = none ∧ ∃ other, other ≠ me ∧ Lockable registry m other i h
  found : ∀ d name i, m'.files.find d name = some i → m.files.find d name = some i ∨
    m.files.find d name = none ∧ i.entry = m.next ∧ ∃ other, other ≠ me ∧ Place registry m other d name
  lost : ∀ d name i, m.files.find d name = some i →
    m'.files.find d name = some i ∨ ∃ other, other ≠ me ∧ Removal registry m other d name i
  kind : ∀ d name i, m.files.find d name = some i →
    SameKind (m.files.inodes i) (m'.files.inodes i) ∨ ∃ other, other ≠ me ∧ Used registry m other d i

theorem Lockable.owner {h : Handle} (hlock : Lockable registry m me i h) : h.owner = me := by
  cases hlock <;> rfl

theorem Effect.foreign {other : Session} (hne : other ≠ me) (h : Effect registry other m m') :
    Foreign registry me m m' := by
  constructor
  · rcases h.issued me.process with heq | ⟨-, heq⟩
    · exact .inl heq
    · exact .inr ⟨other, hne, heq⟩
  · exact h.next
  · intro i handle howner
    constructor
    · intro hlock
      rcases h.held i handle hlock with hold | ⟨-, hnew, -⟩
      · exact hold
      · exact absurd (hnew.owner.symm.trans howner) hne
    · exact h.kept i handle fun heq => hne (heq.symm.trans howner)
  · intro i handle hlock
    rcases h.held i handle hlock with hold | ⟨hfree, hnew, -⟩
    · exact .inl hold
    · exact .inr ⟨hfree, other, hne, hnew⟩
  · intro d name i hfound
    rcases h.found with hsub | ⟨d', name', hplace, hvacant, -, hnew⟩
    · exact .inl (hsub _ _ _ hfound)
    · rcases hnew _ _ _ hfound with hold | ⟨rfl, rfl, rfl⟩
      · exact .inl hold
      · exact .inr ⟨hvacant, rfl, other, hne, hplace⟩
  · intro d name i hfound
    rcases h.lost _ _ _ hfound with hkept | hremoval
    · exact .inl hkept
    · exact .inr ⟨other, hne, hremoval⟩
  · intro d name i hfound
    rcases h.kind _ _ _ hfound with hkind | hused
    · exact .inl hkind
    · exact .inr ⟨other, hne, hused⟩

theorem Others.foreign (hs : Sound registry m) (h : Others registry me m m') : Foreign registry me m m' := by
  cases h with
  | step hne h => exact (h.effect hs).foreign hne
  | crash hprocess =>
    rename_i process
    have hlocks : ∀ i, (m.crash process).locks i = (m.locks i).filter (·.owner.process ≠ process) := fun i => rfl
    refine ⟨.inl (Function.update_of_ne hprocess.symm _ _), le_rfl, fun i h howner => ?_, fun i h hlock => ?_,
      fun _ _ _ h => .inl h, fun _ _ _ h => .inl h, fun _ _ _ _ => .inl (.refl _)⟩
    · rw [hlocks, Option.filter_eq_some_iff]
      constructor
      · exact fun h => h.1
      · intro h
        exact ⟨h, decide_eq_true (howner ▸ hprocess.symm)⟩
    · rw [hlocks, Option.filter_eq_some_iff] at hlock
      exact .inl hlock.1

/-! ## What stays -/

namespace Foreign

variable (h : Foreign registry me m m')

include h

theorem own (hown : Own m me workspace) : Own m' me workspace := by
  obtain ⟨kind, sequence, nanos, rfl, hissued⟩ := hown
  refine ⟨kind, sequence, nanos, rfl, ?_⟩
  rcases h.issued with heq | ⟨other, -, heq⟩
  · rwa [heq]
  · rw [heq]
    rwa [List.getElem?_append_left (List.getElem?_eq_some_iff.1 hissued).1]

theorem not_issued (hme : me ∉ m.issued me.process) : me ∉ m'.issued me.process := by
  rcases h.issued with heq | ⟨other, hne, heq⟩
  · rwa [heq]
  · rw [heq, List.mem_append, List.mem_singleton]
    rintro (hmem | rfl)
    · exact hme hmem
    · exact hne rfl

theorem sweepEntry (hs : Sound registry m) (hfound : m.files.find registry sweepLockName = some i) :
    m'.files.find registry sweepLockName = some i := by
  rcases h.lost _ _ _ hfound with hkept | ⟨other, -, hremoval⟩
  · exact hkept
  · exfalso
    rcases hremoval.at_registry hs with ⟨workspace, hname, -⟩ | ⟨workspace, hname, hends, -⟩
    · exact ownerName_ne_sweepLockName workspace hname.symm
    · exact hends.ne_sweepLockName hname.symm

theorem sweepHolder (hs : Sound registry m) (hsweep : SweepHolder registry m me) : SweepHolder registry m' me := by
  obtain ⟨i, hfound, hlock⟩ := hsweep
  exact ⟨i, h.sweepEntry hs hfound, (h.kept i _ rfl).2 hlock⟩

/-- The record of a session's own workspace is not removed by others while the session holds it or the sweep lock. -/
theorem record (hs : Sound registry m) (hown : Own m me workspace)
    (hheld : SweepHolder registry m me ∨ m.locks i = some ⟨me, ownerName workspace, true⟩)
    (hfound : m.files.find registry (ownerName workspace) = some i) :
    m'.files.find registry (ownerName workspace) = some i := by
  rcases h.lost _ _ _ hfound with hkept | ⟨other, hne, hremoval⟩
  · exact hkept
  · exfalso
    rcases hremoval.at_registry hs with ⟨workspace', hname, -, hrecord⟩ | ⟨workspace', hname, hends, -⟩
    · have heq := ownerName_injective hname
      subst heq
      rcases hrecord with ⟨hsweep, hunlocked⟩ | ⟨hother, -⟩
      · rcases hheld with hsweep' | hlock
        · exact hne (hsweep.unique hsweep')
        · rw [hunlocked i hfound] at hlock
          cases hlock
      · exact hne (hother.unique hown)
    · exact hends.ne_ownerName workspace hname.symm

theorem live (hs : Sound registry m) (hlive : Live registry m me workspace) : Live registry m' me workspace := by
  have hown := hlive.own hs
  obtain ⟨i, hfound, hlock⟩ := hlive
  exact ⟨i, h.record hs hown (.inr hlock) hfound, (h.kept i _ rfl).2 hlock⟩

/-- Nobody else creates records or directories while the session holds the sweep lock. -/
theorem vacant (hs : Sound registry m) (hsweep : SweepHolder registry m me) (hname : name ≠ sweepLockName)
    (hvacant : m.files.find registry name = none) : m'.files.find registry name = none := by
  rw [Option.eq_none_iff_forall_ne_some]
  intro i hfound
  rcases h.found _ _ _ hfound with hold | ⟨-, -, other, hne, hplace⟩
  · rw [hvacant] at hold
    cases hold
  · rcases hplace.at_registry hs with heq | ⟨workspace, hsweep', -⟩
    · exact hname heq
    · exact hne (hsweep'.unique hsweep)

theorem entry_of_sweepHolder (hs : Sound registry m) (hsweep : SweepHolder registry m me) (hname : name ≠ sweepLockName)
    (hfound : m'.files.find registry name = some i) : m.files.find registry name = some i := by
  rcases h.found _ _ _ hfound with hold | ⟨hvacant, -⟩
  · exact hold
  · rw [h.vacant hs hsweep hname hvacant] at hfound
    cases hfound

theorem cleared_of_sweepHolder (hs : Sound registry m) (hsweep : SweepHolder registry m me)
    (hends : EndsInDigit workspace) (hcleared : Cleared registry m workspace) : Cleared registry m' workspace :=
  h.vacant hs hsweep hends.ne_sweepLockName hcleared

theorem cleared_of_own (hs : Sound registry m) (hown : Own m me workspace) (hcleared : Cleared registry m workspace) :
    Cleared registry m' workspace := by
  unfold Cleared
  rw [Option.eq_none_iff_forall_ne_some]
  intro i hfound
  rcases h.found _ _ _ hfound with hold | ⟨-, -, other, hne, hplace⟩
  · rw [hcleared] at hold
    cases hold
  · rcases hplace.at_registry hs with heq | ⟨workspace', -, hother, heq | heq⟩
    · exact hown.ends.ne_sweepLockName heq
    · exact hown.ends.ne_ownerName workspace' heq
    · rw [← Squallz.Destination.osStr_injective heq] at hother
      exact hne (hother.unique hown)

/-- A lock that nobody holds is taken by nobody else while the session holds the sweep lock. -/
theorem unheld (hsweep : SweepHolder registry m me) (hnone : m.locks i = none) :
    m'.locks i = none := by
  rw [Option.eq_none_iff_forall_ne_some]
  intro handle hlock
  rcases h.held _ _ hlock with hold | ⟨-, other, hne, hlockable⟩
  · rw [hnone] at hold
    cases hold
  · cases hlockable with
    | sweepLock hfound =>
      obtain ⟨k, hk, hheld⟩ := hsweep
      rw [hfound] at hk
      cases hk
      rw [hnone] at hheld
      cases hheld
    | stale hsweep' => exact hne (hsweep'.unique hsweep)
    | own hsweep' => exact hne (hsweep'.unique hsweep)

theorem unlocked (hs : Sound registry m) (hsweep : SweepHolder registry m me) (hunlocked : Unlocked registry m workspace) :
    Unlocked registry m' workspace := by
  intro i hfound
  exact h.unheld hsweep
    (hunlocked i (h.entry_of_sweepHolder hs hsweep (ownerName_ne_sweepLockName workspace) hfound))

/-- An entry of the registry leads to an inode of the same kind as long as it is there. -/
theorem kind_of_registry (hs : Sound registry m) (hfound : m.files.find registry name = some i) :
    SameKind (m.files.inodes i) (m'.files.inodes i) := by
  rcases h.kind _ _ _ hfound with hkind | ⟨other, -, hused⟩
  · exact hkind
  · exact (hused.not_registry hs).elim

end Foreign

/-! ## Workspaces in charge -/

/-- A workspace that the session is in charge of, and that has an owner record unless it is gone. -/
structure Tending (registry : Identity) (m : Machine) (me : Session) (workspace : List Char) : Prop where
  sound : Sound registry m
  ends : EndsInDigit workspace
  charge : Charge registry m me workspace
  registered : ∀ d, m.files.find registry (osStr workspace) = some d →
    ∃ owner, m.files.find registry (ownerName workspace) = some owner

/-- Such a workspace, with its directory. -/
structure Inside (registry : Identity) (m : Machine) (me : Session) (workspace : List Char) (d : Identity) : Prop
    extends Tending registry m me workspace where
  found : m.files.find registry (osStr workspace) = some d
  isPrivate : isPrivateDirectoryMetadata (m.files.inodes d) = true

/-- A private file in it. -/
structure Member (registry : Identity) (m : Machine) (me : Session) (workspace : List Char) (d : Identity) (name : Name)
    (i : Identity) : Prop extends Inside registry m me workspace d where
  entry : m.files.find d name = some i
  regular : isPrivateRegularMetadata (m.files.inodes i) = true

namespace Foreign

variable (h : Foreign registry me m m')

include h

theorem charge (hs : Sound registry m) (hcharge : Charge registry m me workspace) :
    Charge registry m' me workspace := by
  have hcases := hcharge.holds
  refine ⟨hcases.imp (h.sweepHolder hs) (h.live hs), fun i handle hfound hlock => ?_⟩
  have hold : m.files.find registry (ownerName workspace) = some i := by
    rcases hcases with hsweep | ⟨j, hj, -⟩
    · exact h.entry_of_sweepHolder hs hsweep (ownerName_ne_sweepLockName workspace) hfound
    · rcases h.found _ _ _ hfound with hold | ⟨hvacant, -⟩
      · exact hold
      · rw [hvacant] at hj
        cases hj
  rcases h.held _ _ hlock with hlock | ⟨hnone, other, hne, hlockable⟩
  · exact hcharge.free i handle hold hlock
  · rcases hcases with hsweep | ⟨j, hj, hlock'⟩
    · rw [h.unheld hsweep hnone] at hlock
      cases hlock
    · rw [hold] at hj
      cases hj
      rw [hnone] at hlock'
      cases hlock'

/-- A record stays as long as the directory of its workspace is there. -/
theorem registered (hs : Sound registry m) (hfound : m.files.find registry (osStr workspace) = some d)
    (howner : m.files.find registry (ownerName workspace) = some i) :
    m'.files.find registry (ownerName workspace) = some i := by
  rcases h.lost _ _ _ howner with hkept | ⟨other, hne, hremoval⟩
  · exact hkept
  · exfalso
    rcases hremoval.at_registry hs with ⟨workspace', hname, hcleared, -⟩ | ⟨workspace', hname, hends, -⟩
    · rw [ownerName_injective hname, show m.files.find registry (osStr workspace') = none from hcleared] at hfound
      cases hfound
    · exact hends.ne_ownerName workspace hname.symm

theorem tending (ht : Tending registry m me workspace) (hs : Sound registry m') : Tending registry m' me workspace := by
  refine ⟨hs, ht.ends, h.charge ht.sound ht.charge, fun d hfound => ?_⟩
  have hold : m.files.find registry (osStr workspace) = some d ∨ Live registry m me workspace := by
    rcases ht.charge.holds with hsweep | hlive
    · exact .inl (h.entry_of_sweepHolder ht.sound hsweep ht.ends.ne_sweepLockName hfound)
    · exact .inr hlive
  rcases hold with hold | hlive
  · obtain ⟨owner, howner⟩ := ht.registered d hold
    exact ⟨owner, h.registered ht.sound hold howner⟩
  · obtain ⟨i, hi, -⟩ := h.live ht.sound hlive
    exact ⟨i, hi⟩

theorem inside (hi : Inside registry m me workspace d) (hs : Sound registry m') :
    Inside registry m' me workspace d := by
  refine ⟨h.tending hi.toTending hs, ?_, ?_⟩
  · rcases h.lost _ _ _ hi.found with hkept | ⟨other, hne, hremoval⟩
    · exact hkept
    · exfalso
      rcases hremoval.at_registry hi.sound with ⟨workspace', hname, -⟩ | ⟨workspace', hname, -, hcharge⟩
      · exact hi.ends.ne_ownerName workspace' hname
      · rw [← Squallz.Destination.osStr_injective hname] at hcharge
        exact hne (hcharge.unique hi.charge)
  · rw [← (h.kind_of_registry hi.sound hi.found).isPrivateDirectory]
    exact hi.isPrivate

/-- The others leave the members of the workspace alone. -/
theorem entry (hi : Inside registry m me workspace d) (hfound : m.files.find d name = some i) :
    m'.files.find d name = some i ∧ SameKind (m.files.inodes i) (m'.files.inodes i) := by
  constructor
  · rcases h.lost _ _ _ hfound with hkept | ⟨other, hne, hremoval⟩
    · exact hkept
    · exact absurd
        ((hremoval.at_directory hi.sound hi.found (isDir_of_isPrivateDirectory hi.isPrivate)).unique hi.charge) hne
  · rcases h.kind _ _ _ hfound with hkind | ⟨other, hne, hused⟩
    · exact hkind
    · exact absurd ((hused.live hi.sound hi.found).charge.unique hi.charge) hne

theorem member (hi : Member registry m me workspace d name i) (hs : Sound registry m') :
    Member registry m' me workspace d name i := by
  obtain ⟨hfound, hkind⟩ := h.entry hi.toInside hi.entry
  refine ⟨h.inside hi.toInside hs, hfound, ?_⟩
  rw [← hkind.isPrivateRegular]
  exact hi.regular

end Foreign

/-! ## What a session can rely on -/

/-- What the others do between two actions of a session. -/
def Rely (registry : Identity) (me : Session) : Machine → Machine → Prop :=
  Relation.ReflTransGen (Others registry me)

/-- A condition that the others keep. -/
def Stable (registry : Identity) (me : Session) (P : Machine → Prop) : Prop :=
  ∀ m m', Rely registry me m m' → P m → P m'

theorem stable_of_foreign {P : Machine → Prop} (hsound : ∀ m, P m → Sound registry m)
    (h : ∀ m m', Foreign registry me m m' → Sound registry m' → P m → P m') : Stable registry me P := by
  intro m m' hrely hm
  induction hrely with
  | refl => exact hm
  | tail _ hothers ih => exact h _ _ (hothers.foreign (hsound _ ih)) (hothers.sound (hsound _ ih)) ih

theorem stable_tending : Stable registry me (Tending registry · me workspace) :=
  stable_of_foreign (fun _ h => h.sound) fun _ _ h hs hm => h.tending hm hs

theorem stable_inside : Stable registry me (Inside registry · me workspace d) :=
  stable_of_foreign (fun _ h => h.sound) fun _ _ h hs hm => h.inside hm hs

theorem stable_member : Stable registry me (Member registry · me workspace d name i) :=
  stable_of_foreign (fun _ h => h.sound) fun _ _ h hs hm => h.member hm hs

end Squallz.Staging
