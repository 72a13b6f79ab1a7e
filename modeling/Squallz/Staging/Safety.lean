/-
Any number of processes on one registry, each session an action at a time, and processes that die at any moment: what is
removed is what its session may remove, and the workspaces of live sessions stay.
-/
import Squallz.Staging.Sessions
import Squallz.System.Interleaving
import Squallz.System.Runs

namespace Squallz.Staging

open Squallz.Api Squallz.Core Squallz.System Squallz.System.FileSystem Squallz.System.Prog
open Squallz.Destination (osStr)

/-- A session starts or goes on, or a process dies with all of its sessions. -/
inductive Action
  | start (session : Session) (front : List Char) (uses : List Use)
  | act (session : Session)
  | crash (process : Nat)

abbrev World := Threads Machine FormatError Unit Session

/-- Nothing runs yet. -/
def World.idle (m : Machine) : World := ⟨m, fun _ => none⟩

def World.next (registry : Identity) : Action → World → Option World
  | .start me front uses, w => w.start me (session registry me front uses)
  | .act me, w => w.act me
  | .crash process, w => some (w.halt (fun me => me.process = process) (·.crash process))

variable {registry : Identity} {m m' : Machine} {me other : Session} {workspace : List Char} {w w' : World}

/-- What every world keeps: what is left of each session relies on the others, and does what a session may do. -/
structure World.Guarded (registry : Identity) (w : World) : Prop where
  sound : Sound registry w.state
  kept : w.Kept (Rely registry) fun me => Step registry me

theorem World.guarded_idle (hs : Sound registry m) : (World.idle m).Guarded registry :=
  ⟨hs, fun _ _ h => by cases h⟩

theorem World.Guarded.act (hw : w.Guarded registry) (hact : w.act me = some w') :
    w'.Guarded registry ∧ Step registry me w.state w'.state := by
  obtain ⟨hkept, hstep⟩ := hw.kept.act hact (fun _ => .refl) (fun _ {_ _ _} h h' => h.trans h')
    fun other hne s t hstep => .single (.step hne.symm hstep)
  exact ⟨⟨hstep.sound hw.sound, hkept⟩, hstep⟩

theorem World.Guarded.next {action : Action} (hw : w.Guarded registry) (hnext : w.next registry action = some w') :
    w'.Guarded registry := by
  cases action with
  | start me front uses =>
    obtain ⟨hkept, hstate⟩ := hw.kept.start hnext ((session_guarantees front uses hw.sound).post fun _ _ _ => trivial)
    refine ⟨?_, hkept⟩
    rw [hstate]
    exact hw.sound
  | act me => exact (hw.act hnext).1
  | crash process =>
    cases hnext
    refine ⟨hw.sound.crash process, hw.kept.halt (fun _ {_ _ _} h h' => h.trans h') fun me hme => ?_⟩
    exact .single (.crash fun heq => of_decide_eq_false hme heq.symm)

theorem World.Guarded.run {actions : List Action} (hw : w.Guarded registry)
    (hrun : run (fun action w => w.next registry action) actions w = some w') : w'.Guarded registry :=
  run_invariant (fun _ _ _ hw hnext => World.Guarded.next hw hnext) hrun hw

/-- An action of another session leaves a live workspace alone. -/
theorem Step.live_kept (hs : Sound registry m) (hstep : Step registry me m m') (hne : me ≠ other)
    (hlive : Live registry m other workspace) : Live registry m' other workspace ∧
      ∀ d, m.files.find registry (osStr workspace) = some d → m'.files.find registry (osStr workspace) = some d ∧
        ((m.files.inodes d).isDir = true →
          ∀ name i, m.files.find d name = some i → m'.files.find d name = some i) := by
  have hown := hlive.own hs
  have heffect := hstep.effect hs
  have hapart : ¬ Charge registry m me workspace := fun hcharge => hne (hcharge.unique hlive.charge)
  refine ⟨(heffect.foreign hne).live hs hlive, fun d hfound => ⟨?_, fun hdir name i hi => ?_⟩⟩
  · rcases heffect.lost _ _ _ hfound with hkept | hremoval
    · exact hkept
    · exfalso
      rcases hremoval.at_registry hs with ⟨workspace', hname, -⟩ | ⟨workspace', hname, -, hcharge⟩
      · exact hown.ends.ne_ownerName workspace' hname
      · rw [← Squallz.Destination.osStr_injective hname] at hcharge
        exact hapart hcharge
  · rcases heffect.lost _ _ _ hi with hkept | hremoval
    · exact hkept
    · exact absurd (hremoval.at_directory hs hfound hdir) hapart

/-- An empty private registry that nobody uses. -/
def emptyMachine : Machine := ⟨⟨∅, fun _ => privateDirectory, fun _ => (0, 0)⟩, 1, fun _ => none, fun _ => [], id⟩

theorem sound_emptyMachine : Sound ⟨0, 0⟩ emptyMachine := by
  have hnone : ∀ d name i, emptyMachine.files.find d name ≠ some i := fun _ _ _ => nofun
  refine ⟨?_, ?_, Nat.zero_lt_one, fun d name i hfound => absurd hfound (hnone d name i),
    fun i d name _ _ _ hfound => absurd hfound (hnone d name i), fun d name => hnone d name _⟩
  · intro i h hlock
    cases hlock
  · intro i h hlock
    cases hlock

/-- A session that has just made its workspace, and another one that comes upon its record. -/
def sampleActions : List Action :=
  .start ⟨7, 0⟩ StagingKind.rar.front [] :: List.replicate 29 (.act ⟨7, 0⟩) ++
    .start ⟨8, 0⟩ StagingKind.zip.front [] :: List.replicate 20 (.act ⟨8, 0⟩)

def sampleWorld : Option World := run (fun action w => World.next ⟨0, 0⟩ action w) sampleActions (World.idle emptyMachine)

end Squallz.Staging
