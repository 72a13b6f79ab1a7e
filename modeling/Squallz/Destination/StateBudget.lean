/-
The budget of a state digest: wherever a pass over a tree is stopped, no more entries were let in than the budget has, and no
more are held in the lists of the directories at work.
-/
import Squallz.Destination.StateDigest

namespace Squallz.Destination

open Squallz.Api Squallz.Bytes Squallz.Inputs Squallz.System

/-- No more entries than the budget has. -/
def Within (maxEntries : Nat) (s : Hashing) : Prop := s.held ≤ maxEntries ∧ s.visits ≤ maxEntries

/-- The children that are held are those that the budget counts as pending. -/
structure Held (maxEntries pending : Nat) (s : Hashing) : Prop where
  limit_eq : s.budget.maxEntries = maxEntries
  pending_eq : s.budget.pendingEntries = pending
  held_eq : s.held = pending
  visits_le : s.visits ≤ maxEntries

/-- Where an entry is entered, and behind it. -/
structure Counted (maxEntries pending : Nat) (s : Hashing) : Prop extends Held maxEntries pending s where
  visited_eq : s.visits = s.budget.visitedEntries

/-- How the pass over an entry ends. -/
def Ended (maxEntries pending : Nat) {α : Type} (r : Except Fault α) (s : Hashing) : Prop :=
  Held maxEntries pending s ∧ ((∃ a, r = .ok a) → Counted maxEntries pending s)

section Budget

variable {maxEntries pending : Nat} {s : Hashing} {α : Type}

theorem Counted.within (h : Counted maxEntries pending s) (hle : pending ≤ maxEntries) : Within maxEntries s :=
  ⟨h.held_eq.trans_le hle, h.visits_le⟩

theorem Counted.ended (h : Counted maxEntries pending s) (r : Except Fault α) : Ended maxEntries pending r s :=
  ⟨h.toHeld, fun _ => h⟩

theorem Counted.feed (h : Counted maxEntries pending s) (stream : List UInt8) :
    Counted maxEntries pending { s with stream } := ⟨⟨h.limit_eq, h.pending_eq, h.held_eq, h.visits_le⟩, h.visited_eq⟩

theorem Counted.read (h : Counted maxEntries pending s) (bytesRead : Nat) :
    Counted maxEntries pending { s with bytesRead } := ⟨⟨h.limit_eq, h.pending_eq, h.held_eq, h.visits_le⟩, h.visited_eq⟩

variable (hle : pending ≤ maxEntries)

include hle in
theorem ensures_feed {k : Unit → Hash α} {Q : Except Fault α → Hashing → Prop} (bytes : List UInt8)
    (h : Counted maxEntries pending s)
    (hk : ∀ t, Counted maxEntries pending t → (k ()).Ensures (Within maxEntries) Q t) :
    (feed bytes >>= k).Ensures (Within maxEntries) Q s := ⟨h.within hle, hk _ (h.feed _)⟩

include hle in
theorem ensures_enterEntry {k : Unit → Hash α} {Q : Except Fault α → Hashing → Prop} (relative : List UInt8) (depth : Nat)
    (hmax : maxEntries < usizeMax) (h : Counted maxEntries pending s)
    (hfailed : ∀ fault t, Held maxEntries pending t → Q (.error fault) t)
    (hk : ∀ t, Counted maxEntries pending t → (k ()).Ensures (Within maxEntries) Q t) :
    (enterEntry relative depth >>= k).Ensures (Within maxEntries) Q s := by
  have hwithin := h.within hle
  unfold enterEntry
  split
  · exact ⟨hwithin, hfailed _ s h.toHeld⟩
  · refine ⟨hwithin, ?_⟩
    have hvisited := h.visited_eq
    have hlimit := h.limit_eq
    have hheld : Held maxEntries pending { s with budget := (s.budget.enter).1 } := ⟨h.limit_eq, h.pending_eq, h.held_eq, h.visits_le⟩
    unfold TreeDigestBudget.enter at hheld ⊢
    dsimp only at hheld ⊢
    by_cases hover : s.budget.maxEntries < min (s.budget.visitedEntries + 1) usizeMax
    · rw [if_pos hover]
      exact ⟨hwithin, hfailed _ _ hheld⟩
    · rw [if_neg hover]
      have hcount : min (s.budget.visitedEntries + 1) usizeMax = s.visits + 1 := by omega
      have hvisits : s.visits + 1 ≤ maxEntries := by omega
      rw [hcount]
      refine ⟨hwithin, ⟨hwithin.1, hvisits⟩, hk _ ⟨⟨h.limit_eq, h.pending_eq, h.held_eq, hvisits⟩, rfl⟩⟩

/-- While a directory is listed there is room for the names in it. -/
theorem ensures_collectChildren {k : List OsName → Hash α} {Q : Except Fault α → Hashing → Prop} {capacity : Nat}
    {children names : List OsName} (hvisits : s.visits ≤ maxEntries) (hmax : s.budget.maxEntries = maxEntries)
    (hpending : s.budget.pendingEntries = pending) (hheld : s.held = pending + children.length)
    (hroom : pending + capacity ≤ maxEntries) (hcapacity : children.length ≤ capacity)
    (hfailed : ∀ fault t, Held maxEntries pending t → Q (.error fault) t)
    (hk : ∀ t, t.budget = s.budget → t.visits = s.visits → t.held = pending + children.length + names.length →
      children.length + names.length ≤ capacity → (k (children ++ names)).Ensures (Within maxEntries) Q t) :
    (collectChildren capacity children names >>= k).Ensures (Within maxEntries) Q s := by
  have hwithin : Within maxEntries s := ⟨by omega, hvisits⟩
  induction names generalizing children s with
  | nil =>
    have := hk s rfl rfl hheld hcapacity
    rwa [List.append_nil] at this
  | cons name rest ih =>
    unfold collectChildren
    by_cases hfull : capacity ≤ children.length
    · rw [if_pos hfull]
      have hreleased : s.held - children.length = pending := by omega
      refine ⟨hwithin, ⟨?_, hvisits⟩, hfailed _ _ ⟨hmax, hpending, hreleased, hvisits⟩⟩
      show s.held - children.length ≤ maxEntries
      omega
    · rw [if_neg hfull]
      refine ⟨hwithin, ?_⟩
      have hlength : (children ++ [name]).length = children.length + 1 := by simp
      refine ih hvisits hmax hpending ?_ (by omega) (fun t hbudget hv hh hc => ?_) ⟨?_, hvisits⟩
      · show s.held + 1 = _
        omega
      · rw [List.append_assoc]
        refine hk t hbudget hv ?_ ?_
        · rw [List.length_cons]
          omega
        · rw [List.length_cons]
          omega
      · show s.held + 1 ≤ maxEntries
        omega

include hle in
/-- Wherever a pass is stopped, the entries that were let in and those that are held are within the budget. -/
theorem ensures_hashEntry (listing : Enumeration) (node : Node) {path : List OsName} {relative : List UInt8} {depth : Nat}
    (hmax : maxEntries < usizeMax) (h : Counted maxEntries pending s) :
    (hashEntry listing node path relative depth).Ensures (Within maxEntries) (Ended maxEntries pending) s := by
  have hfailed : ∀ (fault : Fault) (t : Hashing), Held maxEntries pending t →
      Ended maxEntries pending (.error fault : Except Fault Unit) t := by
    rintro fault t ht
    refine ⟨ht, ?_⟩
    rintro ⟨a, ha⟩
    cases ha
  induction node generalizing path relative depth s pending with
  | file identity metadata content sized =>
    unfold hashEntry
    refine ensures_enterEntry hle _ _ hmax h hfailed fun t ht => ensures_feed hle _ ht fun t ht => ?_
    refine ensures_feed hle _ ht fun t ht => ensures_feed hle _ ht fun t ht => ensures_feed hle _ ht fun t ht => ?_
    refine ⟨ht.within hle, ?_⟩
    dsimp only
    split
    · exact ⟨(ht.read _).within hle, (ht.read _).ended _⟩
    · exact ⟨(ht.read _).within hle, (ht.read _).ended _⟩
  | symlink identity metadata target sized =>
    unfold hashEntry
    refine ensures_enterEntry hle _ _ hmax h hfailed fun t ht => ensures_feed hle _ ht fun t ht => ?_
    refine ensures_feed hle _ ht fun t ht => ensures_feed hle _ ht fun t ht => ?_
    exact ⟨ht.within hle, (ht.feed _).within hle, (ht.feed _).ended _⟩
  | other identity metadata =>
    unfold hashEntry
    refine ensures_enterEntry hle _ _ hmax h hfailed fun t ht => ?_
    exact ⟨ht.within hle, ht.ended _⟩
  | directory identity metadata names distinct child ih =>
    unfold hashEntry
    refine ensures_enterEntry hle _ _ hmax h hfailed fun t ht => ensures_feed hle _ ht fun t ht => ?_
    refine ensures_feed hle _ ht fun t ht => ensures_feed hle _ ht fun t ht => ⟨ht.within hle, ?_⟩
    have hcapacity : pending + t.budget.remainingCollectionCapacity ≤ maxEntries := by
      have := ht.limit_eq
      have := ht.pending_eq
      unfold TreeDigestBudget.remainingCollectionCapacity
      omega
    refine ensures_collectChildren ht.visits_le ht.limit_eq ht.pending_eq ht.held_eq hcapacity (Nat.zero_le _) hfailed
      fun u hbudget hvisits hheld hroom => ?_
    rw [List.nil_append]
    generalize hn : (listing.list path false names).length = n at hheld hroom
    rw [List.length_nil, Nat.add_zero] at hheld
    have hinside : pending + n ≤ maxEntries := by
      rw [List.length_nil, Nat.zero_add] at hroom
      omega
    have hwithin : Within maxEntries u := ⟨by omega, by rw [hvisits]; exact ht.visits_le⟩
    -- the children are reserved, and counted from here on
    have hpending : u.budget.pendingEntries = pending := by rw [hbudget]; exact ht.pending_eq
    have hlimit : u.budget.maxEntries = maxEntries := by rw [hbudget]; exact ht.limit_eq
    have hvisited : u.visits = u.budget.visitedEntries := by
      rw [hvisits, hbudget]
      exact ht.visited_eq
    have hreserve : u.budget.reservePending n = (⟨u.budget.visitedEntries, pending + n, u.budget.maxEntries⟩, .ok ()) := by
      unfold TreeDigestBudget.reservePending
      rw [hpending, if_neg (by omega)]
      dsimp only
      rw [hlimit, if_neg (by omega)]
    refine ⟨hwithin, ?_⟩
    dsimp only
    rw [hreserve]
    have hcounted : Counted maxEntries (pending + n)
        { u with budget := ⟨u.budget.visitedEntries, pending + n, u.budget.maxEntries⟩ } :=
      ⟨⟨hlimit, rfl, hheld, hwithin.2⟩, hvisited⟩
    refine Prog.ensures_bind.2 (Prog.ensures_ofExcept.2 ⟨hcounted.within hinside, ?_⟩)
    refine Prog.ensures_bind.2 (Prog.ensures_attempt.2 (Prog.Ensures.post (Q := Ended maxEntries (pending + n)) ?_ ?_))
    · refine ensures_feed hinside _ hcounted fun v hv => Prog.ensures_bind.2 ?_
      refine Prog.ensures_forM (fun _ _ => Counted maxEntries (pending + n)) (fun done name rest w _ hw => ?_)
        (fun w _ hw => ?_) (hv.within hinside) hv
      · refine Prog.ensures_bind.2 (Prog.ensures_ofExcept.2 ⟨hw.within hinside, ?_⟩)
        cases appendRelative relative name with
        | error fault => exact hw.ended _
        | ok childRelative =>
          refine (ih name hinside hw fun fault x hx => ⟨hx, by rintro ⟨a, ha⟩; cases ha⟩).post fun r x _ hx => ?_
          cases r with
          | ok _ => exact hx.2 ⟨_, rfl⟩
          | error fault => exact hx
      · exact Prog.ensures_ofExcept.2 ⟨hw.within hinside, hw.ended _⟩
    · intro r v hv hended
      -- the children are released, however the pass over them ended
      have hreleased : Held maxEntries pending
          { v with budget := v.budget.releasePending n, held := v.held - n } := by
        obtain ⟨hheld', -⟩ := hended
        refine ⟨hheld'.limit_eq, ?_, ?_, hheld'.visits_le⟩
        · show v.budget.pendingEntries - n = pending
          rw [hheld'.pending_eq]
          omega
        · show v.held - n = pending
          rw [hheld'.held_eq]
          omega
      have hafter : Within maxEntries { v with budget := v.budget.releasePending n, held := v.held - n } :=
        ⟨hreleased.held_eq.trans_le hle, hreleased.visits_le⟩
      refine ⟨hv, Prog.ensures_ofExcept.2 ⟨hafter, hreleased, fun hok => ⟨hreleased, ?_⟩⟩⟩
      exact (hended.2 hok).visited_eq

end Budget

end Squallz.Destination
