/-
What a publication guarantees across crashes of the commit and of its recoveries, and exactly which
prepared sets it guarantees it for.
-/
import Squallz.OutputSet.Commit

namespace Squallz.OutputSet

open Squallz.Api Squallz.Core Squallz.System

variable {formats : Formats} {origin s : FileSystem} {p : PreparedFileSetPublication}

/-! ## The guarantee -/

/-- The states that a commit whose journal is durable can be stopped in, and those that recoveries lead to
from there, each of them stopped anywhere. -/
def CrashPoint (formats : Formats) (p : PreparedFileSetPublication) (journal : OpenJournal) (start t : FileSystem) :
    Prop :=
  ∃ u, (p.install formats journal).Visits start u ∧
    (recoverFileSetPublication formats p.primary p.primaryName).Restarts u t

/-- The file of a member is at a path with the bytes it was prepared with. -/
def HoldsAt (origin s : FileSystem) (path : Path) (m : PreparedMember) : Prop :=
  s.identity path = .ok m.identity ∧ (s.inodes m.identity).content = (origin.inodes m.identity).content

def Vacant (s : FileSystem) (path : Path) : Prop := s.identity path = .error .notFound

/-- A file-set publication survives crashes. -/
structure CrashSafe (formats : Formats) (origin : FileSystem) (p : PreparedFileSetPublication) (journal : OpenJournal)
    (start : FileSystem) : Prop where
  exactlyOne : ∀ t, CrashPoint formats p journal start t → ∀ m ∈ p.members,
    (HoldsAt origin t m.staged m ∧ Vacant t m.finalPath) ∨ (HoldsAt origin t m.finalPath m ∧ Vacant t m.staged)
  primaryLast : ∀ t, CrashPoint formats p journal start t → ¬ Vacant t p.primary →
    ∀ m ∈ p.members, HoldsAt origin t m.finalPath m
  noReplace : ∀ t, CrashPoint formats p journal start t → ∀ name i,
    start.find p.parentIdentity name = some i → name ≠ p.journalName → name ≠ p.holderName →
    t.find p.parentIdentity name = some i
  recovers : ∀ t, CrashPoint formats p journal start t → ∃ found u,
    (recoverFileSetPublication formats p.primary p.primaryName).run t = (.ok found, u) ∧
      Vacant u p.holder ∧ Vacant u journal.path ∧ ∀ m ∈ p.members, HoldsAt origin u m.finalPath m
  foreign : ∀ t opened, openJournal formats t p.primary p.primaryName = .ok (some opened) →
    opened.record = journal.record → ∀ m ∈ p.members, ∀ path, path = m.staged ∨ path = m.finalPath →
    ∀ i, t.identity path = .ok i → i ≠ m.identity →
    (∃ e, ((recoverFileSetPublication formats p.primary p.primaryName).run t).1 = .error e) ∧
      ∀ u, (recoverFileSetPublication formats p.primary p.primaryName).Visits t u →
        u.identity path = .ok i ∧ (u.inodes i).SameFile (t.inodes i)

/-! ## The commit passes through stages -/

namespace Issued

variable {tx : Issued formats origin} {done rest : List PreparedMember} {m : PreparedMember}

theorem verifyPrepared_of (hm : m ∈ tx.members) (hpath : s.identity m.staged = .ok m.identity)
    (hsame : s.inodes m.identity = origin.inodes m.identity) : verifyPreparedMember s m = .ok () := by
  obtain ⟨hfile, hstate, -⟩ := tx.recorded m hm
  unfold verifyPreparedMember
  rw [tx.wellFormed.file m hm, isBound_of hpath (by rw [hsame, hfile]) (by rw [hsame, hstate])]
  rfl

theorem verifyInstalledMember_of (hm : m ∈ tx.members) (hk : tx.Kept s)
    (hfinal : s.find tx.parentIdentity m.name = some m.identity) : verifyInstalledMember s m = .ok () := by
  obtain ⟨-, hstate, -⟩ := tx.recorded m hm
  have hpath := identity_final_of_find hm hfinal
  have heq : m.state.equivalentAfterRename (.fromMetadata (s.inodes m.identity)) = true := by
    rw [hstate]
    exact RegularFileState.equivalentAfterRename_of_sameFile (hk.files m hm).symm
  unfold verifyInstalledMember
  simp only [tx.wellFormed.file m hm, FileSystem.metadata, hpath, Except.map, ofErrno_ok, ok_bind, heq,
    bne_self_eq_false, Bool.not_true, Bool.or_self, refuseIf_false]

theorem installMember_ensures (h : tx.Progress done (m :: rest) s) (split : tx.members = done ++ m :: rest) :
    (tx.installMember formats tx.openJournal m).Ensures tx.Reached
      (fun r t => ∃ u, r = .ok u ∧ tx.Progress (done ++ [m]) rest t) s := by
  have hm : m ∈ tx.members := by
    rw [split]
    exact List.mem_append_right _ List.mem_cons_self
  obtain ⟨-, -, hsame⟩ := h.staged m List.mem_cons_self
  obtain ⟨t, hmove, ht⟩ := h.install split
  have split' : tx.members = (done ++ [m]) ++ rest := by
    rw [split, List.append_assoc]
    rfl
  refine Prog.ensures_observe_then h.ensureBinding ?_
  refine Prog.ensures_observe_then (verifyPrepared_of hm (h.staged_at split List.mem_cons_self) hsame) ?_
  refine Prog.ensures_observe_then (h.ensureParent _) ?_
  refine Prog.ensures_act_then (.progress done (m :: rest) split h) hmove ?_
  rw [orFailWith_ok, Prog.ret_bind, Prog.ensures_observe]
  exact ⟨.progress _ rest split' ht, (),
    verifyInstalledMember_of hm ht.toKept (ht.installed m (List.mem_append_right _ List.mem_cons_self)), ht⟩

/-- A commit that is not stopped ends with the journal cleared. -/
theorem install_ensures (h : tx.Progress [] tx.members s) :
    (tx.install formats tx.openJournal).Ensures tx.Reached
      (fun r t => r = .ok tx.outputs ∧ tx.Cleared t) s := by
  have hloop : (tx.members.forM (tx.installMember formats tx.openJournal)).Ensures tx.Reached
      (fun r t => ∃ u, r = .ok u ∧ tx.Progress tx.members [] t) s := by
    refine Prog.ensures_forM_ok (fun done rest t => tx.Progress done rest t) ?_
      (.progress [] tx.members rfl h) h
    intro done m rest t hl ht
    exact installMember_ensures ht hl
  refine Prog.ensures_then hloop fun _ t ht => ?_
  have hid : t.identity tx.holder = .ok tx.holderIdentity := by
    rw [tx.wellFormed.holder]
    exact FileSystem.identity_one_of_find ht.holderAt
  obtain ⟨u, hremove, hu⟩ := ht.removeHolder
  refine Prog.ensures_observe_then ht.ensureBinding ?_
  refine Prog.ensures_observe_then (Api.forM_eq_ok fun m hm =>
    verifyInstalledMember_of hm ht.toKept (ht.installed m hm)) ?_
  refine Prog.ensures_observe_then (a := ()) ?_ ?_
  · rw [tx.wellFormed.holderFile]
    exact ensureDirectoryBinding_of hid ht.holderDirectory
  refine Prog.ensures_observe_then ht.ensureEmpty ?_
  refine Prog.ensures_act_then (.progress tx.members [] (List.append_nil _).symm ht) hremove ?_
  rw [orFailWith_ok, Prog.ret_bind]
  refine Prog.ensures_then (clearJournal_emptied hu) fun _ v hv => ?_
  exact ⟨.cleared hv, rfl, hv⟩

/-! ## What holds in every stage -/

theorem Reached.exactlyOne (h : tx.Reached s) (hm : m ∈ tx.members) :
    (HoldsAt origin s m.staged m ∧ Vacant s m.finalPath) ∨ (HoldsAt origin s m.finalPath m ∧ Vacant s m.staged) := by
  have hcontent : (s.inodes m.identity).content = (origin.inodes m.identity).content := (h.kept.files m hm).1
  cases h with
  | progress done rest split h =>
    have hmem := hm
    rw [split] at hmem
    rcases List.mem_append.1 hmem with hdone | hrest
    · exact .inr ⟨⟨identity_final_of_find hm (h.installed m hdone), hcontent⟩, h.staged_gone split hdone⟩
    · exact .inl ⟨⟨h.staged_at split hrest, hcontent⟩, identity_final_of_none hm (h.staged m hrest).2.1⟩
  | emptied h =>
    exact .inr ⟨⟨identity_final_of_find hm (h.installed m hm), hcontent⟩, identity_staged_of_gone hm h.holderGone⟩
  | cleared h =>
    exact .inr ⟨⟨identity_final_of_find hm (h.installed m hm), hcontent⟩, identity_staged_of_gone hm h.holderGone⟩

theorem Reached.primaryLast (h : tx.Reached s) (hprimary : ¬ Vacant s tx.primary) (hm : m ∈ tx.members) :
    HoldsAt origin s m.finalPath m := by
  have hcontent : (s.inodes m.identity).content = (origin.inodes m.identity).content := (h.kept.files m hm).1
  cases h with
  | progress done rest split h =>
    rcases List.eq_nil_or_concat rest with rfl | ⟨rest, last, rfl⟩
    · rw [List.append_nil] at split
      exact ⟨identity_final_of_find hm (h.installed m (split ▸ hm)), hcontent⟩
    · -- the primary output is the last member, so it is still staged
      have hlast := tx.wellFormed.last
      rw [split, List.concat_eq_append, ← List.append_assoc, List.map_append, List.map_singleton,
        List.getLast?_concat, Option.some.injEq] at hlast
      obtain ⟨-, hvacant, -⟩ := h.staged last (by simp)
      rw [hlast] at hvacant
      refine absurd ?_ hprimary
      rw [Vacant, tx.wellFormed.primary]
      exact FileSystem.identity_one_of_none hvacant
  | emptied h => exact ⟨identity_final_of_find hm (h.installed m hm), hcontent⟩
  | cleared h => exact ⟨identity_final_of_find hm (h.installed m hm), hcontent⟩

theorem reached_of_crashPoint {start t : FileSystem} (h : tx.Progress [] tx.members start)
    (ht : CrashPoint formats tx.toPreparedFileSetPublication tx.openJournal start t) : tx.Reached t := by
  obtain ⟨u, hu, ht⟩ := ht
  exact Prog.restarts_invariant (fun v hv w hw => (recover_ensures hv).visits hw)
    ((install_ensures h).visits hu) ht

end Issued

/-! ## Foreign entries -/

section Foreign

variable {t : FileSystem} {m a : PreparedMember} {path : Path} {i : Identity}

/-- The members of a journal that resolves are those it was written for, with identities of their own. -/
theorem resolveMembers_members {parent holder : Path} : ∀ {members : List PreparedMember} {names : List Name}
    {identities : List Identity} {l : List (Name × ResolvedMember)},
    (∀ m ∈ members, (StoredOsString.unix m.name).toOsString = .ok m.name ∧ m.staged = holder.join m.name ∧
      m.finalPath = parent.join m.name) →
    resolveMembers parent holder names identities (members.map PreparedMember.recorded) = .ok l →
    l.map (·.2) = members.map PreparedMember.resolved ∧ (members.map (·.identity)).Nodup ∧
      ∀ m ∈ members, m.identity ∉ identities := by
  intro members
  induction members with
  | nil =>
    intro names identities l _ h
    cases h
    exact ⟨rfl, List.nodup_nil, fun m hm => (List.not_mem_nil hm).elim⟩
  | cons m members ih =>
    intro names identities l hm h
    rw [List.map_cons, resolveMembers] at h
    obtain ⟨name, hname, h⟩ := bind_eq_ok.1 h
    obtain ⟨_, hnew, h⟩ := bind_eq_ok.1 h
    obtain ⟨l', hl', h⟩ := bind_eq_ok.1 h
    cases h
    obtain ⟨hread, hstaged, hfinal⟩ := hm m List.mem_cons_self
    obtain ⟨hmap, hnodup, hfresh⟩ := ih (fun m' hm' => hm m' (List.mem_cons_of_mem _ hm')) hl'
    have hname' : name = m.name := by
      unfold checkedStoredComponent at hname
      rw [show m.recorded.name = .unix m.name from rfl, hread, ok_bind] at hname
      exact (Option.some.inj (checkedPathComponent_eq_ok.1 hname).1).symm
    have hnew' := refuseIf_eq_ok.1 hnew
    rw [Bool.or_eq_false_iff, ← Bool.not_eq_true (identities.contains _), List.contains_iff_mem] at hnew'
    refine ⟨?_, ?_, ?_⟩
    · rw [List.map_cons, hmap, List.map_cons, PreparedMember.resolved, hstaged, hfinal, hname']
      rfl
    · rw [List.map_cons, List.nodup_cons]
      refine ⟨fun hmem => ?_, hnodup⟩
      obtain ⟨m', hm', heq⟩ := List.mem_map.1 hmem
      exact hfresh m' hm' (List.mem_cons.2 (.inl heq))
    · intro m' hm'
      rcases List.mem_cons.1 hm' with rfl | hm'
      · exact hnew'.2
      · exact fun hmem => hfresh m' hm' (List.mem_cons_of_mem _ hmem)

theorem resolveTransaction_members (hp : p.WellFormed) {record : JournalRecord} (hrecord : p.journalRecord = .ok record)
    {transaction : ResolvedTransaction} (h : resolveTransaction s p.primary p.primaryName record = .ok transaction) :
    transaction.members = p.members.map PreparedMember.resolved ∧ (p.members.map (·.identity)).Nodup := by
  obtain ⟨rfl, -, hholder, hmembers⟩ := journalRecord_eq hrecord
  have hbase : p.primary.base = p.parentIdentity := by rw [hp.primary]
  unfold resolveTransaction at h
  obtain ⟨_, -, h⟩ := bind_eq_ok.1 h
  obtain ⟨_, -, h⟩ := bind_eq_ok.1 h
  obtain ⟨_, -, h⟩ := bind_eq_ok.1 h
  obtain ⟨_, -, h⟩ := bind_eq_ok.1 h
  obtain ⟨_, -, h⟩ := bind_eq_ok.1 h
  obtain ⟨_, -, h⟩ := bind_eq_ok.1 h
  obtain ⟨_, -, h⟩ := bind_eq_ok.1 h
  obtain ⟨holderName, hname, h⟩ := bind_eq_ok.1 h
  obtain ⟨members, hresolve, h⟩ := bind_eq_ok.1 h
  obtain ⟨_, -, h⟩ := bind_eq_ok.1 h
  cases h
  have hname' : holderName = p.holderName := by
    unfold checkedStoredComponent at hname
    rw [hholder, ok_bind] at hname
    exact (Option.some.inj (checkedPathComponent_eq_ok.1 hname).1).symm
  obtain ⟨hmap, hnodup, -⟩ := resolveMembers_members (fun m hm => ⟨hmembers m hm, by
    rw [hp.staged m hm, hname', hbase]
    rfl, by
    rw [hp.finalPath m hm, hbase]
    rfl⟩) hresolve
  exact ⟨hmap, hnodup⟩

/-- No entry under the holder's name or a member's has changed, and no file. -/
def Untouched (t : FileSystem) (names : List Name) (s : FileSystem) : Prop :=
  (∀ d, ∀ name ∈ names, s.find d name = t.find d name) ∧ ∀ j, (s.inodes j).SameFile (t.inodes j)

theorem Untouched.identity (h : Untouched t path.names s) : s.identity path = t.identity path :=
  FileSystem.identity_congr (fun j => (h.2 j).1) h.1

/-- A turn of the loop for another member touches no entry under other names. -/
theorem resumeMember_keeps {names : List Name} {journal : OpenJournal} (h : Untouched t names s)
    (hstaged : a.staged.names.getLast? = some a.name) (hfinal : a.finalPath.names.getLast? = some a.name)
    (hne : a.name ∉ names) : (resumeMember formats journal a.resolved).Ensures (Untouched t names)
      (fun r u => Untouched t names u ∧ ((∃ e, r = .error e) ∨ ∃ x, r = .ok x)) s := by
  have hend : ∀ (r : Except FormatError Unit) u, Untouched t names u →
      Untouched t names u ∧ ((∃ e, r = .error e) ∨ ∃ x, r = .ok x) := by
    intro r u hu
    refine ⟨hu, ?_⟩
    cases r with
    | error e => exact .inl ⟨e, rfl⟩
    | ok x => exact .inr ⟨x, rfl⟩
  unfold resumeMember
  rw [Prog.ensures_bind, Prog.ensures_observe]
  refine ⟨h, ?_⟩
  cases observedIdentity s a.resolved.staged with
  | error e => exact hend _ _ h
  | ok staged =>
    dsimp only
    rw [Prog.ensures_bind, Prog.ensures_observe]
    refine ⟨h, ?_⟩
    cases observedIdentity s a.resolved.finalPath with
    | error e => exact hend _ _ h
    | ok final =>
      dsimp only
      cases staged with
      | none =>
        cases final with
        | none => exact ⟨h, hend _ _ h⟩
        | some j =>
          dsimp only
          split
          · rw [Prog.ensures_observe]
            exact ⟨h, hend _ _ h⟩
          · exact ⟨h, hend _ _ h⟩
      | some j =>
        cases final with
        | some k => exact ⟨h, hend _ _ h⟩
        | none =>
          dsimp only
          split
          · rw [Prog.ensures_bind, Prog.ensures_observe]
            refine ⟨h, ?_⟩
            cases verifyResolvedMember formats s a.resolved.staged a.resolved false with
            | error e => exact hend _ _ h
            | ok x =>
              dsimp only
              rw [Prog.ensures_bind, Prog.ensures_observe]
              refine ⟨h, ?_⟩
              cases ensureJournalBinding formats s journal with
              | error e => exact hend _ _ h
              | ok x =>
                dsimp only
                rw [Prog.ensures_bind, Prog.ensures_act]
                refine ⟨h, ?_⟩
                cases hmove : s.renameNoReplace a.resolved.staged a.resolved.finalPath with
                | error e => exact ⟨h, hend _ _ h⟩
                | ok r =>
                  obtain ⟨⟨⟩, u⟩ := r
                  have hu : Untouched t names u := by
                    refine ⟨fun d name hname => ?_, fun k => ?_⟩
                    · rw [FileSystem.renameNoReplace_other hmove hstaged hfinal fun heq => hne (heq ▸ hname),
                        h.1 d name hname]
                    · exact (FileSystem.renameNoReplace_sameFile hmove k).trans (h.2 k)
                  dsimp only
                  refine ⟨hu, ?_⟩
                  rw [orFailWith_ok, Prog.ret_bind, Prog.ensures_observe]
                  exact ⟨hu, hend _ _ hu⟩
          · exact ⟨h, hend _ _ h⟩

/-- The turn of the loop for a member with a foreign entry at one of its paths ends the recovery. -/
theorem resumeMember_foreign {journal : OpenJournal} {C : FileSystem → Prop} (hs : C s)
    (hpath : path = m.staged ∨ path = m.finalPath) (hi : s.identity path = .ok i) (hne : i ≠ m.identity) :
    (resumeMember formats journal m.resolved).Ensures C (fun r _ => ∃ e, r = .error e) s := by
  unfold resumeMember
  rw [Prog.ensures_bind, Prog.ensures_observe]
  refine ⟨hs, ?_⟩
  cases hstaged : observedIdentity s m.resolved.staged with
  | error e => exact ⟨e, rfl⟩
  | ok staged =>
    dsimp only
    rw [Prog.ensures_bind, Prog.ensures_observe]
    refine ⟨hs, ?_⟩
    cases hfinal : observedIdentity s m.resolved.finalPath with
    | error e => exact ⟨e, rfl⟩
    | ok final =>
      dsimp only
      cases staged with
      | none =>
        cases final with
        | none => exact ⟨hs, _, rfl⟩
        | some j =>
          -- the foreign entry is at the final path
          have hj : j ≠ m.resolved.identity := by
            rcases hpath with rfl | rfl
            · have := notFound_of_observed hstaged
              rw [show m.resolved.staged = m.staged from rfl, hi] at this
              cases this
            · have := identity_of_observed hfinal
              rw [show m.resolved.finalPath = m.finalPath from rfl, hi] at this
              cases this
              exact hne
          dsimp only
          rw [if_neg hj]
          exact ⟨hs, _, rfl⟩
      | some j =>
        cases final with
        | some k => exact ⟨hs, _, rfl⟩
        | none =>
          have hj : j ≠ m.resolved.identity := by
            rcases hpath with rfl | rfl
            · have := identity_of_observed hstaged
              rw [show m.resolved.staged = m.staged from rfl, hi] at this
              cases this
              exact hne
            · have := notFound_of_observed hfinal
              rw [show m.resolved.finalPath = m.finalPath from rfl, hi] at this
              cases this
          dsimp only
          rw [if_neg hj]
          exact ⟨hs, _, rfl⟩

/-- A recovery that meets a foreign entry at a path of a member stops with an error, and the entry stays as it
is all the time. -/
theorem foreign_stops (hp : p.WellFormed) (hholder : p.holderName ∉ p.members.map (·.name)) {record : JournalRecord}
    (hrecord : p.journalRecord = .ok record) {opened : OpenJournal}
    (hopen : openJournal formats t p.primary p.primaryName = .ok (some opened)) (heq : opened.record = record)
    (hm : m ∈ p.members) (hpath : path = m.staged ∨ path = m.finalPath) (hi : t.identity path = .ok i)
    (hne : i ≠ m.identity) :
    (recoverFileSetPublication formats p.primary p.primaryName).Ensures (Untouched t path.names)
      (fun r _ => ∃ e, r = .error e) t := by
  have hstart : Untouched t path.names t := ⟨fun _ _ _ => rfl, fun _ => .refl _⟩
  have hnames : ∀ name ∈ path.names, name = p.holderName ∨ name = m.name := by
    rcases hpath with rfl | rfl
    · rw [hp.staged m hm]
      simp
    · rw [hp.finalPath m hm]
      simp
  have hlast : ∀ a ∈ p.members, a.staged.names.getLast? = some a.name ∧ a.finalPath.names.getLast? = some a.name := by
    intro a ha
    rw [hp.staged a ha, hp.finalPath a ha]
    exact ⟨rfl, rfl⟩
  refine Prog.ensures_observe_then hopen ?_
  dsimp only
  rw [Prog.ensures_bind, Prog.ensures_observe, heq]
  refine ⟨hstart, ?_⟩
  cases hresolve : resolveTransaction t p.primary p.primaryName record with
  | error e => exact ⟨e, rfl⟩
  | ok transaction =>
    dsimp only
    obtain ⟨hmembers, -⟩ := resolveTransaction_members hp hrecord hresolve
    rw [Prog.ensures_bind]
    -- the loop does not come to its end
    suffices hloop : (resumeTransaction formats transaction opened).Ensures (Untouched t path.names)
        (fun r _ => ∃ e, r = .error e) t by
      refine hloop.post ?_
      rintro r u - ⟨e, rfl⟩
      exact ⟨e, rfl⟩
    unfold resumeTransaction
    rw [Prog.ensures_bind, Prog.ensures_observe]
    refine ⟨hstart, ?_⟩
    cases ensureJournalBinding formats t opened with
    | error e => exact ⟨e, rfl⟩
    | ok x =>
      dsimp only
      rw [Prog.ensures_bind, Prog.ensures_observe]
      refine ⟨hstart, ?_⟩
      cases ensureDirectoryBinding t transaction.parent transaction.parentFile transaction.parentIdentity
          "destination parent" with
      | error e => exact ⟨e, rfl⟩
      | ok x =>
        dsimp only
        rw [Prog.ensures_bind, hmembers, forM_resolved]
        refine Prog.ensures_forM (fun done rest u => Untouched t path.names u ∧ m ∉ done) ?_ ?_ hstart
          ⟨hstart, List.not_mem_nil⟩
        · rintro done a rest u hl ⟨hu, hnot⟩
          have ha : a ∈ p.members := by
            rw [hl]
            exact List.mem_append_right _ List.mem_cons_self
          by_cases ham : a = m
          · subst ham
            refine (resumeMember_foreign hu hpath (hu.identity.trans hi) hne).post ?_
            rintro r v - ⟨e, rfl⟩
            exact ⟨e, rfl⟩
          · have hname : a.name ∉ path.names := by
              intro hmem
              rcases hnames _ hmem with h | h
              · exact hholder (h ▸ List.mem_map_of_mem ha)
              · exact ham (List.inj_on_of_nodup_map hp.nodup ha hm h)
            refine (resumeMember_keeps hu (hlast a ha).1 (hlast a ha).2 hname).post ?_
            rintro r v - ⟨hv, ⟨e, rfl⟩ | ⟨x, rfl⟩⟩
            · exact ⟨e, rfl⟩
            · refine ⟨hv, fun hmem => ?_⟩
              rcases List.mem_append.1 hmem with h | h
              · exact hnot h
              · exact ham (List.mem_singleton.1 h).symm
        · rintro u - ⟨-, hnot⟩
          exact absurd hm hnot

end Foreign

/-! ## Exactly the sets that are recovered -/

theorem Durable.open_eq {record : JournalRecord} {journal : OpenJournal} {u : FileSystem}
    (h : Durable formats p record journal s u) (hp : p.WellFormed)
    (hread : formats.fromSlice (formats.toVec record) = some record) :
    openJournal formats u p.primary p.primaryName = .ok (some journal) := by
  have hid : u.identity (journalPath p.primary p.primaryName) = .ok journal.file := by
    rw [journalPath, hp.primary]
    exact FileSystem.identity_one_of_find h.journalAt
  rw [Issued.openJournal_of_stored hid h.stored hread h.small, ← h.eq]

/-- The publication whose journal has been issued for a set that can be told from its journal. -/
def Durable.issued {record : JournalRecord} {journal : OpenJournal} {u : FileSystem}
    (h : Durable formats p record journal s u) (hp : p.WellFormed) (hrecorded : p.Recorded formats s)
    (hrecord : p.journalRecord = .ok record) (hstaged : Staged p s)
    (hread : formats.fromSlice (formats.toVec record) = some record)
    (hjournal : p.journalName ∉ p.members.map (·.name)) (hdistinct : (p.members.map (·.identity)).Nodup) :
    Issued formats s where
  toPreparedFileSetPublication := p
  start := u
  record := record
  journal := journal.file
  node := u.inodes journal.file
  wellFormed := hp
  recorded := hrecorded
  issued := hrecord
  stored := h.stored
  readable := hread
  small := h.small
  holder_ne_parent := by
    intro heq
    obtain ⟨m, hm, -⟩ := List.mem_map.1 (List.mem_of_getLast? hp.last)
    have hat := hstaged.staged m hm
    rw [heq, hstaged.vacant m hm] at hat
    cases hat
  holder_not_member := by
    intro hmem
    obtain ⟨m, hm, hname⟩ := List.mem_map.1 hmem
    have hvacant := hstaged.vacant m hm
    rw [hname, hstaged.holderAt] at hvacant
    cases hvacant
  holder_ne_journal := by
    intro heq
    have hat := hstaged.holderAt
    rw [← heq, h.absent] at hat
    cases hat
  journal_not_member := hjournal
  journal_ne_member := by
    intro hmem
    obtain ⟨m, hm, hid⟩ := List.mem_map.1 hmem
    exact (h.fresh _ _ _ (hstaged.staged m hm)).1 hid
  distinct := hdistinct
  vacant := by
    intro m hm
    rw [h.others _ _ fun heq => hjournal (heq.2 ▸ List.mem_map_of_mem hm), hstaged.vacant m hm]

/-- A commit begins with all members staged. -/
theorem Durable.progress {record : JournalRecord} {journal : OpenJournal} {u : FileSystem}
    (h : Durable formats p record journal s u) (hp : p.WellFormed) (hrecorded : p.Recorded formats s)
    (hrecord : p.journalRecord = .ok record) (hstaged : Staged p s)
    (hread : formats.fromSlice (formats.toVec record) = some record)
    (hjournal : p.journalName ∉ p.members.map (·.name)) (hdistinct : (p.members.map (·.identity)).Nodup) :
    (h.issued hp hrecorded hrecord hstaged hread hjournal hdistinct).Progress [] p.members u := by
  let tx := h.issued hp hrecorded hrecord hstaged hread hjournal hdistinct
  have hparent : p.parentIdentity ≠ journal.file := (h.fresh _ _ _ hstaged.holderAt).2
  have hholder : p.holderIdentity ≠ journal.file := (h.fresh _ _ _ hstaged.holderAt).1
  have hmember : ∀ m ∈ p.members, u.inodes m.identity = s.inodes m.identity := fun m hm =>
    h.inodes _ (h.fresh _ _ _ (hstaged.staged m hm)).1
  have hinside : ∀ name, u.find p.holderIdentity name = s.find p.holderIdentity name := fun name =>
    h.others _ _ fun heq => tx.holder_ne_parent heq.1
  refine ⟨⟨⟨?_, ?_, fun name i hi _ _ => hi⟩, h.journalAt, rfl⟩, ?_, ?_, fun m hm => (List.not_mem_nil hm).elim,
    ?_, ?_⟩
  · show (u.inodes p.parentIdentity).content = _
    rw [h.inodes _ hparent, hstaged.directory]
  · intro m hm
    rw [hmember m hm]
    exact .refl _
  · show u.find p.parentIdentity p.holderName = some p.holderIdentity
    rw [h.others _ _ fun heq : _ ∧ p.holderName = p.journalName => tx.holder_ne_journal heq.2.symm, hstaged.holderAt]
  · show (u.inodes p.holderIdentity).content = _
    rw [h.inodes _ hholder, hstaged.holderDirectory]
  · intro m hm
    exact ⟨(hinside _).trans (hstaged.staged m hm), tx.vacant m hm, hmember m hm⟩
  · intro name i hi
    exact hstaged.inventory name i ((hinside name).symm.trans hi)

/-- A prepared set whose journal has become durable is published safely across crashes if and only if no
member bears the name of the journal and no two members are the same file. -/
theorem crashSafe_iff {primary staging : Request} {files : List Request} {process sequence : Nat}
    {journal : OpenJournal} {u : FileSystem} (hprepare : prepareFileSetPublication formats s primary staging files = .ok p)
    (hissue : (p.issueJournal formats process sequence).run s = (.ok journal, u))
    (hread : ∀ record, p.journalRecord = .ok record → formats.fromSlice (formats.toVec record) = some record) :
    CrashSafe formats s p journal u ↔
      p.journalName ∉ p.members.map (·.name) ∧ (p.members.map (·.identity)).Nodup := by
  obtain ⟨hp, hrecorded⟩ := prepare_spec hprepare
  obtain ⟨hstaged, record, hrecord, hdurable⟩ := issueJournal_run hp hissue
  have hopen := hdurable.open_eq hp (hread record hrecord)
  have hjournal : journal.record = record := by rw [hdurable.eq]
  have hholder : p.holderName ∉ p.members.map (·.name) := by
    intro hmem
    obtain ⟨m, hm, hname⟩ := List.mem_map.1 hmem
    have hvacant := hstaged.vacant m hm
    rw [hname, hstaged.holderAt] at hvacant
    cases hvacant
  constructor
  · intro hsafe
    obtain ⟨found, v, hrun, -⟩ := hsafe.recovers u ⟨u, Prog.visits_start _ _, .refl⟩
    constructor
    · -- the journal itself would be a foreign entry at the member's final path
      intro hmem
      obtain ⟨m, hm, hname⟩ := List.mem_map.1 hmem
      have hat : u.identity m.finalPath = .ok journal.file := by
        rw [hp.finalPath m hm, hname]
        exact FileSystem.identity_one_of_find hdurable.journalAt
      obtain ⟨⟨e, he⟩, -⟩ := hsafe.foreign u journal hopen rfl m hm _ (.inr rfl) _ hat
        fun heq => (hdurable.fresh _ _ _ (hstaged.staged m hm)).1 heq.symm
      rw [hrun] at he
      cases he
    · -- a journal with an identity twice does not resolve
      unfold recoverFileSetPublication at hrun
      obtain ⟨opened, hopened, hrun⟩ := Prog.run_observe_then.1 hrun
      rw [hopen] at hopened
      cases hopened
      obtain ⟨transaction, hresolve, -⟩ := Prog.run_observe_then.1 hrun
      rw [hjournal] at hresolve
      exact (resolveTransaction_members hp hrecord hresolve).2
  · rintro ⟨hname, hdistinct⟩
    let tx := hdurable.issued hp hrecorded hrecord hstaged (hread record hrecord) hname hdistinct
    have hprogress : tx.Progress [] tx.members u :=
      hdurable.progress hp hrecorded hrecord hstaged (hread record hrecord) hname hdistinct
    have htx : tx.openJournal = journal := hdurable.eq.symm
    rw [← htx]
    refine ⟨fun t ht m hm => (Issued.reached_of_crashPoint hprogress ht).exactlyOne hm,
      fun t ht hprimary m hm => (Issued.reached_of_crashPoint hprogress ht).primaryLast hprimary hm,
      fun t ht name i => (Issued.reached_of_crashPoint hprogress ht).kept.others name i, ?_, ?_⟩
    · intro t ht
      obtain ⟨⟨found, hok⟩, hcleared⟩ :=
        (Issued.recover_ensures (Issued.reached_of_crashPoint hprogress ht)).result
      refine ⟨found, _, Prod.ext hok rfl, ?_, ?_, fun m hm => ⟨Issued.identity_final_of_find hm
        (hcleared.installed m hm), (hcleared.files m hm).1⟩⟩
      · rw [Vacant, hp.holder]
        exact FileSystem.identity_one_of_none hcleared.holderGone
      · rw [Vacant, tx.openJournal_path]
        exact FileSystem.identity_one_of_none hcleared.journalGone
    · intro t opened hopened heq m hm path hpath i hi hne
      have hstops := foreign_stops hp hholder hrecord hopened heq hm hpath hi hne
      refine ⟨hstops.result, fun v hv => ?_⟩
      have huntouched := hstops.visits hv
      exact ⟨huntouched.identity.trans hi, huntouched.2 i⟩

/-! ## Two sets of two files -/

/-- A directory with a staging directory and two staged files, the second of which is `second`. -/
def stagedPair (second : Identity) : FileSystem where
  links := ⟨[⟨(⟨1, 2⟩, [46, 119]), ⟨1, 3⟩⟩, ⟨(⟨1, 3⟩, [97]), ⟨1, 10⟩⟩, ⟨(⟨1, 3⟩, [98]), second⟩], by simp [List.NodupKeys, List.keys]⟩
  inodes i := ⟨if i.entry < 10 then .directory else .regular [i.entry.toUInt8], 0o600, some 7000000000, (1, 1)⟩
  clock n := (2, n)

def pairMember (name : UInt8) (i : Identity) : PreparedMember :=
  ⟨[name], ⟨⟨1, 2⟩, [[46, 119], [name]]⟩, ⟨⟨1, 2⟩, [[name]]⟩, i, i, ⟨1, some 7000000000, (1, 1)⟩,
    List.replicate 31 0 ++ [i.entry.toUInt8]⟩

def preparedPair (second : Identity) : PreparedFileSetPublication where
  primary := ⟨⟨1, 2⟩, [[97]]⟩
  primaryName := [97]
  parent := ⟨⟨1, 2⟩, []⟩
  parentFile := ⟨1, 2⟩
  parentIdentity := ⟨1, 2⟩
  holder := ⟨⟨1, 2⟩, [[46, 119]]⟩
  holderName := [46, 119]
  holderFile := ⟨1, 3⟩
  holderIdentity := ⟨1, 3⟩
  members := [pairMember 98 second, pairMember 97 ⟨1, 10⟩]

def pairRecord (second : Identity) : JournalRecord :=
  ⟨1, .unix [97], .unix [46, 119], ⟨1, 3⟩, [(pairMember 98 second).recorded, (pairMember 97 ⟨1, 10⟩).recorded]⟩

/-- A JSON text, written with parentheses and tildes for braces and quotation marks. -/
def jsonBytes (text : String) : List UInt8 :=
  (utf8Bytes text).map fun c => if c = 40 then 123 else if c = 41 then 125 else if c = 126 then 34 else c

/-- The journal of a pair of two files. -/
def pairText : String :=
    "(~version~:1,~primary~:(~encoding~:~unix~,~units~:[97]),~holder~:(~encoding~:~unix~,~uni" ++
    "ts~:[46,119]),~holder_identity~:(~filesystem~:1,~entry~:3),~members~:[(~name~:(~encoding" ++
    "~:~unix~,~units~:[98]),~identity~:(~filesystem~:1,~entry~:11),~state~:(~bytes~:1,~modifi" ++
    "ed~:(~side~:~after~,~seconds~:7,~nanoseconds~:0),~changed~:[1,1]),~digest~:[0,0,0,0,0,0," ++
    "0,0,0,0,0,0,0,0,0,0,0,0,0,0,0,0,0,0,0,0,0,0,0,0,0,11]),(~name~:(~encoding~:~unix~,~units" ++
    "~:[97]),~identity~:(~filesystem~:1,~entry~:10),~state~:(~bytes~:1,~modified~:(~side~:~af" ++
    "ter~,~seconds~:7,~nanoseconds~:0),~changed~:[1,1]),~digest~:[0,0,0,0,0,0,0,0,0,0,0,0,0,0" ++
    ",0,0,0,0,0,0,0,0,0,0,0,0,0,0,0,0,0,10])])"

/-- The journal of a pair of two links to one file. -/
def linkedText : String :=
    "(~version~:1,~primary~:(~encoding~:~unix~,~units~:[97]),~holder~:(~encoding~:~unix~,~uni" ++
    "ts~:[46,119]),~holder_identity~:(~filesystem~:1,~entry~:3),~members~:[(~name~:(~encoding" ++
    "~:~unix~,~units~:[98]),~identity~:(~filesystem~:1,~entry~:10),~state~:(~bytes~:1,~modifi" ++
    "ed~:(~side~:~after~,~seconds~:7,~nanoseconds~:0),~changed~:[1,1]),~digest~:[0,0,0,0,0,0," ++
    "0,0,0,0,0,0,0,0,0,0,0,0,0,0,0,0,0,0,0,0,0,0,0,0,0,10]),(~name~:(~encoding~:~unix~,~units" ++
    "~:[97]),~identity~:(~filesystem~:1,~entry~:10),~state~:(~bytes~:1,~modified~:(~side~:~af" ++
    "ter~,~seconds~:7,~nanoseconds~:0),~changed~:[1,1]),~digest~:[0,0,0,0,0,0,0,0,0,0,0,0,0,0" ++
    ",0,0,0,0,0,0,0,0,0,0,0,0,0,0,0,0,0,10])])"

/-- The formats at the journals of the two pairs. -/
def pairFormats (second : Identity) : Formats where
  toVec _ := jsonBytes (if second = ⟨1, 10⟩ then linkedText else pairText)
  fromSlice bytes :=
    if bytes = jsonBytes (if second = ⟨1, 10⟩ then linkedText else pairText) then some (pairRecord second) else none
  hash bytes := List.replicate 31 0 ++ [bytes.sum]

def pairRequests : List Request := [⟨⟨1, 3⟩, some [97]⟩, ⟨⟨1, 3⟩, some [98]⟩]

def pairJournal (second : Identity) : OpenJournal where
  path := ⟨⟨1, 2⟩, [utf8Bytes ".a.squallz-output-set.json"]⟩
  file := ⟨1, second.entry + 1⟩
  identity := ⟨1, second.entry + 1⟩
  state := ⟨657, none, (2, 2)⟩
  contentDigest := (pairFormats second).hash ((pairFormats second).toVec (pairRecord second))
  record := pairRecord second

def pairPrimary : Request := ⟨⟨1, 2⟩, some [97]⟩

def pairStaging : Request := ⟨⟨1, 2⟩, some [46, 119]⟩

/-- The state in which the journal of a pair is durable. -/
def pairStart (second : Identity) : FileSystem :=
  (((preparedPair second).issueJournal (pairFormats second) 1 1).run (stagedPair second)).2

theorem run_eq_pairStart {second : Identity} {r : Except FormatError OpenJournal}
    (h : (((preparedPair second).issueJournal (pairFormats second) 1 1).run (stagedPair second)).1 = r) :
    ((preparedPair second).issueJournal (pairFormats second) 1 1).run (stagedPair second) = (r, pairStart second) := by
  rw [← h, pairStart]

theorem pairFormats_read (second : Identity) :
    (pairFormats second).fromSlice ((pairFormats second).toVec (pairRecord second)) = some (pairRecord second) :=
  if_pos rfl

theorem crashSafe_iff_pair : CrashSafe (pairFormats ⟨1, 11⟩) (stagedPair ⟨1, 11⟩) (preparedPair ⟨1, 11⟩)
    (pairJournal ⟨1, 11⟩) (pairStart ⟨1, 11⟩) := by
  have hprepare : prepareFileSetPublication (pairFormats ⟨1, 11⟩) (stagedPair ⟨1, 11⟩) pairPrimary pairStaging
      pairRequests = .ok (preparedPair ⟨1, 11⟩) := by decide +kernel
  have hissue : (((preparedPair ⟨1, 11⟩).issueJournal (pairFormats ⟨1, 11⟩) 1 1).run (stagedPair ⟨1, 11⟩)).1 =
      .ok (pairJournal ⟨1, 11⟩) := by decide +kernel
  have hread : ∀ record, (preparedPair ⟨1, 11⟩).journalRecord = .ok record →
      (pairFormats ⟨1, 11⟩).fromSlice ((pairFormats ⟨1, 11⟩).toVec record) = some record := by
    intro record h
    have hrecord : (preparedPair ⟨1, 11⟩).journalRecord = .ok (pairRecord ⟨1, 11⟩) := by decide +kernel
    cases hrecord.symm.trans h
    exact pairFormats_read _
  exact (crashSafe_iff hprepare (run_eq_pairStart hissue) hread).2 ⟨by decide +kernel, by decide +kernel⟩

/-- Two staged links to one file are prepared and get their journal, from which they are then never
recovered. -/
theorem linked_pair_not_crashSafe :
    prepareFileSetPublication (pairFormats ⟨1, 10⟩) (stagedPair ⟨1, 10⟩) pairPrimary pairStaging pairRequests =
      .ok (preparedPair ⟨1, 10⟩) ∧
    ((preparedPair ⟨1, 10⟩).issueJournal (pairFormats ⟨1, 10⟩) 1 1).run (stagedPair ⟨1, 10⟩) =
      (.ok (pairJournal ⟨1, 10⟩), pairStart ⟨1, 10⟩) ∧
    (pairFormats ⟨1, 10⟩).fromSlice ((pairFormats ⟨1, 10⟩).toVec (pairRecord ⟨1, 10⟩)) = some (pairRecord ⟨1, 10⟩) ∧
    ¬ CrashSafe (pairFormats ⟨1, 10⟩) (stagedPair ⟨1, 10⟩) (preparedPair ⟨1, 10⟩) (pairJournal ⟨1, 10⟩)
      (pairStart ⟨1, 10⟩) := by
  have hissue : (((preparedPair ⟨1, 10⟩).issueJournal (pairFormats ⟨1, 10⟩) 1 1).run (stagedPair ⟨1, 10⟩)).1 =
      .ok (pairJournal ⟨1, 10⟩) := by decide +kernel
  have hfails : ((recoverFileSetPublication (pairFormats ⟨1, 10⟩) (preparedPair ⟨1, 10⟩).primary
      (preparedPair ⟨1, 10⟩).primaryName).run (pairStart ⟨1, 10⟩)).1.isOk = false := by decide +kernel
  refine ⟨by decide +kernel, run_eq_pairStart hissue, pairFormats_read _, fun h => ?_⟩
  obtain ⟨found, u, hrun, -⟩ := h.recovers _ ⟨_, Prog.visits_start _ _, .refl⟩
  rw [hrun] at hfails
  cases hfails

end Squallz.OutputSet
