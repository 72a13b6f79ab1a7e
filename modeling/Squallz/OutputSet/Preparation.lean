/-
What preparation establishes: the paths and names of a publication, and that its members are recorded as
the files they are.
-/
import Squallz.OutputSet.Recovery

namespace Squallz.OutputSet

open Squallz.Api Squallz.Core Squallz.System

variable {formats : Formats} {s : FileSystem}

/-! ## Members -/

theorem openRegularFile_eq_ok {path : Path} {i : Identity} (h : openRegularFile s path = .ok i) :
    s.identity path = .ok i := by
  unfold openRegularFile at h
  obtain ⟨j, hj, h⟩ := bind_eq_ok.1 h
  have hid := ofErrno_eq_ok hj
  split at h
  · cases h
  · cases h
  · cases h
    exact hid

/-- What a turn of the loop over the staged files binds. -/
structure Bound (s : FileSystem) (parent holder : Path) (m : PreparedMember) : Prop where
  staged : m.staged = holder.join m.name
  finalPath : m.finalPath = parent.join m.name
  file : m.file = m.identity
  component : isSingleComponent m.name = true
  isFile : (s.inodes m.identity).isFile = true
  state : m.state = .fromMetadata (s.inodes m.identity)

theorem bindMember_eq_ok {parent holder : Path} {i : Identity} {names : List Name} {request : Request}
    {m : PreparedMember} (h : bindMember s parent holder i names request = .ok m) :
    Bound s parent holder m ∧ m.name ∉ names := by
  unfold bindMember at h
  obtain ⟨name, hname, h⟩ := bind_eq_ok.1 h
  obtain ⟨u, hnew, h⟩ := bind_eq_ok.1 h
  obtain ⟨v, -, h⟩ := bind_eq_ok.1 h
  obtain ⟨file, -, h⟩ := bind_eq_ok.1 h
  obtain ⟨w, hfile, h⟩ := bind_eq_ok.1 h
  obtain ⟨w', -, h⟩ := bind_eq_ok.1 h
  cases h
  have hnew' := refuseIf_eq_ok.1 hnew
  rw [Bool.or_eq_false_iff] at hnew'
  refine ⟨⟨rfl, rfl, rfl, (checkedPathComponent_eq_ok.1 hname).2, ?_, rfl⟩, ?_⟩
  · have := refuseIf_eq_ok.1 hfile
    simpa using this
  · intro hmem
    rw [← List.contains_iff_mem, hnew'.2] at hmem
    cases hmem

theorem bindMembers_eq_ok {parent holder : Path} {i : Identity} : ∀ {requests : List Request} {names : List Name}
    {members : List PreparedMember}, bindMembers s parent holder i names requests = .ok members →
    (∀ m ∈ members, Bound s parent holder m) ∧ (members.map (·.name)).Nodup ∧ (∀ m ∈ members, m.name ∉ names) ∧
      members.length = requests.length := by
  intro requests
  induction requests with
  | nil =>
    intro names members h
    cases h
    exact ⟨fun m hm => (List.not_mem_nil hm).elim, List.nodup_nil, fun m hm => (List.not_mem_nil hm).elim, rfl⟩
  | cons request requests ih =>
    intro names members h
    rw [bindMembers] at h
    obtain ⟨m, hm, h⟩ := bind_eq_ok.1 h
    obtain ⟨rest, hrest, h⟩ := bind_eq_ok.1 h
    cases h
    obtain ⟨hbound, hnew⟩ := bindMember_eq_ok hm
    obtain ⟨hall, hnodup, hfresh, hlen⟩ := ih hrest
    refine ⟨?_, ?_, ?_, ?_⟩
    · intro m' hm'
      rcases List.mem_cons.1 hm' with rfl | hm'
      · exact hbound
      · exact hall m' hm'
    · rw [List.map_cons, List.nodup_cons]
      refine ⟨fun hmem => ?_, hnodup⟩
      obtain ⟨m', hm', heq⟩ := List.mem_map.1 hmem
      exact hfresh m' hm' (List.mem_cons.2 (.inl heq))
    · intro m' hm'
      rcases List.mem_cons.1 hm' with rfl | hm'
      · exact hnew
      · exact fun hmem => hfresh m' hm' (List.mem_cons_of_mem _ hmem)
    · rw [List.length_cons, hlen, List.length_cons]

/-- A member with its digest. -/
def PreparedMember.hashed (formats : Formats) (s : FileSystem) (m : PreparedMember) : PreparedMember :=
  { m with digest := formats.hash (s.inodes m.file).bytes }

theorem mapM_hash : ∀ {members hashed : List PreparedMember}, members.mapM (hashPreparedMember formats s) = .ok hashed →
    hashed = members.map (PreparedMember.hashed formats s) := by
  intro members
  induction members with
  | nil =>
    intro hashed h
    cases h
    rfl
  | cons m members ih =>
    intro hashed h
    rw [List.mapM_cons, bind_eq_ok] at h
    obtain ⟨a, ha, h⟩ := h
    obtain ⟨l, hl, h⟩ := bind_eq_ok.1 h
    cases h
    obtain ⟨u, -, ha⟩ := bind_eq_ok.1 ha
    cases ha
    rw [ih hl]
    rfl

/-! ## The order of publication -/

theorem publicationOrder_perm (members : List PreparedMember) (primaryName : Name) :
    (publicationOrder members primaryName).Perm members := by
  unfold publicationOrder
  have hsplit := List.filter_append_perm (fun m : PreparedMember => decide (m.name ≠ primaryName))
    (members.insertionSort fun left right => left.name ≤ right.name)
  have hcongr : (fun m : PreparedMember => !decide (m.name ≠ primaryName)) = fun m => decide (m.name = primaryName) := by
    funext m
    simp
  rw [hcongr] at hsplit
  exact hsplit.trans (List.perm_insertionSort _ _)

theorem publicationOrder_last {members : List PreparedMember} {primaryName : Name}
    (h : primaryName ∈ members.map (·.name)) :
    ((publicationOrder members primaryName).map (·.name)).getLast? = some primaryName := by
  obtain ⟨m, hm, hname⟩ := List.mem_map.1 h
  have hmem : m ∈ (members.insertionSort fun left right => left.name ≤ right.name).filter
      (fun m => decide (m.name = primaryName)) :=
    List.mem_filter.2 ⟨(List.mem_insertionSort _).2 hm, decide_eq_true hname⟩
  have hne : ((members.insertionSort fun left right => left.name ≤ right.name).filter
      (fun m => decide (m.name = primaryName))).map (·.name) ≠ [] := by
    intro heq
    rw [List.map_eq_nil_iff] at heq
    rw [heq] at hmem
    cases hmem
  rw [publicationOrder, List.map_append, List.getLast?_append_of_ne_nil _ hne, List.getLast?_eq_some_getLast hne]
  have hlast := List.getLast_mem hne
  obtain ⟨m', hm', heq⟩ := List.mem_map.1 hlast
  rw [← heq]
  exact congrArg some (of_decide_eq_true (List.mem_filter.1 hm').2)

/-! ## Preparation -/

theorem prepare_spec {primary staging : Request} {files : List Request} {p : PreparedFileSetPublication}
    (h : prepareFileSetPublication formats s primary staging files = .ok p) : p.WellFormed ∧ p.Recorded formats s := by
  unfold prepareFileSetPublication at h
  obtain ⟨_, -, h⟩ := bind_eq_ok.1 h
  obtain ⟨_, hcount, h⟩ := bind_eq_ok.1 h
  obtain ⟨primaryName, hprimary, h⟩ := bind_eq_ok.1 h
  obtain ⟨parentFile, hparent, h⟩ := bind_eq_ok.1 h
  obtain ⟨_, -, h⟩ := bind_eq_ok.1 h
  obtain ⟨_, -, h⟩ := bind_eq_ok.1 h
  cases hstaging : staging.fileName with
  | none =>
    rw [hstaging] at h
    cases h
  | some holderName =>
    rw [hstaging] at h
    obtain ⟨_, -, h⟩ := bind_eq_ok.1 h
    obtain ⟨_, -, h⟩ := bind_eq_ok.1 h
    obtain ⟨holderName', hholder, h⟩ := bind_eq_ok.1 h
    obtain ⟨holderFile, -, h⟩ := bind_eq_ok.1 h
    obtain ⟨_, -, h⟩ := bind_eq_ok.1 h
    obtain ⟨members, hmembers, h⟩ := bind_eq_ok.1 h
    obtain ⟨_, hcontains, h⟩ := bind_eq_ok.1 h
    obtain ⟨_, -, h⟩ := bind_eq_ok.1 h
    obtain ⟨hashed, hhashed, h⟩ := bind_eq_ok.1 h
    obtain ⟨_, -, h⟩ := bind_eq_ok.1 h
    obtain ⟨_, -, h⟩ := bind_eq_ok.1 h
    obtain ⟨_, -, h⟩ := bind_eq_ok.1 h
    cases h
    obtain ⟨hbound, hnodup, -, hlen⟩ := bindMembers_eq_ok hmembers
    obtain rfl := mapM_hash hhashed
    obtain ⟨heq, hsingle⟩ := checkedPathComponent_eq_ok.1 hholder
    cases heq
    have hdir : parentFile = primary.parent := by
      have := ofErrno_eq_ok hparent
      cases this
      rfl
    subst hdir
    have hperm := publicationOrder_perm (members.map (PreparedMember.hashed formats s)) primaryName
    have hnames : (members.map (PreparedMember.hashed formats s)).map (·.name) = members.map (·.name) := by
      rw [List.map_map]
      rfl
    -- every published member is a bound one with its digest
    have hmem : ∀ m ∈ publicationOrder (members.map (PreparedMember.hashed formats s)) primaryName,
        ∃ m' ∈ members, m = m'.hashed formats s ∧ Bound s ⟨primary.parent, []⟩ ((⟨primary.parent, []⟩ : Path).join holderName) m' := by
      intro m hm
      obtain ⟨m', hm', rfl⟩ := List.mem_map.1 (hperm.mem_iff.1 hm)
      exact ⟨m', hm', rfl, hbound m' hm'⟩
    have hprimaryMem : primaryName ∈ (members.map (PreparedMember.hashed formats s)).map (·.name) := by
      rw [hnames, ← List.contains_iff_mem]
      simpa using refuseIf_eq_ok.1 hcontains
    refine ⟨⟨rfl, rfl, rfl, rfl, rfl, ?_, ?_, ?_, ?_, publicationOrder_last hprimaryMem, ?_,
      (checkedPathComponent_eq_ok.1 hprimary).2, hsingle, ?_⟩, ?_⟩
    · intro m hm
      obtain ⟨m', -, rfl, hb⟩ := hmem m hm
      exact hb.staged
    · intro m hm
      obtain ⟨m', -, rfl, hb⟩ := hmem m hm
      exact hb.finalPath
    · intro m hm
      obtain ⟨m', -, rfl, hb⟩ := hmem m hm
      exact hb.file
    · refine (hperm.map (·.name)).nodup_iff.2 ?_
      rw [hnames]
      exact hnodup
    · show (publicationOrder _ _).length ≤ _
      rw [hperm.length_eq, List.length_map, hlen]
      exact Nat.not_lt.1 (of_decide_eq_false (refuseIf_eq_ok.1 hcount))
    · intro m hm
      obtain ⟨m', -, rfl, hb⟩ := hmem m hm
      exact hb.component
    · intro m hm
      obtain ⟨m', -, rfl, hb⟩ := hmem m hm
      refine ⟨hb.isFile, hb.state, ?_⟩
      show formats.hash (s.inodes m'.file).bytes = formats.hash (s.inodes m'.identity).bytes
      rw [hb.file]

end Squallz.OutputSet
