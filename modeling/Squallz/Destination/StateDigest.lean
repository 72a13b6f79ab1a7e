/-
What the digest of a destination tells: the pass over a tree feeds the hash with an encoding that is read back in one way only,
whatever the order in which directories are listed.
-/
import Squallz.Core.ExtractGuard
import Squallz.Destination.StateTree

namespace Squallz.Destination

open Squallz.Api Squallz.Bytes Squallz.Inputs Squallz.System

/-! ## What a pass feeds -/

/-- A program that ends well has fed the hash with these bytes. -/
def Feeds {α : Type} (p : Hash α) (bytes : List UInt8) (P : α → Prop) : Prop :=
  ∀ s a t, p.run s = (.ok a, t) → t.stream = s.stream ++ bytes ∧ P a

section Rules

variable {α β : Type} {P : α → Prop} {Q : β → Prop} {p : Hash α} {bytes later : List UInt8}

theorem Feeds.mono {P' : α → Prop} (h : Feeds p bytes P) (hP : ∀ a, P a → P' a) : Feeds p bytes P' :=
  fun s a t hrun => ⟨(h s a t hrun).1, hP a (h s a t hrun).2⟩

theorem feeds_bind {f : α → Hash β} (hp : Feeds p bytes P) (hf : ∀ a, P a → Feeds (f a) later Q) :
    Feeds (p >>= f) (bytes ++ later) Q := by
  intro s b t hrun
  obtain ⟨a, u, hfirst, hrest⟩ := Prog.run_bind_eq_ok.1 hrun
  obtain ⟨hstream, hP⟩ := hp s a u hfirst
  obtain ⟨hlast, hQ⟩ := hf a hP u b t hrest
  rw [hlast, hstream, List.append_assoc]
  exact ⟨rfl, hQ⟩

theorem feeds_silent {f : α → Hash β} (hp : Feeds p [] P) (hf : ∀ a, P a → Feeds (f a) later Q) :
    Feeds (p >>= f) later Q := by
  have := feeds_bind hp hf
  rwa [List.nil_append] at this

theorem feeds_then_silent {f : α → Hash β} (hp : Feeds p bytes P) (hf : ∀ a, P a → Feeds (f a) [] Q) :
    Feeds (p >>= f) bytes Q := by
  have := feeds_bind hp hf
  rwa [List.append_nil] at this

theorem feeds_pure {a : α} (h : P a) : Feeds (pure a) [] P := by
  intro s b t hrun
  cases hrun
  exact ⟨(List.append_nil _).symm, h⟩

theorem feeds_fail (fault : Fault) : Feeds (.fail fault : Hash α) bytes P := by
  intro s a t hrun
  cases hrun

theorem feeds_ofExcept {r : Except Fault α} (h : ∀ a, r = .ok a → P a) : Feeds (.ofExcept r) [] P := by
  cases r with
  | ok a => exact feeds_pure (h a rfl)
  | error fault => exact feeds_fail fault

theorem feeds_feed (bytes : List UInt8) : Feeds (feed bytes) bytes fun _ => True := by
  intro s a t hrun
  cases hrun
  exact ⟨rfl, trivial⟩

theorem feeds_update {f : Hashing → Hashing} (h : ∀ s, (f s).stream = s.stream) :
    Feeds (.update f) [] fun _ => True := by
  intro s a t hrun
  cases hrun
  exact ⟨(h s).trans (List.append_nil _).symm, trivial⟩

theorem feeds_onBudget (f : TreeDigestBudget → TreeDigestBudget × Res Unit) :
    Feeds (onBudget f) [] fun _ => ∃ budget, (f budget).2 = .ok () := by
  intro s a t hrun
  unfold onBudget at hrun
  rw [Prog.run] at hrun
  rw [Prog.run_ofExcept] at hrun
  obtain ⟨hok, rfl⟩ := Prod.mk.inj hrun
  exact ⟨(List.append_nil _).symm, s.budget, hok⟩

theorem feeds_observe (f : Hashing → Except Fault α) : Feeds (.observe f) [] fun _ => True := by
  intro s a t hrun
  obtain ⟨-, rfl⟩ := Prog.run_observe_eq_ok.1 hrun
  exact ⟨(List.append_nil _).symm, trivial⟩

theorem feeds_advance (n : Nat) : Feeds (advance n) [] fun _ => True := by
  intro s a t hrun
  unfold advance at hrun
  rw [Prog.run] at hrun
  split at hrun
  · cases hrun
    exact ⟨(List.append_nil _).symm, trivial⟩
  · cases hrun

/-- A program that is brought to its end in any case, and what is done then. -/
theorem feeds_released (entries : Nat) (h : Feeds p bytes P) :
    Feeds (p.attempt >>= fun result => releaseChildren entries >>= fun _ => .ofExcept result) bytes P := by
  intro s a t hrun
  obtain ⟨r, u, hattempt, hrest⟩ := Prog.run_bind_eq_ok.1 hrun
  rw [Prog.run_attempt_eq] at hattempt
  obtain ⟨_, v, hrelease, hresult⟩ := Prog.run_bind_eq_ok.1 hrest
  cases hrelease
  rw [Prog.run_ofExcept] at hresult
  obtain ⟨rfl, rfl⟩ := Prod.mk.inj hresult
  exact h s a u hattempt

theorem feeds_forM {γ : Type} {l : List γ} {f : γ → Hash PUnit} {encode : γ → List UInt8} {R : γ → Prop}
    (h : ∀ c ∈ l, Feeds (f c) (encode c) fun _ => R c) :
    Feeds (l.forM f) (l.flatMap encode) fun _ => ∀ c ∈ l, R c := by
  induction l with
  | nil => exact feeds_pure fun _ hc => absurd hc List.not_mem_nil
  | cons c l ih =>
    show Feeds (f c >>= fun _ => l.forM f) (encode c ++ l.flatMap encode) _
    refine feeds_bind (h c List.mem_cons_self) fun _ hc => ?_
    refine (ih fun d hd => h d (List.mem_cons_of_mem c hd)).mono fun _ hrest d hd => ?_
    rcases List.mem_cons.1 hd with rfl | hd
    · exact hc
    · exact hrest d hd

end Rules

/-! ## The encoding of a tree -/

/-- The relative name of a child. -/
def relativeTo (parent : List UInt8) (name : OsName) : List UInt8 :=
  if parent = [] then name.bytes else (if parent.getLast? = some 47 then parent else parent ++ [47]) ++ name.bytes

theorem appendRelative_eq_ok {parent path : List UInt8} {name : OsName} (h : appendRelative parent name = .ok path) :
    path = relativeTo parent name ∧ path.length < 2 ^ 63 := by
  unfold appendRelative at h
  unfold relativeTo
  split at h
  · rename_i hnil
    rw [if_pos hnil]
    cases h
    exact ⟨rfl, name.sized⟩
  · rename_i hnil
    rw [if_neg hnil]
    dsimp only at h
    generalize (if parent.getLast? = some 47 then parent else parent ++ [47]) ++ name.bytes = joined at h ⊢
    split at h
    · cases h
      exact ⟨rfl, ‹_›⟩
    · cases h

theorem relativeTo_injective {parent : List UInt8} {a b : OsName} (h : relativeTo parent a = relativeTo parent b) :
    a = b := by
  unfold relativeTo at h
  split at h
  · exact OsName.ext h
  · exact OsName.ext (List.append_cancel_left h)

/-- The bytes that the hash is fed with for a tree. -/
def encodeNode : Node → List UInt8 → List UInt8
  | .file identity metadata content _, relative =>
    bytesField relative ++ ([1] ++ (identityField identity ++ (stableMetadataField metadata.hashed ++ content)))
  | .directory identity metadata names _ child, relative =>
    bytesField relative ++ ([2] ++ (identityField identity ++ (stableMetadataField metadata.hashed ++
      (leBytes 8 (sortNames names).length ++
        (sortNames names).flatMap fun name => encodeNode (child name) (relativeTo relative name)))))
  | .symlink identity metadata target _, relative =>
    bytesField relative ++ ([3] ++ (identityField identity ++ (stableMetadataField metadata.hashed ++ bytesField target)))
  | .other _ _, relative => bytesField relative

/-- A tree of files, directories and links whose relative names and numbers of children are numbers of the machine. -/
def Node.Fits : Node → List UInt8 → Prop
  | .file _ _ _ _, relative => relative.length < 2 ^ 63
  | .directory _ _ names _ child, relative =>
    relative.length < 2 ^ 63 ∧ names.length < 2 ^ 64 ∧ ∀ name ∈ names, (child name).Fits (relativeTo relative name)
  | .symlink _ _ _ _, relative => relative.length < 2 ^ 63
  | .other _ _, _ => False

theorem sortNames_perm (names : List OsName) : (sortNames names).Perm names := List.perm_insertionSort _ _

theorem mem_sortNames {names : List OsName} {name : OsName} : name ∈ sortNames names ↔ name ∈ names :=
  (sortNames_perm names).mem_iff

theorem sortNames_sorted (names : List OsName) : (sortNames names).Pairwise fun a b => a.bytes ≤ b.bytes := by
  have : Std.Total fun a b : OsName => a.bytes ≤ b.bytes := ⟨fun a b => List.le_total a.bytes b.bytes⟩
  have : IsTrans OsName fun a b => a.bytes ≤ b.bytes := ⟨fun _ _ _ hab hbc => List.le_trans hab hbc⟩
  exact List.pairwise_insertionSort _ names

/-- However a directory is listed, its names are sorted alike. -/
theorem sortNames_congr {names names' : List OsName} (h : names.Perm names') : sortNames names = sortNames names' := by
  refine List.Perm.eq_of_pairwise (fun a b _ _ hab hba => OsName.ext (List.le_antisymm hab hba)) (sortNames_sorted names)
    (sortNames_sorted names') ?_
  exact (sortNames_perm names).trans (h.trans (sortNames_perm names').symm)

theorem feeds_enterEntry (relative : List UInt8) (depth : Nat) :
    Feeds (enterEntry relative depth) (bytesField relative) fun _ => True := by
  unfold enterEntry
  split
  · exact feeds_fail _
  · refine feeds_silent (feeds_onBudget _) fun _ _ => feeds_silent (feeds_update fun s => rfl) fun _ _ => ?_
    exact feeds_feed _

theorem feeds_collectChildren (capacity : Nat) (children names : List OsName) :
    Feeds (collectChildren capacity children names) [] fun collected => collected = children ++ names := by
  induction names generalizing children with
  | nil => exact feeds_pure (List.append_nil children).symm
  | cons name rest ih =>
    unfold collectChildren
    split
    · intro s a t hrun
      cases hrun
    · refine feeds_silent (feeds_update fun s => rfl) fun _ _ => (ih (children ++ [name])).mono fun collected h => ?_
      rw [h, List.append_assoc]
      rfl

/-- A pass over a tree that ends well has fed the hash with the encoding of the tree. -/
theorem feeds_hashEntry (listing : Enumeration) (node : Node) {path : List OsName} {relative : List UInt8} {depth : Nat}
    (hrelative : relative.length < 2 ^ 63) :
    Feeds (hashEntry listing node path relative depth) (encodeNode node relative) fun _ => node.Fits relative := by
  induction node generalizing path relative depth with
  | file identity metadata content sized =>
    unfold hashEntry encodeNode
    refine feeds_bind (feeds_enterEntry _ _) fun _ _ => feeds_bind (feeds_feed _) fun _ _ => ?_
    refine feeds_bind (feeds_feed _) fun _ _ => feeds_bind (feeds_feed _) fun _ _ => ?_
    refine feeds_then_silent (feeds_feed _) fun _ _ => (feeds_advance _).mono fun _ _ => ?_
    exact hrelative
  | symlink identity metadata target sized =>
    unfold hashEntry encodeNode
    refine feeds_bind (feeds_enterEntry _ _) fun _ _ => feeds_bind (feeds_feed _) fun _ _ => ?_
    refine feeds_bind (feeds_feed _) fun _ _ => feeds_bind (feeds_feed _) fun _ _ => ?_
    exact (feeds_feed _).mono fun _ _ => hrelative
  | other identity metadata =>
    unfold hashEntry
    intro s a t hrun
    obtain ⟨-, u, -, hfail⟩ := Prog.run_bind_eq_ok.1 hrun
    cases hfail
  | directory identity metadata names distinct child ih =>
    unfold hashEntry encodeNode
    refine feeds_bind (feeds_enterEntry _ _) fun _ _ => feeds_bind (feeds_feed _) fun _ _ => ?_
    refine feeds_bind (feeds_feed _) fun _ _ => feeds_bind (feeds_feed _) fun _ _ => ?_
    refine feeds_silent (feeds_observe _) fun capacity _ => ?_
    refine feeds_silent (feeds_collectChildren capacity [] _) fun children hchildren => ?_
    have hperm : children.Perm names := by
      rw [hchildren]
      exact listing.perm path false names
    refine feeds_silent (feeds_onBudget _) fun _ hreserved => ?_
    have hlength : names.length < 2 ^ 64 := by
      obtain ⟨budget, hok⟩ := hreserved
      have hle := hperm.length_eq
      unfold TreeDigestBudget.reservePending at hok
      split at hok
      · cases hok
      · unfold usizeMax at *
        omega
    dsimp only
    rw [sortNames_congr hperm]
    refine feeds_released children.length ?_
    refine feeds_bind (feeds_feed _) fun _ _ => ?_
    have hbody : ∀ name ∈ sortNames names, Feeds (do
        let childRelative ← .ofExcept (appendRelative relative name)
        hashEntry listing (child name) (path ++ [name]) childRelative (depth + 1))
        (encodeNode (child name) (relativeTo relative name)) fun _ => (child name).Fits (relativeTo relative name) := by
      intro name _
      refine feeds_silent (feeds_ofExcept fun path' hpath => appendRelative_eq_ok hpath) fun path' ⟨hpath, hlt⟩ => ?_
      subst hpath
      exact ih name hlt
    refine feeds_then_silent (feeds_forM hbody) fun _ hfits => ?_
    refine feeds_ofExcept fun _ _ => ⟨hrelative, hlength, fun name hname => hfits name (mem_sortNames.2 hname)⟩

/-! ## What the encoding tells -/

/-- What is to be told of an entry: its kind, its identity, what is hashed of its metadata, and the contents of a file or the
target of a link. -/
structure View where
  entryType : DirectoryMemberType
  identity : PathIdentity
  metadata : HashedMetadata
  data : List UInt8
deriving DecidableEq

def Node.view : Node → View
  | .file identity metadata content _ => ⟨.file, identity, metadata.hashed, content⟩
  | .directory identity metadata _ _ _ => ⟨.directory, identity, metadata.hashed, []⟩
  | .symlink identity metadata target _ => ⟨.symlink, identity, metadata.hashed, target⟩
  | .other identity metadata => ⟨.other, identity, metadata.hashed, []⟩

/-- The entry at a relative path, if there is one. -/
def Node.viewAt (node : Node) : List OsName → Option View
  | [] => some node.view
  | name :: rest =>
    match node with
    | .directory _ _ names _ child => if name ∈ names then (child name).viewAt rest else none
    | _ => none

theorem delimited_identityField : Delimited (fun _ => True) identityField := by
  rintro ⟨afilesystem, aentry⟩ ⟨bfilesystem, bentry⟩ x y _ _ heq
  rw [identityField, identityField, List.append_assoc, List.append_assoc] at heq
  obtain ⟨hfilesystem, hrest⟩ := delimited_leBytes 8 _ _ _ _ afilesystem.toNat_lt bfilesystem.toNat_lt heq
  obtain ⟨hentry, hxy⟩ := delimited_leBytes 8 _ _ _ _ aentry.toNat_lt bentry.toNat_lt hrest
  exact ⟨PathIdentity.mk.injEq .. ▸ ⟨UInt64.toNat_inj.1 hfilesystem, UInt64.toNat_inj.1 hentry⟩, hxy⟩

theorem delimited_stableMetadataField : Delimited (fun _ => True) stableMetadataField := by
  rintro ⟨alen, areadonly, amodified, amode⟩ ⟨blen, breadonly, bmodified, bmode⟩ x y _ _ heq
  simp only [stableMetadataField, List.append_assoc] at heq
  obtain ⟨hlen, hreadonly⟩ := delimited_leBytes 8 _ _ _ _ alen.toNat_lt blen.toNat_lt heq
  obtain ⟨rfl, hmodified⟩ := Core.delimited_boolField _ _ _ _ trivial trivial hreadonly
  obtain ⟨rfl, hmode⟩ := delimited_systemTimeField _ _ _ _ trivial trivial hmodified
  obtain ⟨hmode, hxy⟩ := delimited_leBytes 4 _ _ _ _ amode.toNat_lt bmode.toNat_lt hmode
  rw [UInt64.toNat_inj] at hlen
  rw [UInt32.toNat_inj] at hmode
  subst hlen hmode
  exact ⟨rfl, hxy⟩

/-- What comes first at every entry tells its relative name and its kind. -/
theorem entry_head {r r' rest rest' : List UInt8} {tag tag' : UInt8} (hr : r.length < 2 ^ 63) (hr' : r'.length < 2 ^ 63)
    (heq : bytesField r ++ ([tag] ++ rest) = bytesField r' ++ ([tag'] ++ rest')) : r = r' ∧ tag = tag' ∧ rest = rest' := by
  obtain ⟨hname, htail⟩ := delimited_bytesField r r' _ _ (by omega) (by omega) heq
  obtain ⟨htag, hrest⟩ := List.cons.inj htail
  exact ⟨hname, htag, hrest⟩

/-- The children of two directories are told apart one by one. -/
theorem children_delimited {child child' : OsName → Node} {relative : List UInt8} {names names' : List OsName}
    {x y : List UInt8} (hchild : ∀ name ∈ names, ∀ (b : Node) (r r' x y : List UInt8), (child name).Fits r → b.Fits r' →
      encodeNode (child name) r ++ x = encodeNode b r' ++ y → r = r' ∧ (∀ path, (child name).viewAt path = b.viewAt path) ∧ x = y)
    (hlength : names.length = names'.length) (hfits : ∀ name ∈ names, (child name).Fits (relativeTo relative name))
    (hfits' : ∀ name ∈ names', (child' name).Fits (relativeTo relative name))
    (heq : (names.flatMap fun name => encodeNode (child name) (relativeTo relative name)) ++ x =
      (names'.flatMap fun name => encodeNode (child' name) (relativeTo relative name)) ++ y) :
    names = names' ∧ (∀ name ∈ names, ∀ path, (child name).viewAt path = (child' name).viewAt path) ∧ x = y := by
  induction names generalizing names' with
  | nil =>
    cases names' with
    | nil => exact ⟨rfl, fun _ h => absurd h List.not_mem_nil, heq⟩
    | cons name' names' => cases hlength
  | cons name names ih =>
    cases names' with
    | nil => cases hlength
    | cons name' names' =>
      rw [List.flatMap_cons, List.flatMap_cons, List.append_assoc, List.append_assoc] at heq
      obtain ⟨hrelative, hviews, hrest⟩ := hchild name List.mem_cons_self _ _ _ _ _ (hfits name List.mem_cons_self)
        (hfits' name' List.mem_cons_self) heq
      have hname := relativeTo_injective hrelative
      subst hname
      obtain ⟨rfl, hlater, hxy⟩ := ih (fun n hn => hchild n (List.mem_cons_of_mem _ hn)) (Nat.succ.inj hlength)
        (fun n hn => hfits n (List.mem_cons_of_mem _ hn)) (fun n hn => hfits' n (List.mem_cons_of_mem _ hn)) hrest
      refine ⟨rfl, fun n hn path => ?_, hxy⟩
      rcases List.mem_cons.1 hn with rfl | hn
      · exact hviews path
      · exact hlater n hn path

/-- The encoding of a tree tells its relative name, and what there is at each path in it. -/
theorem encodeNode_delimited (a b : Node) (r r' x y : List UInt8) (ha : a.Fits r) (hb : b.Fits r')
    (heq : encodeNode a r ++ x = encodeNode b r' ++ y) :
    r = r' ∧ (∀ path, a.viewAt path = b.viewAt path) ∧ x = y := by
  induction a generalizing b r r' x y with
  | other identity metadata => exact absurd ha id
  | file identity metadata content sized =>
    cases b with
    | other identity' metadata' => exact absurd hb id
    | file identity' metadata' content' sized' =>
      simp only [encodeNode, List.append_assoc] at heq
      obtain ⟨rfl, -, hidentity⟩ := entry_head ha hb heq
      obtain ⟨rfl, hmetadata⟩ := delimited_identityField _ _ _ _ trivial trivial hidentity
      obtain ⟨hhashed, hcontent⟩ := delimited_stableMetadataField _ _ _ _ trivial trivial hmetadata
      have hlength : content.length = content'.length := by rw [← sized, ← sized', hhashed]
      obtain ⟨rfl, hxy⟩ := List.append_inj hcontent hlength
      refine ⟨rfl, fun path => ?_, hxy⟩
      cases path with
      | nil => exact congrArg (fun hashed => some (View.mk .file identity hashed content)) hhashed
      | cons name rest => rfl
    | directory identity' metadata' names distinct child =>
      simp only [encodeNode, List.append_assoc] at heq
      exact absurd (entry_head ha hb.1 heq).2.1 (by decide)
    | symlink identity' metadata' target sized' =>
      simp only [encodeNode, List.append_assoc] at heq
      exact absurd (entry_head ha hb heq).2.1 (by decide)
  | symlink identity metadata target sized =>
    cases b with
    | other identity' metadata' => exact absurd hb id
    | symlink identity' metadata' target' sized' =>
      simp only [encodeNode, List.append_assoc] at heq
      obtain ⟨rfl, -, hidentity⟩ := entry_head ha hb heq
      obtain ⟨rfl, hmetadata⟩ := delimited_identityField _ _ _ _ trivial trivial hidentity
      obtain ⟨hhashed, htarget⟩ := delimited_stableMetadataField _ _ _ _ trivial trivial hmetadata
      obtain ⟨rfl, hxy⟩ := delimited_bytesField _ _ _ _ (by omega) (by omega) htarget
      refine ⟨rfl, fun path => ?_, hxy⟩
      cases path with
      | nil => exact congrArg (fun hashed => some (View.mk .symlink identity hashed target)) hhashed
      | cons name rest => rfl
    | file identity' metadata' content sized' =>
      simp only [encodeNode, List.append_assoc] at heq
      exact absurd (entry_head ha hb heq).2.1 (by decide)
    | directory identity' metadata' names distinct child =>
      simp only [encodeNode, List.append_assoc] at heq
      exact absurd (entry_head ha hb.1 heq).2.1 (by decide)
  | directory identity metadata names distinct child ih =>
    cases b with
    | other identity' metadata' => exact absurd hb id
    | directory identity' metadata' names' distinct' child' =>
      simp only [encodeNode, List.append_assoc] at heq
      obtain ⟨hr, hcount, hfits⟩ := ha
      obtain ⟨hr', hcount', hfits'⟩ := hb
      obtain ⟨rfl, -, hidentity⟩ := entry_head hr hr' heq
      obtain ⟨rfl, hmetadata⟩ := delimited_identityField _ _ _ _ trivial trivial hidentity
      obtain ⟨hhashed, hchildren⟩ := delimited_stableMetadataField _ _ _ _ trivial trivial hmetadata
      obtain ⟨hlength, hstreams⟩ := delimited_leBytes 8 _ _ _ _ (by rw [(sortNames_perm names).length_eq]; omega)
        (by rw [(sortNames_perm names').length_eq]; omega) hchildren
      obtain ⟨hnames, hviews, hxy⟩ := children_delimited (fun name _ => ih name) hlength
        (fun name hname => hfits name (mem_sortNames.1 hname)) (fun name hname => hfits' name (mem_sortNames.1 hname)) hstreams
      refine ⟨rfl, fun path => ?_, hxy⟩
      cases path with
      | nil => exact congrArg (fun hashed => some (View.mk .directory identity hashed [])) hhashed
      | cons name rest =>
        have hmem : name ∈ names ↔ name ∈ names' := by rw [← mem_sortNames, hnames, mem_sortNames]
        show (if name ∈ names then (child name).viewAt rest else none) =
          if name ∈ names' then (child' name).viewAt rest else none
        by_cases hname : name ∈ names
        · rw [if_pos hname, if_pos (hmem.1 hname)]
          exact hviews name (mem_sortNames.2 hname) rest
        · rw [if_neg hname, if_neg fun h => hname (hmem.2 h)]
    | file identity' metadata' content sized' =>
      simp only [encodeNode, List.append_assoc] at heq
      exact absurd (entry_head ha.1 hb heq).2.1 (by decide)
    | symlink identity' metadata' target sized' =>
      simp only [encodeNode, List.append_assoc] at heq
      exact absurd (entry_head ha.1 hb heq).2.1 (by decide)

/-! ## The order of listings -/

theorem name_directoryMemberState (name : OsName) (node : Node) : (directoryMemberState name node).name = name := by
  cases node <;> rfl

section Observed

variable {state : OsName → DirectoryMemberState} {sorted : List OsName}

/-- A member that is seen for the first time. -/
theorem observeMember_eq (hname : ∀ name, (state name).name = name) (hdistinct : sorted.Nodup) {done : List OsName}
    {name : OsName} (hmem : name ∈ sorted) (hnew : name ∉ done) :
    observeMember (sorted.map state) (sorted.map fun n => decide (n ∈ done)) (state name) =
      .ok (sorted.map fun n => decide (n ∈ done ++ [name])) := by
  have hfind : ∃ i, ∃ hi : i < sorted.length, sorted[i] = name ∧
      (sorted.map state).findIdx? (fun expected => expected.name = (state name).name) = some i := by
    rw [List.findIdx?_map]
    cases h : sorted.findIdx? ((fun expected => decide (expected.name = (state name).name)) ∘ state) with
    | none =>
      rw [List.findIdx?_eq_none_iff] at h
      exact absurd (h name hmem) (by simp)
    | some i =>
      obtain ⟨hi, hat, -⟩ := List.findIdx?_eq_some_iff_getElem.1 h
      refine ⟨i, hi, ?_, rfl⟩
      simpa [hname] using hat
  obtain ⟨i, hi, hat, hfind⟩ := hfind
  unfold observeMember
  rw [hfind]
  dsimp only
  rw [if_neg]
  · congr 1
    apply List.ext_getElem
    · rw [List.length_set, List.length_map, List.length_map]
    · intro j hj hj'
      rw [List.length_set, List.length_map] at hj
      rw [List.getElem_set, List.getElem_map, List.getElem_map]
      by_cases hij : i = j
      · subst hij
        rw [if_pos rfl, hat]
        simp
      · rw [if_neg hij]
        have hne : sorted[j] ≠ name := by
          intro heq
          exact hij ((List.Nodup.getElem_inj_iff hdistinct).1 (hat.trans heq.symm))
        simp [hne]
  · rw [List.getElem?_map, List.getElem?_map, List.getElem?_eq_getElem hi, hat]
    simpa using hnew

theorem foldlM_observeMember (hname : ∀ name, (state name).name = name) (hdistinct : sorted.Nodup)
    {done rest : List OsName} (hrest : (done ++ rest).Nodup) (hmem : ∀ name ∈ rest, name ∈ sorted) :
    (rest.map state).foldlM (observeMember (sorted.map state)) (sorted.map fun n => decide (n ∈ done)) =
      .ok (sorted.map fun n => decide (n ∈ done ++ rest)) := by
  induction rest generalizing done with
  | nil =>
    rw [List.append_nil]
    rfl
  | cons name rest ih =>
    have hnew : name ∉ done := fun h =>
      (List.nodup_append.1 hrest).2.2 name h name List.mem_cons_self rfl
    rw [List.map_cons, List.foldlM_cons, observeMember_eq hname hdistinct (hmem name List.mem_cons_self) hnew, ok_bind,
      ih (by rw [List.append_assoc]; exact hrest) fun n hn => hmem n (List.mem_cons_of_mem _ hn), List.append_assoc]
    rfl

/-- The second listing of a directory that nobody changes finds the members of the first one. -/
theorem observeMembers_eq (hname : ∀ name, (state name).name = name) (hdistinct : sorted.Nodup) {again : List OsName}
    (hperm : again.Perm sorted) : observeMembers (sorted.map state) (again.map state) = .ok () := by
  have hstart : List.replicate (sorted.map state).length false = sorted.map fun n => decide (n ∈ ([] : List OsName)) := by
    simp [List.map_const']
  have hnodup : ([] ++ again).Nodup := hperm.nodup_iff.2 hdistinct
  unfold observeMembers
  rw [hstart, foldlM_observeMember hname hdistinct hnodup fun n hn => hperm.mem_iff.1 hn, ok_bind, if_neg]
  · rfl
  · rw [List.any_map, List.any_eq_true]
    rintro ⟨n, hn, hnot⟩
    simp [hperm.mem_iff.2 hn] at hnot

end Observed

/-- The first listing of a directory holds all its names, or more of them than there is room for. -/
theorem run_collectChildren (capacity : Nat) (children names : List OsName) (s : Hashing) (hheld : children.length ≤ s.held)
    (hcapacity : children.length ≤ capacity) :
    (collectChildren capacity children names).run s =
      if children.length + names.length ≤ capacity then
        (.ok (children ++ names), { s with held := s.held + names.length })
      else (.error (.raised s.budget.limitError), { s with held := s.held - children.length }) := by
  induction names generalizing children s with
  | nil =>
    rw [List.length_nil, Nat.add_zero, Nat.add_zero, if_pos hcapacity, List.append_nil]
    rfl
  | cons name rest ih =>
    unfold collectChildren
    by_cases hfull : capacity ≤ children.length
    · rw [if_pos hfull, if_neg (by rw [List.length_cons]; omega)]
      rfl
    · rw [if_neg hfull, Prog.run_bind, Prog.run_update]
      dsimp only
      rw [ih (children ++ [name]) { s with held := s.held + 1 } (by rw [List.length_append, List.length_singleton]; dsimp only; omega)
        (by rw [List.length_append, List.length_singleton]; omega)]
      rw [List.length_append, List.length_singleton, List.length_cons, List.append_assoc]
      dsimp only [TreeDigestBudget.limitError, List.singleton_append]
      rw [show children.length + 1 + rest.length = children.length + (rest.length + 1) by omega,
        show s.held + 1 + rest.length = s.held + (rest.length + 1) by omega,
        show s.held + 1 - (children.length + 1) = s.held - children.length by omega]

/-- Programs that do the same from every state. -/
def SameRuns {α : Type} (p q : Hash α) : Prop := ∀ s, p.run s = q.run s

section SameRuns

variable {α β : Type} {p q : Hash α} {f g : α → Hash β}

theorem SameRuns.refl (p : Hash α) : SameRuns p p := fun _ => rfl

theorem SameRuns.bind (hp : SameRuns p q) (hf : ∀ a, SameRuns (f a) (g a)) : SameRuns (p >>= f) (q >>= g) := by
  intro s
  rw [Prog.run_bind, Prog.run_bind, hp s]
  rcases q.run s with ⟨e | a, t⟩
  · rfl
  · exact hf a t

theorem SameRuns.attempt (hp : SameRuns p q) : SameRuns p.attempt q.attempt := by
  intro s
  rw [Prog.run_attempt, Prog.run_attempt, hp s]

theorem sameRuns_forM {l : List α} {f g : α → Hash PUnit} (h : ∀ a ∈ l, SameRuns (f a) (g a)) :
    SameRuns (l.forM f) (l.forM g) := by
  induction l with
  | nil => exact .refl _
  | cons a l ih => exact (h a List.mem_cons_self).bind fun _ => ih fun b hb => h b (List.mem_cons_of_mem a hb)

/-- A directory that is listed in another order. -/
theorem sameRuns_collectChildren {capacity : Nat} {l l' : List OsName} {k k' : List OsName → Hash α} (hperm : l.Perm l')
    (hk : SameRuns (k l) (k' l')) :
    SameRuns (collectChildren capacity [] l >>= k) (collectChildren capacity [] l' >>= k') := by
  intro s
  rw [Prog.run_bind, Prog.run_bind, run_collectChildren _ _ _ _ (Nat.zero_le _) (Nat.zero_le _),
    run_collectChildren _ _ _ _ (Nat.zero_le _) (Nat.zero_le _), hperm.length_eq]
  by_cases hroom : ([] : List OsName).length + l'.length ≤ capacity
  · rw [if_pos hroom, if_pos hroom]
    exact hk _
  · rw [if_neg hroom, if_neg hroom]

end SameRuns

/-- The order in which directories are listed makes no difference to a pass. -/
theorem sameRuns_hashEntry (listing listing' : Enumeration) (node : Node) (path : List OsName) (relative : List UInt8)
    (depth : Nat) : SameRuns (hashEntry listing node path relative depth) (hashEntry listing' node path relative depth) := by
  induction node generalizing path relative depth with
  | file identity metadata content sized => exact .refl _
  | symlink identity metadata target sized => exact .refl _
  | other identity metadata => exact .refl _
  | directory identity metadata names distinct child ih =>
    have hlisted : (listing.list path false names).Perm (listing'.list path false names) :=
      (listing.perm path false names).trans (listing'.perm path false names).symm
    have hobserved : ∀ listing : Enumeration, observeMembers
        ((sortNames (listing'.list path false names)).map fun name => directoryMemberState name (child name))
        ((listing.list path true names).map fun name => directoryMemberState name (child name)) = .ok () := by
      intro listing
      have hperm : (listing.list path true names).Perm (sortNames (listing'.list path false names)) :=
        (listing.perm path true names).trans ((listing'.perm path false names).symm.trans (sortNames_perm _).symm)
      refine observeMembers_eq (fun name => name_directoryMemberState name (child name)) ?_ hperm
      exact hperm.nodup_iff.1 ((listing.perm path true names).nodup_iff.2 distinct)
    unfold hashEntry
    refine (SameRuns.refl _).bind fun _ => (SameRuns.refl _).bind fun _ => (SameRuns.refl _).bind fun _ => ?_
    refine (SameRuns.refl _).bind fun _ => (SameRuns.refl _).bind fun capacity => sameRuns_collectChildren hlisted ?_
    dsimp only
    rw [hlisted.length_eq, sortNames_congr hlisted, hobserved listing, hobserved listing']
    refine (SameRuns.refl _).bind fun _ => SameRuns.bind ?_ fun _ => .refl _
    refine ((SameRuns.refl _).bind fun _ => SameRuns.bind ?_ fun _ => .refl _).attempt
    exact sameRuns_forM fun name _ => (SameRuns.refl _).bind fun path' => ih name _ _ _

end Squallz.Destination
