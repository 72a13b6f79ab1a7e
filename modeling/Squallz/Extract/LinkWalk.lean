/-
Resolving a link against the walk along the links of an archive: positions are lists of component names, a hop leads from
a link to the position that its target names from the link's own directory, and a walk comes to no position twice.
-/
import Squallz.Extract.Links

namespace Squallz.Extract

open Squallz.Api Squallz.Text

/-! ## Positions -/

/-- A place in the archive: the names of the components that lead there from the root. -/
abbrev Position := List (List UInt8)

/-- The position that a relative path leads to; there is none above the root. -/
def descend (position : Position) (path : List UInt8) : Option Position :=
  (path.splitOnP isSeparatorByte).foldlM pushComponent position

def isAbsolute (path : List UInt8) : Bool := path.head?.any isSeparatorByte

/-- The position that a path names from the root, the root itself apart. -/
def positionOf (path : List UInt8) : Option Position :=
  if path = [] ∨ isAbsolute path = true then none else (descend [] path).filter (· ≠ [])

/-- The position that a link leads to: a symbolic link names it from its own directory, a hard link from the root. -/
def destination (position : Position) : EntryType → Option Position
  | .symlink target =>
    if target = [] ∨ isAbsolute target = true then none else (descend position.dropLast target).filter (· ≠ [])
  | .hardlink target => positionOf target
  | _ => none

/-- The entry at a position: the last one of them. -/
def entryAt (metas : List EntryMeta) (position : Position) : Option EntryMeta :=
  metas.reverse.find? fun entry => positionOf entry.path.raw = some position

def isLink : EntryType → Bool
  | .symlink _ | .hardlink _ => true
  | _ => false

/-! ## Walks along links -/

/-- The links from one position to another, with the positions that are left on the way. -/
inductive Trail (metas : List EntryMeta) : Position → EntryType → List Position → Position → EntryType → Prop
  | here (position : Position) (kind : EntryType) : Trail metas position kind [] position kind
  | hop {position next last : Position} {kind kind' : EntryType} {entry : EntryMeta} {passed : List Position}
      (hnext : destination position kind = some next) (hentry : entryAt metas next = some entry)
      (hlink : isLink entry.entryType = true) (h : Trail metas next entry.entryType passed last kind') :
      Trail metas position kind (position :: passed) last kind'

/-- A file that is reached within a number of hops, over different positions. -/
structure Reaches (metas : List EntryMeta) (limit : Nat) (position : Position) (kind : EntryType) (file : EntryMeta) :
    Prop where
  walk : ∃ passed last kind' next, Trail metas position kind passed last kind' ∧ (passed ++ [last]).Nodup ∧
    passed.length < limit ∧ destination last kind' = some next ∧ entryAt metas next = some file
  isFile : file.entryType = .file

/-- What stops a walk at a link. -/
inductive Stops (metas : List EntryMeta) (limit : Nat) (passed : List Position) (last : Position) (kind : EntryType) :
    Prop
  /-- The target is empty or absolute, names the root, or leads above it. -/
  | leaves (h : destination last kind = none)
  | dangles {next : Position} (hnext : destination last kind = some next) (h : entryAt metas next = none)
  | notFile {next : Position} {entry : EntryMeta} (hnext : destination last kind = some next)
      (hentry : entryAt metas next = some entry) (hfile : entry.entryType ≠ .file) (hlink : isLink entry.entryType = false)
  | cycles {next : Position} {entry : EntryMeta} (hnext : destination last kind = some next)
      (hentry : entryAt metas next = some entry) (hlink : isLink entry.entryType = true) (h : next ∈ passed ++ [last])
  | tooLong {next : Position} {entry : EntryMeta} (hnext : destination last kind = some next)
      (hentry : entryAt metas next = some entry) (hlink : isLink entry.entryType = true) (h : passed.length + 1 = limit)

/-- Some hop of the walk comes to nothing. -/
def Blocked (metas : List EntryMeta) (limit : Nat) (position : Position) (kind : EntryType) : Prop :=
  ∃ passed last kind', Trail metas position kind passed last kind' ∧ (passed ++ [last]).Nodup ∧
    passed.length < limit ∧ Stops metas limit passed last kind'

/-! ## Components and bytes -/

/-- A component that stands in a position. -/
structure Named (part : List UInt8) : Prop where
  ne_nil : part ≠ []
  ne_dot : part ≠ [dotByte]
  ne_parent : part ≠ [dotByte, dotByte]
  whole : ∀ b ∈ part, isSeparatorByte b = false

def Proper (position : Position) : Prop := ∀ part ∈ position, Named part

theorem Proper.dropLast {position : Position} (h : Proper position) : Proper position.dropLast :=
  fun part hpart => h part ((List.dropLast_sublist position).subset hpart)

theorem pushComponent_of_named {parts : Position} {part : List UInt8} (h : Named part) :
    pushComponent parts part = some (parts ++ [part]) := by
  unfold pushComponent
  rw [if_neg (not_or.2 ⟨h.ne_nil, h.ne_dot⟩), if_neg h.ne_parent]

theorem proper_pushComponent {parts parts' : Position} {part : List UInt8} (hparts : Proper parts)
    (hwhole : ∀ b ∈ part, isSeparatorByte b = false) (h : pushComponent parts part = some parts') : Proper parts' := by
  unfold pushComponent at h
  split at h
  · cases h
    exact hparts
  · rename_i hshown
    obtain ⟨hnil, hdot⟩ := not_or.1 hshown
    split at h
    · split at h
      · cases h
      · cases h
        exact hparts.dropLast
    · rename_i hparent
      cases h
      intro part' hpart'
      rcases List.mem_append.1 hpart' with hpart' | hpart'
      · exact hparts part' hpart'
      · rw [List.mem_singleton] at hpart'
        subst hpart'
        exact ⟨hnil, hdot, hparent, hwhole⟩

/-- From a position one comes to a position. -/
theorem proper_descend {position position' : Position} {path : List UInt8} (hposition : Proper position)
    (h : descend position path = some position') : Proper position' := by
  unfold descend at h
  have hwhole : ∀ piece ∈ path.splitOnP isSeparatorByte, ∀ b ∈ piece, isSeparatorByte b = false :=
    fun piece hpiece b hb => separator_eq_false_of_mem hpiece hb
  generalize path.splitOnP isSeparatorByte = pieces at h hwhole
  induction pieces generalizing position with
  | nil =>
    cases h
    exact hposition
  | cons piece pieces ih =>
    rw [List.foldlM_cons] at h
    obtain ⟨parts, hparts, h⟩ := Option.bind_eq_some_iff.1 h
    exact ih (proper_pushComponent hposition (hwhole piece List.mem_cons_self) hparts) h fun other hother =>
      hwhole other (List.mem_cons_of_mem _ hother)

theorem proper_nil : Proper [] := fun _ h => absurd h List.not_mem_nil

theorem foldlM_pushComponent {parts parts' : Position} (h : Proper parts') :
    parts'.foldlM pushComponent parts = some (parts ++ parts') := by
  induction parts' generalizing parts with
  | nil => rw [List.append_nil]; rfl
  | cons part parts' ih =>
    rw [List.foldlM_cons, pushComponent_of_named (h part List.mem_cons_self)]
    show parts'.foldlM pushComponent (parts ++ [part]) = _
    rw [ih fun other hother => h other (List.mem_cons_of_mem _ hother), List.append_assoc, List.singleton_append]

theorem joinRaw_cons (part : List UInt8) {rest : Position} (h : rest ≠ []) :
    joinRaw (part :: rest) = part ++ slash :: joinRaw rest := by
  cases rest with
  | nil => exact absurd rfl h
  | cons other rest => rfl

theorem splitOnP_joinRaw_append {position : Position} (h : Proper position) (hne : position ≠ []) (rest : List UInt8) :
    (joinRaw position ++ slash :: rest).splitOnP isSeparatorByte = position ++ rest.splitOnP isSeparatorByte := by
  induction position with
  | nil => exact absurd rfl hne
  | cons part position ih =>
    have hpart := (h part List.mem_cons_self).whole
    by_cases hnil : position = []
    · subst hnil
      exact List.splitOnP_append_cons_of_forall_mem hpart slash rfl rest
    · rw [joinRaw_cons part hnil, List.append_assoc, List.cons_append,
        List.splitOnP_append_cons_of_forall_mem hpart slash rfl,
        ih (fun other hother => h other (List.mem_cons_of_mem _ hother)) hnil]
      rfl

theorem splitOnP_joinRaw {position : Position} (h : Proper position) (hne : position ≠ []) :
    (joinRaw position).splitOnP isSeparatorByte = position := by
  induction position with
  | nil => exact absurd rfl hne
  | cons part position ih =>
    have hpart := (h part List.mem_cons_self).whole
    by_cases hnil : position = []
    · subst hnil
      exact List.splitOnP_eq_singleton hpart
    · rw [joinRaw_cons part hnil, List.splitOnP_append_cons_of_forall_mem hpart slash rfl,
        ih (fun other hother => h other (List.mem_cons_of_mem _ hother)) hnil]

theorem joinRaw_ne_nil {position : Position} (h : Proper position) (hne : position ≠ []) : joinRaw position ≠ [] := by
  intro hnil
  have hsplit := splitOnP_joinRaw h hne
  rw [hnil, List.splitOnP_nil] at hsplit
  subst hsplit
  exact (h [] List.mem_cons_self).ne_nil rfl

theorem joinRaw_eq_nil_iff {position : Position} (h : Proper position) : joinRaw position = [] ↔ position = [] := by
  constructor
  · intro hnil
    by_contra hne
    exact joinRaw_ne_nil h hne hnil
  · rintro rfl
    rfl

theorem joinRaw_inj {position position' : Position} (h : Proper position) (h' : Proper position')
    (heq : joinRaw position = joinRaw position') : position = position' := by
  by_cases hnil : position = []
  · subst hnil
    exact ((joinRaw_eq_nil_iff h').1 heq.symm).symm
  · have hnil' : position' ≠ [] := fun he => hnil ((joinRaw_eq_nil_iff h).1 (by rw [heq, he]; rfl))
    rw [← splitOnP_joinRaw h hnil, heq, splitOnP_joinRaw h' hnil']

/-- Bytes that begin like a component do not begin with a separator. -/
theorem isAbsolute_joinRaw_append {position : Position} (h : Proper position) (hne : position ≠ []) (rest : List UInt8) :
    isAbsolute (joinRaw position ++ rest) = false := by
  obtain ⟨part, position, rfl⟩ := List.exists_cons_of_ne_nil hne
  have hpart := h part List.mem_cons_self
  obtain ⟨b, part, rfl⟩ := List.exists_cons_of_ne_nil hpart.ne_nil
  have hb := hpart.whole b List.mem_cons_self
  unfold isAbsolute
  cases position with
  | nil => simpa [joinRaw] using hb
  | cons other position => simpa [joinRaw] using hb

/-! ## The bytes of positions -/

theorem normalizeRaw_eq (path : List UInt8) :
    normalizeRaw path = if isAbsolute path = true then none else (descend [] path).map joinRaw := rfl

theorem filter_map_joinRaw {position : Option Position} (h : ∀ p, position = some p → Proper p) :
    (position.map joinRaw).filter (· ≠ []) = (position.filter (· ≠ [])).map joinRaw := by
  cases position with
  | none => rfl
  | some p =>
    have hiff := joinRaw_eq_nil_iff (h p rfl)
    by_cases hnil : p = []
    · subst hnil
      rfl
    · simp [Option.filter, hiff, hnil]

/-- The normalised bytes of a path are those of its position. -/
theorem normalizeArchivePathRaw_eq (path : List UInt8) :
    normalizeArchivePathRaw path = (positionOf path).map joinRaw := by
  unfold normalizeArchivePathRaw positionOf
  rw [normalizeRaw_eq]
  by_cases hnil : path = []
  · rw [if_pos hnil, if_pos (.inl hnil)]
    rfl
  · rw [if_neg hnil]
    by_cases habs : isAbsolute path = true
    · rw [if_pos habs, if_pos (.inr habs)]
      rfl
    · rw [if_neg habs, if_neg (not_or.2 ⟨hnil, habs⟩)]
      exact filter_map_joinRaw fun p hp => proper_descend proper_nil hp

theorem proper_positionOf {path : List UInt8} {position : Position} (h : positionOf path = some position) :
    Proper position ∧ position ≠ [] := by
  unfold positionOf at h
  split at h
  · cases h
  · obtain ⟨hdescend, hne⟩ := Option.filter_eq_some_iff.1 h
    exact ⟨proper_descend proper_nil hdescend, by simpa using hne⟩

/-- What stands before the last slash of a position's bytes is its directory. -/
theorem parent_joinRaw {position : Position} (h : Proper position) :
    ((rsplitOnce slash (joinRaw position)).map (·.1)).getD [] = joinRaw position.dropLast := by
  rcases List.eq_nil_or_concat position with rfl | ⟨front, last, rfl⟩
  · rfl
  · rw [List.concat_eq_append] at h ⊢
    rw [List.dropLast_concat]
    have hlast : slash ∉ last := fun hmem =>
      absurd ((h last (List.mem_append_right _ List.mem_cons_self)).whole slash hmem) (by decide)
    have hjoin : ∀ {front : Position}, front ≠ [] → joinRaw (front ++ [last]) = joinRaw front ++ slash :: last := by
      intro front hne
      induction front with
      | nil => exact absurd rfl hne
      | cons part front ih =>
        by_cases hnil : front = []
        · subst hnil
          rfl
        · rw [List.cons_append, joinRaw_cons part (by simp), ih hnil, joinRaw_cons part hnil, List.append_assoc,
            List.cons_append]
    by_cases hnil : front = []
    · subst hnil
      rw [List.nil_append]
      show ((rsplitOnce slash last).map (·.1)).getD [] = []
      rw [rsplitOnce_of_not_mem hlast]
      rfl
    · rw [hjoin hnil, rsplitOnce_append hlast]
      rfl

/-- The bytes of a target behind those of a directory lead where the target leads from the directory. -/
theorem resolveTargetPathRaw_eq (linkPath target : List UInt8) : resolveTargetPathRaw linkPath target =
    if target = [] ∨ isAbsolute target = true ∨ isAbsolute linkPath = true then none
    else (descend [] linkPath).bind fun position =>
      ((descend position.dropLast target).filter (· ≠ [])).map joinRaw := by
  unfold resolveTargetPathRaw
  by_cases hnil : target = []
  · rw [if_pos (.inl hnil), if_pos (.inl hnil)]
  · by_cases habs : isAbsolute target = true
    · rw [if_pos (.inr habs), if_pos (.inr (.inl habs))]
    · have hguard : ¬ (target = [] ∨ target.head?.any isSeparatorByte = true) := not_or.2 ⟨hnil, habs⟩
      rw [if_neg hguard, normalizeRaw_eq]
      by_cases hlink : isAbsolute linkPath = true
      · rw [if_pos hlink, if_pos (.inr (.inr hlink))]
      · rw [if_neg hlink, if_neg (not_or.2 ⟨hnil, not_or.2 ⟨habs, hlink⟩⟩)]
        cases hposition : descend [] linkPath with
        | none => rfl
        | some position =>
          have hproper := proper_descend proper_nil hposition
          rw [Option.map_some, Option.bind_some]
          simp only [parent_joinRaw hproper]
          have hjoined : normalizeRaw ((if joinRaw position.dropLast = [] then joinRaw position.dropLast
              else joinRaw position.dropLast ++ [slash]) ++ target) = (descend position.dropLast target).map joinRaw := by
            rw [normalizeRaw_eq]
            by_cases hroot : position.dropLast = []
            · rw [hroot]
              show (if isAbsolute ([] ++ target) = true then _ else _) = _
              rw [List.nil_append, if_neg habs]
              rfl
            · rw [if_neg (joinRaw_ne_nil hproper.dropLast hroot), List.append_assoc, List.singleton_append,
                if_neg (by simp [isAbsolute_joinRaw_append hproper.dropLast hroot])]
              unfold descend
              rw [splitOnP_joinRaw_append hproper.dropLast hroot, List.foldlM_append,
                foldlM_pushComponent hproper.dropLast]
              rfl
          rw [hjoined, filter_map_joinRaw fun p hp => proper_descend hproper.dropLast hp]

theorem descend_joinRaw {position : Position} (h : Proper position) : descend [] (joinRaw position) = some position := by
  by_cases hnil : position = []
  · subst hnil
    rfl
  · unfold descend
    rw [splitOnP_joinRaw h hnil, foldlM_pushComponent h, List.nil_append]

theorem linkTarget_joinRaw {position : Position} (h : Proper position) (kind : EntryType) :
    linkTarget (joinRaw position) kind = (destination position kind).map joinRaw := by
  have habs : isAbsolute (joinRaw position) = false := by
    by_cases hnil : position = []
    · subst hnil
      rfl
    · have := isAbsolute_joinRaw_append h hnil []
      rwa [List.append_nil] at this
  cases kind with
  | symlink target =>
    show resolveTargetPathRaw (joinRaw position) target = _
    rw [resolveTargetPathRaw_eq, habs, descend_joinRaw h]
    simp only [destination, Bool.false_eq_true, or_false]
    by_cases htarget : target = [] ∨ isAbsolute target = true
    · rw [if_pos htarget, if_pos htarget]
      rfl
    · rw [if_neg htarget, if_neg htarget]
      rfl
  | hardlink target => exact normalizeArchivePathRaw_eq target
  | file => rfl
  | dir => rfl
  | other => rfl

theorem byPath_joinRaw {position : Position} (h : Proper position) (metas : List EntryMeta) :
    byPath metas (joinRaw position) = entryAt metas position := by
  unfold byPath entryAt
  congr 1
  funext entry
  rw [normalizeArchivePathRaw_eq, decide_eq_decide]
  cases hentry : positionOf entry.path.raw with
  | none => simp
  | some position' =>
    rw [Option.map_some, Option.some.injEq, Option.some.injEq]
    exact ⟨joinRaw_inj (proper_positionOf hentry).1 h, congrArg joinRaw⟩

theorem proper_destination {position next : Position} {kind : EntryType} (h : Proper position)
    (hnext : destination position kind = some next) : Proper next := by
  unfold destination at hnext
  split at hnext
  · split at hnext
    · cases hnext
    · exact proper_descend h.dropLast (Option.filter_eq_some_iff.1 hnext).1
  · exact (proper_positionOf hnext).1
  · cases hnext

/-! ## Following links -/

section

variable {metas : List EntryMeta}

/-- One turn of the loop, at a position. -/
theorem followLinks_succ {position : Position} (h : Proper position) {visited : List Position}
    (hvisited : ∀ p ∈ visited, Proper p) (hops : Nat) (kind : EntryType) :
    followLinks metas (hops + 1) (visited.map joinRaw) (joinRaw position) kind =
      if position ∈ visited then none
      else (destination position kind).bind fun next => (entryAt metas next).bind fun entry =>
        if entry.entryType = .file then some entry
        else if isLink entry.entryType = true then
          followLinks metas hops ((position :: visited).map joinRaw) (joinRaw next) entry.entryType
        else none := by
  have hmem : joinRaw position ∈ visited.map joinRaw ↔ position ∈ visited := by
    constructor
    · intro hmem
      obtain ⟨p, hp, heq⟩ := List.mem_map.1 hmem
      rwa [← joinRaw_inj (hvisited p hp) h heq]
    · exact List.mem_map_of_mem
  rw [followLinks, linkTarget_joinRaw h]
  by_cases hp : position ∈ visited
  · rw [if_pos (hmem.2 hp), if_pos hp]
  · rw [if_neg (fun he => hp (hmem.1 he)), if_neg hp]
    cases hnext : destination position kind with
    | none => rfl
    | some next =>
      rw [Option.map_some, Option.bind_some]
      simp only [byPath_joinRaw (proper_destination h hnext)]
      cases entryAt metas next with
      | none => rfl
      | some entry =>
        rw [Option.bind_some]
        cases hkind : entry.entryType with
        | file => simp [hkind]
        | symlink target => simp [hkind, isLink]
        | hardlink target => simp [hkind, isLink]
        | dir => simp [hkind, isLink]
        | other => simp [hkind, isLink]

/-- The positions of a walk that is still allowed: they differ, and none has been visited. -/
def Allowed (visited passed : List Position) (last : Position) : Prop :=
  (passed ++ [last]).Nodup ∧ ∀ p ∈ passed ++ [last], p ∉ visited

theorem allowed_nil {visited : List Position} {last : Position} : Allowed visited [] last ↔ last ∉ visited := by
  unfold Allowed
  simp

theorem allowed_cons {visited passed : List Position} {first last : Position} :
    Allowed visited (first :: passed) last ↔ first ∉ visited ∧ Allowed (first :: visited) passed last := by
  unfold Allowed
  rw [List.cons_append, List.nodup_cons]
  constructor
  · rintro ⟨⟨hfirst, hnodup⟩, hall⟩
    refine ⟨hall first List.mem_cons_self, hnodup, fun p hp hmem => ?_⟩
    rcases List.mem_cons.1 hmem with rfl | hmem
    · exact hfirst hp
    · exact hall p (List.mem_cons_of_mem _ hp) hmem
  · rintro ⟨hfirst, hnodup, hall⟩
    refine ⟨⟨fun hmem => hall first hmem List.mem_cons_self, hnodup⟩, fun p hp => ?_⟩
    rcases List.mem_cons.1 hp with rfl | hp
    · exact hfirst
    · exact fun hmem => hall p hp (List.mem_cons_of_mem _ hmem)

theorem Trail.first_mem {position last : Position} {kind kind' : EntryType} {passed : List Position}
    (h : Trail metas position kind passed last kind') : position ∈ passed ++ [last] := by
  cases h with
  | here => exact List.mem_cons_self
  | hop => exact List.mem_cons_self

/-- The first link of a trail, and what comes behind it. -/
theorem trail_iff {position last : Position} {kind kind' : EntryType} {passed : List Position} :
    Trail metas position kind passed last kind' ↔
      passed = [] ∧ last = position ∧ kind' = kind ∨
      ∃ rest next entry, passed = position :: rest ∧ destination position kind = some next ∧
        entryAt metas next = some entry ∧ isLink entry.entryType = true ∧
        Trail metas next entry.entryType rest last kind' := by
  constructor
  · intro h
    cases h with
    | here => exact .inl ⟨rfl, rfl, rfl⟩
    | hop hnext hentry hlink h => exact .inr ⟨_, _, _, rfl, hnext, hentry, hlink, h⟩
  · rintro (⟨rfl, rfl, rfl⟩ | ⟨rest, next, entry, rfl, hnext, hentry, hlink, h⟩)
    · exact .here _ _
    · exact .hop hnext hentry hlink h

theorem proper_cons {position : Position} (h : Proper position) {visited : List Position}
    (hvisited : ∀ p ∈ visited, Proper p) : ∀ p ∈ position :: visited, Proper p := by
  intro p hp
  rcases List.mem_cons.1 hp with rfl | hp
  · exact h
  · exact hvisited p hp

/-- What the loop returns is the file at the end of a walk that is still allowed. -/
theorem followLinks_eq_some {hops : Nat} {position : Position} (h : Proper position) {visited : List Position}
    (hvisited : ∀ p ∈ visited, Proper p) {kind : EntryType} {file : EntryMeta} :
    followLinks metas hops (visited.map joinRaw) (joinRaw position) kind = some file ↔
      file.entryType = .file ∧ ∃ passed last kind' next, Trail metas position kind passed last kind' ∧
        Allowed visited passed last ∧ passed.length < hops ∧ destination last kind' = some next ∧
        entryAt metas next = some file := by
  induction hops generalizing position visited kind with
  | zero =>
    constructor
    · rintro ⟨⟩
    · rintro ⟨-, _, _, _, _, -, -, hlt, -⟩
      exact absurd hlt (Nat.not_lt_zero _)
  | succ hops ih =>
    rw [followLinks_succ h hvisited]
    constructor
    · intro hfile
      split at hfile
      · cases hfile
      · rename_i hfresh
        obtain ⟨next, hnext, hfile⟩ := Option.bind_eq_some_iff.1 hfile
        obtain ⟨entry, hentry, hfile⟩ := Option.bind_eq_some_iff.1 hfile
        split at hfile
        · rename_i hkind
          cases hfile
          exact ⟨hkind, [], position, kind, next, .here _ _, allowed_nil.2 hfresh, Nat.succ_pos _, hnext, hentry⟩
        · split at hfile
          · rename_i hlink
            obtain ⟨hkind, passed, last, kind', next', htrail, hallowed, hlt, hnext', hfile⟩ :=
              (ih (proper_destination h hnext) (proper_cons h hvisited)).1 hfile
            exact ⟨hkind, position :: passed, last, kind', next', .hop hnext hentry hlink htrail,
              allowed_cons.2 ⟨hfresh, hallowed⟩, Nat.succ_lt_succ hlt, hnext', hfile⟩
          · cases hfile
    · rintro ⟨hkind, passed, last, kind', next', htrail, hallowed, hlt, hnext', hfile⟩
      rw [if_neg (hallowed.2 position htrail.first_mem)]
      rcases trail_iff.1 htrail with ⟨rfl, rfl, rfl⟩ | ⟨rest, next, entry, rfl, hnext, hentry, hlink, htrail⟩
      · rw [hnext', Option.bind_some, hfile, Option.bind_some, if_pos hkind]
      · have hnotFile : entry.entryType ≠ .file := by
          intro he
          rw [he] at hlink
          cases hlink
        rw [hnext, Option.bind_some, hentry, Option.bind_some, if_neg hnotFile, if_pos hlink,
          ih (proper_destination h hnext) (proper_cons h hvisited)]
        exact ⟨hkind, rest, last, kind', next', htrail, (allowed_cons.1 hallowed).2, Nat.lt_of_succ_lt_succ hlt,
          hnext', hfile⟩

section Stops

variable {limit : Nat} {passed : List Position} {last next : Position} {kind : EntryType} {entry : EntryMeta}
  (hnext : destination last kind = some next) (hentry : entryAt metas next = some entry)

include hnext hentry

/-- At a hop to another link only a cycle or the bound stops a walk. -/
theorem stops_of_link (hlink : isLink entry.entryType = true) (h : Stops metas limit passed last kind) :
    next ∈ passed ++ [last] ∨ passed.length + 1 = limit := by
  cases h with
  | leaves hleaves => exact absurd (hnext.symm.trans hleaves) (by simp)
  | dangles hnext' hdangles =>
    cases hnext.symm.trans hnext'
    exact absurd (hentry.symm.trans hdangles) (by simp)
  | notFile hnext' hentry' _ hnoLink =>
    cases hnext.symm.trans hnext'
    cases hentry.symm.trans hentry'
    exact absurd (hlink.symm.trans hnoLink) (by simp)
  | cycles hnext' _ _ hcycle =>
    cases hnext.symm.trans hnext'
    exact .inl hcycle
  | tooLong _ _ _ hlong => exact .inr hlong

/-- Nothing stops a walk at a hop to a file. -/
theorem not_stops_of_file (hkind : entry.entryType = .file) : ¬ Stops metas limit passed last kind := by
  have hnoLink : isLink entry.entryType = false := by rw [hkind]; rfl
  intro h
  cases h with
  | leaves hleaves => exact absurd (hnext.symm.trans hleaves) (by simp)
  | dangles hnext' hdangles =>
    cases hnext.symm.trans hnext'
    exact absurd (hentry.symm.trans hdangles) (by simp)
  | notFile hnext' hentry' hfile _ =>
    cases hnext.symm.trans hnext'
    cases hentry.symm.trans hentry'
    exact hfile hkind
  | cycles hnext' hentry' hlink _ =>
    cases hnext.symm.trans hnext'
    cases hentry.symm.trans hentry'
    exact absurd (hlink.symm.trans hnoLink) (by simp)
  | tooLong hnext' hentry' hlink _ =>
    cases hnext.symm.trans hnext'
    cases hentry.symm.trans hentry'
    exact absurd (hlink.symm.trans hnoLink) (by simp)

end Stops

/-- The loop returns nothing when it has no hops left, has come back, or some hop of the walk comes to nothing. -/
theorem followLinks_eq_none {hops : Nat} {position : Position} (h : Proper position) {visited : List Position}
    (hvisited : ∀ p ∈ visited, Proper p) {kind : EntryType} :
    followLinks metas hops (visited.map joinRaw) (joinRaw position) kind = none ↔
      hops = 0 ∨ position ∈ visited ∨ ∃ passed last kind', Trail metas position kind passed last kind' ∧
        Allowed visited passed last ∧ passed.length < hops ∧
        Stops metas (hops + visited.length) (visited.reverse ++ passed) last kind' := by
  induction hops generalizing position visited kind with
  | zero => exact iff_of_true rfl (.inl rfl)
  | succ hops ih =>
    rw [followLinks_succ h hvisited]
    by_cases hfresh : position ∈ visited
    · rw [if_pos hfresh]
      exact iff_of_true rfl (.inr (.inl hfresh))
    rw [if_neg hfresh]
    have hstart {limit : Nat} (hstops : Stops metas limit (visited.reverse ++ []) position kind)
        (hlimit : limit = hops + 1 + visited.length) : ∃ passed last kind', Trail metas position kind passed last kind' ∧
          Allowed visited passed last ∧ passed.length < hops + 1 ∧
          Stops metas (hops + 1 + visited.length) (visited.reverse ++ passed) last kind' :=
      ⟨[], position, kind, .here _ _, allowed_nil.2 hfresh, Nat.succ_pos _, hlimit ▸ hstops⟩
    cases hnext : destination position kind with
    | none => exact iff_of_true rfl (.inr (.inr (hstart (.leaves hnext) rfl)))
    | some next =>
      rw [Option.bind_some]
      cases hentry : entryAt metas next with
      | none => exact iff_of_true rfl (.inr (.inr (hstart (.dangles hnext hentry) rfl)))
      | some entry =>
        rw [Option.bind_some]
        by_cases hlink : isLink entry.entryType = true
        · have hnotFile : entry.entryType ≠ .file := by
            intro he
            rw [he] at hlink
            cases hlink
          rw [if_neg hnotFile, if_pos hlink, ih (proper_destination h hnext) (proper_cons h hvisited)]
          constructor
          · rintro (rfl | hback | ⟨passed, last, kind', htrail, hallowed, hlt, hstops⟩)
            · have hlong : (visited.reverse ++ []).length + 1 = 0 + 1 + visited.length := by
                rw [List.append_nil, List.length_reverse, Nat.add_comm, Nat.zero_add]
              exact .inr (.inr (hstart (.tooLong hnext hentry hlink hlong) rfl))
            · refine .inr (.inr (hstart (.cycles hnext hentry hlink ?_) rfl))
              rcases List.mem_cons.1 hback with rfl | hback
              · simp
              · simp [hback]
            · refine .inr (.inr ⟨position :: passed, last, kind', .hop hnext hentry hlink htrail,
                allowed_cons.2 ⟨hfresh, hallowed⟩, Nat.succ_lt_succ hlt, ?_⟩)
              have hlimit : hops + (position :: visited).length = hops + 1 + visited.length := by
                rw [List.length_cons]
                omega
              rw [hlimit, List.reverse_cons, List.append_assoc, List.singleton_append] at hstops
              exact hstops
          · rintro (hzero | hback | ⟨passed, last, kind', htrail, hallowed, hlt, hstops⟩)
            · cases hzero
            · exact absurd hback hfresh
            · rcases trail_iff.1 htrail with ⟨rfl, rfl, rfl⟩ | ⟨rest, next', entry', rfl, hnext', hentry', -, htrail⟩
              · rcases stops_of_link hnext hentry hlink hstops with hcycle | hlong
                · refine .inr (.inl ?_)
                  rw [List.append_nil, List.mem_append, List.mem_reverse, List.mem_singleton] at hcycle
                  exact List.mem_cons.2 hcycle.symm
                · refine .inl ?_
                  rw [List.append_nil, List.length_reverse] at hlong
                  omega
              · cases hnext.symm.trans hnext'
                cases hentry.symm.trans hentry'
                refine .inr (.inr ⟨rest, last, kind', htrail, (allowed_cons.1 hallowed).2, Nat.lt_of_succ_lt_succ hlt, ?_⟩)
                have hlimit : hops + (position :: visited).length = hops + 1 + visited.length := by
                  rw [List.length_cons]
                  omega
                rw [hlimit, List.reverse_cons, List.append_assoc, List.singleton_append]
                exact hstops
        · by_cases hkind : entry.entryType = .file
          · rw [if_pos hkind]
            refine iff_of_false (by simp) ?_
            rintro (hzero | hback | ⟨passed, last, kind', htrail, -, -, hstops⟩)
            · cases hzero
            · exact hfresh hback
            · rcases trail_iff.1 htrail with ⟨rfl, rfl, rfl⟩ | ⟨rest, next', entry', rfl, hnext', hentry', hlink', -⟩
              · exact not_stops_of_file hnext hentry hkind hstops
              · cases hnext.symm.trans hnext'
                cases hentry.symm.trans hentry'
                exact hlink hlink'
          · rw [if_neg hkind, if_neg hlink]
            exact iff_of_true rfl (.inr (.inr (hstart (.notFile hnext hentry hkind (by simpa using hlink)) rfl)))

theorem allowed_nil_visited {passed : List Position} {last : Position} :
    Allowed [] passed last ↔ (passed ++ [last]).Nodup :=
  ⟨And.left, fun h => ⟨h, fun _ _ => List.not_mem_nil⟩⟩

theorem entryAt_eq_some {position : Position} {entry : EntryMeta} (h : entryAt metas position = some entry) :
    entry ∈ metas ∧ positionOf entry.path.raw = some position :=
  ⟨List.mem_reverse.1 (List.mem_of_find?_eq_some h), by simpa using List.find?_some h⟩

theorem resolveToFile_eq_some {link file : EntryMeta} : resolveToFile metas link = some file ↔
    ∃ position, positionOf link.path.raw = some position ∧ Reaches metas maxLinkDepth position link.entryType file := by
  unfold resolveToFile
  rw [normalizeArchivePathRaw_eq]
  cases hposition : positionOf link.path.raw with
  | none => simp
  | some position =>
    have hproper := (proper_positionOf hposition).1
    have hfollow := @followLinks_eq_some metas maxLinkDepth position hproper [] (fun _ h => absurd h List.not_mem_nil)
      link.entryType file
    simp only [Option.map_some]
    refine hfollow.trans ?_
    constructor
    · rintro ⟨hkind, passed, last, kind', next, htrail, hallowed, hlt, hnext, hfile⟩
      exact ⟨position, rfl, ⟨passed, last, kind', next, htrail, allowed_nil_visited.1 hallowed, hlt, hnext, hfile⟩, hkind⟩
    · rintro ⟨position', heq, ⟨⟨passed, last, kind', next, htrail, hnodup, hlt, hnext, hfile⟩, hkind⟩⟩
      cases heq
      exact ⟨hkind, passed, last, kind', next, htrail, allowed_nil_visited.2 hnodup, hlt, hnext, hfile⟩

theorem resolveToFile_eq_none {link : EntryMeta} : resolveToFile metas link = none ↔
    positionOf link.path.raw = none ∨
      ∃ position, positionOf link.path.raw = some position ∧ Blocked metas maxLinkDepth position link.entryType := by
  unfold resolveToFile
  rw [normalizeArchivePathRaw_eq]
  cases hposition : positionOf link.path.raw with
  | none => simp
  | some position =>
    have hproper := (proper_positionOf hposition).1
    have hfollow := @followLinks_eq_none metas maxLinkDepth position hproper [] (fun _ h => absurd h List.not_mem_nil)
      link.entryType
    simp only [Option.map_some]
    refine hfollow.trans ?_
    constructor
    · rintro (hzero | hback | ⟨passed, last, kind', htrail, hallowed, hlt, hstops⟩)
      · cases hzero
      · cases hback
      · exact .inr ⟨position, rfl, passed, last, kind', htrail, allowed_nil_visited.1 hallowed, hlt, hstops⟩
    · rintro (hnone | ⟨position', heq, passed, last, kind', htrail, hnodup, hlt, hstops⟩)
      · cases hnone
      · cases heq
        exact .inr (.inr ⟨passed, last, kind', htrail, allowed_nil_visited.2 hnodup, hlt, hstops⟩)

/-- For every list of entries and every link: the resolver returns the file that the walk along the links reaches within
40 hops, returns nothing just when the link has no position or some hop comes to nothing, and never leaves the archive. -/
theorem resolveToFile_walks (metas : List EntryMeta) (link : EntryMeta) :
    (∀ file, resolveToFile metas link = some file ↔
      ∃ position, positionOf link.path.raw = some position ∧ Reaches metas maxLinkDepth position link.entryType file) ∧
    (resolveToFile metas link = none ↔ positionOf link.path.raw = none ∨
      ∃ position, positionOf link.path.raw = some position ∧ Blocked metas maxLinkDepth position link.entryType) ∧
    ∀ file, resolveToFile metas link = some file →
      file ∈ metas ∧ ∃ position, positionOf file.path.raw = some position ∧ Proper position := by
  refine ⟨fun file => resolveToFile_eq_some, resolveToFile_eq_none, fun file h => ?_⟩
  obtain ⟨position, -, ⟨⟨passed, last, kind', next, -, -, -, -, hfile⟩, -⟩⟩ := resolveToFile_eq_some.1 h
  obtain ⟨hmem, hposition⟩ := entryAt_eq_some hfile
  exact ⟨hmem, next, hposition, (proper_positionOf hposition).1⟩

end

/-! ## A link without a position -/

/-- An entry of which only the path and the kind matter. -/
def plainEntry (path : String) (kind : EntryType) : EntryMeta where
  path := .fromUtf8 path
  entryType := kind
  size := 0
  compressedSize := none
  modified := none
  unixMode := none
  crc32 := none
  encrypted := false

/-- A hard link whose own path is absolute leads nowhere, although its target is a file of the archive. -/
theorem absolute_link_unresolved : ¬ ∀ (metas : List EntryMeta) (link file : EntryMeta) (target : List UInt8)
    (position : Position), link ∈ metas → link.entryType = .hardlink target → positionOf target = some position →
      entryAt metas position = some file → file.entryType = .file → resolveToFile metas link = some file := by
  intro h
  have hresolved := h [plainEntry "data.txt" .file, plainEntry "/link" (.hardlink (utf8Bytes "data.txt"))]
    (plainEntry "/link" (.hardlink (utf8Bytes "data.txt"))) (plainEntry "data.txt" .file) (utf8Bytes "data.txt")
    [utf8Bytes "data.txt"] (by decide +kernel) rfl (by decide +kernel) (by decide +kernel) rfl
  exact absurd hresolved (by decide +kernel)

end Squallz.Extract
