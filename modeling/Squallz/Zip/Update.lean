/-
What an update writes: every original entry that is not deleted and every addition exactly once, and
when the paths that extraction will use do not collide.
-/
import Squallz.Zip.UpdatePlan
import Mathlib.Data.List.Pairwise

namespace Squallz.Zip

open Squallz.Api

/-! ## Paths that collide -/

/-- A path strictly above another one. -/
def ProperAncestor (above below : List String) : Prop := above <+: below ∧ above ≠ below

/-- The path and the kind of an entry for extraction. -/
structure Item where
  path : EntryPath
  directory : Bool

/-- Two entries whose sanitised paths differ and neither of which is a file above the other. -/
def Clear (a b : Item) : Prop :=
  ∀ above below, sanitizeEntryPath a.path = .ok above → sanitizeEntryPath b.path = .ok below →
    above ≠ below ∧ (a.directory = false → ¬ ProperAncestor above below) ∧
      (b.directory = false → ¬ ProperAncestor below above)

theorem Clear.symm {a b : Item} (h : Clear a b) : Clear b a := by
  intro below above hbelow habove
  obtain ⟨hne, ha, hb⟩ := h above below habove hbelow
  exact ⟨hne.symm, hb, ha⟩

theorem sanitize_ne_nil {path : EntryPath} {comps : List String} (h : sanitizeEntryPath path = .ok comps) :
    comps ≠ [] := by
  unfold sanitizeEntryPath at h
  simp only at h
  split at h
  · cases h
  · obtain ⟨out, -, h⟩ := bind_eq_ok.1 h
    split at h
    · cases h
    · rename_i hne
      cases h
      exact hne

/-- The key of a path is above the key of a path below it. -/
theorem ProperAncestor.mem_parents {above below : List String} (h : ProperAncestor above below) (hne : above ≠ []) :
    utf8Bytes (joinPath above) ∈ parents (utf8Bytes (joinPath below)) := by
  obtain ⟨⟨rest, rfl⟩, hdiff⟩ := h
  refine mem_parents_of_components hne ?_
  rintro rfl
  exact hdiff (List.append_nil above).symm

/-! ## Namespaces -/

namespace Namespace

/-- An entry that a namespace records. -/
structure Has (ns : Namespace) (key : List UInt8) (directory : Bool) : Prop where
  entry : key ∈ ns.entries
  file : directory = false → key ∈ ns.files
  dir : directory = true → key ∈ ns.directories
  above : ∀ parent ∈ parents key, parent ∈ ns.directories

theorem has_insert (ns : Namespace) (key : List UInt8) (directory : Bool) : (ns.insert key directory).Has key directory where
  entry := List.mem_cons_self
  file h := by
    unfold insert
    simp [h]
  dir h := by
    unfold insert
    simp [h]
  above parent h := List.mem_append_left _ h

theorem Has.insert {ns : Namespace} {key : List UInt8} {directory : Bool} (h : ns.Has key directory)
    (other : List UInt8) (kind : Bool) : (ns.insert other kind).Has key directory where
  entry := List.mem_cons_of_mem _ h.entry
  file hfile := by
    unfold Namespace.insert
    cases kind with
    | false => exact List.mem_cons_of_mem _ (h.file hfile)
    | true => exact h.file hfile
  dir hdir := by
    unfold Namespace.insert
    cases kind with
    | false => exact List.mem_append_right _ (h.dir hdir)
    | true => exact List.mem_append_right _ (List.mem_cons_of_mem _ (h.dir hdir))
  above parent hparent := by
    unfold Namespace.insert
    cases kind with
    | false => exact List.mem_append_right _ (h.above parent hparent)
    | true => exact List.mem_append_right _ (List.mem_cons_of_mem _ (h.above parent hparent))

theorem mem_of_contains_eq_false {ns : Namespace} {key : List UInt8} (h : ns.contains key = false) :
    key ∉ ns.files ∧ key ∉ ns.directories := by
  unfold contains at h
  simpa using h

theorem of_blocks_eq_false {ns : Namespace} {key : List UInt8} {directory : Bool}
    (h : ns.blocks key directory = false) :
    (directory = false → key ∉ ns.directories) ∧ ∀ parent ∈ parents key, parent ∉ ns.files := by
  unfold blocks at h
  simp only [Bool.or_eq_false_iff, Bool.and_eq_false_iff, List.any_eq_false,
    List.contains_eq_mem, decide_eq_false_iff_not, Bool.not_eq_false'] at h
  refine ⟨fun hfile => ?_, fun parent hparent => ?_⟩
  · rcases h.1.2 with hdir | hnot
    · rw [hfile] at hdir
      cases hdir
    · exact hnot
  · simpa using h.2 parent hparent

/-- A path whose key is not blocked is clear of an entry that the namespace records under another key. -/
theorem clear_of_has {ns : Namespace} {a b : Item} {above below : List String}
    (hpatha : sanitizeEntryPath a.path = .ok above) (hpathb : sanitizeEntryPath b.path = .ok below)
    (hhas : ns.Has (utf8Bytes (joinPath below)) b.directory)
    (hblocks : ns.blocks (utf8Bytes (joinPath above)) a.directory = false)
    (hne : utf8Bytes (joinPath above) ≠ utf8Bytes (joinPath below)) : Clear a b := by
  intro above' below' habove' hbelow'
  rw [hpatha] at habove'
  rw [hpathb] at hbelow'
  cases habove'
  cases hbelow'
  obtain ⟨hdirs, hfiles⟩ := of_blocks_eq_false hblocks
  refine ⟨?_, fun hfile hancestor => ?_, fun hfile hancestor => ?_⟩
  · rintro rfl
    exact hne rfl
  · exact hdirs hfile (hhas.above _ (hancestor.mem_parents (sanitize_ne_nil hpatha)))
  · exact hfiles _ (hancestor.mem_parents (sanitize_ne_nil hpathb)) (hhas.file hfile)

end Namespace

/-! ## Validated targets -/

theorem validateTarget_eq_ok {target : String} {directory : Bool} {retained produced produced' : Namespace}
    (h : validateTarget target directory retained produced = .ok produced') :
    ∃ comps, sanitizeEntryPath (.fromUtf8 target) = .ok comps ∧
      retained.contains (utf8Bytes (joinPath comps)) = false ∧
      retained.blocks (utf8Bytes (joinPath comps)) directory = false ∧
      utf8Bytes (joinPath comps) ∉ produced.entries ∧
      produced.blocks (utf8Bytes (joinPath comps)) directory = false ∧
      produced' = produced.insert (utf8Bytes (joinPath comps)) directory := by
  unfold validateTarget at h
  obtain ⟨key, hkey, h⟩ := bind_eq_ok.1 h
  unfold safeTarget at hkey
  obtain ⟨comps, hcomps, hkey⟩ := bind_eq_ok.1 hkey
  cases hkey
  refine ⟨comps, hcomps, ?_⟩
  simp only at h
  split at h
  · cases h
  · rename_i hretained
    split at h
    · cases h
    · rename_i hproduced
      cases h
      simp only [Bool.or_eq_true, not_or, Bool.not_eq_true, List.contains_eq_mem, decide_eq_true_eq] at hretained hproduced
      exact ⟨hretained.1, hretained.2, hproduced.1, hproduced.2, rfl⟩

/-- The targets that are validated one after another. -/
def validateAll (retained : Namespace) : List (String × Bool) → Namespace → Res Namespace
  | [], produced => pure produced
  | item :: items, produced => do
    let produced ← validateTarget item.1 item.2 retained produced
    validateAll retained items produced

def itemOf (item : String × Bool) : Item := ⟨.fromUtf8 item.1, item.2⟩

/-- A validated target is clear of what is retained, of what has been produced before, and of the other
targets. -/
theorem validateAll_clear {retained : Namespace} {items : List (String × Bool)} {produced produced' : Namespace}
    (h : validateAll retained items produced = .ok produced') :
    (∀ item ∈ items, ∀ ns : Namespace, ns = retained ∨ ns = produced → ∀ b comps,
        sanitizeEntryPath b.path = .ok comps → ns.Has (utf8Bytes (joinPath comps)) b.directory →
          Clear (itemOf item) b) ∧
      items.Pairwise fun a b => Clear (itemOf a) (itemOf b) := by
  induction items generalizing produced with
  | nil => exact ⟨fun item hitem => absurd hitem List.not_mem_nil, List.Pairwise.nil⟩
  | cons item items ih =>
    obtain ⟨next, hnext, hrest⟩ := bind_eq_ok.1 h
    obtain ⟨comps, hcomps, hcontains, hblocks, hentries, hproduced, rfl⟩ := validateTarget_eq_ok hnext
    obtain ⟨hclear, hpairs⟩ := ih hrest
    constructor
    · intro other hother ns hns b below hbelow hhas
      rcases List.mem_cons.1 hother with rfl | hother
      · rcases hns with rfl | rfl
        · refine Namespace.clear_of_has hcomps hbelow hhas hblocks fun heq => ?_
          obtain ⟨hfile, hdir⟩ := Namespace.mem_of_contains_eq_false hcontains
          cases hkind : b.directory with
          | false => exact hfile (heq ▸ hhas.file hkind)
          | true => exact hdir (heq ▸ hhas.dir hkind)
        · exact Namespace.clear_of_has hcomps hbelow hhas hproduced fun heq => hentries (heq ▸ hhas.entry)
      · rcases hns with rfl | rfl
        · exact hclear other hother _ (Or.inl rfl) b below hbelow hhas
        · exact hclear other hother _ (Or.inr rfl) b below hbelow (hhas.insert _ _)
    · refine List.Pairwise.cons (fun other hother => ?_) hpairs
      exact (hclear other hother _ (Or.inr rfl) (itemOf item) comps hcomps (Namespace.has_insert _ _ _)).symm

/-! ## What is retained -/

section

variable {Encoding Glob : Type} (crates : Crates Encoding Glob)

theorem validateRenames_eq (renames : List (List UInt8 × String)) (retained : Namespace) (names : List ArchiveName)
    (produced : Namespace) :
    validateRenames renames retained names produced =
      validateAll retained (names.filterMap fun name =>
        (renames.lookup name.path.raw).map fun target => (target, name.directory)) produced := by
  induction names generalizing produced with
  | nil => rfl
  | cons name names ih =>
    rw [validateRenames, List.filterMap_cons]
    cases renames.lookup name.path.raw with
    | none => exact ih produced
    | some target =>
      simp only [Option.map_some, validateAll]
      congr 1
      funext next
      exact ih next

theorem validateAdditions_eq (retained : Namespace) (additions : List EntryMeta) (produced : Namespace) :
    validateAdditions retained additions produced =
      validateAll retained (additions.map fun entry => (entry.path.display, entry.entryType == .dir)) produced := by
  induction additions generalizing produced with
  | nil => rfl
  | cons entry additions ih =>
    rw [validateAdditions, List.map_cons, validateAll]
    congr 1
    funext next
    exact ih next

theorem validateAll_append {retained : Namespace} {items items' : List (String × Bool)} {produced : Namespace} :
    validateAll retained (items ++ items') produced =
      (validateAll retained items produced >>= validateAll retained items') := by
  induction items generalizing produced with
  | nil => rfl
  | cons item items ih =>
    rw [List.cons_append, validateAll, validateAll, bind_assoc]
    congr 1
    funext next
    exact ih

/-- The key of an entry's displayed path. -/
def shownKey (path : EntryPath) (directory : Bool) : List UInt8 :=
  pathKey (utf8Bytes (path.normalizedDisplay directory))

theorem retain_has {retained : Namespace} {name : ArchiveName} (hkey : name.key = pathKey name.path.raw) :
    (retain retained name).Has (shownKey name.path name.directory) name.directory := by
  unfold retain shownKey
  simp only
  by_cases hnormalized : name.path.normalizedDisplay name.directory = name.path.display
  · rw [hnormalized, if_neg (not_not_intro rfl)]
    by_cases hraw : utf8Bytes name.path.display = name.path.raw
    · rw [if_neg (not_not_intro hraw), hraw, ← hkey]
      exact Namespace.has_insert _ _ _
    · rw [if_pos hraw]
      exact Namespace.has_insert _ _ _
  · rw [if_pos hnormalized]
    exact Namespace.has_insert _ _ _

theorem Namespace.Has.retain {ns : Namespace} {key : List UInt8} {directory : Bool} (h : ns.Has key directory)
    (name : ArchiveName) : (Squallz.Zip.retain ns name).Has key directory := by
  unfold Squallz.Zip.retain
  simp only
  split
  · split
    · exact ((h.insert _ _).insert _ _).insert _ _
    · exact (h.insert _ _).insert _ _
  · split
    · exact (h.insert _ _).insert _ _
    · exact h.insert _ _

theorem lookup_cons_isSome {renames : List (List UInt8 × String)} {raw : List UInt8} (h : (renames.lookup raw).isSome)
    (entry : List UInt8 × String) : ((entry :: renames).lookup raw).isSome := by
  rw [List.lookup_cons]
  split
  · rfl
  · exact h

/-- Every entry that is neither deleted nor renamed is retained under its displayed path. -/
theorem splitNames_has {requested : List (List UInt8 × Rename Encoding)} {names : List ArchiveName}
    {renames renames' : List (List UInt8 × String)} {retained retained' : Namespace}
    (hkeys : ∀ name ∈ names, name.key = pathKey name.path.raw)
    (h : splitNames crates requested names (renames, retained) = .ok (renames', retained')) :
    (∀ raw, (renames.lookup raw).isSome → (renames'.lookup raw).isSome) ∧
      (∀ key directory, retained.Has key directory → retained'.Has key directory) ∧
      ∀ name ∈ names, name.deleted = false → renames'.lookup name.path.raw = none →
        retained'.Has (shownKey name.path name.directory) name.directory := by
  induction names generalizing renames retained with
  | nil =>
    cases h
    exact ⟨fun _ h => h, fun _ _ h => h, fun name hname => absurd hname List.not_mem_nil⟩
  | cons name names ih =>
    have hrest := fun other hother => hkeys other (List.mem_cons_of_mem _ hother)
    rw [splitNames] at h
    by_cases hdeleted : name.deleted = true
    · rw [if_pos hdeleted] at h
      obtain ⟨hrenames, hretained, hnames⟩ := ih hrest h
      refine ⟨hrenames, hretained, fun other hother hkept hnone => ?_⟩
      rcases List.mem_cons.1 hother with rfl | hother
      · rw [hdeleted] at hkept
        cases hkept
      · exact hnames other hother hkept hnone
    · rw [if_neg hdeleted] at h
      cases hrequest : requestOf requested name with
      | some request =>
        rw [hrequest] at h
        obtain ⟨target, -, h⟩ := bind_eq_ok.1 h
        obtain ⟨hrenames, hretained, hnames⟩ := ih hrest h
        refine ⟨fun raw hsome => hrenames raw (lookup_cons_isSome hsome _), hretained, fun other hother hkept hnone => ?_⟩
        rcases List.mem_cons.1 hother with rfl | hother
        · -- its raw name has been renamed
          have hself := hrenames other.path.raw (by rw [List.lookup_cons, beq_self_eq_true]; rfl)
          rw [hnone] at hself
          cases hself
        · exact hnames other hother hkept hnone
      | none =>
        rw [hrequest] at h
        obtain ⟨hrenames, hretained, hnames⟩ := ih hrest h
        refine ⟨hrenames, fun key directory hhas => hretained key directory (hhas.retain name),
          fun other hother hkept hnone => ?_⟩
        rcases List.mem_cons.1 hother with rfl | hother
        · exact hretained _ _ (retain_has (hkeys other List.mem_cons_self))
        · exact hnames other hother hkept hnone

/-! ## The emitted entries -/

/-- An emitted entry that is renamed or added. -/
def Emitted.moved : Emitted → Bool
  | .original _ _ _ rename => rename.isSome
  | .addition _ _ => true

/-- The path and the kind under which an emitted entry will be extracted. -/
def Emitted.item (plan : UpdatePlan Encoding) : Emitted → Item
  | .original _ raw directory none => ⟨decodeEntryName crates raw plan.encoding, directory⟩
  | .original _ _ directory (some target) => ⟨.fromUtf8 target, directory⟩
  | .addition _ entry => ⟨entry.path, entry.entryType == .dir⟩

/-- The target of an emitted entry that is renamed or added. -/
def Emitted.target : Emitted → Option (String × Bool)
  | .original _ _ directory rename => rename.map fun target => (target, directory)
  | .addition _ entry => some (entry.path.display, entry.entryType == .dir)

theorem addEntries_target (additions : List EntryMeta) (index : Nat) :
    (addEntries additions index).filterMap Emitted.target =
      additions.map fun entry => (entry.path.display, entry.entryType == .dir) := by
  induction additions generalizing index with
  | nil => rfl
  | cons entry additions ih =>
    rw [addEntries, List.filterMap_cons]
    simp only [Emitted.target, List.map_cons, ih]

theorem copyEntries_target (plan : UpdatePlan Encoding) (rawNames : List (List UInt8 × Bool)) (index : Nat) :
    ((copyEntries crates plan rawNames index).filterMap Emitted.target).Sublist
      (rawNames.filterMap fun name => (plan.renames.lookup name.1).map fun target => (target, name.2)) := by
  induction rawNames generalizing index with
  | nil => exact List.Sublist.refl _
  | cons name rest ih =>
    obtain ⟨raw, directory⟩ := name
    rw [copyEntries, List.filterMap_cons]
    split
    · cases plan.renames.lookup raw with
      | none => exact ih (index + 1)
      | some target => exact (ih (index + 1)).cons _
    · rw [List.filterMap_cons]
      simp only [Emitted.target]
      cases plan.renames.lookup raw with
      | none => exact ih (index + 1)
      | some target => exact (ih (index + 1)).cons_cons _

/-- What an update is to write: every original entry that is not deleted, renamed or not, and every
addition. -/
def expectedEntries (plan : UpdatePlan Encoding) (rawNames : List (List UInt8 × Bool)) (additions : List EntryMeta) :
    List Emitted :=
  (rawNames.zipIdx.filterMap fun ((raw, directory), index) =>
      if plan.deletes.matches (decodeEntryName crates raw plan.encoding) then none
      else some (.original index raw directory (plan.renames.lookup raw))) ++
    additions.zipIdx.map fun (entry, index) => .addition index entry

theorem copyEntries_eq (plan : UpdatePlan Encoding) (rawNames : List (List UInt8 × Bool)) (start : Nat) :
    copyEntries crates plan rawNames start = (rawNames.zipIdx start).filterMap fun ((raw, directory), index) =>
      if plan.deletes.matches (decodeEntryName crates raw plan.encoding) then none
      else some (.original index raw directory (plan.renames.lookup raw)) := by
  induction rawNames generalizing start with
  | nil => rfl
  | cons name rest ih =>
    obtain ⟨raw, directory⟩ := name
    rw [copyEntries, List.zipIdx_cons, List.filterMap_cons]
    simp only
    split
    · exact ih (start + 1)
    · simp only [ih (start + 1)]

theorem addEntries_eq (additions : List EntryMeta) (start : Nat) :
    addEntries additions start = (additions.zipIdx start).map fun (entry, index) => .addition index entry := by
  induction additions generalizing start with
  | nil => rfl
  | cons entry rest ih => rw [addEntries, List.zipIdx_cons, List.map_cons, ih (start + 1)]

theorem rewrite_eq_expectedEntries (plan : UpdatePlan Encoding) (rawNames : List (List UInt8 × Bool))
    (additions : List EntryMeta) :
    rewrite crates plan rawNames additions = expectedEntries crates plan rawNames additions := by
  rw [rewrite, copyEntries_eq, addEntries_eq]
  rfl

/-- What a plan has been checked for. -/
structure Checked (plan : UpdatePlan Encoding) (rawNames : List (List UInt8 × Bool)) (additions : List EntryMeta)
    (retained : Namespace) : Prop where
  has : ∀ raw directory, (raw, directory) ∈ rawNames →
    plan.deletes.matches (decodeEntryName crates raw plan.encoding) = false → plan.renames.lookup raw = none →
      retained.Has (shownKey (decodeEntryName crates raw plan.encoding) directory) directory
  validated : ∃ produced, validateAll retained ((rawNames.filterMap fun name =>
      (plan.renames.lookup name.1).map fun target => (target, name.2)) ++
    additions.map fun entry => (entry.path.display, entry.entryType == .dir)) .empty = .ok produced

/-- A name of the archive with its deletion mark. -/
def plannedName (deletes : Deletions) (fallback : Option Encoding) (name : List UInt8 × Bool) : ArchiveName :=
  ⟨decodeEntryName crates name.1 fallback, pathKey name.1, name.2,
    deletes.matches (decodeEntryName crates name.1 fallback)⟩

theorem plannedName_raw (deletes : Deletions) (fallback : Option Encoding) (name : List UInt8 × Bool) :
    (plannedName crates deletes fallback name).path.raw = name.1 := decodeEntryName_raw _ _ _

/-- A plan that `prepare` returns. -/
theorem prepare_checked {rawNames : List (List UInt8 × Bool)} {ops : List UpdateOp} {additions : List EntryMeta}
    {encoding : Option String} {plan : UpdatePlan Encoding}
    (h : prepare crates rawNames ops additions encoding = .ok plan) :
    ∃ retained, Checked crates plan rawNames additions retained := by
  unfold prepare at h
  simp only at h
  obtain ⟨deletes, -, h⟩ := bind_eq_ok.1 h
  obtain ⟨-, -, h⟩ := bind_eq_ok.1 h
  obtain ⟨requested, -, h⟩ := bind_eq_ok.1 h
  split at h
  · cases h
  obtain ⟨⟨renames, retained⟩, hsplit, h⟩ := bind_eq_ok.1 h
  simp only at h
  split at h
  · cases h
  obtain ⟨produced, hrenames, h⟩ := bind_eq_ok.1 h
  obtain ⟨produced', hadditions, h⟩ := bind_eq_ok.1 h
  cases h
  generalize resolveFallbackEncoding crates (rawNames.map (·.1)) encoding = fallback at *
  generalize ((archiveNames crates rawNames fallback).foldl (fun deletes name => deletes.observe name.path.raw)
    deletes) = observed at *
  have hnames : ((archiveNames crates rawNames fallback).map fun name =>
      { name with deleted := observed.matches name.path }) = rawNames.map (plannedName crates observed fallback) := by
    rw [archiveNames, List.map_map]
    rfl
  rw [hnames] at hsplit hrenames
  refine ⟨retained, ⟨fun raw directory hmem hkept hnone => ?_, produced', ?_⟩⟩
  · have hkeys : ∀ name ∈ rawNames.map (plannedName crates observed fallback), name.key = pathKey name.path.raw := by
      intro name hname
      obtain ⟨original, -, rfl⟩ := List.mem_map.1 hname
      rw [plannedName_raw]
      rfl
    have hhas := (splitNames_has crates hkeys hsplit).2.2 _ (List.mem_map_of_mem hmem) hkept
    rw [plannedName_raw] at hhas
    exact hhas hnone
  · rw [validateRenames_eq, List.filterMap_map] at hrenames
    rw [validateAdditions_eq] at hadditions
    rw [validateAll_append]
    refine bind_eq_ok.2 ⟨produced, ?_, hadditions⟩
    rw [← hrenames]
    congr 1
    refine List.filterMap_congr fun name _ => ?_
    rw [Function.comp_apply, plannedName_raw]
    rfl

/-! ## Collisions -/

theorem mem_copyEntries {plan : UpdatePlan Encoding} {rawNames : List (List UInt8 × Bool)} {e : Emitted}
    (h : e ∈ copyEntries crates plan rawNames 0) :
    ∃ index raw directory, e = .original index raw directory (plan.renames.lookup raw) ∧ (raw, directory) ∈ rawNames ∧
      plan.deletes.matches (decodeEntryName crates raw plan.encoding) = false := by
  rw [copyEntries_eq] at h
  obtain ⟨⟨⟨raw, directory⟩, index⟩, hmem, he⟩ := List.mem_filterMap.1 h
  simp only at he
  split at he
  · cases he
  · rename_i hkept
    cases he
    exact ⟨index, raw, directory, rfl, List.fst_mem_of_mem_zipIdx hmem, by simpa using hkept⟩

theorem mem_addEntries {additions : List EntryMeta} {e : Emitted} (h : e ∈ addEntries additions 0) :
    e.moved = true := by
  rw [addEntries_eq] at h
  obtain ⟨⟨entry, index⟩, -, rfl⟩ := List.mem_map.1 h
  rfl

/-- The target of a moved entry has the path and the kind under which it will be extracted. -/
theorem Emitted.target_of_moved {plan : UpdatePlan Encoding} {e : Emitted} (h : e.moved = true) :
    ∃ target, e.target = some target ∧ ∀ b, Clear (itemOf target) b ↔ Clear (e.item crates plan) b := by
  cases e with
  | original index raw directory rename =>
    cases rename with
    | none => cases h
    | some target => exact ⟨(target, directory), rfl, fun b => Iff.rfl⟩
  | addition index entry => exact ⟨(entry.path.display, entry.entryType == .dir), rfl, fun b => Iff.rfl⟩

/-- An entry kept under its raw name. -/
theorem Emitted.of_not_moved {plan : UpdatePlan Encoding} {rawNames : List (List UInt8 × Bool)}
    {additions : List EntryMeta} {e : Emitted} (hmem : e ∈ rewrite crates plan rawNames additions)
    (h : e.moved = false) :
    ∃ raw directory, (raw, directory) ∈ rawNames ∧
      plan.deletes.matches (decodeEntryName crates raw plan.encoding) = false ∧ plan.renames.lookup raw = none ∧
        e.item crates plan = ⟨decodeEntryName crates raw plan.encoding, directory⟩ := by
  rcases List.mem_append.1 hmem with hmem | hmem
  · obtain ⟨index, raw, directory, rfl, hname, hkept⟩ := mem_copyEntries crates hmem
    cases hrename : plan.renames.lookup raw with
    | none =>
      refine ⟨raw, directory, hname, hkept, hrename, ?_⟩
      rw [Emitted.item]
    | some target =>
      rw [hrename] at h
      cases h
  · rw [mem_addEntries hmem] at h
    cases h

end

/-! ## A name that begins with a dot -/

def dottedNames : List (List UInt8 × Bool) := [(utf8Bytes "./a.txt", false), (utf8Bytes "b.txt", false)]

def renameTo (target : String) : List UpdateOp := [.rename (.display "b.txt") (.fromUtf8 target)]

/-- The written entries of an update of these names: whether each is moved, and its sanitised path. -/
def writtenPaths (target : String) : Option (List (Bool × Option (List String))) :=
  (prepare plainCrates dottedNames (renameTo target) [] none).toOption.map fun plan =>
    (rewrite plainCrates plan dottedNames []).map fun e =>
      (e.moved, (sanitizeEntryPath (e.item plainCrates plan).path).toOption)

theorem writtenPaths_hidden : writtenPaths "a.txt" = some [(false, some ["a.txt"]), (true, some ["a.txt"])] := by
  decide +kernel

theorem prepare_of_writtenPaths {target : String} {paths : List (Bool × Option (List String))}
    (h : writtenPaths target = some paths) :
    ∃ plan, prepare plainCrates dottedNames (renameTo target) [] none = .ok plan ∧
      (rewrite plainCrates plan dottedNames []).map (fun e =>
        (e.moved, (sanitizeEntryPath (e.item plainCrates plan).path).toOption)) = paths := by
  obtain ⟨plan, hplan, hpaths⟩ := Option.map_eq_some_iff.1 h
  cases hprepare : prepare plainCrates dottedNames (renameTo target) [] none with
  | error fault =>
    rw [hprepare] at hplan
    cases hplan
  | ok planned =>
    rw [hprepare] at hplan
    cases hplan
    exact ⟨plan, rfl, hpaths⟩

end Squallz.Zip
