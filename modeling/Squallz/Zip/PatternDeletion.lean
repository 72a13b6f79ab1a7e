/-
Deletion by pattern against the filter of listing and extraction: the two compile a pattern to the same globs unless it
is made of slashes only, which the filter ignores.
-/
import Squallz.Core.Filter
import Squallz.Text.Glob
import Squallz.Zip.Selection

namespace Squallz.Zip

open Squallz.Api Squallz.Core Squallz.Text

variable {Encoding Glob : Type} (crates : Crates Encoding Glob)

/-- Two compilers of one pattern agree: they fail with the same error, or they match the same entries, the slashes at
the end of a name apart. -/
def Agree : Res Deletions → Res PathFilter → Prop
  | .ok deletes, .ok filter => ∀ path : EntryPath, deletes.«matches» path = filter.«matches» (trimEndSlashes path.display)
  | .error fault, .error fault' => fault = fault'
  | _, _ => False

/-- Deletion by one pattern means what the filter with that pattern means. -/
def DeletesAsFiltered (lookup : NameLookup) (pattern : String) : Prop :=
  Agree (Deletions.new crates [.delete pattern] lookup) (PathFilter.new crates.buildGlob crates.buildGlobSet [pattern])

/-! ## One pattern -/

theorem deletions_new_delete (lookup : NameLookup) (pattern : String) :
    Deletions.new crates [.delete pattern] lookup = (do
      let globs ← Deletions.buildPattern crates pattern
      match crates.buildGlobSet globs with
      | .ok patterns => pure ⟨some patterns, []⟩
      | .error error => raise (.other s!"invalid glob pattern set: {error}")) := by
  unfold Deletions.new Deletions.collect Deletions.collect
  cases Deletions.buildPattern crates pattern with
  | error fault => rfl
  | ok globs => rfl

theorem variants_eq {pattern : String} (h : trimEndSlashes pattern ≠ "") :
    PathFilter.variants pattern = Deletions.patternVariants pattern := by
  have hne : (trimEndSlashes pattern).isEmpty = false := by simpa [String.isEmpty_iff] using h
  unfold PathFilter.variants Deletions.patternVariants
  simp only [hne]
  rfl

/-- The globs of one pattern are not nothing. -/
theorem buildPattern_ne_nil {pattern : String} {globs : List Glob}
    (h : Deletions.buildPattern crates pattern = .ok globs) : globs ≠ [] := by
  unfold Deletions.buildPattern Deletions.patternVariants at h
  simp only [List.cons_append, List.mapM_cons, bind_eq_ok, pure_eq_ok] at h
  obtain ⟨glob, -, rest, -, h⟩ := h
  cases h
  exact List.cons_ne_nil _ _

theorem pathFilter_new_of_slashes {pattern : String} (h : trimEndSlashes pattern = "") :
    PathFilter.new crates.buildGlob crates.buildGlobSet [pattern] = .ok ⟨none⟩ := by
  have hvariants : PathFilter.variants pattern = [] := by
    unfold PathFilter.variants
    simp only [h]
    rfl
  unfold PathFilter.new PathFilter.collect
  rw [if_neg (List.cons_ne_nil _ _), List.mapM_cons, hvariants]
  rfl

/-- For a pattern that is more than slashes both compilers do the same steps. -/
theorem pathFilter_new_eq {pattern : String} (h : trimEndSlashes pattern ≠ "") :
    PathFilter.new crates.buildGlob crates.buildGlobSet [pattern] = (do
      let globs ← Deletions.buildPattern crates pattern
      match crates.buildGlobSet globs with
      | .ok set => pure ⟨some set⟩
      | .error error => raise (.other s!"invalid glob pattern set: {error}")) := by
  have hcollect : PathFilter.collect crates.buildGlob [pattern] = Deletions.buildPattern crates pattern := by
    unfold PathFilter.collect
    rw [List.mapM_cons, variants_eq h]
    show (do let built ← (do let globs ← Deletions.buildPattern crates pattern; _); _) = _
    cases Deletions.buildPattern crates pattern with
    | error fault => rfl
    | ok globs =>
      show Except.ok [globs].flatten = Except.ok globs
      rw [List.flatten_singleton]
  unfold PathFilter.new
  rw [if_neg (List.cons_ne_nil _ _), hcollect]
  cases hglobs : Deletions.buildPattern crates pattern with
  | error fault => rfl
  | ok globs =>
    have hne : globs.isEmpty = false := by simpa using buildPattern_ne_nil crates hglobs
    simp only [ok_bind, hne]
    rfl

/-! ## When deletion and filter agree -/

/-- What the glob crate documents of the globs of an empty name: they compile, alone and together, and the recursive
wildcard at the end of a glob matches everything below. -/
structure Crates.DocumentedGlobs : Prop where
  compiles : ∃ globs set, (Deletions.patternVariants "").mapM crates.buildGlob = .ok globs ∧
    crates.buildGlobSet globs = .ok set
  subtree : ∀ globs set glob, crates.buildGlobSet globs = .ok set → glob ∈ globs →
    crates.buildGlob "/**" = .ok glob → ∀ name, set ("/" ++ name) = true

/-- A traversal that succeeds yields something at each of its elements. -/
theorem exists_of_mapM_ok {ε α β : Type} {f : α → Except ε β} {l : List α} {out : List β} (h : l.mapM f = .ok out)
    {a : α} (ha : a ∈ l) : ∃ b ∈ out, f a = .ok b := by
  induction l generalizing out with
  | nil => cases ha
  | cons first rest ih =>
    simp only [List.mapM_cons, bind_eq_ok, pure_eq_ok] at h
    obtain ⟨b, hb, others, hothers, h⟩ := h
    cases h
    rcases List.mem_cons.1 ha with rfl | ha
    · exact ⟨b, List.mem_cons_self, hb⟩
    · obtain ⟨b', hb', hf⟩ := ih hothers ha
      exact ⟨b', List.mem_cons_of_mem _ hb', hf⟩

theorem trimEndSlashes_eq_empty {pattern : String} :
    trimEndSlashes pattern = "" ↔ ¬ ∃ c ∈ pattern.toList, c ≠ '/' := by
  unfold trimEndSlashes
  rw [← String.toList_inj, String.toList_ofList]
  show pattern.toList.rdropWhile (· == '/') = [] ↔ _
  rw [List.rdropWhile_eq_nil_iff]
  simp

/-- The globs that compile one by one are those of the pattern. -/
theorem buildPattern_eq_ok {pattern : String} {globs : List Glob}
    (h : (Deletions.patternVariants pattern).mapM crates.buildGlob = .ok globs) :
    Deletions.buildPattern crates pattern = .ok globs := by
  unfold Deletions.buildPattern
  generalize Deletions.patternVariants pattern = variants at h ⊢
  induction variants generalizing globs with
  | nil =>
    cases h
    rfl
  | cons variant variants ih =>
    rw [List.mapM_cons] at h ⊢
    obtain ⟨glob, hglob, h⟩ := bind_eq_ok.1 h
    obtain ⟨rest, hrest, h⟩ := bind_eq_ok.1 h
    cases h
    rw [hglob, ih hrest]
    rfl

variable {crates}

/-- For every pattern: deleting by it means what filtering by it means just when it names something. -/
theorem deletesAsFiltered_iff (hglobs : crates.DocumentedGlobs) (lookup : NameLookup) (pattern : String) :
    DeletesAsFiltered crates lookup pattern ↔ ∃ c ∈ pattern.toList, c ≠ '/' := by
  unfold DeletesAsFiltered
  rw [deletions_new_delete]
  by_cases hnamed : ∃ c ∈ pattern.toList, c ≠ '/'
  · have hne : trimEndSlashes pattern ≠ "" := fun hempty => trimEndSlashes_eq_empty.1 hempty hnamed
    rw [pathFilter_new_eq crates hne]
    refine iff_of_true ?_ hnamed
    cases Deletions.buildPattern crates pattern with
    | error fault => rfl
    | ok globs =>
      rw [ok_bind, ok_bind]
      cases crates.buildGlobSet globs with
      | error error => rfl
      | ok set => exact fun path => Bool.false_or _
  · have hempty : trimEndSlashes pattern = "" := trimEndSlashes_eq_empty.2 hnamed
    rw [pathFilter_new_of_slashes crates hempty]
    refine iff_of_false ?_ hnamed
    obtain ⟨globs, set, hglobs', hset⟩ := hglobs.compiles
    have hvariants : Deletions.patternVariants pattern = Deletions.patternVariants "" := by
      unfold Deletions.patternVariants
      rw [hempty]
      rfl
    rw [← hvariants] at hglobs'
    rw [buildPattern_eq_ok crates hglobs', ok_bind, hset]
    intro hagree
    -- an entry with a leading slash lies below the empty name
    have hrecursive : "/**" ∈ Deletions.patternVariants pattern := by
      rw [hvariants]
      decide +kernel
    obtain ⟨glob, hmem, hglob⟩ := exists_of_mapM_ok hglobs' hrecursive
    have hkept : set (trimEndSlashes (EntryPath.fromUtf8 "/x").display) = false := hagree (.fromUtf8 "/x")
    have htrim : trimEndSlashes (EntryPath.fromUtf8 "/x").display = "/" ++ "x" := by decide +kernel
    rw [htrim, hglobs.subtree globs set glob hset hmem hglob "x"] at hkept
    cases hkept

/-! ## Globs without classes -/

/-- The text functions with the globs that are made of wildcards only. -/
def wildcardCrates : Crates Unit (List GlobToken) where
  forLabel := fun _ => none
  encodingName := fun _ => "UTF-8"
  utf8 := ()
  decode := fun _ raw => fromUtf8Lossy raw
  decodeWithoutBomHandling := fun _ raw => (fromUtf8Lossy raw, (fromUtf8 raw).isNone)
  guess := fun _ => ()
  buildGlob := fun glob => match globTokens none [] glob.toList with
    | some tokens => .ok tokens
    | none => .error "unsupported syntax"
  buildGlobSet := fun globs => .ok fun name => globs.any fun tokens => globMatches tokens name.toList

theorem wildcardCrates_documented : wildcardCrates.DocumentedGlobs where
  compiles := ⟨[[], [.recursiveSuffix], [.recursivePrefix], [.recursivePrefix, .recursiveSuffix]], _,
    by decide +kernel, rfl⟩
  subtree := by
    intro globs set glob hset hmem hglob name
    cases hset
    have htokens : glob = [.recursiveSuffix] := by
      have hbuilt : wildcardCrates.buildGlob "/**" = .ok [.recursiveSuffix] := by decide +kernel
      rw [hbuilt] at hglob
      exact (Except.ok.inj hglob).symm
    subst htokens
    rw [List.any_eq_true]
    refine ⟨_, hmem, ?_⟩
    rw [String.toList_append]
    exact globMatches_recursiveSuffix name.toList

theorem deletesAsFiltered_wildcards : DeletesAsFiltered wildcardCrates ⟨[], []⟩ "docs/*.md" ↔
    ∃ c ∈ "docs/*.md".toList, c ≠ '/' :=
  deletesAsFiltered_iff wildcardCrates_documented ⟨[], []⟩ "docs/*.md"

/-- The empty pattern deletes `/etc`, and the filter with it shows nothing. -/
theorem empty_pattern_deletes : ¬ DeletesAsFiltered wildcardCrates ⟨[], []⟩ "" := by
  intro h
  have hdeleted : (Deletions.new wildcardCrates [.delete ""] ⟨[], []⟩).toOption.map
      (·.«matches» (.fromUtf8 "/etc")) = some true := by decide +kernel
  have hhidden : (PathFilter.new wildcardCrates.buildGlob wildcardCrates.buildGlobSet [""]).toOption.map
      (·.«matches» (trimEndSlashes (EntryPath.fromUtf8 "/etc").display)) = some false := by decide +kernel
  unfold DeletesAsFiltered at h
  cases hdeletes : Deletions.new wildcardCrates [.delete ""] ⟨[], []⟩ with
  | error fault =>
    rw [hdeletes] at hdeleted
    cases hdeleted
  | ok deletes =>
    cases hfilter : PathFilter.new wildcardCrates.buildGlob wildcardCrates.buildGlobSet [""] with
    | error fault =>
      rw [hfilter] at hhidden
      cases hhidden
    | ok filter =>
      rw [hdeletes, hfilter] at h
      rw [hdeletes] at hdeleted
      rw [hfilter] at hhidden
      have hboth : true = false :=
        (Option.some.inj hdeleted).symm.trans ((h (.fromUtf8 "/etc")).trans (Option.some.inj hhidden))
      cases hboth

end Squallz.Zip
