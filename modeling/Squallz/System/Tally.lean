/-
Tables with sums over their values: how a sum changes when an entry comes, goes or is replaced.
-/
import Mathlib.Data.List.AList
import Mathlib.Algebra.BigOperators.Group.List.Basic
import Mathlib.Algebra.Order.BigOperators.Group.List
import Mathlib.Algebra.Order.Ring.Nat

namespace Squallz.System

/-- A map from keys to values. -/
abbrev Table (K V : Type) := AList fun _ : K => V

namespace Table

variable {K V W : Type}

/-- The sum of a measure over the values. -/
def tally (f : V → Nat) (s : Table K V) : Nat := (s.entries.map fun e => f e.2).sum

theorem nodupKeys_map (g : V → V) {l : List (Sigma fun _ : K => V)} (h : l.NodupKeys) :
    (l.map fun e => (⟨e.1, g e.2⟩ : Sigma fun _ : K => V)).NodupKeys := by
  have hkeys : (l.map fun e => (⟨e.1, g e.2⟩ : Sigma fun _ : K => V)).keys = l.keys := List.map_map ..
  rw [List.NodupKeys, hkeys]
  exact h

/-- Each value replaced under its key. -/
def mapValues (g : V → V) (s : Table K V) : Table K V :=
  ⟨s.entries.map fun e => ⟨e.1, g e.2⟩, nodupKeys_map g s.nodupKeys⟩

variable {f g : V → Nat} {s : Table K V} {k k' : K} {v old : V}

@[simp] theorem tally_empty : tally f (∅ : Table K V) = 0 := rfl

@[simp] theorem tally_mapValues (h : V → V) : tally f (mapValues h s) = tally (fun v => f (h v)) s := by
  unfold tally mapValues
  rw [List.map_map]
  rfl

/-- The values that meet a condition, counted. -/
theorem length_filter_eq (p : V → Bool) : (s.entries.filter fun e => p e.2).length = tally (fun v => (p v).toNat) s := by
  unfold tally
  induction s.entries with
  | nil => rfl
  | cons e l ih =>
    rw [List.map_cons, List.sum_cons, ← ih, List.filter_cons]
    dsimp only
    cases p e.2 with
    | true => rw [if_pos rfl, List.length_cons, Bool.toNat_true, Nat.add_comm]
    | false => rw [if_neg Bool.false_ne_true, Bool.toNat_false, Nat.zero_add]

section Lookup

variable [DecidableEq K]

theorem mem_entries (e : Sigma fun _ : K => V) : e ∈ s.entries ↔ s.lookup e.1 = some e.2 := AList.mem_lookup_iff.symm

/-- A table with an entry is that entry and the table without it. -/
theorem entries_perm (h : s.lookup k = some v) : s.entries.Perm (⟨k, v⟩ :: (s.erase k).entries) := by
  have hmem := (mem_entries ⟨k, v⟩).2 h
  obtain ⟨v', front, back, hfront, heq, herase⟩ := List.exists_of_kerase (List.mem_keys_of_mem hmem)
  have hvalue : v' = v := by
    have hmem' : (⟨k, v'⟩ : Sigma fun _ : K => V) ∈ s.entries := by
      rw [heq]
      exact List.mem_append_right _ List.mem_cons_self
    have h' := (mem_entries ⟨k, v'⟩).1 hmem'
    rw [h] at h'
    exact (Option.some.inj h').symm
  rw [hvalue] at heq
  change s.entries.Perm (⟨k, v⟩ :: s.entries.kerase k)
  rw [herase, heq]
  exact List.perm_middle

theorem tally_erase (h : s.lookup k = some v) : tally f s = f v + tally f (s.erase k) := by
  have hsum := ((entries_perm h).map fun e => f e.2).sum_eq
  rw [List.map_cons, List.sum_cons] at hsum
  exact hsum

theorem erase_of_absent (h : s.lookup k = none) : s.erase k = s :=
  AList.ext (List.kerase_of_notMem_keys fun hmem => (AList.lookup_eq_none.1 h) (AList.mem_keys.2 hmem))

theorem erase_insert (v : V) : (s.insert k v).erase k = s.erase k := by
  refine AList.ext ?_
  change List.kerase k (⟨k, v⟩ :: List.kerase k s.entries) = List.kerase k s.entries
  exact List.kerase_cons_eq rfl

theorem tally_insert (v : V) : tally f (s.insert k v) = f v + tally f (s.erase k) := by
  unfold tally
  rw [AList.entries_insert, List.map_cons, List.sum_cons]
  rfl

theorem tally_insert_fresh (h : s.lookup k = none) : tally f (s.insert k v) = f v + tally f s := by
  rw [tally_insert, erase_of_absent h]

/-- The value under a key is replaced. -/
theorem tally_replace (h : s.lookup k = some old) (v : V) : tally f (s.insert k v) + f old = tally f s + f v := by
  rw [tally_insert, tally_erase h]
  omega

theorem le_tally (h : s.lookup k = some v) : f v ≤ tally f s := by
  rw [tally_erase h]
  exact Nat.le_add_right _ _

theorem tally_erase_le (k : K) : tally f (s.erase k) ≤ tally f s := by
  cases h : s.lookup k with
  | none => rw [erase_of_absent h]
  | some v =>
    rw [tally_erase h]
    exact Nat.le_add_left _ _

theorem tally_le_tally (h : ∀ k v, s.lookup k = some v → f v ≤ g v) : tally f s ≤ tally g s :=
  List.sum_le_sum fun e he => h e.1 e.2 ((mem_entries e).1 he)

theorem tally_congr (h : ∀ k v, s.lookup k = some v → f v = g v) : tally f s = tally g s :=
  Nat.le_antisymm (tally_le_tally fun k v hv => (h k v hv).le) (tally_le_tally fun k v hv => (h k v hv).ge)

theorem lookup_erase_eq_some : (s.erase k).lookup k' = some v ↔ k' ≠ k ∧ s.lookup k' = some v := by
  by_cases h : k' = k
  · subst h
    rw [AList.lookup_erase]
    constructor
    · intro h'
      cases h'
    · intro h'
      exact absurd rfl h'.1
  · rw [AList.lookup_erase_ne h]
    exact ⟨fun h' => ⟨h, h'⟩, fun h' => h'.2⟩

theorem lookup_insert_eq_some : (s.insert k v).lookup k' = some old ↔
    (k' = k ∧ old = v) ∨ (k' ≠ k ∧ s.lookup k' = some old) := by
  by_cases h : k' = k
  · subst h
    rw [AList.lookup_insert]
    constructor
    · intro h'
      cases h'
      exact .inl ⟨rfl, rfl⟩
    · rintro (⟨-, rfl⟩ | ⟨h', -⟩)
      · rfl
      · exact absurd rfl h'
  · rw [AList.lookup_insert_ne h]
    constructor
    · intro h'
      exact .inr ⟨h, h'⟩
    · rintro (⟨h', -⟩ | ⟨-, h'⟩)
      · exact absurd h' h
      · exact h'

/-- A table without some entries on which the measure is nothing. -/
theorem tally_eq_of_subset {s' : Table K V} (hsubset : ∀ k v, s'.lookup k = some v → s.lookup k = some v)
    (hrest : ∀ k v, s.lookup k = some v → s'.lookup k = none → f v = 0) : tally f s' = tally f s := by
  have hkept : (s.entries.filter fun e => (s'.lookup e.1).isSome).Perm s'.entries := by
    refine (List.perm_ext_iff_of_nodup (s.nodupKeys.nodup.filter _) s'.nodupKeys.nodup).2 fun e => ?_
    rw [List.mem_filter, mem_entries, mem_entries]
    constructor
    · rintro ⟨hfound, hsome⟩
      obtain ⟨v, hv⟩ := Option.isSome_iff_exists.1 hsome
      have hv' := hsubset _ _ hv
      rw [hfound] at hv'
      rw [hv, Option.some.inj hv']
    · intro hfound
      exact ⟨hsubset _ _ hfound, by rw [hfound]; rfl⟩
  have hgone : ((s.entries.filter fun e => !(s'.lookup e.1).isSome).map fun e => f e.2).sum = 0 := by
    refine List.sum_eq_zero fun n hn => ?_
    obtain ⟨e, he, rfl⟩ := List.mem_map.1 hn
    obtain ⟨hmem, hnone⟩ := List.mem_filter.1 he
    rw [Bool.not_eq_true', Option.isSome_eq_false_iff, Option.isNone_iff_eq_none] at hnone
    exact hrest _ _ ((mem_entries e).1 hmem) hnone
  have hsplit := ((List.filter_append_perm (fun e => (s'.lookup e.1).isSome) s.entries).map fun e => f e.2).sum_eq
  rw [List.map_append, List.sum_append, hgone, Nat.add_zero, (hkept.map _).sum_eq] at hsplit
  exact hsplit

theorem lookup_mapValues (g : V → V) : (mapValues g s).lookup k = (s.lookup k).map g := by
  unfold mapValues AList.lookup
  dsimp only
  induction s.entries with
  | nil => rfl
  | cons e l ih =>
    obtain ⟨k', v⟩ := e
    rw [List.map_cons]
    by_cases h : k = k'
    · subst h
      rw [List.dlookup_cons_eq, List.dlookup_cons_eq]
      rfl
    · rw [List.dlookup_cons_ne _ _ h, List.dlookup_cons_ne _ _ h, ih]

/-- A list of keys taken out, one after the other. -/
def eraseAll (ks : List K) (s : Table K V) : Table K V := ks.foldl (fun s k => s.erase k) s

theorem lookup_eraseAll_eq_some {ks : List K} :
    (eraseAll ks s).lookup k = some v ↔ k ∉ ks ∧ s.lookup k = some v := by
  unfold eraseAll
  induction ks generalizing s with
  | nil => simp
  | cons k' ks ih =>
    rw [List.foldl_cons, ih, lookup_erase_eq_some, List.mem_cons, not_or]
    constructor
    · rintro ⟨hks, hk, h⟩
      exact ⟨⟨hk, hks⟩, h⟩
    · rintro ⟨⟨hk, hks⟩, h⟩
      exact ⟨hks, hk, h⟩

theorem tally_eraseAll_le (ks : List K) : tally f (eraseAll ks s) ≤ tally f s := by
  unfold eraseAll
  induction ks generalizing s with
  | nil => exact Nat.le_refl _
  | cons k ks ih =>
    rw [List.foldl_cons]
    exact ih.trans (tally_erase_le k)

end Lookup

end Table

end Squallz.System
