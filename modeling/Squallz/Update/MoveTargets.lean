/-
The targets of planned moves: taken as planned where nothing is in the way and as a copy elsewhere, they are
different from each other, free, outside their own sources, and cover every selected entry.
-/
import Squallz.Update.MovePlan

namespace Squallz.Update

open Squallz.Api Squallz.Text

/-! ## Paths with slashes -/

section Slashes

variable {dir base : List Char}

theorem endsWithSlash_iff {path : String} : endsWithSlash path = true ↔ ∃ front, path.toList = front ++ ['/'] := by
  unfold endsWithSlash
  rw [beq_iff_eq, List.getLast?_eq_some_iff]

/-- Trimming keeps a path that ends with a component. -/
theorem trimEndSlashes_component (hbase : '/' ∉ base) (hne : base ≠ []) :
    trimEndSlashes (.ofList (dir ++ base)) = .ofList (dir ++ base) := by
  unfold trimEndSlashes
  rw [String.toList_ofList, List.rdropWhile_eq_self_iff.2]
  intro hl
  rw [List.getLast_append_of_ne_nil _ hne]
  intro h
  rw [beq_iff_eq] at h
  exact hbase (h ▸ List.getLast_mem hne)

theorem trimEndSlashes_concat (path : String) : trimEndSlashes (path ++ "/") = trimEndSlashes path := by
  unfold trimEndSlashes
  rw [String.toList_append, show "/".toList = ['/'] from rfl, List.rdropWhile_concat_pos _ _ _ (by rfl)]

theorem trimEndSlashes_isPrefix (path : String) : (trimEndSlashes path).toList <+: path.toList := by
  unfold trimEndSlashes
  rw [String.toList_ofList]
  exact List.rdropWhile_prefix _ _

end Slashes

/-! ## Items -/

theorem validateTarget_ok {path : String} (h : validateTarget path = .ok ()) :
    trimEndSlashes path ≠ "" ∧ path.toList.head? ≠ some '/' := by
  obtain ⟨relative, hrelative, h⟩ := bind_eq_ok.1 h
  dsimp only at h
  split at h
  · cases h
  · rename_i hcanonical
    obtain ⟨hkey, hne⟩ := not_or.1 hcanonical
    rw [ne_eq, not_not] at hkey
    refine ⟨hkey ▸ hne, fun hhead => ?_⟩
    unfold sanitizeEntryPath at hrelative
    have hslash : (replaceBackslashes (EntryPath.fromUtf8 path).display).toList.head? = some '/' := by
      unfold replaceBackslashes EntryPath.fromUtf8
      rw [String.toList_ofList, List.head?_map, hhead]
      rfl
    rw [if_pos hslash] at hrelative
    cases hrelative

/-- What an item is made of. -/
structure Made (targetDir : String) (item : ArchiveMoveItem) : Prop where
  toPath_eq : item.toPath = targetDir ++ .ofList (lastComponent (trimEndSlashes item.fromPath)) ++
    if endsWithSlash item.fromPath then "/" else ""
  valid : validateTarget item.toPath = .ok ()
  toPath_ne : item.toPath ≠ item.fromPath
  outside : endsWithSlash item.fromPath = true → startsWith targetDir item.fromPath = false

theorem moveItem_ok {targetDir path : String} {item : ArchiveMoveItem} (h : moveItem targetDir path = .ok item) :
    item.fromPath = path ∧ Made targetDir item := by
  obtain ⟨u, hvalid, h⟩ := bind_eq_ok.1 h
  generalize htoPath : (targetDir ++ String.ofList (lastComponent (trimEndSlashes path)) ++
    if endsWithSlash path then "/" else "") = toPath at h hvalid
  split at h
  · cases h
  · rename_i hplace
    cases h
    obtain ⟨hne, houtside⟩ := not_or.1 hplace
    exact ⟨rfl, htoPath.symm, hvalid, hne, fun hdir => by simpa [hdir] using houtside⟩

/-- The items are made of selected paths that exist, and every path becomes one, is missing, or is left out. -/
theorem collectItems_ok {selected : List String} {targetDir : String} {existsAt : String → Bool}
    {rest seen : List String} {items : List ArchiveMoveItem} {missing : List String}
    (h : collectItems selected targetDir existsAt rest seen = .ok (items, missing)) :
    (∀ item ∈ items, existsAt item.fromPath = true ∧ Made targetDir item) ∧ items.length ≤ rest.length ∧
      ∀ path ∈ rest, path ∈ seen ∨ belowSelected selected path = true ∨ path ∈ missing ∨
        ∃ item ∈ items, item.fromPath = path := by
  induction rest generalizing seen items missing with
  | nil =>
    cases h
    exact ⟨by simp, Nat.le_refl _, by simp⟩
  | cons path rest ih =>
    rw [collectItems] at h
    split at h
    · rename_i hskip
      obtain ⟨hitems, hlen, hrest⟩ := ih h
      refine ⟨hitems, Nat.le_succ_of_le hlen, fun other hother => ?_⟩
      rcases List.mem_cons.1 hother with rfl | hother
      · exact hskip.elim .inl fun hbelow => .inr (.inl hbelow)
      · rcases hrest other hother with hseen | hdone
        · rcases List.mem_cons.1 hseen with rfl | hseen
          · exact hskip.elim .inl fun hbelow => .inr (.inl hbelow)
          · exact .inl hseen
        · exact .inr hdone
    · split at h
      · obtain ⟨⟨items', missing'⟩, hcollect, h⟩ := bind_eq_ok.1 h
        cases h
        obtain ⟨hitems, hlen, hrest⟩ := ih hcollect
        refine ⟨hitems, Nat.le_succ_of_le hlen, fun other hother => ?_⟩
        rcases List.mem_cons.1 hother with rfl | hother
        · exact .inr (.inr (.inl List.mem_cons_self))
        · rcases hrest other hother with hseen | hbelow | hmissing | hitem
          · rcases List.mem_cons.1 hseen with rfl | hseen
            · exact .inr (.inr (.inl List.mem_cons_self))
            · exact .inl hseen
          · exact .inr (.inl hbelow)
          · exact .inr (.inr (.inl (List.mem_cons_of_mem _ hmissing)))
          · exact .inr (.inr (.inr hitem))
      · rename_i hexists
        obtain ⟨item, hitem, h⟩ := bind_eq_ok.1 h
        obtain ⟨⟨items', missing'⟩, hcollect, h⟩ := bind_eq_ok.1 h
        cases h
        obtain ⟨hfrom, hmade⟩ := moveItem_ok hitem
        obtain ⟨hitems, hlen, hrest⟩ := ih hcollect
        have hthis : ∃ other ∈ item :: items', other.fromPath = path := ⟨item, List.mem_cons_self, hfrom⟩
        refine ⟨?_, Nat.succ_le_succ hlen, fun other hother => ?_⟩
        · rw [List.forall_mem_cons]
          refine ⟨⟨?_, hmade⟩, hitems⟩
          rw [hfrom]
          simpa using hexists
        · rcases List.mem_cons.1 hother with rfl | hother
          · exact .inr (.inr (.inr hthis))
          · rcases hrest other hother with hseen | hbelow | hmissing | ⟨item', hitem', hfrom'⟩
            · rcases List.mem_cons.1 hseen with rfl | hseen
              · exact .inr (.inr (.inr hthis))
              · exact .inl hseen
            · exact .inr (.inl hbelow)
            · exact .inr (.inr (.inl hmissing))
            · exact .inr (.inr (.inr ⟨item', List.mem_cons_of_mem _ hitem', hfrom'⟩))

/-! ## Copy names -/

theorem copySuffix_injective : Function.Injective copySuffix := by
  intro m n h
  have hlen : ∀ k, k ≠ 1 → (copySuffix k).length ≠ (copySuffix 1).length := by
    intro k hk heq
    rw [copySuffix, if_neg hk, copySuffix, if_pos rfl, List.length_append,
      show " copy ".toList.length = 6 from rfl, show " copy".toList.length = 5 from rfl] at heq
    omega
  by_cases hm : m = 1
  · by_cases hn : n = 1
    · rw [hm, hn]
    · exact absurd (congrArg List.length h).symm (hm ▸ hlen n hn)
  · by_cases hn : n = 1
    · exact absurd (congrArg List.length h) (hn ▸ hlen m hm)
    · rw [copySuffix, if_neg hm, copySuffix, if_neg hn] at h
      exact decimal_injective (List.append_cancel_left h)

theorem copyName_injective (stem ext : List Char) : Function.Injective (copyName stem ext) := by
  intro m n h
  have hlist := String.ofList_injective h
  rw [List.append_assoc, List.append_assoc] at hlist
  exact copySuffix_injective (List.append_cancel_right (List.append_cancel_left hlist))

theorem not_slash_mem_copySuffix (copy : Nat) : '/' ∉ copySuffix copy := by
  have hdecimal : '/' ∉ decimal copy := fun h => by
    have := isDigit_of_mem_decimal h
    revert this
    decide
  unfold copySuffix
  split
  · decide
  · rw [List.mem_append]
    rintro (h | h)
    · revert h
      decide
    · exact hdecimal h

theorem copySuffix_ne_nil (copy : Nat) : copySuffix copy ≠ [] := by
  unfold copySuffix
  split
  · decide
  · exact List.append_ne_nil_of_left_ne_nil (by decide) _

/-- A copy name differs from its key in the last component alone. -/
theorem copyName_eq (directory : Bool) (key : List Char) (copy : Nat) :
    ∃ base, copyName (splitExtension directory key).1 (splitExtension directory key).2 copy =
        .ofList (key.rdropWhile (· != '/') ++ base) ∧ '/' ∉ base ∧ base ≠ [] := by
  have hkey : key.rdropWhile (· != '/') ++ key.rtakeWhile (· != '/') = key := List.rdropWhile_append_rtakeWhile
  have hnot : '/' ∉ key.rtakeWhile (· != '/') := not_mem_rtakeWhile key
  have hplain : ∃ base, copyName key [] copy = .ofList (key.rdropWhile (· != '/') ++ base) ∧ '/' ∉ base ∧ base ≠ [] := by
    refine ⟨key.rtakeWhile (· != '/') ++ copySuffix copy, ?_, ?_, ?_⟩
    · rw [copyName, List.append_nil, ← List.append_assoc, hkey]
    · rw [List.mem_append]
      exact not_or.2 ⟨hnot, not_slash_mem_copySuffix copy⟩
    · exact List.append_ne_nil_of_right_ne_nil _ (copySuffix_ne_nil copy)
  unfold splitExtension
  dsimp only
  split
  · exact hplain
  · split
    · rename_i index _
      split
      · have hstart : key.length - (key.rtakeWhile (· != '/')).length = (key.rdropWhile (· != '/')).length := by
          have := congrArg List.length hkey
          rw [List.length_append] at this
          omega
        generalize hdir : key.rdropWhile (· != '/') = dir at *
        generalize key.rtakeWhile (· != '/') = base at *
        subst hkey
        rw [hstart, List.take_length_add_append, List.drop_length_add_append]
        refine ⟨base.take index ++ copySuffix copy ++ base.drop index, ?_, ?_, ?_⟩
        · rw [copyName]
          simp only [List.append_assoc]
        · rw [List.mem_append, List.mem_append]
          rintro ((h | h) | h)
          · exact hnot (List.mem_of_mem_take h)
          · exact not_slash_mem_copySuffix copy h
          · exact hnot (List.mem_of_mem_drop h)
        · exact List.append_ne_nil_of_left_ne_nil
            (List.append_ne_nil_of_right_ne_nil _ (copySuffix_ne_nil copy)) _
      · exact hplain
    · exact hplain

/-- The loop ends with the first name that is not taken, or has found all the numbers left taken. -/
theorem freeCopy_cases (taken : String → Bool) (name : Nat → String) (left copy : Nat) :
    (∃ n, freeCopy taken name left copy = .ok (name n, n + 1) ∧ copy ≤ n ∧ taken (name n) = false ∧
        ∀ m, copy ≤ m → m < n → taken (name m) = true) ∨
      (freeCopy taken name left copy = raise (.resourceLimitExceeded "move copy names exhausted") ∧
        ∀ m, copy ≤ m → m < copy + left → taken (name m) = true) := by
  induction left generalizing copy with
  | zero => exact .inr ⟨rfl, fun m hle hlt => by omega⟩
  | succ left ih =>
    rw [freeCopy]
    cases htaken : taken (name copy) with
    | false => exact .inl ⟨copy, rfl, Nat.le_refl _, htaken, fun m hle hlt => by omega⟩
    | true =>
      have hstep : ∀ {m : Nat}, copy ≤ m → (copy + 1 ≤ m → taken (name m) = true) → taken (name m) = true := by
        intro m hle h
        rcases Nat.eq_or_lt_of_le hle with rfl | hlt
        · exact htaken
        · exact h hlt
      simp only [if_true]
      rcases ih (copy + 1) with ⟨n, hn, hle, hfree, hbefore⟩ | ⟨hnone, hall⟩
      · exact .inl ⟨n, hn, by omega, hfree, fun m hm hlt => hstep hm fun hm => hbefore m hm hlt⟩
      · exact .inr ⟨hnone, fun m hm hlt => hstep hm fun hm => hall m hm (by omega)⟩

theorem freeCopy_ok {taken : String → Bool} {name : Nat → String} {left copy next : Nat} {candidate : String}
    (h : freeCopy taken name left copy = .ok (candidate, next)) :
    ∃ n, candidate = name n ∧ taken candidate = false := by
  rcases freeCopy_cases taken name left copy with ⟨n, hn, -, hfree, -⟩ | ⟨hnone, -⟩
  · rw [hn] at h
    cases h
    exact ⟨n, rfl, hfree⟩
  · rw [hnone] at h
    cases h

/-! ## Resolving -/

/-- The target that is chosen for an item: its own without a conflict, else the one that keeps both. -/
def ArchiveMoveItem.chosen (item : ArchiveMoveItem) : Option String :=
  match item.conflict with
  | none => some item.toPath
  | some _ => item.keepBothTo

def ArchiveMoveItem.chosenKey (item : ArchiveMoveItem) : Option String := item.chosen.map trimEndSlashes

/-- The target of an item, with what it resolves to. -/
inductive Resolved (existsAt : String → Bool) (item : ArchiveMoveItem) : ArchiveMoveItem → String → Prop
  | planned (free : occupied existsAt (trimEndSlashes item.toPath) = false) :
      Resolved existsAt item { item with conflict := none } item.toPath
  | copied (conflict : ArchiveMoveConflict) {base : List Char} (hbase : '/' ∉ base) (hne : base ≠ [])
      (free : occupied existsAt
        (.ofList ((trimEndSlashes item.toPath).toList.rdropWhile (· != '/') ++ base)) = false) :
      Resolved existsAt item
        { item with
          conflict := some conflict
          keepBothTo := some (.ofList ((trimEndSlashes item.toPath).toList.rdropWhile (· != '/') ++ base) ++
            if endsWithSlash item.toPath then "/" else "") }
        (.ofList ((trimEndSlashes item.toPath).toList.rdropWhile (· != '/') ++ base) ++
          if endsWithSlash item.toPath then "/" else "")

section Resolved

variable {existsAt : String → Bool} {item item' : ArchiveMoveItem} {target : String}

theorem Resolved.fromPath_eq (h : Resolved existsAt item item' target) : item'.fromPath = item.fromPath := by
  cases h with
  | planned => rfl
  | copied => rfl

theorem Resolved.chosen_eq (h : Resolved existsAt item item' target) : item'.chosen = some target := by
  cases h with
  | planned => rfl
  | copied => rfl

theorem trimEndSlashes_copied {dir base : List Char} (hbase : '/' ∉ base) (hne : base ≠ []) (directory : Bool) :
    trimEndSlashes (.ofList (dir ++ base) ++ if directory then "/" else "") = .ofList (dir ++ base) := by
  cases directory with
  | false =>
    rw [if_neg Bool.false_ne_true, String.append_empty]
    exact trimEndSlashes_component hbase hne
  | true =>
    rw [if_pos rfl, trimEndSlashes_concat]
    exact trimEndSlashes_component hbase hne

theorem Resolved.free (h : Resolved existsAt item item' target) :
    occupied existsAt (trimEndSlashes target) = false := by
  cases h with
  | planned free => exact free
  | copied conflict hbase hne free => rwa [trimEndSlashes_copied hbase hne]

end Resolved

/-- One item of the loop: it keeps its target, or gets a copy name that is new. -/
theorem resolveItems_cons {counts : String → Nat} {existsAt : String → Bool} {item : ArchiveMoveItem}
    {items : List ArchiveMoveItem} {reserved : List String} {nextCopy : String → Nat}
    {resolved : List ArchiveMoveItem} (h : resolveItems counts existsAt (item :: items) reserved nextCopy = .ok resolved) :
    ∃ item' target nextCopy' rest, Resolved existsAt item item' target ∧ resolved = item' :: rest ∧
      ((counts (trimEndSlashes item.toPath) ≤ 1 ∧ target = item.toPath ∧
          resolveItems counts existsAt items reserved nextCopy' = .ok rest) ∨
        (trimEndSlashes target ∉ reserved ∧
          resolveItems counts existsAt items (trimEndSlashes target :: reserved) nextCopy' = .ok rest)) := by
  rw [resolveItems] at h
  dsimp only at h
  split at h
  · rename_i hconflict
    split at hconflict
    · cases hconflict
    rename_i hfree
    split at hconflict
    · cases hconflict
    rename_i hsingle
    rw [Bool.not_eq_true] at hfree
    obtain ⟨rest, hrest, h⟩ := bind_eq_ok.1 h
    cases h
    exact ⟨_, _, nextCopy, rest, .planned hfree, rfl, .inl ⟨Nat.le_of_not_lt hsingle, rfl, hrest⟩⟩
  · rename_i conflict hconflict
    obtain ⟨⟨candidate, copy⟩, hcopy, h⟩ := bind_eq_ok.1 h
    obtain ⟨rest, hrest, h⟩ := bind_eq_ok.1 h
    cases h
    obtain ⟨n, hname, hfree⟩ := freeCopy_ok hcopy
    obtain ⟨hnew, hfree⟩ := Bool.or_eq_false_iff.1 hfree
    obtain ⟨base, hbase, hnot, hne⟩ :=
      copyName_eq (endsWithSlash item.toPath) (trimEndSlashes item.toPath).toList n
    rw [hname, hbase] at hnew hfree hrest ⊢
    refine ⟨_, _, fun other => if other = trimEndSlashes item.toPath then copy else nextCopy other, rest,
      .copied conflict hnot hne hfree, rfl, .inr ?_⟩
    rw [trimEndSlashes_copied hnot hne]
    exact ⟨by simpa using hnew, hrest⟩

/-- The resolved items with their targets: each is chosen as the relation says, and no two keys are the same. -/
theorem resolveItems_ok {counts : String → Nat} {existsAt : String → Bool} {items : List ArchiveMoveItem}
    {reserved : List String} {nextCopy : String → Nat} {resolved : List ArchiveMoveItem}
    (h : resolveItems counts existsAt items reserved nextCopy = .ok resolved)
    (hreserved : ∀ item ∈ items, trimEndSlashes item.toPath ∈ reserved)
    (hcounts : ∀ key, (items.map fun item => trimEndSlashes item.toPath).count key ≤ counts key) :
    (∀ item' ∈ resolved, ∃ item ∈ items, ∃ target, Resolved existsAt item item' target ∧
        (trimEndSlashes target ∈ items.map (fun item => trimEndSlashes item.toPath) ∨
          trimEndSlashes target ∉ reserved)) ∧
      (resolved.map ArchiveMoveItem.chosenKey).Nodup ∧
      resolved.map ArchiveMoveItem.fromPath = items.map ArchiveMoveItem.fromPath := by
  induction items generalizing reserved nextCopy resolved with
  | nil =>
    cases h
    exact ⟨by simp, List.nodup_nil, rfl⟩
  | cons item items ih =>
    rw [List.forall_mem_cons] at hreserved
    obtain ⟨hkey, hkeys⟩ := hreserved
    have hcounts' : ∀ key, (items.map fun item => trimEndSlashes item.toPath).count key ≤ counts key :=
      fun key => Nat.le_trans List.count_le_count_cons (hcounts key)
    obtain ⟨item', target, nextCopy', rest, hresolved, rfl, hcase⟩ := resolveItems_cons h
    have hchosen : item'.chosenKey = some (trimEndSlashes target) := by
      rw [ArchiveMoveItem.chosenKey, hresolved.chosen_eq, Option.map_some]
    -- the names reserved for the rest, and that the key of this target is among them but is no key of the rest
    obtain ⟨reserved', hsub, hin, hout, hthis, hrest⟩ : ∃ reserved', reserved ⊆ reserved' ∧
        trimEndSlashes target ∈ reserved' ∧
        trimEndSlashes target ∉ items.map (fun item => trimEndSlashes item.toPath) ∧
        (trimEndSlashes target ∈ (item :: items).map (fun item => trimEndSlashes item.toPath) ∨
          trimEndSlashes target ∉ reserved) ∧
        resolveItems counts existsAt items reserved' nextCopy' = .ok rest := by
      rcases hcase with ⟨hsingle, rfl, hrest⟩ | ⟨hnew, hrest⟩
      · refine ⟨reserved, fun _ hk => hk, hkey, fun hmem => ?_, .inl List.mem_cons_self, hrest⟩
        have hcount := hcounts (trimEndSlashes item.toPath)
        rw [List.map_cons, List.count_cons_self] at hcount
        have := List.count_pos_iff.2 hmem
        omega
      · refine ⟨trimEndSlashes target :: reserved, List.subset_cons_self _ _, List.mem_cons_self, fun hmem => ?_,
          .inr hnew, hrest⟩
        obtain ⟨other, hother, heq⟩ := List.mem_map.1 hmem
        exact hnew (heq ▸ hkeys other hother)
    obtain ⟨hall, hnodup, hfrom⟩ := ih hrest (fun other hother => hsub (hkeys other hother)) hcounts'
    refine ⟨?_, ?_, ?_⟩
    · rw [List.forall_mem_cons]
      refine ⟨⟨item, List.mem_cons_self, target, hresolved, hthis⟩, fun other hother => ?_⟩
      obtain ⟨source, hsource, target', hresolved', hkey'⟩ := hall other hother
      exact ⟨source, List.mem_cons_of_mem _ hsource, target', hresolved',
        hkey'.imp (List.mem_cons_of_mem _) fun hnew hold => hnew (hsub hold)⟩
    · rw [List.map_cons, List.nodup_cons]
      refine ⟨fun hmem => ?_, hnodup⟩
      obtain ⟨other, hother, heq⟩ := List.mem_map.1 hmem
      obtain ⟨source, -, target', hresolved', hkey'⟩ := hall other hother
      rw [hchosen, ArchiveMoveItem.chosenKey, hresolved'.chosen_eq, Option.map_some, Option.some.injEq] at heq
      rw [heq] at hkey'
      exact hkey'.elim hout fun hnot => hnot hin
    · rw [List.map_cons, List.map_cons, hfrom, hresolved.fromPath_eq]

/-! ## Outside the source -/

/-- A target inside its source: below it as a directory. -/
def Inside (source target : String) : Prop :=
  (if endsWithSlash source then source else source ++ "/").toList <+: target.toList

section Outside

variable {existsAt : String → Bool} {targetDir : String} {item item' : ArchiveMoveItem} {target : String}

/-- A path that ends with a slash as an entry has it, and what stands before that slash. -/
theorem exists_slashed (source : String) :
    ∃ front, (if endsWithSlash source then source else source ++ "/").toList = front ++ ['/'] := by
  split
  · rename_i h
    exact endsWithSlash_iff.1 h
  · exact ⟨source.toList, by rw [String.toList_append]; rfl⟩

/-- The planned target of an item is its directory and one component. -/
theorem Made.toList_toPath (h : Made targetDir item) : ∃ base, '/' ∉ base ∧
    (item.toPath.toList = targetDir.toList ++ base ∨ item.toPath.toList = targetDir.toList ++ base ++ ['/']) := by
  refine ⟨lastComponent (trimEndSlashes item.fromPath), not_mem_rtakeWhile _, ?_⟩
  rw [h.toPath_eq]
  split
  · refine .inr ?_
    rw [String.toList_append, String.toList_append, String.toList_ofList]
    rfl
  · refine .inl ?_
    rw [String.append_empty, String.toList_append, String.toList_ofList]

/-- What is inside the planned target is inside the target directory, or is that target. -/
theorem Made.prefix_toPath (h : Made targetDir item) {front : List Char}
    (hfront : front ++ ['/'] <+: item.toPath.toList) :
    front ++ ['/'] <+: targetDir.toList ∨ front ++ ['/'] = item.toPath.toList := by
  obtain ⟨base, hbase, heq | heq⟩ := h.toList_toPath
  · rw [heq] at hfront
    exact .inl (prefix_of_separator hbase hfront)
  · rw [heq] at hfront ⊢
    exact prefix_of_separator_concat hbase hfront

/-- The planned target is not its own source, taken as a directory. -/
theorem Made.slashed_ne (h : Made targetDir item) :
    (if endsWithSlash item.fromPath then item.fromPath else item.fromPath ++ "/") ≠ item.toPath := by
  by_cases hdir : endsWithSlash item.fromPath = true
  · rw [if_pos hdir]
    exact h.toPath_ne.symm
  · rw [if_neg hdir]
    intro heq
    -- a file's target ends with a slash only if the file has no name at all
    obtain ⟨hne, hhead⟩ := validateTarget_ok h.valid
    have hpath := h.toPath_eq
    rw [if_neg hdir, String.append_empty, ← heq] at hpath
    have hlist := congrArg String.toList hpath
    rw [String.toList_append, String.toList_append, String.toList_ofList, String.toList_ofList] at hlist
    rcases List.eq_nil_or_concat (lastComponent (trimEndSlashes item.fromPath)) with hnil | ⟨base, c, hbase⟩
    · have hempty : (trimEndSlashes item.fromPath).toList = [] := by
        by_contra hnonempty
        have hlast := List.rtakeWhile_eq_nil_iff.1 hnil hnonempty
        have hslash := List.rdropWhile_last_not (· == '/') item.fromPath.toList
        unfold trimEndSlashes at hlast hnonempty
        simp only [String.toList_ofList] at hlast hnonempty
        have := hslash hnonempty
        simp at hlast this
        exact this hlast
      have hall : ∀ c ∈ item.fromPath.toList, c = '/' := by
        unfold trimEndSlashes at hempty
        rw [String.toList_ofList, List.rdropWhile_eq_nil_iff] at hempty
        exact fun c hc => by simpa using hempty c hc
      rcases hchars : item.fromPath.toList with _ | ⟨c, rest⟩
      · refine hhead ?_
        rw [← heq, String.toList_append, hchars]
        rfl
      · rw [hchars] at hall
        refine hhead ?_
        rw [← heq, String.toList_append, hchars, hall c List.mem_cons_self]
        rfl
    · have hc : c = '/' := by
        rw [hbase, List.concat_eq_append, ← List.append_assoc] at hlist
        exact (List.singleton_inj.1 (List.append_inj' hlist rfl).2).symm
      have hmem : c ∈ lastComponent (trimEndSlashes item.fromPath) := by
        rw [hbase]
        simp
      exact not_mem_rtakeWhile _ (hc ▸ hmem)

/-- No item's source has the target directory inside it. -/
theorem Made.not_prefix_targetDir (h : Made targetDir item) (hchecked : checkTargetDir targetDir = .ok ())
    (hexists : existsAt item.fromPath = true) (hblocked : blockedTargetDir targetDir existsAt = none) :
    ¬ (if endsWithSlash item.fromPath then item.fromPath else item.fromPath ++ "/").toList <+: targetDir.toList := by
  intro hfront
  by_cases hdir : endsWithSlash item.fromPath = true
  · rw [if_pos hdir] at hfront
    have := h.outside hdir
    unfold startsWith at this
    rw [List.isPrefixOf_iff_prefix.2 hfront] at this
    cases this
  · rw [if_neg hdir, String.toList_append, show "/".toList = ['/'] from rfl] at hfront
    have hne : targetDir ≠ "" := by
      rintro rfl
      have := List.prefix_nil.1 hfront
      simp at this
    have hvalid : validateTarget targetDir = .ok () := by
      unfold checkTargetDir at hchecked
      rw [if_neg hne] at hchecked
      obtain ⟨u, hvalid, -⟩ := bind_eq_ok.1 hchecked
      exact hvalid
    obtain ⟨-, hhead⟩ := validateTarget_ok hvalid
    unfold blockedTargetDir at hblocked
    split at hblocked
    · cases hblocked
    rename_i hparents
    dsimp only at hblocked
    split at hblocked
    · cases hblocked
    rename_i hkey
    have hparent : ∀ front ∈ beforeSeparators '/' (trimEndSlashes targetDir).toList, existsAt (.ofList front) = false := by
      intro front hfront
      have := List.find?_eq_none.1 hparents (.ofList front) (List.mem_map_of_mem hfront)
      simpa using this
    obtain ⟨k, hk⟩ := exists_slashes targetDir.toList
    have htrim : (trimEndSlashes targetDir).toList = targetDir.toList.rdropWhile (· == '/') := by
      unfold trimEndSlashes
      rw [String.toList_ofList]
    rw [← htrim] at hk
    -- the source is above the directory, or is the directory as a file
    rcases List.prefix_or_prefix_of_prefix hfront (trimEndSlashes_isPrefix targetDir) with habove | hbelow
    · have := hparent _ (mem_beforeSeparators.2 habove)
      rw [String.ofList_toList, hexists] at this
      cases this
    · rcases List.prefix_concat_iff.1 hbelow with heq | hle
      · have habove : item.fromPath.toList ++ ['/'] <+: (trimEndSlashes targetDir).toList := by rw [heq]
        have := hparent _ (mem_beforeSeparators.2 habove)
        rw [String.ofList_toList, hexists] at this
        cases this
      · obtain ⟨rest, hrest⟩ := hle
        rw [← hrest, hk, List.append_assoc, List.prefix_append_right_inj] at hfront
        have hslash : ∀ c ∈ rest, c = '/' := fun c hc =>
          List.eq_of_mem_replicate (hfront.subset (List.mem_append_left _ hc))
        rcases List.eq_nil_or_concat rest with rfl | ⟨front, c, rfl⟩
        · rw [List.append_nil] at hrest
          have hsame : trimEndSlashes targetDir = item.fromPath := String.toList_inj.1 hrest
          refine hkey ⟨fun hempty => hhead ?_, hsame ▸ hexists⟩
          have hnil : (trimEndSlashes targetDir).toList = [] := by rw [hempty]; rfl
          rw [hk, hnil, List.nil_append]
          rcases k with _ | k
          · rw [hnil] at hk
            exact absurd (String.toList_inj.1 (hk.trans rfl)) hne
          · rfl
        · refine hdir (endsWithSlash_iff.2 ⟨(trimEndSlashes targetDir).toList ++ front, ?_⟩)
          rw [← hrest, hslash c (by simp), List.concat_eq_append, List.append_assoc]

/-- The target chosen for an item is outside its source. -/
theorem Resolved.not_inside (h : Resolved existsAt item item' target) (hmade : Made targetDir item)
    (hchecked : checkTargetDir targetDir = .ok ()) (hexists : existsAt item.fromPath = true)
    (hblocked : blockedTargetDir targetDir existsAt = none) : ¬ Inside item'.fromPath target := by
  unfold Inside
  rw [h.fromPath_eq]
  have hdir := hmade.not_prefix_targetDir hchecked hexists hblocked
  have hne := hmade.slashed_ne
  obtain ⟨front, hfront⟩ := exists_slashed item.fromPath
  have hplanned : ¬ front ++ ['/'] <+: item.toPath.toList := by
    intro hle
    rw [← String.toList_inj.ne, hfront] at hne
    rw [hfront] at hdir
    exact (hmade.prefix_toPath hle).elim hdir hne
  rw [hfront]
  cases h with
  | planned free => exact hplanned
  | copied conflict hbase hnil free =>
    rename_i base
    intro hle
    have hkey : (trimEndSlashes item.toPath).toList.rdropWhile (· != '/') <+: item.toPath.toList :=
      (List.rdropWhile_prefix _ _).trans (trimEndSlashes_isPrefix _)
    by_cases hslash : endsWithSlash item.toPath = true
    · rw [if_pos hslash, String.toList_append, String.toList_ofList, show "/".toList = ['/'] from rfl] at hle
      rcases prefix_of_separator_concat hbase hle with hin | heq
      · exact hplanned (hin.trans hkey)
      · -- the copy would be the source itself, which exists
        have hsource : (if endsWithSlash item.fromPath then item.fromPath else item.fromPath ++ "/") =
            .ofList ((trimEndSlashes item.toPath).toList.rdropWhile (· != '/') ++ base) ++ "/" := by
          rw [← String.toList_inj, hfront, heq, String.toList_append, String.toList_ofList]
          rfl
        obtain ⟨hfile, hdirectory⟩ := Bool.or_eq_false_iff.1 free
        by_cases hsourceDir : endsWithSlash item.fromPath = true
        · rw [if_pos hsourceDir] at hsource
          rw [← hsource, hexists] at hdirectory
          cases hdirectory
        · rw [if_neg hsourceDir] at hsource
          have hsame := String.toList_inj.2 hsource
          rw [String.toList_append, String.toList_append, List.append_left_inj, String.toList_inj] at hsame
          rw [← hsame, hexists] at hfile
          cases hfile
    · rw [if_neg hslash, String.append_empty, String.toList_ofList] at hle
      exact hplanned ((prefix_of_separator hbase hle).trans hkey)

end Outside

/-! ## Coverage -/

/-- A path below a selected directory: the directory's name, with its slash, is a proper prefix. -/
def Below (path directory : String) : Prop :=
  endsWithSlash directory = true ∧ directory.toList <+: path.toList ∧ directory ≠ path

theorem below_of_belowSelected {selected : List String} {path : String} (h : belowSelected selected path = true) :
    ∃ directory ∈ selected, Below path directory ∧ directory.toList.length < path.toList.length := by
  obtain ⟨front, hfront, h⟩ := List.any_eq_true.1 h
  rw [Bool.and_eq_true, decide_eq_true_eq, List.contains_iff_mem] at h
  obtain ⟨hlt, hmem⟩ := h
  have hlist : (String.ofList (front ++ ['/'])).toList = front ++ ['/'] := String.toList_ofList
  have hlen : (String.ofList (front ++ ['/'])).toList.length < path.toList.length := by
    rw [hlist, List.length_append]
    exact hlt
  refine ⟨_, hmem, ⟨endsWithSlash_iff.2 ⟨front, hlist⟩, ?_, fun heq => ?_⟩, hlen⟩
  · rw [hlist]
    exact mem_beforeSeparators.1 hfront
  · rw [heq] at hlen
    exact Nat.lt_irrefl _ hlen

/-- If every path is an item or lies below a selected one, it is an item or lies below a directory that is one. -/
theorem covered {selected : List String} {isItem : String → Prop}
    (h : ∀ path ∈ selected, belowSelected selected path = true ∨ isItem path) (path : String) (hpath : path ∈ selected) :
    isItem path ∨ ∃ directory, isItem directory ∧ Below path directory := by
  generalize hlen : path.toList.length = len
  induction len using Nat.strong_induction_on generalizing path with
  | _ len ih =>
    rcases h path hpath with hbelow | hitem
    · obtain ⟨directory, hdirectory, hunder, hlt⟩ := below_of_belowSelected hbelow
      rcases ih _ (hlen ▸ hlt) directory hdirectory rfl with hitem | ⟨above, hitem, habove⟩
      · exact .inr ⟨directory, hitem, hunder⟩
      · refine .inr ⟨above, hitem, habove.1, habove.2.1.trans hunder.2.1, ?_⟩
        rintro rfl
        exact Nat.lt_irrefl _ (Nat.lt_of_lt_of_le hlt habove.2.1.length_le)
    · exact .inl hitem

/-! ## The copy numbers -/

section Numbers

variable {existsAt : String → Bool} {existing : List String}

/-- The names that a copy may meet: those reserved, and the files and directories of the index. -/
def metNames (existing reserved : List String) : List String :=
  reserved ++ (existing ++ existing.map fun name => .ofList name.toList.dropLast)

theorem mem_metNames (hexisting : ∀ name, existsAt name = true → name ∈ existing) {reserved : List String}
    {name : String} (h : (reserved.contains name || occupied existsAt name) = true) : name ∈ metNames existing reserved := by
  unfold metNames
  rw [List.mem_append, List.mem_append]
  rw [Bool.or_eq_true, List.contains_iff_mem, occupied, Bool.or_eq_true] at h
  rcases h with hreserved | hfile | hdirectory
  · exact .inl hreserved
  · exact .inr (.inl (hexisting _ hfile))
  · refine .inr (.inr (List.mem_map.2 ⟨name ++ "/", hexisting _ hdirectory, ?_⟩))
    rw [String.toList_append, show "/".toList = ['/'] from rfl, List.dropLast_concat, String.ofList_toList]

/-- All numbers of a key before its next one have given a name that is met, as that of a file or of a directory. -/
def NumbersMet (met : List String) (nextCopy : String → Nat) : Prop :=
  ∀ (key : String) (n : Nat), 1 ≤ n → n < nextCopy key →
    copyName (splitExtension false key.toList).1 (splitExtension false key.toList).2 n ∈ met ∨
      copyName (splitExtension true key.toList).1 (splitExtension true key.toList).2 n ∈ met

/-- The loop over the items ends: there are more copy numbers than names to meet. -/
theorem resolveItems_isOk (hexisting : ∀ name, existsAt name = true → name ∈ existing) (counts : String → Nat)
    {items : List ArchiveMoveItem} {reserved : List String} {nextCopy : String → Nat} (hnext : ∀ key, 1 ≤ nextCopy key)
    (hnumbers : NumbersMet (metNames existing reserved) nextCopy)
    (hroom : 2 * (reserved.length + items.length + 2 * existing.length) < usizeMax - 1) :
    ∃ resolved, resolveItems counts existsAt items reserved nextCopy = .ok resolved := by
  induction items generalizing reserved nextCopy with
  | nil => exact ⟨[], rfl⟩
  | cons item items ih =>
    rw [List.length_cons] at hroom
    rw [resolveItems]
    dsimp only
    split
    · obtain ⟨rest, hrest⟩ := ih hnext hnumbers (by omega)
      exact ⟨_, by rw [hrest]; rfl⟩
    · generalize hkey : trimEndSlashes item.toPath = key
      generalize hstyle : endsWithSlash item.toPath = directory
      -- a number whose name is taken is met, whichever way the name is made
      have hmet : ∀ {n : Nat}, (reserved.contains (copyName (splitExtension directory key.toList).1
            (splitExtension directory key.toList).2 n) || occupied existsAt (copyName
            (splitExtension directory key.toList).1 (splitExtension directory key.toList).2 n)) = true →
          copyName (splitExtension false key.toList).1 (splitExtension false key.toList).2 n ∈
              metNames existing reserved ∨
            copyName (splitExtension true key.toList).1 (splitExtension true key.toList).2 n ∈
              metNames existing reserved := by
        intro n h
        have hmem := mem_metNames hexisting h
        cases directory with
        | false => exact .inl hmem
        | true => exact .inr hmem
      have hlen : (metNames existing reserved).length = reserved.length + 2 * existing.length := by
        unfold metNames
        rw [List.length_append, List.length_append, List.length_map]
        omega
      rcases freeCopy_cases (fun name => reserved.contains name || occupied existsAt name)
        (copyName (splitExtension directory key.toList).1 (splitExtension directory key.toList).2)
        (usizeMax - nextCopy key) (nextCopy key) with ⟨n, hn, hle, hfree, hbefore⟩ | ⟨-, hall⟩
      · rw [hn]
        simp only [ok_bind]
        generalize hcandidate :
          copyName (splitExtension directory key.toList).1 (splitExtension directory key.toList).2 n = candidate
        have hgrow : metNames existing reserved ⊆ metNames existing (candidate :: reserved) := by
          intro name hname
          unfold metNames at hname ⊢
          rw [List.mem_append] at hname ⊢
          exact hname.imp (List.mem_cons_of_mem _) id
        obtain ⟨rest, hrest⟩ := @ih (candidate :: reserved) (fun other => if other = key then n + 1 else nextCopy other)
          (fun other => by
            split
            · omega
            · exact hnext other)
          (fun other m hm hlt => by
            dsimp only at hlt
            split at hlt
            · rename_i hsame
              subst hsame
              by_cases hlast : m = n
              · have hin : candidate ∈ metNames existing (candidate :: reserved) :=
                  List.mem_append_left _ List.mem_cons_self
                rw [← hcandidate, ← hlast] at hin
                rw [← hcandidate, ← hlast]
                cases directory with
                | false => exact .inl hin
                | true => exact .inr hin
              · by_cases hold : m < nextCopy other
                · exact (hnumbers other m hm hold).imp (fun h => hgrow h) fun h => hgrow h
                · exact (hmet (hbefore m (by omega) (by omega))).imp (fun h => hgrow h) fun h => hgrow h
            · exact (hnumbers other m hm hlt).imp (fun h => hgrow h) fun h => hgrow h)
          (by rw [List.length_cons]; omega)
        exact ⟨_, by rw [hrest]; rfl⟩
      · -- all numbers are taken, more than there are names to meet
        exfalso
        have hnextKey := hnext key
        have hcount := @numbers_le_of_taken_or String _
          (copyName (splitExtension false key.toList).1 (splitExtension false key.toList).2)
          (copyName (splitExtension true key.toList).1 (splitExtension true key.toList).2)
          (copyName_injective _ _) (copyName_injective _ _) (metNames existing reserved) 1 (usizeMax - 1)
          (fun m hm hlt => by
            by_cases hold : m < nextCopy key
            · exact hnumbers key m hm hold
            · exact hmet (hall m (by omega) (by omega)))
        omega

end Numbers

/-! ## Plans -/

/-- A plan whose chosen targets collide with nothing. -/
structure CollisionFree (paths : List String) (existsAt : String → Bool) (plan : ArchiveMovePlan) : Prop where
  chosen : ∀ item ∈ plan.items, ∃ target, item.chosen = some target ∧
    existsAt (trimEndSlashes target) = false ∧ existsAt (trimEndSlashes target ++ "/") = false ∧
    ¬ Inside item.fromPath target
  distinct : (plan.items.map ArchiveMoveItem.chosenKey).Nodup
  covered : ∀ path ∈ paths, existsAt path = true → path ∈ plan.items.map ArchiveMoveItem.fromPath ∨
    ∃ directory ∈ plan.items.map ArchiveMoveItem.fromPath, Below path directory

/-- A plan that moves anything moves every selected entry, each to a target that is free, outside its source and
unlike the others, and the search for copy names always finds one. -/
theorem planArchiveMoves_collisionFree (paths : List String) (targetDir : String) (existsAt : String → Bool) :
    (∀ plan, planArchiveMoves paths targetDir existsAt = .ok plan → plan.items ≠ [] →
        CollisionFree paths existsAt plan) ∧
      ∀ existing : List String, (∀ name, existsAt name = true → name ∈ existing) →
        paths.length + existing.length < 2 ^ 61 → ∀ fault, planArchiveMoves paths targetDir existsAt = .error fault →
          checkTargetDir targetDir = .error fault ∨
            collectItems paths targetDir existsAt paths [] = .error fault := by
  constructor
  · intro plan h hitems
    obtain ⟨u, hchecked, h⟩ := bind_eq_ok.1 h
    obtain ⟨⟨items, missing⟩, hcollect, h⟩ := bind_eq_ok.1 h
    dsimp only at h
    split at h
    · cases h
      exact absurd rfl hitems
    rename_i hplan
    obtain ⟨hmissing, hblocked⟩ := not_or.1 hplan
    rw [ne_eq, not_not] at hmissing
    rw [Option.not_isSome_iff_eq_none] at hblocked
    obtain ⟨resolved, hresolve, h⟩ := bind_eq_ok.1 h
    cases h
    obtain ⟨hmade, -, hpaths⟩ := collectItems_ok hcollect
    have hkeys : ∀ item ∈ items, trimEndSlashes item.toPath ∈ items.map fun item => trimEndSlashes item.toPath :=
      fun item hitem => List.mem_map.2 ⟨item, hitem, rfl⟩
    obtain ⟨hall, hnodup, hfrom⟩ := resolveItems_ok hresolve hkeys fun key => Nat.le_refl _
    refine ⟨fun item' hitem' => ?_, hnodup, fun path hpath _ => ?_⟩
    · obtain ⟨item, hitem, target, hresolved, -⟩ := hall item' hitem'
      obtain ⟨hexists, hmade⟩ := hmade item hitem
      obtain ⟨hfile, hdirectory⟩ := Bool.or_eq_false_iff.1 hresolved.free
      exact ⟨target, hresolved.chosen_eq, hfile, hdirectory, hresolved.not_inside hmade hchecked hexists hblocked⟩
    · rw [hfrom]
      refine @covered paths (· ∈ items.map ArchiveMoveItem.fromPath) (fun other hother => ?_) path hpath
      rcases hpaths other hother with hseen | hbelow | hgone | hitem
      · cases hseen
      · exact .inl hbelow
      · rw [hmissing] at hgone
        cases hgone
      · exact .inr (List.mem_map.2 hitem)
  · intro existing hexisting hroom fault h
    unfold planArchiveMoves at h
    cases hchecked : checkTargetDir targetDir with
    | error fault' =>
      rw [hchecked, error_bind] at h
      cases h
      exact .inl rfl
    | ok u =>
      cases hcollect : collectItems paths targetDir existsAt paths [] with
      | error fault' =>
        rw [hchecked, ok_bind, hcollect, error_bind] at h
        cases h
        exact .inr rfl
      | ok result =>
        exfalso
        obtain ⟨items, missing⟩ := result
        rw [hchecked, hcollect] at h
        simp only [ok_bind] at h
        split at h
        · cases h
        obtain ⟨-, hlen, -⟩ := collectItems_ok hcollect
        obtain ⟨resolved, hresolved⟩ := @resolveItems_isOk existsAt existing hexisting
          (items.map fun item => trimEndSlashes item.toPath).count items
          (items.map fun item => trimEndSlashes item.toPath) (fun _ => 1)
          (fun _ => Nat.le_refl 1) (fun _ _ hle hlt => absurd hlt (Nat.not_lt.2 hle)) (by
            rw [List.length_map]
            unfold usizeMax
            omega)
        rw [hresolved] at h
        cases h

/-- An index with two files of one name, a directory that is in the way, and a copy that exists. -/
def sampleIndex (name : String) : Bool :=
  ["src/a.txt", "b/a.txt", "d/", "d/x", "out/", "out/d/", "out/a copy.txt"].contains name

def samplePlan : ArchiveMovePlan where
  items := [
    ⟨"src/a.txt", "out/a.txt", some .duplicateTarget, some "out/a copy 2.txt"⟩,
    ⟨"b/a.txt", "out/a.txt", some .duplicateTarget, some "out/a copy 3.txt"⟩,
    ⟨"d/", "out/d/", some .existingTarget, some "out/d copy/"⟩]
  missingSources := []
  blockedParent := none

theorem planArchiveMoves_collisionFree_sample :
    CollisionFree ["src/a.txt", "d/x", "b/a.txt", "d/"] sampleIndex samplePlan :=
  (planArchiveMoves_collisionFree ["src/a.txt", "d/x", "b/a.txt", "d/"] "out/" sampleIndex).1 samplePlan
    (by decide +kernel) (by decide)

end Squallz.Update
