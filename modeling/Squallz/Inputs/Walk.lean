/-
Walking an input root: the items it emits, and that their archive paths differ exactly as far as the names of the
entries of one directory still differ as text.
-/
import Squallz.Inputs.Items
import Squallz.Text.Separators

namespace Squallz.Inputs

open Squallz.Api Squallz.Text

/-! ## Trees -/

structure Stat where
  unixMode : Option UInt32
  modified : Option SystemTime
deriving DecidableEq

mutual

/-- What stands at a path of the file system. -/
inductive Node
  | file (size : UInt64) (stat : Stat)
  | symlink (target : List UInt8) (stat : Stat)
  | dir (entries : Entries) (stat : Stat)
  | special

/-- The entries of a directory in the order of their names. -/
inductive Entries
  | nil
  | cons (name : List UInt8) (node : Node) (rest : Entries)

end

def Entries.toList : Entries → List (List UInt8 × Node)
  | .nil => []
  | .cons name node rest => (name, node) :: rest.toList

/-- A file name: not empty, without a slash and without a NUL. -/
def ValidName (name : List UInt8) : Prop := name ≠ [] ∧ slash ∉ name ∧ 0 ∉ name

mutual

def Node.Valid : Node → Prop
  | .dir entries _ => entries.Valid
  | _ => True

/-- Entries with valid names that are pairwise different. -/
def Entries.Valid : Entries → Prop
  | .nil => True
  | .cons name node rest => ValidName name ∧ (∀ entry ∈ rest.toList, entry.1 ≠ name) ∧ node.Valid ∧ rest.Valid

end

/-- A tree as a file system holds it. -/
structure SourceTree where
  node : Node
  valid : node.Valid

/-! ## The walk -/

/-- A path as it is displayed. -/
def displayPath (path : SourcePath) : String := fromUtf8Lossy (path.flatMap fun comp => slash :: comp)

/-- What a walk leaves out: by archive name, by path, and the program's own work files. -/
structure WalkFilters where
  excludes : String → Bool
  excludePath : SourcePath → Res Bool
  internalArtifact : SourcePath → Bool

section Walk

variable (filters : WalkFilters) (statBeforeExcludes : Bool)

/-- The checks of `walk_named` before an item is emitted: whether the path is left out. -/
def skipped (path : SourcePath) (name : String) : Res Bool :=
  if !statBeforeExcludes && filters.excludes (trimEndSlashes name) then pure true
  else if filters.internalArtifact path then pure true
  else do
    let excluded ← filters.excludePath path
    if excluded then pure true else pure (statBeforeExcludes && filters.excludes (trimEndSlashes name))

def itemOf (path : SourcePath) (name : String) : Node → InputItem
  | .file size stat => ⟨path, .fromUtf8 name, .file, size, stat.unixMode, stat.modified, none⟩
  | .symlink target stat =>
    ⟨path, .fromUtf8 name, .symlink (utf8Bytes (fromUtf8Lossy target)), 0, stat.unixMode, stat.modified, some target⟩
  | .dir _ stat => ⟨path, .fromUtf8 name, .dir, 0, stat.unixMode, stat.modified, none⟩
  | .special => ⟨path, .fromUtf8 name, .other, 0, none, none, none⟩

def childName (name : String) (child : List UInt8) : String := name ++ "/" ++ fromUtf8Lossy child

/-- Items emitted one after the other, as long as nothing fails. -/
def emitThen (emitted : List InputItem × Res Unit) (rest : List InputItem × Res Unit) : List InputItem × Res Unit :=
  match emitted.2 with
  | .ok () => (emitted.1 ++ rest.1, rest.2)
  | .error fault => (emitted.1, .error fault)

mutual

/-- `walk_named`: the emitted items, and how the walk ends. -/
def walkNamed (path : SourcePath) (name : String) (node : Node) : List InputItem × Res Unit :=
  match skipped filters statBeforeExcludes path name with
  | .error fault => ([], .error fault)
  | .ok true => ([], .ok ())
  | .ok false =>
    match node with
    | .special => ([], raise (.unsupported s!"unsupported input file type: {displayPath path}"))
    | .dir entries stat =>
      emitThen ([itemOf path name (.dir entries stat)], .ok ()) (walkEntries path name entries)
    | node => ([itemOf path name node], .ok ())

/-- The loop over the entries of a directory. -/
def walkEntries (path : SourcePath) (childPrefix : String) (entries : Entries) : List InputItem × Res Unit :=
  match entries with
  | .nil => ([], .ok ())
  | .cons child node rest =>
    if child = [] then ([], raise (.unsafeFileName (displayPath path ++ "/"))) else
      emitThen (walkNamed (path ++ [child]) (childName childPrefix child) node) (walkEntries path childPrefix rest)

end

/-- The nodes that a walk comes to and that nothing leaves out, with their paths and archive names. -/
inductive Reached (root : SourcePath) (rootName : String) (rootNode : Node) : SourcePath → String → Node → Prop
  | root (h : skipped filters statBeforeExcludes root rootName = .ok false) :
    Reached root rootName rootNode root rootName rootNode
  | child {path : SourcePath} {name : String} {entries : Entries} {stat : Stat} {child : List UInt8} {node : Node}
    (above : Reached root rootName rootNode path name (.dir entries stat)) (mem : (child, node) ∈ entries.toList)
    (h : skipped filters statBeforeExcludes (path ++ [child]) (childName name child) = .ok false) :
    Reached root rootName rootNode (path ++ [child]) (childName name child) node

/-- In every directory the walk comes to, the entries that nothing leaves out differ as text. -/
def Distinguishable (root : SourcePath) (rootName : String) (rootNode : Node) : Prop :=
  ∀ path name entries stat, Reached filters statBeforeExcludes root rootName rootNode path name (.dir entries stat) →
    ∀ a ∈ entries.toList, ∀ b ∈ entries.toList,
      skipped filters statBeforeExcludes (path ++ [a.1]) (childName name a.1) = .ok false →
      skipped filters statBeforeExcludes (path ++ [b.1]) (childName name b.1) = .ok false →
      fromUtf8Lossy a.1 = fromUtf8Lossy b.1 → a.1 = b.1

end Walk

/-- Items of different sources have different archive paths. -/
def InjectiveNames (items : List InputItem) : Prop := ∀ a ∈ items, ∀ b ∈ items, a.name = b.name → a.src = b.src

/-! ## Names as text -/

theorem mem_replaceBadSequences {fuel : Nat} {bytes : List UInt8} {b : UInt8}
    (h : b ∈ replaceBadSequences fuel bytes) : b ∈ bytes ∨ b ∈ ([0xEF, 0xBF, 0xBD] : List UInt8) := by
  induction fuel generalizing bytes with
  | zero => cases h
  | succ fuel ih =>
    cases bytes with
    | nil => cases h
    | cons first rest =>
      rw [replaceBadSequences] at h
      simp only at h
      rcases List.mem_append.1 h with h | h
      · split at h
        · exact .inl (List.mem_of_mem_take h)
        · exact .inr h
      · rcases ih h with h | h
        · exact .inl (List.mem_of_mem_drop h)
        · exact .inr h

/-- The text of a file name has no slash. -/
theorem slash_not_mem_fromUtf8Lossy {bytes : List UInt8} (h : slash ∉ bytes) : '/' ∉ (fromUtf8Lossy bytes).toList := by
  intro hmem
  unfold fromUtf8Lossy at hmem
  cases htext : fromUtf8 (replaceBadSequences bytes.length bytes) with
  | none =>
    rw [htext] at hmem
    cases hmem
  | some text =>
    rw [htext, Option.getD_some] at hmem
    have hbytes : slash ∈ utf8Bytes text := by
      rw [← String.ofList_toList (s := text), utf8Bytes_ofList]
      exact List.mem_flatMap.2 ⟨'/', hmem, by decide⟩
    rw [utf8Bytes_of_fromUtf8 htext] at hbytes
    rcases mem_replaceBadSequences hbytes with hb | hb
    · exact h hb
    · revert hb
      decide

/-- A child name says which directory it lies in and the text of the entry. -/
theorem childName_inj {name name' : String} {child child' : List UInt8} (hchild : slash ∉ child)
    (hchild' : slash ∉ child') (h : childName name child = childName name' child') :
    name = name' ∧ fromUtf8Lossy child = fromUtf8Lossy child' := by
  have hchars : name.toList ++ '/' :: (fromUtf8Lossy child).toList =
      name'.toList ++ '/' :: (fromUtf8Lossy child').toList := by
    have := congrArg String.toList h
    simpa [childName] using this
  obtain ⟨hname, htext⟩ := separator_inj (slash_not_mem_fromUtf8Lossy hchild) (slash_not_mem_fromUtf8Lossy hchild')
    hchars
  exact ⟨String.toList_inj.1 hname, String.toList_inj.1 htext⟩

theorem length_lt_childName (name : String) (child : List UInt8) : name.length < (childName name child).length := by
  unfold childName
  rw [String.length_append, String.length_append]
  have : "/".length = 1 := rfl
  omega

/-! ## Reached nodes -/

section Reached

variable {filters : WalkFilters} {statBeforeExcludes : Bool} {root : SourcePath} {rootName : String} {rootNode : Node}

theorem Entries.Valid.of_mem {entries : Entries} (h : entries.Valid) {entry : List UInt8 × Node}
    (hmem : entry ∈ entries.toList) : ValidName entry.1 ∧ entry.2.Valid := by
  induction entries using Entries.rec (motive_1 := fun _ => True) with
  | file | symlink | dir | special => trivial
  | nil => cases hmem
  | cons name node rest _ ih =>
    rw [Entries.Valid] at h
    rw [Entries.toList] at hmem
    rcases List.mem_cons.1 hmem with rfl | hmem
    · exact ⟨h.1, h.2.2.1⟩
    · exact ih h.2.2.2 hmem

/-- An entry is found under its name. -/
theorem Entries.Valid.node_eq {entries : Entries} (h : entries.Valid) {a b : List UInt8 × Node}
    (ha : a ∈ entries.toList) (hb : b ∈ entries.toList) (hname : a.1 = b.1) : a = b := by
  induction entries using Entries.rec (motive_1 := fun _ => True) with
  | file | symlink | dir | special => trivial
  | nil => cases ha
  | cons name node rest _ ih =>
    rw [Entries.Valid] at h
    rw [Entries.toList] at ha hb
    rcases List.mem_cons.1 ha with rfl | ha
    · rcases List.mem_cons.1 hb with rfl | hb
      · rfl
      · exact absurd hname.symm (h.2.1 b hb)
    · rcases List.mem_cons.1 hb with rfl | hb
      · exact absurd hname (h.2.1 a ha)
      · exact ih h.2.2.2 ha hb

theorem Reached.valid {path : SourcePath} {name : String} {node : Node}
    (h : Reached filters statBeforeExcludes root rootName rootNode path name node) (hvalid : rootNode.Valid) :
    node.Valid := by
  induction h with
  | root => exact hvalid
  | child _ mem _ ih =>
    rw [Node.Valid] at ih
    exact (ih.of_mem mem).2

theorem Reached.length_le {path : SourcePath} {name : String} {node : Node}
    (h : Reached filters statBeforeExcludes root rootName rootNode path name node) : rootName.length ≤ name.length := by
  induction h with
  | root => exact Nat.le_refl _
  | child _ _ _ ih => exact Nat.le_trans ih (Nat.le_of_lt (length_lt_childName _ _))

theorem Reached.not_skipped {path : SourcePath} {name : String} {node : Node}
    (h : Reached filters statBeforeExcludes root rootName rootNode path name node) :
    skipped filters statBeforeExcludes path name = .ok false := by
  cases h with
  | root h => exact h
  | child _ _ h => exact h

/-- What is reached from an entry is reached from its directory. -/
theorem Reached.of_entry {entries : Entries} {stat : Stat} {child : List UInt8} {childNode : Node}
    (hroot : skipped filters statBeforeExcludes root rootName = .ok false) (hmem : (child, childNode) ∈ entries.toList)
    {path : SourcePath} {name : String} {node : Node}
    (h : Reached filters statBeforeExcludes (root ++ [child]) (childName rootName child) childNode path name node) :
    Reached filters statBeforeExcludes root rootName (.dir entries stat) path name node := by
  induction h with
  | root h => exact .child (.root hroot) hmem h
  | child _ mem h ih => exact .child ih mem h

/-- Where names differ as text, an archive name is that of one path. -/
theorem Reached.name_inj (hvalid : rootNode.Valid)
    (hdist : Distinguishable filters statBeforeExcludes root rootName rootNode) {path path' : SourcePath}
    {name name' : String} {node node' : Node}
    (h : Reached filters statBeforeExcludes root rootName rootNode path name node)
    (h' : Reached filters statBeforeExcludes root rootName rootNode path' name' node') (hname : name = name') :
    path = path' ∧ node = node' := by
  induction h generalizing path' name' node' with
  | root =>
    cases h' with
    | root => exact ⟨rfl, rfl⟩
    | @child path name entries stat child node above =>
      have := above.length_le
      have := length_lt_childName name child
      rw [hname] at *
      omega
  | @child path name entries stat child node above mem hskip ih =>
    cases h' with
    | root =>
      have := above.length_le
      have := length_lt_childName name child
      rw [← hname] at *
      omega
    | @child path' name' entries' stat' child' node' above' mem' hskip' =>
      have hentries := above.valid hvalid
      have hentries' := above'.valid hvalid
      rw [Node.Valid] at hentries hentries'
      obtain ⟨habove, htext⟩ := childName_inj (hentries.of_mem mem).1.2.1 (hentries'.of_mem mem').1.2.1 hname
      obtain ⟨rfl, hdir⟩ := ih above' habove
      cases hdir
      subst habove
      have hchild := hdist path name entries stat above _ mem _ mem' hskip hskip' htext
      cases hentries.node_eq mem mem' hchild
      exact ⟨rfl, rfl⟩

end Reached

/-! ## Emitted items -/

section Emitted

variable {filters : WalkFilters} {statBeforeExcludes : Bool}

theorem mem_emitThen {emitted rest : List InputItem × Res Unit} {item : InputItem}
    (h : item ∈ (emitThen emitted rest).1) : item ∈ emitted.1 ∨ item ∈ rest.1 := by
  unfold emitThen at h
  split at h
  · exact List.mem_append.1 h
  · exact .inl h

theorem emitThen_ok {emitted rest : List InputItem × Res Unit} (h : (emitThen emitted rest).2 = .ok ()) :
    emitted.2 = .ok () ∧ rest.2 = .ok () ∧ (emitThen emitted rest).1 = emitted.1 ++ rest.1 := by
  unfold emitThen at h ⊢
  split at h
  · rename_i hemitted
    exact ⟨hemitted, h, by simp only⟩
  · cases h

mutual

/-- Every emitted item is that of a node the walk comes to. -/
theorem mem_walkNamed {path : SourcePath} {name : String} {node : Node} {item : InputItem}
    (h : item ∈ (walkNamed filters statBeforeExcludes path name node).1) :
    ∃ path' name' node', Reached filters statBeforeExcludes path name node path' name' node' ∧
      item = itemOf path' name' node' := by
  rw [walkNamed.eq_def] at h
  split at h
  · cases h
  · cases h
  · rename_i hskip
    split at h
    · cases h
    · rename_i entries stat
      rcases mem_emitThen h with h | h
      · exact ⟨path, name, _, .root hskip, List.mem_singleton.1 h⟩
      · obtain ⟨child, node, hmem, path', name', node', hreached, hitem⟩ := mem_walkEntries h
        exact ⟨path', name', node', hreached.of_entry hskip hmem, hitem⟩
    · exact ⟨path, name, _, .root hskip, List.mem_singleton.1 h⟩

theorem mem_walkEntries {path : SourcePath} {childPrefix : String} {entries : Entries} {item : InputItem}
    (h : item ∈ (walkEntries filters statBeforeExcludes path childPrefix entries).1) :
    ∃ child node, (child, node) ∈ entries.toList ∧ ∃ path' name' node',
      Reached filters statBeforeExcludes (path ++ [child]) (childName childPrefix child) node path' name' node' ∧
        item = itemOf path' name' node' := by
  cases entries with
  | nil => cases h
  | cons child node rest =>
    rw [walkEntries] at h
    split at h
    · cases h
    · rcases mem_emitThen h with h | h
      · exact ⟨child, node, List.mem_cons_self, mem_walkNamed h⟩
      · obtain ⟨other, node', hmem, hitem⟩ := mem_walkEntries h
        exact ⟨other, node', List.mem_cons_of_mem _ hmem, hitem⟩

end

/-- A walk that ends well walks every entry of a directory. -/
theorem walkEntries_ok {path : SourcePath} {childPrefix : String} {entries : Entries}
    (h : (walkEntries filters statBeforeExcludes path childPrefix entries).2 = .ok ()) {child : List UInt8} {node : Node}
    (hmem : (child, node) ∈ entries.toList) :
    (walkNamed filters statBeforeExcludes (path ++ [child]) (childName childPrefix child) node).2 = .ok () ∧
      (walkNamed filters statBeforeExcludes (path ++ [child]) (childName childPrefix child) node).1 ⊆
        (walkEntries filters statBeforeExcludes path childPrefix entries).1 := by
  induction entries using Entries.rec (motive_1 := fun _ => True) with
  | file | symlink | dir | special => trivial
  | nil => cases hmem
  | cons first firstNode rest _ ih =>
    rw [walkEntries] at h ⊢
    split at h
    · cases h
    · rename_i hne
      obtain ⟨hfirst, hrest, hitems⟩ := emitThen_ok h
      rw [if_neg hne, hitems]
      rcases List.mem_cons.1 hmem with heq | hmem
      · cases heq
        exact ⟨hfirst, List.subset_append_left _ _⟩
      · obtain ⟨hok, hsub⟩ := ih hrest hmem
        exact ⟨hok, List.subset_append_of_subset_right _ hsub⟩

/-- A walk that ends well walks every node it comes to. -/
theorem Reached.walk_ok {root : SourcePath} {rootName : String} {rootNode : Node} {path : SourcePath} {name : String}
    {node : Node} (hok : (walkNamed filters statBeforeExcludes root rootName rootNode).2 = .ok ())
    (h : Reached filters statBeforeExcludes root rootName rootNode path name node) :
    (walkNamed filters statBeforeExcludes path name node).2 = .ok () ∧
      (walkNamed filters statBeforeExcludes path name node).1 ⊆
        (walkNamed filters statBeforeExcludes root rootName rootNode).1 := by
  induction h with
  | root => exact ⟨hok, List.Subset.refl _⟩
  | child above mem _ ih =>
    obtain ⟨hdir, hsub⟩ := ih
    rw [walkNamed, above.not_skipped] at hdir hsub
    simp only at hdir hsub
    obtain ⟨-, hentries, hitems⟩ := emitThen_ok hdir
    obtain ⟨hchild, hchildren⟩ := walkEntries_ok hentries mem
    refine ⟨hchild, fun item hitem => hsub ?_⟩
    rw [hitems]
    exact List.mem_append_right _ (hchildren hitem)

theorem itemOf_mem_walkNamed {path : SourcePath} {name : String} {node : Node}
    (hskip : skipped filters statBeforeExcludes path name = .ok false)
    (hok : (walkNamed filters statBeforeExcludes path name node).2 = .ok ()) :
    itemOf path name node ∈ (walkNamed filters statBeforeExcludes path name node).1 := by
  cases node with
  | file | symlink =>
    rw [walkNamed.eq_def, hskip]
    exact List.mem_singleton_self _
  | dir entries stat =>
    rw [walkNamed, hskip] at hok ⊢
    simp only at hok ⊢
    rw [(emitThen_ok hok).2.2]
    exact List.mem_append_left _ (List.mem_singleton_self _)
  | special =>
    rw [walkNamed.eq_def, hskip] at hok
    cases hok

theorem itemOf_name (path : SourcePath) (name : String) (node : Node) :
    (itemOf path name node).name = .fromUtf8 name := by
  cases node <;> rfl

theorem itemOf_src (path : SourcePath) (name : String) (node : Node) : (itemOf path name node).src = path := by
  cases node <;> rfl

/-- Archive paths tell the sources of one root apart where the entries of its directories differ as text, and, if the
walk ends well, only there. -/
theorem walkNamed_injectiveNames_iff (tree : SourceTree) (filters : WalkFilters) (statBeforeExcludes : Bool)
    (path : SourcePath) (name : String) :
    (Distinguishable filters statBeforeExcludes path name tree.node →
      InjectiveNames (walkNamed filters statBeforeExcludes path name tree.node).1) ∧
    ((walkNamed filters statBeforeExcludes path name tree.node).2 = .ok () →
      (InjectiveNames (walkNamed filters statBeforeExcludes path name tree.node).1 ↔
        Distinguishable filters statBeforeExcludes path name tree.node)) := by
  have henough : Distinguishable filters statBeforeExcludes path name tree.node →
      InjectiveNames (walkNamed filters statBeforeExcludes path name tree.node).1 := by
    intro hdist a ha b hb hname
    obtain ⟨pathA, nameA, nodeA, hreachedA, rfl⟩ := mem_walkNamed ha
    obtain ⟨pathB, nameB, nodeB, hreachedB, rfl⟩ := mem_walkNamed hb
    rw [itemOf_name, itemOf_name] at hname
    rw [itemOf_src, itemOf_src]
    exact (hreachedA.name_inj tree.valid hdist hreachedB (congrArg EntryPath.display hname)).1
  refine ⟨henough, fun hok => ⟨fun hinj => ?_, henough⟩⟩
  intro dirPath dirName entries stat hdir a ha b hb hskipA hskipB htext
  have hreachedA := Reached.child hdir ha hskipA
  have hreachedB := Reached.child hdir hb hskipB
  obtain ⟨hokA, hsubA⟩ := hreachedA.walk_ok hok
  obtain ⟨hokB, hsubB⟩ := hreachedB.walk_ok hok
  have hname : childName dirName a.1 = childName dirName b.1 := by
    unfold childName
    rw [htext]
  have hsrc := hinj _ (hsubA (itemOf_mem_walkNamed hskipA hokA)) _ (hsubB (itemOf_mem_walkNamed hskipB hokB))
    (by rw [itemOf_name, itemOf_name, hname])
  rw [itemOf_src, itemOf_src] at hsrc
  exact List.singleton_inj.1 (List.append_cancel_left hsrc)

end Emitted

/-! ## Two names with one text -/

def sampleStat : Stat := ⟨none, none⟩

/-- Two files whose names are different bad bytes. -/
def undecodableTree : SourceTree where
  node := .dir (.cons [0xFE] (.file 1 sampleStat) (.cons [0xFF] (.file 1 sampleStat) .nil)) sampleStat
  valid := by
    simp only [Node.Valid, Entries.Valid, Entries.toList, ValidName, slash]
    decide

def noFilters : WalkFilters := ⟨fun _ => false, fun _ => .ok false, fun _ => false⟩

/-- Both are emitted under one archive path. -/
theorem undecodable_names_collide :
    (walkNamed noFilters false [[0x72]] "r" undecodableTree.node).2 = .ok () ∧
    ¬ InjectiveNames (walkNamed noFilters false [[0x72]] "r" undecodableTree.node).1 := by
  refine ⟨by decide +kernel, fun hinj => ?_⟩
  have hmem : ∀ item ∈ [itemOf [[0x72], [0xFE]] "r/\uFFFD" (.file 1 sampleStat),
      itemOf [[0x72], [0xFF]] "r/\uFFFD" (.file 1 sampleStat)],
      item ∈ (walkNamed noFilters false [[0x72]] "r" undecodableTree.node).1 := by
    decide +kernel
  have hsrc := hinj _ (hmem _ List.mem_cons_self) _ (hmem _ (List.mem_cons_of_mem _ List.mem_cons_self)) rfl
  revert hsrc
  decide

end Squallz.Inputs
