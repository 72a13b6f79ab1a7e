/-
How the order in which a directory is listed enters the volumes that are found there: only where two names spell one
index.
-/
import Squallz.Volumes.Discovery

namespace Squallz.Volumes

open Squallz.Api Squallz.Destination

/-! ## The volumes of a listing -/

/-- An entry of a directory as a volume of a base: its index and its name. -/
def volumeEntry (baseName : List Char) (entry : Option (List UInt8)) : Option (Nat × List UInt8) :=
  entry.bind fun name => ((toStr name).bind splitVolumeName).bind fun (volumeBase, index) =>
    if volumeBase = baseName then some (index, name) else none

def volumeEntries (disk : Disk) (base : Path) : List (Nat × List UInt8) :=
  ((disk.readDir (parent base)).getD []).filterMap (volumeEntry (filenameOrEmpty base))

theorem insertEntry_eq (dir : Path) (baseName : List Char) (present : Present) (entry : Option (List UInt8)) :
    insertEntry dir baseName present entry =
      match volumeEntry baseName entry with
      | none => present
      | some (index, name) => present.insert index (dir ++ [name]) := by
  cases entry with
  | none => rfl
  | some name =>
    simp only [insertEntry, volumeEntry, Option.bind_some]
    cases (toStr name).bind splitVolumeName with
    | none => rfl
    | some volume =>
      simp only [Option.bind_some]
      split <;> rfl

/-- The last entry of an index is the one that stays. -/
theorem getElem?_foldl_insertEntry (dir : Path) (baseName : List Char) (listing : List (Option (List UInt8)))
    (present : Present) (index : Nat) : (listing.foldl (insertEntry dir baseName) present)[index]? =
      (((listing.filterMap (volumeEntry baseName)).reverse.lookup index).map fun name => dir ++ [name]).or present[index]? := by
  induction listing generalizing present with
  | nil => rfl
  | cons entry listing ih =>
    rw [List.foldl_cons, ih, insertEntry_eq, List.filterMap_cons]
    cases volumeEntry baseName entry with
    | none => rfl
    | some volume =>
      obtain ⟨i, name⟩ := volume
      dsimp only
      rw [List.reverse_cons, List.lookup_append, Option.map_or, Option.or_assoc, Std.TreeMap.getElem?_insert]
      congr 1
      by_cases hi : i = index
      · rw [if_pos (Std.LawfulEqCmp.compare_eq_iff_eq.2 hi), List.lookup_cons, beq_iff_eq.2 hi.symm]
        rfl
      · have hbeq : (index == i) = false := beq_eq_false_iff_ne.2 (Ne.symm hi)
        rw [if_neg fun h => hi (Std.LawfulEqCmp.compare_eq_iff_eq.1 h), List.lookup_cons, hbeq]
        rfl

theorem getElem?_presentVolumes (disk : Disk) (base : Path) (index : Nat) : (presentVolumes disk base)[index]? =
    ((volumeEntries disk base).reverse.lookup index).map fun name => parent base ++ [name] := by
  rw [presentVolumes, getElem?_foldl_insertEntry, Std.TreeMap.getElem?_emptyc, Option.or_none, volumeEntries]

section Lookup

variable {ι α : Type} [BEq ι] [LawfulBEq ι] {l l' : List (ι × α)} {k : ι} {a : α}

theorem mem_of_lookup (h : l.lookup k = some a) : (k, a) ∈ l := by
  obtain ⟨before, after, rfl, -⟩ := List.lookup_eq_some_iff.1 h
  exact List.mem_append_right before List.mem_cons_self

theorem lookup_of_mem (h : (k, a) ∈ l) : ∃ b, l.lookup k = some b := by
  cases hl : l.lookup k with
  | some b => exact ⟨b, rfl⟩
  | none =>
    have hne : (k != k) = true := List.lookup_eq_none_iff.1 hl _ h
    rw [bne_self_eq_false] at hne
    cases hne

/-- Where an index has one value, it is found. -/
theorem lookup_of_unique (h : (k, a) ∈ l) (hu : ∀ b, (k, b) ∈ l → b = a) : l.lookup k = some a := by
  obtain ⟨b, hb⟩ := lookup_of_mem h
  rw [hb, hu b (mem_of_lookup hb)]

end Lookup

theorem presentVolumes_mem {disk : Disk} {base : Path} {index : Nat} {path : Path} :
    (index, path) ∈ (presentVolumes disk base).toList ↔
      ∃ name, (volumeEntries disk base).reverse.lookup index = some name ∧ path = parent base ++ [name] := by
  rw [Std.TreeMap.mem_toList_iff_getElem?_eq_some, getElem?_presentVolumes, Option.map_eq_some_iff]
  constructor
  · rintro ⟨name, hname, rfl⟩
    exact ⟨name, hname, rfl⟩
  · rintro ⟨name, hname, rfl⟩
    exact ⟨name, hname, rfl⟩

theorem presentVolumes_entry {disk : Disk} {base : Path} {index : Nat} {path : Path}
    (h : (index, path) ∈ (presentVolumes disk base).toList) :
    ∃ name, (index, name) ∈ volumeEntries disk base ∧ path = parent base ++ [name] := by
  obtain ⟨name, hname, rfl⟩ := presentVolumes_mem.1 h
  exact ⟨name, List.mem_reverse.1 (mem_of_lookup hname), rfl⟩

theorem presentVolumes_index {disk : Disk} {base : Path} {index : Nat} :
    index ∈ (presentVolumes disk base).toList.map Prod.fst ↔ ∃ name, (index, name) ∈ volumeEntries disk base := by
  rw [List.mem_map]
  constructor
  · rintro ⟨⟨index, path⟩, h, rfl⟩
    obtain ⟨name, hname, -⟩ := presentVolumes_entry h
    exact ⟨name, hname⟩
  · rintro ⟨name, hname⟩
    obtain ⟨last, hlast⟩ := lookup_of_mem (List.mem_reverse.2 hname)
    exact ⟨(index, parent base ++ [last]), presentVolumes_mem.2 ⟨last, hlast, rfl⟩, rfl⟩

theorem presentVolumes_sorted (disk : Disk) (base : Path) :
    ((presentVolumes disk base).toList.map Prod.fst).Pairwise (· < ·) := by
  rw [List.pairwise_map]
  exact Std.TreeMap.ordered_keys_toList.imp fun h => Nat.compare_eq_lt.1 h

theorem splitVolumeName_pos {name volumeBase : List Char} {index : Nat}
    (h : splitVolumeName name = some (volumeBase, index)) : 0 < index := by
  unfold splitVolumeName at h
  split at h
  · cases h
  · split at h
    · cases h
    · split at h
      · cases h
      · split at h
        · cases h
        · rename_i hpos
          cases h
          exact Nat.pos_of_ne_zero hpos

theorem volumeEntry_eq_some {baseName : List Char} {entry : Option (List UInt8)} {index : Nat} {name : List UInt8}
    (h : volumeEntry baseName entry = some (index, name)) :
    entry = some name ∧ (toStr name).bind splitVolumeName = some (baseName, index) := by
  obtain ⟨name', hname, h⟩ := Option.bind_eq_some_iff.1 h
  obtain ⟨⟨volumeBase, i⟩, hvolume, h⟩ := Option.bind_eq_some_iff.1 h
  dsimp only at h
  split at h
  · rename_i hbase
    cases h
    exact ⟨hname, hbase ▸ hvolume⟩
  · cases h

theorem volumeEntries_index_pos {disk : Disk} {base : Path} {index : Nat} {name : List UInt8}
    (h : (index, name) ∈ volumeEntries disk base) : 0 < index := by
  obtain ⟨entry, -, hentry⟩ := List.mem_filterMap.1 h
  obtain ⟨text, -, hvolume⟩ := Option.bind_eq_some_iff.1 (volumeEntry_eq_some hentry).2
  exact splitVolumeName_pos hvolume

/-! ## Another order -/

/-- The same directories, listed in another order. -/
structure Disk.Reorders (other disk : Disk) : Prop where
  nodes : other.nodes = disk.nodes
  listings : ∀ dir, Option.Rel List.Perm (other.readDir dir) (disk.readDir dir)

theorem Disk.Reorders.entries {other disk : Disk} (h : other.Reorders disk) (base : Path) :
    (volumeEntries other base).Perm (volumeEntries disk base) := by
  unfold volumeEntries
  refine List.Perm.filterMap _ ?_
  have hlist := h.listings (parent base)
  cases ho : other.readDir (parent base) with
  | none =>
    cases hd : disk.readDir (parent base) with
    | none => exact List.Perm.refl _
    | some listing' =>
      rw [ho, hd] at hlist
      cases hlist
  | some listing =>
    cases hd : disk.readDir (parent base) with
    | none =>
      rw [ho, hd] at hlist
      cases hlist
    | some listing' =>
      rw [ho, hd] at hlist
      cases hlist with
      | some hperm => exact hperm

/-- No index is spelled in two ways. -/
def NamesUnique (disk : Disk) (base : Path) : Prop :=
  ∀ index name name', (index, name) ∈ volumeEntries disk base → (index, name') ∈ volumeEntries disk base → name = name'

/-- Where no index is spelled in two ways, the order does not matter. -/
theorem presentVolumes_reordered {other disk : Disk} (h : other.Reorders disk) {base : Path} (hu : NamesUnique disk base) :
    (presentVolumes other base).toList = (presentVolumes disk base).toList := by
  refine Std.TreeMap.Equiv.toList_eq (Std.TreeMap.Equiv.of_forall_constGet?_eq fun index => ?_)
  rw [getElem?_presentVolumes, getElem?_presentVolumes]
  congr 1
  have hmem : ∀ name, (index, name) ∈ (volumeEntries other base).reverse ↔ (index, name) ∈ (volumeEntries disk base).reverse := by
    intro name
    rw [List.mem_reverse, List.mem_reverse]
    exact (h.entries base).mem_iff
  cases hd : (volumeEntries disk base).reverse.lookup index with
  | none =>
    rw [List.lookup_eq_none_iff]
    rintro ⟨i, name⟩ hname
    refine bne_iff_ne.2 ?_
    rintro rfl
    obtain ⟨last, hlast⟩ := lookup_of_mem ((hmem name).1 hname)
    rw [hd] at hlast
    cases hlast
  | some name =>
    have hname := mem_of_lookup hd
    refine lookup_of_unique ((hmem name).2 hname) fun name' hname' => ?_
    exact hu index name' name (List.mem_reverse.1 ((hmem name').1 hname')) (List.mem_reverse.1 hname)

/-- The order in which the chosen name of every index comes last. -/
def arrange (baseName : List Char) (chosen : Nat → List UInt8) (listing : List (Option (List UInt8))) :
    List (Option (List UInt8)) :=
  let last (entry : Option (List UInt8)) : Bool := (volumeEntry baseName entry).any fun (index, name) => name = chosen index
  listing.filter (fun entry => !last entry) ++ listing.filter last

def Disk.arranged (disk : Disk) (base : Path) (chosen : Nat → List UInt8) : Disk :=
  ⟨fun dir => (disk.readDir dir).map (arrange (filenameOrEmpty base) chosen), disk.nodes⟩

theorem arranged_reorders (disk : Disk) (base : Path) (chosen : Nat → List UInt8) :
    (disk.arranged base chosen).Reorders disk := by
  refine ⟨rfl, fun dir => ?_⟩
  unfold Disk.arranged
  dsimp only
  cases disk.readDir dir with
  | none => exact .none
  | some listing =>
    refine .some ?_
    unfold arrange
    exact List.perm_append_comm.trans (List.filter_append_perm _ listing)

/-- Every name of an index is the one that is found in some order. -/
theorem lookup_arranged {disk : Disk} {base : Path} {chosen : Nat → List UInt8} {index : Nat}
    (h : (index, chosen index) ∈ volumeEntries disk base) :
    (volumeEntries (disk.arranged base chosen) base).reverse.lookup index = some (chosen index) := by
  have hlist : ∃ listing, disk.readDir (parent base) = some listing := by
    cases hd : disk.readDir (parent base) with
    | some listing => exact ⟨listing, rfl⟩
    | none =>
      rw [volumeEntries, hd] at h
      cases h
  obtain ⟨listing, hlisting⟩ := hlist
  obtain ⟨entry, hentry, hvolume⟩ := List.mem_filterMap.1 h
  rw [hlisting] at hentry
  rw [volumeEntries, Disk.arranged]
  dsimp only
  rw [hlisting, Option.map_some, Option.getD_some, arrange, List.filterMap_append, List.reverse_append, List.lookup_append]
  refine Option.or_eq_some_iff.2 (.inl (lookup_of_unique ?_ ?_))
  · refine List.mem_reverse.2 (List.mem_filterMap.2 ⟨entry, List.mem_filter.2 ⟨hentry, ?_⟩, hvolume⟩)
    rw [hvolume]
    exact decide_eq_true rfl
  · intro name hname
    obtain ⟨entry', hentry', hvolume'⟩ := List.mem_filterMap.1 (List.mem_reverse.1 hname)
    have hlast := (List.mem_filter.1 hentry').2
    rw [hvolume'] at hlast
    exact of_decide_eq_true hlast

/-! ## Sets of any format -/

/-- The paths of a set, if there is one. -/
def setPaths : Res VolumeSet → Option (List Path)
  | .ok parts => some (parts.map VolumePart.path)
  | .error _ => none

theorem plainParts_eq_ok {nodes : Nodes} {base : Path} {expectedIndex last : Nat} {present : List (Nat × Path)}
    {parts : VolumeSet} (h : plainParts nodes base expectedIndex present = .ok (parts, last)) :
    present.map Prod.fst = List.range' expectedIndex present.length ∧
      (∀ volume ∈ present, nodes.isFile volume.2 = true) ∧ last = expectedIndex + present.length ∧
      parts.map VolumePart.path = present.map Prod.snd := by
  induction present generalizing expectedIndex parts with
  | nil =>
    cases h
    exact ⟨rfl, fun _ h => absurd h List.not_mem_nil, rfl, rfl⟩
  | cons volume present ih =>
    obtain ⟨index, path⟩ := volume
    rw [plainParts] at h
    split at h
    · cases h
    · rename_i hindex
      rw [not_not] at hindex
      split at h
      · rename_i content hnode
        obtain ⟨⟨rest, last'⟩, hrest, h⟩ := bind_eq_ok.1 h
        cases h
        obtain ⟨hkeys, hfiles, hlast, hpaths⟩ := ih hrest
        refine ⟨?_, ?_, ?_, ?_⟩
        · rw [List.map_cons, hkeys, List.length_cons, List.range'_succ, hindex]
        · rintro volume hvolume
          cases hvolume with
          | head => rw [Nodes.isFile, hnode]
          | tail _ hvolume => exact hfiles volume hvolume
        · rw [hlast, List.length_cons]
          omega
        · rw [List.map_cons, List.map_cons, hpaths]
      · cases h

theorem plainParts_ok {nodes : Nodes} (base : Path) {expectedIndex : Nat} {present : List (Nat × Path)}
    (hkeys : present.map Prod.fst = List.range' expectedIndex present.length)
    (hfiles : ∀ volume ∈ present, nodes.isFile volume.2 = true) :
    ∃ set, plainParts nodes base expectedIndex present = .ok set := by
  induction present generalizing expectedIndex with
  | nil => exact ⟨_, rfl⟩
  | cons volume present ih =>
    obtain ⟨index, path⟩ := volume
    rw [List.map_cons, List.length_cons, List.range'_succ] at hkeys
    obtain ⟨rfl, hkeys⟩ := List.cons.inj hkeys
    obtain ⟨set, hset⟩ := ih hkeys fun volume h => hfiles volume (List.mem_cons_of_mem _ h)
    have hfile := hfiles _ List.mem_cons_self
    rw [plainParts, if_neg (not_not.2 rfl)]
    unfold Nodes.isFile at hfile
    split at hfile
    · rename_i content hnode
      rw [hnode]
      exact ⟨_, bind_eq_ok.2 ⟨set, hset, rfl⟩⟩
    · cases hfile

/-- A gap-free set of files that reaches the volume it was asked for. -/
structure Whole (nodes : Nodes) (selectedIndex : Nat) (present : List (Nat × Path)) : Prop where
  nonempty : present ≠ []
  gapFree : present.map Prod.fst = List.range' 1 present.length
  files : ∀ volume ∈ present, nodes.isFile volume.2 = true
  reaches : selectedIndex ≤ present.length

theorem Whole.maxIndex {nodes : Nodes} {selectedIndex : Nat} {present : List (Nat × Path)}
    (h : Whole nodes selectedIndex present) : (present.getLast?.map Prod.fst).getD 0 = present.length := by
  have hpos : present.length ≠ 0 := fun h0 => h.nonempty (List.length_eq_zero_iff.1 h0)
  rw [← List.getLast?_map, h.gapFree, List.getLast?_range', if_neg hpos, Option.getD_some]
  omega

/-- Outside SQZ sets, a set is made of the volumes that are present when they are gap-free files. -/
theorem setPaths_collectPresent {nodes : Nodes} {base : Path} {selectedIndex : Nat} {present : List (Nat × Path)}
    {paths : List Path} (hsqz : isSqzBase base = false) :
    setPaths (collectPresent nodes base selectedIndex present) = some paths ↔
      Whole nodes selectedIndex present ∧ paths = present.map Prod.snd := by
  constructor
  · intro h
    cases hset : collectPresent nodes base selectedIndex present with
    | error e =>
      rw [hset] at h
      cases h
    | ok set =>
      rw [hset] at h
      cases h
      rw [collectPresent, hsqz] at hset
      dsimp only at hset
      split at hset
      · cases hset
      · rename_i hmax
        obtain ⟨found, hfound, hset⟩ := bind_eq_ok.1 hset
        cases hfound
        obtain ⟨⟨parts, last⟩, hparts, hset⟩ := bind_eq_ok.1 hset
        dsimp only at hset
        obtain ⟨hkeys, hfiles, hlast, hpaths⟩ := plainParts_eq_ok hparts
        split at hset
        · cases hset
        · rename_i hreach
          cases hset
          refine ⟨⟨?_, hkeys, hfiles, ?_⟩, hpaths⟩
          · rintro rfl
            exact hmax rfl
          · have := Nat.le_max_right ((present.getLast?.map Prod.fst).getD 0) selectedIndex
            omega
  · rintro ⟨hwhole, rfl⟩
    have hpos : present.length ≠ 0 := fun h0 => hwhole.nonempty (List.length_eq_zero_iff.1 h0)
    obtain ⟨⟨parts, last⟩, hparts⟩ := plainParts_ok base hwhole.gapFree hwhole.files
    obtain ⟨-, -, hlast, hpaths⟩ := plainParts_eq_ok hparts
    have hreach : ¬ last ≤ max present.length selectedIndex := by
      have := hwhole.reaches
      omega
    rw [collectPresent, hsqz]
    dsimp only
    rw [hwhole.maxIndex, if_neg hpos]
    show setPaths (plainParts nodes base 1 present >>= fun set =>
      if set.2 ≤ max present.length selectedIndex then missingVolume (volumePath base set.2) else .ok set.1) = _
    rw [hparts, ok_bind, if_neg hreach, setPaths, hpaths]

/-! ## Order -/

/-- Every two orders of listing lead to the same paths, or to an error in both. -/
def OrderFree (disk : Disk) (volume : Path) : Prop :=
  ∀ first second : Disk, first.Reorders disk → second.Reorders disk →
    setPaths (collectVolumeSet first volume) = setPaths (collectVolumeSet second volume)

/-- An index that the set needs: up to the one that was asked for and to every one that is present. -/
def Needed (disk : Disk) (base : Path) (selectedIndex index : Nat) : Prop :=
  0 < index ∧ (index ≤ selectedIndex ∨ ∃ later name, (later, name) ∈ volumeEntries disk base ∧ index ≤ later)

/-- No file has the index. -/
def Lacking (disk : Disk) (base : Path) (index : Nat) : Prop :=
  ∀ name, (index, name) ∈ volumeEntries disk base → disk.nodes.isFile (parent base ++ [name]) = false

theorem eq_of_map_fst_snd {α β : Type} {l l' : List (α × β)} (hfst : l.map Prod.fst = l'.map Prod.fst)
    (hsnd : l.map Prod.snd = l'.map Prod.snd) : l = l' := by
  have h := List.zip_unzip l
  rw [List.unzip_eq_map, hfst, hsnd] at h
  rw [← h, ← List.unzip_eq_map (l := l')]
  exact List.zip_unzip l'

section Selected

variable {disk : Disk} {volume : Path} {baseName : List Char} {selectedIndex : Nat}

theorem collectVolumeSet_eq (hvolume : ((fileName volume).bind toStr).bind splitVolumeName = some (baseName, selectedIndex)) :
    collectVolumeSet disk volume = collectPresent disk.nodes (withFileName volume (osStr baseName)) selectedIndex
      (presentVolumes disk (withFileName volume (osStr baseName))).toList := by
  rw [collectVolumeSet, hvolume]

/-- Where an index has no file, there is no set. -/
theorem not_whole_of_lacking {other : Disk} {base : Path} {index : Nat} (hother : other.Reorders disk)
    (hneeded : Needed disk base selectedIndex index) (hlacking : Lacking disk base index) :
    ¬ Whole disk.nodes selectedIndex (presentVolumes other base).toList := by
  intro hwhole
  obtain ⟨hpos, hrange⟩ := hneeded
  have hle : index ≤ (presentVolumes other base).toList.length := by
    rcases hrange with hselected | ⟨later, name, hlater, hle⟩
    · exact Nat.le_trans hselected hwhole.reaches
    · have hkey := presentVolumes_index.2 ⟨name, (hother.entries base).mem_iff.2 hlater⟩
      rw [hwhole.gapFree, List.mem_range'_1] at hkey
      omega
  have hindex : index ∈ (presentVolumes other base).toList.map Prod.fst := by
    rw [hwhole.gapFree, List.mem_range'_1]
    omega
  obtain ⟨⟨index, path⟩, hentry, rfl⟩ := List.mem_map.1 hindex
  obtain ⟨name, hname, rfl⟩ := presentVolumes_entry hentry
  have hfile := hwhole.files _ hentry
  rw [hlacking name ((hother.entries base).mem_iff.1 hname)] at hfile
  cases hfile

/-- A list of indexes in order is determined by what is in it. -/
theorem eq_range'_of_mem {keys : List Nat} (hsorted : keys.Pairwise (· < ·)) {n : Nat}
    (hmem : ∀ index, index ∈ keys ↔ 1 ≤ index ∧ index ≤ n) : keys = List.range' 1 n := by
  have hrange : (List.range' 1 n).Pairwise (· < ·) := List.pairwise_lt_range'
  have hperm : keys.Perm (List.range' 1 n) := by
    refine (List.perm_ext_iff_of_nodup (hsorted.imp Nat.ne_of_lt) (hrange.imp Nat.ne_of_lt)).2 fun index => ?_
    rw [hmem, List.mem_range'_1]
    omega
  exact hperm.eq_of_pairwise (fun a b _ _ hab hba => absurd hab (Nat.lt_asymm hba)) hsorted hrange

/-- With a file chosen for every index, there is an order in which the set is whole. -/
theorem whole_arranged {base : Path} {chosen : Nat → List UInt8} (hsome : ∃ entry, entry ∈ volumeEntries disk base)
    (hchosen : ∀ index, Needed disk base selectedIndex index →
      (index, chosen index) ∈ volumeEntries disk base ∧ disk.nodes.isFile (parent base ++ [chosen index]) = true) :
    Whole disk.nodes selectedIndex (presentVolumes (disk.arranged base chosen) base).toList := by
  have hother := arranged_reorders disk base chosen
  -- The greatest index that is present; every smaller one is present too.
  obtain ⟨greatest, hgreatest, hmax⟩ : ∃ greatest, (∃ name, (greatest, name) ∈ volumeEntries disk base) ∧
      ∀ index name, (index, name) ∈ volumeEntries disk base → index ≤ greatest := by
    obtain ⟨⟨index, name⟩, hentry⟩ := hsome
    have hmap : index ∈ (volumeEntries disk base).map Prod.fst := List.mem_map.2 ⟨_, hentry, rfl⟩
    obtain ⟨greatest, hgreatest⟩ : ∃ greatest, ((volumeEntries disk base).map Prod.fst).max? = some greatest := by
      cases hm : ((volumeEntries disk base).map Prod.fst).max? with
      | some greatest => exact ⟨greatest, rfl⟩
      | none =>
        rw [List.max?_eq_none_iff.1 hm] at hmap
        cases hmap
    obtain ⟨hin, hle⟩ := List.max?_eq_some_iff.1 hgreatest
    obtain ⟨⟨i, n⟩, hi, rfl⟩ := List.mem_map.1 hin
    exact ⟨i, ⟨n, hi⟩, fun index name h => hle index (List.mem_map.2 ⟨_, h, rfl⟩)⟩
  have hpresent : ∀ index, 0 < index → index ≤ greatest → (index, chosen index) ∈ volumeEntries disk base ∧
      disk.nodes.isFile (parent base ++ [chosen index]) = true := by
    intro index hpos hle
    obtain ⟨name, hname⟩ := hgreatest
    exact hchosen index ⟨hpos, .inr ⟨greatest, name, hname, hle⟩⟩
  have hkeys : (presentVolumes (disk.arranged base chosen) base).toList.map Prod.fst = List.range' 1 greatest := by
    refine eq_range'_of_mem (presentVolumes_sorted _ _) fun index => ?_
    rw [presentVolumes_index]
    constructor
    · rintro ⟨name, hname⟩
      have hentry := (hother.entries base).mem_iff.1 hname
      exact ⟨volumeEntries_index_pos hentry, hmax index name hentry⟩
    · rintro ⟨hpos, hle⟩
      exact ⟨chosen index, (hother.entries base).mem_iff.2 (hpresent index hpos hle).1⟩
  have hlen : (presentVolumes (disk.arranged base chosen) base).toList.length = greatest := by
    rw [← List.length_map Prod.fst, hkeys, List.length_range']
  refine ⟨?_, hlen ▸ hkeys, ?_, ?_⟩
  · intro hnil
    rw [hnil] at hlen
    obtain ⟨name, hname⟩ := hgreatest
    have := volumeEntries_index_pos hname
    rw [List.length_nil] at hlen
    omega
  · rintro ⟨index, path⟩ hentry
    obtain ⟨name, hname, rfl⟩ := presentVolumes_mem.1 hentry
    have hin : index ∈ List.range' 1 greatest := hkeys ▸ List.mem_map.2 ⟨_, hentry, rfl⟩
    rw [List.mem_range'_1] at hin
    obtain ⟨hchosenEntry, hfile⟩ := hpresent index (by omega) (by omega)
    cases (lookup_arranged hchosenEntry).symm.trans hname
    exact hfile
  · rw [hlen]
    by_contra hlt
    obtain ⟨hentry, -⟩ := hchosen selectedIndex ⟨by omega, .inl (Nat.le_refl _)⟩
    exact hlt (hmax _ _ hentry)

/-- Where the order does not matter, no index has two names, unless there is no set in any order. -/
theorem unique_or_lacking {base : Path} (hsqz : isSqzBase base = false)
    (hfree : ∀ first second : Disk, first.Reorders disk → second.Reorders disk →
      setPaths (collectPresent disk.nodes base selectedIndex (presentVolumes first base).toList) =
        setPaths (collectPresent disk.nodes base selectedIndex (presentVolumes second base).toList)) :
    NamesUnique disk base ∨ ∃ index, Needed disk base selectedIndex index ∧ Lacking disk base index := by
  by_contra hnot
  obtain ⟨hnames, hlacking⟩ := not_or.1 hnot
  have hchoice : ∀ index, ∃ name, Needed disk base selectedIndex index →
      (index, name) ∈ volumeEntries disk base ∧ disk.nodes.isFile (parent base ++ [name]) = true := by
    intro index
    by_contra hno
    have hneeded : Needed disk base selectedIndex index := by
      by_contra hneeded
      exact hno ⟨[], fun h => absurd h hneeded⟩
    refine hlacking ⟨index, hneeded, fun name hname => ?_⟩
    by_contra hfile
    exact hno ⟨name, fun _ => ⟨hname, Bool.eq_true_of_not_eq_false hfile⟩⟩
  choose chosen hchosen using hchoice
  obtain ⟨index, name, name', hname, hname', hne⟩ : ∃ index name name',
      (index, name) ∈ volumeEntries disk base ∧ (index, name') ∈ volumeEntries disk base ∧ name ≠ name' := by
    by_contra h
    refine hnames fun index name name' hname hname' => ?_
    by_contra hne
    exact h ⟨index, name, name', hname, hname', hne⟩
  -- One of the two names is not the one that was chosen for the index.
  obtain ⟨other, hother, hdiffers⟩ : ∃ other, (index, other) ∈ volumeEntries disk base ∧ other ≠ chosen index := by
    by_cases h : name = chosen index
    · exact ⟨name', hname', fun h' => hne (h.trans h'.symm)⟩
    · exact ⟨name, hname, h⟩
  have hneeded : Needed disk base selectedIndex index :=
    ⟨volumeEntries_index_pos hname, .inr ⟨index, name, hname, Nat.le_refl _⟩⟩
  have hupdated : (index, Function.update chosen index other index) ∈ volumeEntries disk base := by
    rw [Function.update_self]
    exact hother
  have hlookup := lookup_arranged (hchosen index hneeded).1
  have hlookup' := lookup_arranged hupdated
  have hwhole := whole_arranged ⟨_, hname⟩ hchosen
  have hsame := hfree _ _ (arranged_reorders disk base chosen)
    (arranged_reorders disk base (Function.update chosen index other))
  rw [(setPaths_collectPresent hsqz).2 ⟨hwhole, rfl⟩] at hsame
  obtain ⟨hwhole', hpaths⟩ := (setPaths_collectPresent hsqz).1 hsame.symm
  have hlen := congrArg List.length hpaths
  rw [List.length_map, List.length_map] at hlen
  have hkeys := hwhole.gapFree.trans ((congrArg (List.range' 1) hlen).trans hwhole'.gapFree.symm)
  have hin := presentVolumes_mem.2 ⟨_, hlookup, rfl⟩
  rw [eq_of_map_fst_snd hkeys hpaths] at hin
  obtain ⟨found, hfound, hpath⟩ := presentVolumes_mem.1 hin
  rw [hlookup', Function.update_self] at hfound
  cases hfound
  exact hdiffers (List.cons.inj (List.append_cancel_left hpath)).1.symm

/-- The order of listing does not matter where no index is spelled in two ways; outside SQZ sets it matters wherever one
is, unless an index that the set needs has no file at all. -/
theorem collectVolumeSet_orderFree
    (hvolume : ((fileName volume).bind toStr).bind splitVolumeName = some (baseName, selectedIndex)) :
    (NamesUnique disk (withFileName volume (osStr baseName)) → OrderFree disk volume) ∧
      (isSqzBase (withFileName volume (osStr baseName)) = false →
        (OrderFree disk volume ↔ NamesUnique disk (withFileName volume (osStr baseName)) ∨
          ∃ index, Needed disk (withFileName volume (osStr baseName)) selectedIndex index ∧
            Lacking disk (withFileName volume (osStr baseName)) index)) := by
  have hsets : ∀ {other : Disk}, other.Reorders disk → setPaths (collectVolumeSet other volume) =
      setPaths (collectPresent disk.nodes (withFileName volume (osStr baseName)) selectedIndex
        (presentVolumes other (withFileName volume (osStr baseName))).toList) := by
    intro other hother
    rw [collectVolumeSet_eq hvolume, hother.nodes]
  have hunique : NamesUnique disk (withFileName volume (osStr baseName)) → OrderFree disk volume := by
    intro hu first second hfirst hsecond
    rw [hsets hfirst, hsets hsecond, presentVolumes_reordered hfirst hu, presentVolumes_reordered hsecond hu]
  refine ⟨hunique, fun hsqz => ⟨fun hfree => unique_or_lacking hsqz ?_, ?_⟩⟩
  · intro first second hfirst hsecond
    rw [← hsets hfirst, ← hsets hsecond]
    exact hfree first second hfirst hsecond
  · rintro (hu | ⟨index, hneeded, hlacking⟩)
    · exact hunique hu
    · have hnone : ∀ {other : Disk}, other.Reorders disk → setPaths (collectVolumeSet other volume) = none := by
        intro other hother
        rw [hsets hother, Option.eq_none_iff_forall_ne_some]
        intro paths hpaths
        exact not_whole_of_lacking hother hneeded hlacking ((setPaths_collectPresent hsqz).1 hpaths).1
      intro first second hfirst hsecond
      rw [hnone hfirst, hnone hsecond]

end Selected

theorem collectVolumeSet_orderFree_zip :
    let disk : Disk := ⟨fun _ => some [some (osStr "x.zip.001".toList), some (osStr "x.zip.002".toList)],
      fun _ => some (.file [1])⟩
    OrderFree disk [osStr "x.zip.001".toList] := by
  intro disk
  have hvolume : ((fileName [osStr "x.zip.001".toList]).bind toStr).bind splitVolumeName = some ("x.zip".toList, 1) := by
    decide +kernel
  refine (collectVolumeSet_orderFree hvolume).1 ?_
  have hentries : volumeEntries disk (withFileName [osStr "x.zip.001".toList] (osStr "x.zip".toList)) =
      [(1, osStr "x.zip.001".toList), (2, osStr "x.zip.002".toList)] := by decide +kernel
  intro index name name' hname hname'
  rw [hentries] at hname hname'
  simp only [List.mem_cons, Prod.mk.injEq, List.not_mem_nil, or_false] at hname hname'
  obtain ⟨rfl, rfl⟩ | ⟨rfl, rfl⟩ := hname
  · obtain ⟨-, rfl⟩ | ⟨h, -⟩ := hname'
    · rfl
    · cases h
  · obtain ⟨h, -⟩ | ⟨-, rfl⟩ := hname'
    · cases h
    · rfl

/-- Two names of one index: the one that is listed last is taken. -/
theorem order_decides :
    let listing := [some (osStr "x.zip.001".toList), some (osStr "x.zip.0001".toList)]
    let disk : Disk := ⟨fun _ => some listing, fun _ => some (.file [1])⟩
    let other : Disk := ⟨fun _ => some listing.reverse, fun _ => some (.file [1])⟩
    other.Reorders disk ∧
      setPaths (collectVolumeSet disk [osStr "x.zip.001".toList]) = some [[osStr "x.zip.0001".toList]] ∧
      setPaths (collectVolumeSet other [osStr "x.zip.001".toList]) = some [[osStr "x.zip.001".toList]] := by
  refine ⟨⟨rfl, fun _ => .some (List.reverse_perm _)⟩, by decide +kernel, by decide +kernel⟩

end Squallz.Volumes
