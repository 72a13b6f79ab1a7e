/-
What is left of a split archive in a directory: the volumes that are found there and the headers that are read of them.
-/
import Squallz.Volumes.Headers
import Squallz.Volumes.ListingOrder

namespace Squallz.Volumes

open Squallz.Api Squallz.Bytes Squallz.Destination

/-! ## Volumes -/

/-- The volumes of a base that are not missing, and no other ones, are listed, and they are as they were written. -/
structure Remains (disk : Disk) (base : Path) (outputs : List SplitOutput) (missing : Nat → Bool) : Prop where
  listed : ∀ index primary path content, ⟨path, .volume index primary, content⟩ ∈ outputs → missing (index + 1) = false →
    (index + 1, volumeName base (index + 1)) ∈ volumeEntries disk base
  only : ∀ index name, (index, name) ∈ volumeEntries disk base → missing index = false ∧ name = volumeName base index ∧
    ∃ primary path content, ⟨path, .volume (index - 1) primary, content⟩ ∈ outputs
  files : ∀ index primary path content, ⟨path, .volume index primary, content⟩ ∈ outputs → missing (index + 1) = false →
    disk.nodes path = some (.file content)

theorem mem_volumeOutputs {base : Path} {contents : List (List UInt8)} {output : SplitOutput} :
    output ∈ volumeOutputs base contents ↔ ∃ k content, contents[k]? = some content ∧
      output = ⟨volumePath base (k + 1), .volume k (k = 0), content⟩ := by
  unfold volumeOutputs
  rw [List.mem_mapIdx]
  constructor
  · rintro ⟨k, hk, rfl⟩
    exact ⟨k, contents[k], List.getElem?_eq_getElem hk, rfl⟩
  · rintro ⟨k, content, hk, rfl⟩
    obtain ⟨hlt, rfl⟩ := List.getElem?_eq_some_iff.1 hk
    exact ⟨k, hlt, rfl⟩

theorem sidecarOutputs_role {base : Path} {layout : SplitLayout} {tail : List UInt8} {files : ParityFiles}
    {output : SplitOutput} (h : output ∈ sidecarOutputs base layout tail files) (index : Nat) (primary : Bool) :
    output.role ≠ .volume index primary := by
  intro hrole
  unfold sidecarOutputs at h
  rcases List.mem_append.1 h with h | h
  · split at h
    · cases List.mem_singleton.1 h
      cases hrole
    · cases h
  · rcases List.mem_append.1 h with h | h
    · obtain ⟨file, -, rfl⟩ := Option.map_eq_some_iff.1 (Option.mem_toList.1 h)
      cases hrole
    · rcases List.mem_append.1 h with h | h
      · obtain ⟨file, -, rfl⟩ := Option.map_eq_some_iff.1 (Option.mem_toList.1 h)
        cases hrole
      · obtain ⟨file, -, rfl⟩ := Option.map_eq_some_iff.1 (Option.mem_toList.1 h)
        cases hrole

/-- The volumes among the outputs. -/
theorem volume_mem_iff {base : Path} {layout : SplitLayout} {contents : List (List UInt8)} {files : ParityFiles}
    {index : Nat} {primary : Bool} {path : Path} {content : List UInt8} :
    ⟨path, .volume index primary, content⟩ ∈ volumeOutputs base contents ++
        sidecarOutputs base layout (contents.getLastD []) files ↔
      contents[index]? = some content ∧ path = volumePath base (index + 1) ∧ primary = decide (index = 0) := by
  rw [List.mem_append, mem_volumeOutputs]
  constructor
  · rintro (⟨k, content', hk, heq⟩ | h)
    · cases heq
      exact ⟨hk, rfl, rfl⟩
    · exact absurd rfl (sidecarOutputs_role h index primary)
  · rintro ⟨hcontent, rfl, rfl⟩
    exact .inl ⟨index, content, hcontent, rfl⟩

/-- The volumes that are present, by their indexes. -/
theorem Remains.present {disk : Disk} {base : Path} {layout : SplitLayout} {contents : List (List UInt8)}
    {files : ParityFiles} {missing : Nat → Bool} (hbase : (fileName base).isSome = true)
    (h : Remains disk base (volumeOutputs base contents ++ sidecarOutputs base layout (contents.getLastD []) files) missing)
    {index : Nat} {path : Path} : (index, path) ∈ (presentVolumes disk base).toList ↔
      missing index = false ∧ path = volumePath base index ∧ ∃ k content, index = k + 1 ∧ contents[k]? = some content ∧
        disk.nodes path = some (.file content) := by
  constructor
  · intro hin
    obtain ⟨name, hname, rfl⟩ := presentVolumes_entry hin
    obtain ⟨hmissing, rfl, primary, path', content, hout⟩ := h.only index name hname
    obtain ⟨hcontent, rfl, -⟩ := volume_mem_iff.1 hout
    have hindex : index = index - 1 + 1 := by
      have := volumeEntries_index_pos hname
      omega
    have hfile := h.files _ _ _ _ hout (hindex ▸ hmissing)
    refine ⟨hmissing, (volumePath_eq hbase index).symm, index - 1, content, hindex, hcontent, ?_⟩
    rw [← volumePath_eq hbase index]
    rwa [← hindex] at hfile
  · rintro ⟨hmissing, rfl, k, content, rfl, hcontent, -⟩
    have hentry := h.listed _ _ _ _ (volume_mem_iff.2 ⟨hcontent, rfl, rfl⟩) hmissing
    refine presentVolumes_mem.2 ⟨volumeName base (k + 1), lookup_of_unique (List.mem_reverse.2 hentry) ?_, volumePath_eq hbase _⟩
    intro name hname
    exact (h.only _ name (List.mem_reverse.1 hname)).2.1

/-! ## Headers -/

theorem volumeContent_sqzv {layout : SplitLayout} {uuid : Uuid} {archive content : List UInt8} {index : Nat}
    (hsqzv : layout.writeSqzv = true) (h : volumeContent layout (some uuid) archive index = .ok content) :
    ∃ header, sqzvHeader index layout.count uuid = .ok header ∧ content = header ++ volumeData layout archive index := by
  rw [volumeContent, if_pos hsqzv] at h
  obtain ⟨header, hheader, h⟩ := bind_eq_ok.1 h
  cases h
  exact ⟨header, hheader, rfl⟩

/-- The headers of the volumes of one set that are present. -/
def headersOf (total : Nat) (uuid : Uuid) (present : List (Nat × Path)) : List (Nat × SqzvHeader) :=
  (present.map fun (index, _) => (index, ⟨index, total, uuid⟩)).reverse

theorem scanHeaders_eq {nodes : Nodes} {total : Nat} {uuid : Uuid} {present : List (Nat × Path)}
    (hpresent : ∀ volume ∈ present, ∃ file, nodes volume.2 = some (.file file) ∧
      readSqzvHeader file = .ok (some ⟨volume.1, total, uuid⟩)) (headers : List (Nat × SqzvHeader)) :
    scanHeaders nodes ⟨headers, some total, some uuid⟩ present =
      .ok ⟨headersOf total uuid present ++ headers, some total, some uuid⟩ := by
  induction present generalizing headers with
  | nil => rfl
  | cons volume present ih =>
    obtain ⟨index, path⟩ := volume
    obtain ⟨file, hfile, hheader⟩ := hpresent _ List.mem_cons_self
    rw [scanHeaders, Nodes.openFile, hfile, ok_bind, hheader, ok_bind]
    dsimp only
    rw [if_neg (not_not.2 rfl), if_neg (by simp), if_neg (by simp), Option.getD_some, Option.getD_some,
      ih fun volume h => hpresent volume (List.mem_cons_of_mem _ h), headersOf, headersOf, List.map_cons,
      List.reverse_cons, List.append_assoc]
    rfl

theorem scanHeaders_start {nodes : Nodes} {total : Nat} {uuid : Uuid} {present : List (Nat × Path)} (hne : present ≠ [])
    (hpresent : ∀ volume ∈ present, ∃ file, nodes volume.2 = some (.file file) ∧
      readSqzvHeader file = .ok (some ⟨volume.1, total, uuid⟩)) :
    scanHeaders nodes ⟨[], none, none⟩ present = .ok ⟨headersOf total uuid present, some total, some uuid⟩ := by
  cases present with
  | nil => exact absurd rfl hne
  | cons volume present =>
    obtain ⟨index, path⟩ := volume
    obtain ⟨file, hfile, hheader⟩ := hpresent _ List.mem_cons_self
    rw [scanHeaders, Nodes.openFile, hfile, ok_bind, hheader, ok_bind]
    dsimp only
    rw [if_neg (not_not.2 rfl), if_neg (by simp), if_neg (by simp)]
    have hrest := scanHeaders_eq (fun volume h => hpresent volume (List.mem_cons_of_mem _ h)) [(index, ⟨index, total, uuid⟩)]
    refine hrest.trans ?_
    rw [headersOf, headersOf, List.map_cons, List.reverse_cons]

theorem lookup_headersOf {total : Nat} {uuid : Uuid} {present : List (Nat × Path)} (index : Nat) :
    (headersOf total uuid present).lookup index =
      if index ∈ present.map Prod.fst then some ⟨index, total, uuid⟩ else none := by
  have hall : ∀ header, (index, header) ∈ headersOf total uuid present → header = ⟨index, total, uuid⟩ := by
    intro header hin
    obtain ⟨volume, -, heq⟩ := List.mem_map.1 (List.mem_reverse.1 hin)
    cases heq
    rfl
  split
  · rename_i hin
    obtain ⟨volume, hvolume, rfl⟩ := List.mem_map.1 hin
    exact lookup_of_unique (List.mem_reverse.2 (List.mem_map.2 ⟨volume, hvolume, rfl⟩)) hall
  · rename_i hnot
    rw [List.lookup_eq_none_iff]
    rintro ⟨i, header⟩ hin
    obtain ⟨volume, hvolume, heq⟩ := List.mem_map.1 (List.mem_reverse.1 hin)
    cases heq
    refine bne_iff_ne.2 fun hi => hnot ?_
    exact hi ▸ List.mem_map.2 ⟨volume, hvolume, rfl⟩

/-- Volumes of one set are put together by their indexes. -/
theorem collectSqzvVolumeSet_eq {nodes : Nodes} {base : Path} {total : Nat} {uuid : Uuid} {present : List (Nat × Path)}
    (hne : present ≠ []) (hpresent : ∀ volume ∈ present, ∃ file, nodes volume.2 = some (.file file) ∧
      readSqzvHeader file = .ok (some ⟨volume.1, total, uuid⟩)) (hpos : 0 < total) (hmax : total ≤ maxSplitVolumeCount)
    (hindex : ∀ volume ∈ present, volume.1 ≤ total) :
    collectSqzvVolumeSet nodes base present =
      sqzvSet nodes base present ⟨headersOf total uuid present, some total, some uuid⟩ total uuid >>= fun set =>
        (List.range' 1 total).mapM (sqzvPart nodes base set) >>= fun parts => .ok (some parts) := by
  rw [collectSqzvVolumeSet, scanHeaders_start hne hpresent, ok_bind]
  dsimp only
  rw [if_neg (Nat.pos_iff_ne_zero.1 hpos), if_neg (Nat.not_lt.2 hmax), if_neg]
  · rfl
  · rw [List.any_eq_true]
    rintro ⟨⟨index, header⟩, hin, hlt⟩
    obtain ⟨volume, hvolume, heq⟩ := List.mem_map.1 (List.mem_reverse.1 hin)
    cases heq
    exact absurd (of_decide_eq_true hlt) (Nat.not_lt.2 (hindex volume hvolume))

/-! ## What is found of a set -/

/-- The volumes of a set that are not missing, as they are found. -/
structure Found (nodes : Nodes) (base : Path) (present : List (Nat × Path)) (layout : SplitLayout) (uuid : Uuid)
    (archive : List UInt8) (missing : Nat → Bool) : Prop where
  file : ∀ index, 0 < index → index ≤ layout.count → missing index = false →
    ∃ header, sqzvHeader index layout.count uuid = .ok header ∧
      nodes (volumePath base index) = some (.file (header ++ volumeData layout archive index))
  mem : ∀ index path, (index, path) ∈ present ↔
    path = volumePath base index ∧ 0 < index ∧ index ≤ layout.count ∧ missing index = false

theorem Written.volume {base : Path} {volumeSize : Nat} {layout : SplitLayout} {uuid : Uuid} {archive : List UInt8}
    {contents : List (List UInt8)} {files : ParityFiles}
    (h : Written base volumeSize layout (some uuid) archive contents files) (hsqzv : layout.writeSqzv = true) {k : Nat}
    (hk : k < layout.count) : ∃ header, sqzvHeader (k + 1) layout.count uuid = .ok header ∧
      contents[k]? = some (header ++ volumeData layout archive (k + 1)) := by
  obtain ⟨written, hwritten, -⟩ := h.rounds
  obtain ⟨hlen, hcontents, -⟩ := writeVolumes_eq_ok hwritten
  have hget : contents[k]? = some contents[k] := List.getElem?_eq_getElem (hlen ▸ hk)
  have hcontent := hcontents k _ hget
  rw [Nat.add_comm 1 k] at hcontent
  obtain ⟨header, hheader, heq⟩ := volumeContent_sqzv hsqzv hcontent
  exact ⟨header, hheader, by rw [hget, heq]⟩

theorem Remains.found {disk : Disk} {base : Path} {volumeSize : Nat} {layout : SplitLayout} {uuid : Uuid}
    {archive : List UInt8} {contents : List (List UInt8)} {files : ParityFiles} {missing : Nat → Bool}
    (hwritten : Written base volumeSize layout (some uuid) archive contents files) (hsqzv : layout.writeSqzv = true)
    (hbase : (fileName base).isSome = true)
    (h : Remains disk base (volumeOutputs base contents ++ sidecarOutputs base layout (contents.getLastD []) files) missing) :
    Found disk.nodes base (presentVolumes disk base).toList layout uuid archive missing := by
  have hlen : contents.length = layout.count := by
    obtain ⟨written, hrounds, -⟩ := hwritten.rounds
    exact (writeVolumes_eq_ok hrounds).1
  constructor
  · intro index hpos hle hmissing
    obtain ⟨k, rfl⟩ := Nat.exists_eq_add_one.2 hpos
    obtain ⟨header, hheader, hcontent⟩ := hwritten.volume hsqzv hle
    exact ⟨header, hheader, h.files _ _ _ _ (volume_mem_iff.2 ⟨hcontent, rfl, rfl⟩) hmissing⟩
  · intro index path
    rw [h.present hbase]
    constructor
    · rintro ⟨hmissing, rfl, k, content, rfl, hcontent, -⟩
      obtain ⟨hlt, -⟩ := List.getElem?_eq_some_iff.1 hcontent
      exact ⟨rfl, Nat.succ_pos k, by omega, hmissing⟩
    · rintro ⟨rfl, hpos, hle, hmissing⟩
      obtain ⟨k, rfl⟩ := Nat.exists_eq_add_one.2 hpos
      obtain ⟨header, -, hcontent⟩ := hwritten.volume hsqzv hle
      exact ⟨hmissing, rfl, k, _, rfl, hcontent, h.files _ _ _ _ (volume_mem_iff.2 ⟨hcontent, rfl, rfl⟩) hmissing⟩

section Found

variable {nodes : Nodes} {base : Path} {present : List (Nat × Path)} {layout : SplitLayout} {uuid : Uuid}
  {archive : List UInt8} {missing : Nat → Bool}

theorem Found.indexes (h : Found nodes base present layout uuid archive missing) {index : Nat} :
    index ∈ present.map Prod.fst ↔ 0 < index ∧ index ≤ layout.count ∧ missing index = false := by
  rw [List.mem_map]
  constructor
  · rintro ⟨⟨index, path⟩, hmem, rfl⟩
    exact ((h.mem _ _).1 hmem).2
  · intro hindex
    exact ⟨(index, volumePath base index), (h.mem _ _).2 ⟨rfl, hindex⟩, rfl⟩

theorem Found.headers (h : Found nodes base present layout uuid archive missing) (huuid : UuidFits uuid) :
    ∀ volume ∈ present, ∃ file, nodes volume.2 = some (.file file) ∧
      readSqzvHeader file = .ok (some ⟨volume.1, layout.count, uuid⟩) := by
  rintro ⟨index, path⟩ hmem
  obtain ⟨rfl, hpos, hle, hmissing⟩ := (h.mem _ _).1 hmem
  obtain ⟨header, hheader, hfile⟩ := h.file index hpos hle hmissing
  exact ⟨_, hfile, readSqzvHeader_sqzvHeader huuid hheader _⟩

/-- The header of a volume that is present is known, and of one that is missing none. -/
theorem Found.lookup (h : Found nodes base present layout uuid archive missing) {index : Nat} (hpos : 0 < index)
    (hle : index ≤ layout.count) : (headersOf layout.count uuid present).lookup index =
      if missing index then none else some ⟨index, layout.count, uuid⟩ := by
  rw [lookup_headersOf]
  cases hmissing : missing index with
  | false => rw [if_pos (h.indexes.2 ⟨hpos, hle, hmissing⟩), if_neg (by decide)]
  | true =>
    rw [if_neg, if_pos rfl]
    intro hin
    have := (h.indexes.1 hin).2.2
    rw [hmissing] at this
    cases this

end Found

end Squallz.Volumes
