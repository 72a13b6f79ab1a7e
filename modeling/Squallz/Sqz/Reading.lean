/-
Reading entries: what a consumer gets for any sequence of reads, and which entries of an opened
container can be read.
-/
import Squallz.Sqz.Opening

namespace Squallz.Sqz

open Squallz.Api Squallz.Bytes Squallz.Erasure

/-! ## Reads -/

/-- Every read inside the range from `lo` returns the next bytes of `content`, at least one. -/
def SqzSource.Serves (source : SqzSource) (lo : Nat) (content : List UInt8) : Prop :=
  ∀ pos bufLen pick, lo ≤ pos → 0 < bufLen → pos + bufLen ≤ lo + content.length →
    ∃ n, 0 < n ∧ n ≤ bufLen ∧ source.read pos bufLen pick = .ok (slice content (pos - lo) n)

/-- Every sequence of reads returns a prefix of `content`, all of it once there are enough reads with
room in their buffers, and leaves what it has not returned. -/
def EntryData.Yields (data : EntryData) (content : List UInt8) : Prop :=
  ∀ schedule, ∃ n rest, data.drain schedule = .ok (content.take n, rest) ∧ n ≤ content.length ∧
    min content.length (schedule.countP (0 < ·.1)) ≤ n ∧ rest.remaining = content.length - n

/-- One read of an entry's data. -/
theorem read_of_serves {source : SqzSource} {lo : Nat} {content : List UInt8}
    (h : source.Serves lo content) {k : Nat} (hk : k ≤ content.length) (bufLen pick : Nat) :
    ∃ n, k + n ≤ content.length ∧ min (content.length - k) (if 0 < bufLen then 1 else 0) ≤ n ∧
      (⟨source, lo + k, content.length - k⟩ : EntryData).read bufLen pick =
        .ok (slice content k n, ⟨source, lo + k + n, content.length - k - n⟩) := by
  unfold EntryData.read
  by_cases hend : content.length - k = 0 ∨ bufLen = 0
  · refine ⟨0, by omega, ?_, ?_⟩
    · split <;> omega
    · rw [if_pos hend, slice_zero]
      rfl
  · obtain ⟨n, hpos, hle, hread⟩ := h (lo + k) (min (content.length - k) bufLen) pick (by omega) (by omega)
      (by omega)
    have hlen : (slice content k n).length = n := length_slice_of_le (by omega)
    have hne : slice content k n ≠ [] := by
      intro hnil
      rw [hnil, List.length_nil] at hlen
      omega
    refine ⟨n, by omega, by split <;> omega, ?_⟩
    rw [if_neg hend, hread, ok_bind, Nat.add_sub_cancel_left, if_neg hne, hlen]
    rfl

/-- A range that is served is read completely and correctly. -/
theorem yields_of_serves {source : SqzSource} {lo : Nat} {content : List UInt8}
    (h : source.Serves lo content) : (⟨source, lo, content.length⟩ : EntryData).Yields content := by
  have key : ∀ (schedule : List (Nat × Nat)) (k : Nat), k ≤ content.length → ∃ n, k + n ≤ content.length ∧
      min (content.length - k) (schedule.countP (0 < ·.1)) ≤ n ∧
      (⟨source, lo + k, content.length - k⟩ : EntryData).drain schedule =
        .ok (slice content k n, ⟨source, lo + k + n, content.length - k - n⟩) := by
    intro schedule
    induction schedule with
    | nil =>
      intro k hk
      exact ⟨0, hk, by simp, by rw [slice_zero]; rfl⟩
    | cons call schedule ih =>
      intro k hk
      obtain ⟨n, hn, hmin, hread⟩ := read_of_serves h hk call.1 call.2
      obtain ⟨m, hm, hmin', hdrain⟩ := ih (k + n) (by omega)
      refine ⟨n + m, by omega, ?_, ?_⟩
      · rw [List.countP_cons]
        by_cases hbuf : 0 < call.1
        · simp only [hbuf, decide_true, if_true] at hmin ⊢
          omega
        · simp only [hbuf, decide_false, Bool.false_eq_true, if_false] at hmin ⊢
          omega
      · rw [EntryData.drain, hread, ok_bind]
        have e₁ : lo + k + n = lo + (k + n) := by omega
        have e₂ : content.length - k - n = content.length - (k + n) := by omega
        have e₃ : lo + (k + n) + m = lo + k + (n + m) := by omega
        have e₄ : content.length - (k + n) - m = content.length - k - (n + m) := by omega
        simp only [e₁, e₂, hdrain, ok_bind, pure_eq_ok, e₃, e₄, slice_add]
  intro schedule
  obtain ⟨n, hn, hmin, hdrain⟩ := key schedule 0 (Nat.zero_le _)
  refine ⟨n, ⟨source, lo + n, content.length - n⟩, ?_, by omega, by omega, rfl⟩
  simpa only [Nat.add_zero, Nat.sub_zero, slice, List.drop_zero] using hdrain

/-! ## Sources of an opened container -/

/-- Whether the data of a record overlaps payload block `i`. -/
def PendingRecord.Overlaps (record : PendingRecord) (payloadStart i : Nat) : Prop :=
  ∃ k, k < record.dataSize ∧ (record.dataOffset - payloadStart + k) / blockSize = i

namespace Container

variable {P : Primitives} {c : Container P} {src payload' : List UInt8}
  {repaired : List (Nat × List UInt8)} {unrepaired : List Nat}

/-- A block that is not unrepaired has its original bytes, from the repair or on the file. -/
theorem block_cases (hf : Filed c.opts.parityShards c.payload payload'
      (divCeil (blockCountOf c.payload) dataShards) repaired unrepaired)
    (hl : payload'.length = c.payload.length) {i : Nat} (hi : i ∉ unrepaired) :
    repaired.lookup i = some (block blockSize c.payload i) ∨
      repaired.lookup i = none ∧ block blockSize payload' i = block blockSize c.payload i := by
  have hlook := hf.repaired i
  by_cases hd : damagedBlock c.payload payload' i
  · have hgroup : i / dataShards < divCeil (blockCountOf c.payload) dataShards := by
      rw [lt_divCeil (by decide)]
      exact lt_of_le_of_lt (Nat.div_mul_le_self i dataShards) (lt_of_damagedBlock hl hd)
    have hfit : damagedIn c.payload payload' (i / dataShards) ≤ c.opts.parityShards := by
      by_contra hover
      exact hi ((hf.unrepaired i).2 ⟨hgroup, hd, by omega⟩)
    rw [if_pos ⟨hgroup, hd, hfit⟩] at hlook
    exact Or.inl hlook
  · rw [if_neg fun h => hd h.2.1] at hlook
    exact Or.inr ⟨hlook, by simpa [damagedBlock] using hd⟩

/-- A range of the payload without unrepaired blocks is served with its original bytes. -/
theorem serves_opened (hlen : src.length = c.bytes.length) (hp : PayloadIs c src payload')
    (hf : Filed c.opts.parityShards c.payload payload' (divCeil (blockCountOf c.payload) dataShards)
      repaired unrepaired) {lo n : Nat} (hlo : c.payloadStart ≤ lo)
    (hhi : lo + n ≤ c.payloadStart + c.payload.length)
    (hgood : ∀ k, k < n → (lo - c.payloadStart + k) / blockSize ∉ unrepaired) :
    (c.opened src repaired unrepaired).source.Serves lo (slice c.payload (lo - c.payloadStart) n) := by
  have hend : c.payloadStart + c.payload.length ≤ src.length := by
    have := footer_lt hlen
    have hparts : c.footerOffset = c.payloadStart + c.payload.length + c.recoverySection.length +
      c.index.length := rfl
    omega
  -- the file has the original byte wherever no repaired block covers it
  have hsame : ∀ pos m, lo ≤ pos → pos + m ≤ lo + n →
      (∀ j, j < m → repaired.lookup ((pos - c.payloadStart + j) / blockSize) = none) →
      slice src pos m = slice c.payload (pos - c.payloadStart) m := by
    intro pos m hpos hm hnone
    have hread : slice src pos m = slice payload' (pos - c.payloadStart) m := by
      rw [← hp.reads, slice_slice (by omega)]
      congr 1
      omega
    rw [hread]
    apply slice_congr
    intro j hj hj'
    apply getElem?_of_block blockSize_pos
    have hn := hnone (j - (pos - c.payloadStart)) (by omega)
    have hg := hgood (j - (lo - c.payloadStart)) (by omega)
    rw [show pos - c.payloadStart + (j - (pos - c.payloadStart)) = j by omega] at hn
    rw [show lo - c.payloadStart + (j - (lo - c.payloadStart)) = j by omega] at hg
    rcases block_cases hf hp.length_eq hg with h | h
    · rw [hn] at h
      cases h
    · exact h.2
  intro pos bufLen pick hpos hbuf hfit
  rw [length_slice_of_le (by omega)] at hfit
  have hcontent : ∀ m, pos + m ≤ lo + n → slice (slice c.payload (lo - c.payloadStart) n) (pos - lo) m =
      slice c.payload (pos - c.payloadStart) m := by
    intro m hm
    rw [slice_slice (by omega)]
    congr 1
    omega
  unfold opened SqzSource.read
  by_cases hnil : repaired = []
  · refine ⟨min bufLen (max pick 1), by omega, by omega, ?_⟩
    simp only [hnil, if_true]
    rw [sourceRead, hsame pos _ hpos (by omega) (fun j _ => by rw [hnil]; rfl), hcontent _ (by omega)]
  · simp only [hnil, if_false, recovered]
    -- the range lies in the payload, so a read stays in one block
    set relative := pos - c.payloadStart with hrelative
    have hmod : relative % blockSize < blockSize := Nat.mod_lt _ blockSize_pos
    have hdiv : relative / blockSize * blockSize + relative % blockSize = relative := Nat.div_add_mod' _ _
    set want := min (min (c.payload.length - relative) (min (src.length - pos) bufLen))
      (blockSize - relative % blockSize) with hwant
    have hblock : ∀ j, j < want → (relative + j) / blockSize = relative / blockSize := by
      intro j hj
      rw [Nat.div_eq_iff blockSize_pos]
      omega
    have hin : relative / blockSize ∉ unrepaired := by
      have := hgood (pos - lo) (by omega)
      rwa [show lo - c.payloadStart + (pos - lo) = relative by omega] at this
    unfold recoveredRead
    simp only
    rw [if_neg (by omega), if_neg (by omega), if_neg (by omega), ← hrelative, ← hwant, if_neg hin]
    cases hlook : repaired.lookup (relative / blockSize) with
    | some bytes =>
      have hbytes : bytes = block blockSize c.payload (relative / blockSize) := by
        rcases block_cases hf hp.length_eq hin with h | h
        · rw [hlook] at h
          exact Option.some.inj h
        · rw [hlook] at h
          cases h.1
      have hlenb : bytes.length = min blockSize (c.payload.length - relative / blockSize * blockSize) := by
        rw [hbytes, block, length_slice]
      refine ⟨want, by omega, by omega, ?_⟩
      simp only
      rw [if_neg (by omega), hcontent _ (by omega), hbytes, block, slice_slice (by omega), hdiv]
    | none =>
      refine ⟨min want (max pick 1), by omega, by omega, ?_⟩
      simp only
      rw [sourceRead, hsame pos _ hpos (by omega) (fun j hj => by rw [hblock j (by omega)]; exact hlook),
        hcontent _ (by omega)]

end Container

/-! ## Entries and unrepaired blocks -/

/-- The blocks of a range are those between its first and its last. -/
theorem exists_div_eq_iff {start size b i : Nat} (hb : 0 < b) (hs : 0 < size) :
    (∃ k, k < size ∧ (start + k) / b = i) ↔ start / b ≤ i ∧ i ≤ (start + (size - 1)) / b := by
  constructor
  · rintro ⟨k, hk, rfl⟩
    exact ⟨Nat.div_le_div_right (by omega), Nat.div_le_div_right (by omega)⟩
  · rintro ⟨hlo, hhi⟩
    rcases Nat.eq_or_lt_of_le hlo with h | h
    · exact ⟨0, hs, h⟩
    · rw [Nat.div_lt_iff_lt_mul hb] at h
      rw [Nat.le_div_iff_mul_le hb] at hhi
      exact ⟨i * b - start, by omega, by rw [Nat.add_sub_cancel' (by omega), Nat.mul_div_cancel _ hb]⟩

/-- The blocks of a file record that has data. -/
theorem recordBlocks_opened {P : Primitives} {c : Container P} {src : List UInt8}
    {repaired : List (Nat × List UInt8)} {unrepaired : List Nat} {r : PendingRecord} (hr : r ∈ c.records)
    (hfile : r.entryMeta.entryType = .file) :
    (c.opened src repaired unrepaired).recordBlocks r.readBack =
      if r.dataSize = 0 then none
      else some ((r.dataOffset - c.payloadStart) / blockSize,
        (r.dataOffset - c.payloadStart + (r.dataSize - 1)) / blockSize) := by
  have hlo : ¬ r.dataOffset < c.payloadStart := Nat.not_lt.2 (c.files_inside r hr hfile).1
  have hlast : ¬ 2 ^ 64 ≤ r.dataOffset - c.payloadStart + (r.dataSize - 1) := by
    have := (c.records_fit r hr).end_lt
    omega
  show (if r.dataSize = 0 then none
    else if r.dataOffset < c.payloadStart then none
    else if 2 ^ 64 ≤ r.dataOffset - c.payloadStart + (r.dataSize - 1) then none else some _) = _
  rw [if_neg hlo, if_neg hlast]
  rfl

/-- The check of `read_entry` finds exactly the records that overlap an unrepaired block. -/
theorem recordHasUnrepairedBlock_iff {P : Primitives} {c : Container P} {src : List UInt8}
    {repaired : List (Nat × List UInt8)} {unrepaired : List Nat} {r : PendingRecord} (hr : r ∈ c.records)
    (hfile : r.entryMeta.entryType = .file) :
    (c.opened src repaired unrepaired).recordHasUnrepairedBlock r.readBack = true ↔
      ∃ i ∈ unrepaired, r.Overlaps c.payloadStart i := by
  unfold EntrySetSqzReader.recordHasUnrepairedBlock PendingRecord.Overlaps
  rw [recordBlocks_opened hr hfile]
  by_cases hsize : r.dataSize = 0
  · simp [hsize]
  · simp only [if_neg hsize, Container.opened, Container.recovered, List.any_eq_true, Bool.and_eq_true,
      decide_eq_true_eq, exists_div_eq_iff blockSize_pos (Nat.pos_of_ne_zero hsize)]

/-- Looking up related lists by tests that agree finds related elements. -/
theorem find?_forall₂ {α β : Type} {R : α → β → Prop} {p : α → Bool} {q : β → Bool}
    (hpq : ∀ a b, R a b → q b = p a) {as : List α} {bs : List β} (h : List.Forall₂ R as bs) {a : α}
    (ha : as.find? p = some a) : ∃ b ∈ bs, bs.find? q = some b ∧ R a b := by
  induction h with
  | nil => cases ha
  | @cons x y as bs hxy _ ih =>
    rw [List.find?_cons] at ha ⊢
    rw [hpq x y hxy]
    split at ha
    · cases ha
      exact ⟨y, List.mem_cons_self, rfl, hxy⟩
    · obtain ⟨b, hb, hfind, hab⟩ := ih ha
      exact ⟨b, List.mem_cons_of_mem _ hb, hfind, hab⟩

theorem find?_forall₂_none {α β : Type} {R : α → β → Prop} {p : α → Bool} {q : β → Bool}
    (hpq : ∀ a b, R a b → q b = p a) {as : List α} {bs : List β} (h : List.Forall₂ R as bs)
    (ha : as.find? p = none) : bs.find? q = none := by
  induction h with
  | nil => rfl
  | @cons x y as bs hxy _ ih =>
    rw [List.find?_cons] at ha ⊢
    rw [hpq x y hxy]
    split at ha
    · cases ha
    · exact ih ha

namespace Container

variable {P : Primitives} {c : Container P} {src payload' : List UInt8}
  {repaired : List (Nat × List UInt8)} {unrepaired : List Nat} {entries : List (EntryMeta × Option Body)}

/-- The listing of an opened container. -/
theorem entries_opened (h : List.Forall₂ (Stored P c.payloadStart c.payload) entries c.records) :
    (c.opened src repaired unrepaired).entries =
      entries.map fun entry => keptMeta entry.1 (if entry.1.entryType = .file then entry.1.size.toNat else 0) := by
  simp only [EntrySetSqzReader.entries, opened, List.map_map]
  generalize c.records = records at h
  induction h with
  | nil => rfl
  | @cons entry record _ _ hs _ ih =>
    rw [List.map_cons, List.map_cons, ih]
    congr 1
    simp only [Function.comp_apply, PendingRecord.readBack, hs.entryMeta]
    split
    · rename_i hfile
      obtain ⟨_, _, hsize, _⟩ := hs.file hfile
      rw [hsize]
    · rename_i hfile
      rw [(hs.nonFile hfile).2.1]

/-- The record behind the path of a file entry. -/
theorem find_opened (src : List UInt8) (repaired : List (Nat × List UInt8)) (unrepaired : List Nat)
    (h : List.Forall₂ (Stored P c.payloadStart c.payload) entries c.records) {path : EntryPath}
    {entry : EntryMeta × Option Body} (hfind : entries.find? (fun e => e.1.path.raw == path.raw) = some entry) :
    ∃ r ∈ c.records, Stored P c.payloadStart c.payload entry r ∧
      (c.opened src repaired unrepaired).records.find? (fun record => record.entryMeta.path.raw == path.raw) =
        some r.readBack := by
  obtain ⟨r, hr, hfound, hs⟩ := find?_forall₂ (q := fun r : PendingRecord => r.entryMeta.path.raw == path.raw)
    (fun a b hab => by rw [hab.entryMeta]) h hfind
  refine ⟨r, hr, hs, ?_⟩
  rw [opened, List.find?_map]
  exact congrArg (Option.map PendingRecord.readBack) hfound

theorem find_opened_none (src : List UInt8) (repaired : List (Nat × List UInt8)) (unrepaired : List Nat)
    (h : List.Forall₂ (Stored P c.payloadStart c.payload) entries c.records) {path : EntryPath}
    (hfind : entries.find? (fun e => e.1.path.raw == path.raw) = none) :
    (c.opened src repaired unrepaired).records.find? (fun record => record.entryMeta.path.raw == path.raw) = none := by
  have hnone := find?_forall₂_none (q := fun r : PendingRecord => r.entryMeta.path.raw == path.raw)
    (fun a b hab => by rw [hab.entryMeta]) h hfind
  rw [opened, List.find?_map]
  exact congrArg (Option.map PendingRecord.readBack) hnone

/-- Reading a stored file none of whose blocks is unrepaired. -/
theorem readEntry_ok (hlen : src.length = c.bytes.length) (hp : PayloadIs c src payload')
    (hf : Filed c.opts.parityShards c.payload payload' (divCeil (blockCountOf c.payload) dataShards)
      repaired unrepaired) {path : EntryPath} {entryMeta : EntryMeta} {body : Body} {r : PendingRecord}
    (hr : r ∈ c.records) (hs : Stored P c.payloadStart c.payload (entryMeta, some body) r)
    (hfile : entryMeta.entryType = .file)
    (hfind : (c.opened src repaired unrepaired).records.find?
      (fun record => record.entryMeta.path.raw == path.raw) = some r.readBack)
    (hgood : ∀ i ∈ unrepaired, ¬ r.Overlaps c.payloadStart i) :
    ∃ data, (c.opened src repaired unrepaired).readEntry path = .ok data ∧ data.Yields (Body.bytes body) := by
  obtain ⟨body', hbody, -, hsize, hlo, hhi, hslice, -, -⟩ := hs.file hfile
  cases hbody
  have hrfile : r.entryMeta.entryType = .file := by rw [hs.entryMeta, hfile]
  have hclear : ¬ (c.opened src repaired unrepaired).recordHasUnrepairedBlock r.readBack = true := by
    rw [recordHasUnrepairedBlock_iff hr hrfile]
    rintro ⟨i, hi, hover⟩
    exact hgood i hi hover
  have hserves := serves_opened (n := r.dataSize) hlen hp hf hlo hhi fun k hk hmem => hgood _ hmem ⟨k, hk, rfl⟩
  rw [hslice] at hserves
  refine ⟨⟨(c.opened src repaired unrepaired).source, r.dataOffset, r.dataSize⟩, ?_, ?_⟩
  · unfold EntrySetSqzReader.readEntry
    simp only [hfind]
    rw [if_neg (fun h => h hrfile), if_neg hclear]
    rfl
  · rw [hsize]
    exact yields_of_serves hserves

/-- Reading a stored file that overlaps an unrepaired block. -/
theorem readEntry_damaged {path : EntryPath} {r : PendingRecord} (hr : r ∈ c.records)
    (hfile : r.entryMeta.entryType = .file)
    (hfind : (c.opened src repaired unrepaired).records.find?
      (fun record => record.entryMeta.path.raw == path.raw) = some r.readBack)
    {i : Nat} (hi : i ∈ unrepaired) (hover : r.Overlaps c.payloadStart i) :
    ∃ message, (c.opened src repaired unrepaired).readEntry path = corrupt message := by
  unfold EntrySetSqzReader.readEntry
  simp only [hfind]
  rw [if_neg (fun h => h hfile), if_pos ((recordHasUnrepairedBlock_iff hr hfile).2 ⟨i, hi, hover⟩)]
  exact ⟨_, rfl⟩

end Container

end Squallz.Sqz
