/-
What a selective extraction of a 7z archive does: each selected entry is called back once, at its own data, and accounted for
once, and only blocks with data that are asked for are decoded.

A run is led by its pass, from a run that has come past nothing to one that has come past every file; that only such blocks are
decoded is seen from two decoders that differ in the others.
-/
import Squallz.Extract.Accounting
import Squallz.SevenZ.Passes

namespace Squallz.SevenZ

open Squallz.Api Squallz.Bytes Squallz.System Squallz.Extract

/-! ## Blocks that are set up -/

section Decoders

variable {D S W H I : Type} {dec : Decoder D} {env : Environment W H I} {opts : ExtractOptions}
  {passwordSupplied : Bool} {archive : Archive} {wanted : Option (List (List UInt8))} {plans : List EntryReadPlan}
  {fromNtTime : UInt64 → SystemTime} {check : Prog S Fault Unit} (new : Nat → Except FormatError D)

theorem drainFrom_new (left : Nat) : drainFrom { dec with new } check left = drainFrom dec check left := by
  induction left with
  | zero => rfl
  | succ left ih =>
    unfold drainFrom
    rw [ih]
    rfl

theorem readTargetFrom_new (left : Nat) (target : List UInt8) :
    readTargetFrom { dec with new } check left target = readTargetFrom dec check left target := by
  induction left generalizing target with
  | zero => rfl
  | succ left ih =>
    unfold readTargetFrom
    simp only [ih]
    rfl

theorem copyEntry_new {tolerant : Bool} {buffer : Nat} {entry : EntryMeta} {staged : DestPath} {handle : H}
    {entryStart : UInt64} (left : Nat) (written : UInt64) :
    copyEntry { dec with new } env tolerant buffer entry staged handle entryStart left written =
      copyEntry dec env tolerant buffer entry staged handle entryStart left written := by
  induction left generalizing written with
  | zero => rfl
  | succ left ih =>
    unfold copyEntry
    simp only [ih]
    rfl

theorem writeEntry_new {tolerant : Bool} {entry : EntryMeta} {outPath : DestPath} :
    writeEntry { dec with new } env opts passwordSupplied tolerant entry outPath =
      writeEntry dec env opts passwordSupplied tolerant entry outPath := by
  unfold writeEntry stageEntry
  simp only [copyEntry_new]

theorem skipEntryStream_new {plan : EntryReadPlan} :
    skipEntryStream { dec with new } env opts passwordSupplied plan = skipEntryStream dec env opts passwordSupplied plan := by
  unfold skipEntryStream drainEntry
  simp only [drainFrom_new]

theorem decodeEntries_new {each : Nat → Reading S D Bool} (files : List Nat) :
    decodeEntries { dec with new } archive each files = decodeEntries dec archive each files := by
  induction files with
  | nil => rfl
  | cons i rest ih =>
    unfold decodeEntries
    rw [ih]
    rfl

theorem decodeBlock_new {each : Nat → Reading S D Bool} {block : Nat} (h : new block = dec.new block) :
    decodeBlock { dec with new } archive each block = decodeBlock dec archive each block := by
  unfold decodeBlock
  simp only [decodeEntries_new, h]

theorem visitBlocks_new {each : Nat → Reading S D Bool} {asked : List Nat} (h : ∀ block ∈ asked, new block = dec.new block)
    (includeMetadata : Bool) (blocks : List Nat) :
    visitBlocks { dec with new } archive each (some asked) includeMetadata blocks =
      visitBlocks dec archive each (some asked) includeMetadata blocks := by
  induction blocks with
  | nil => rfl
  | cons block blocks ih =>
    unfold visitBlocks
    rw [ih]
    by_cases hasked : block ∈ asked
    · rw [decodeBlock_new new (h block hasked)]
    · have hnot : ((some asked).any fun asked => !asked.contains block) = true := by
        rw [Option.any_some, Bool.not_eq_true', Bool.eq_false_iff, ne_eq, List.contains_iff_mem]
        exact hasked
      rw [if_pos hnot, if_pos hnot]

variable [DecidableEq I]

theorem extractLink_new {entry : EntryMeta} {plan : EntryReadPlan} :
    extractLink { dec with new } env opts passwordSupplied entry plan = extractLink dec env opts passwordSupplied entry plan := by
  unfold extractLink readSymlinkTarget
  simp only [readTargetFrom_new]

theorem extractCallback_new : extractCallback { dec with new } env opts passwordSupplied fromNtTime archive wanted plans =
    extractCallback dec env opts passwordSupplied fromNtTime archive wanted plans := by
  funext i
  unfold extractCallback extractEntry extractSelected extractFile
  simp only [writeEntry_new, skipEntryStream_new, extractLink_new]

theorem extractBlocks_new (hplans : buildEntryReadPlans archive wanted = .ok plans)
    (h : ∀ block ∈ dataBlocks archive opts wanted, new block = dec.new block) :
    extractBlocks { dec with new } env opts passwordSupplied fromNtTime archive wanted plans =
      extractBlocks dec env opts passwordSupplied fromNtTime archive wanted plans := by
  unfold extractBlocks visit
  rw [extractCallback_new, blocksOf_plans hplans, visitBlocks_new new h]

theorem ofExcept_congr {T E α β : Type} {r : Except E α} {f g : α → Prog T E β} (h : ∀ a, r = .ok a → f a = g a) :
    (Prog.ofExcept r >>= f) = (Prog.ofExcept r >>= g) := by
  cases r with
  | error fault => rfl
  | ok a => exact h a rfl

/-- The decoders of blocks whose data nobody asks for make no difference: none is set up. -/
theorem extract_new {dest : DestPath} {selection : Option (List EntryPath)}
    (h : ∀ block ∈ dataBlocks archive opts (selection.map fun paths => paths.map (·.raw)), new block = dec.new block) :
    extract { dec with new } env opts passwordSupplied fromNtTime archive dest selection =
      extract dec env opts passwordSupplied fromNtTime archive dest selection := by
  unfold extract
  by_cases hnothing : selection = some []
  · rw [if_pos hnothing, if_pos hnothing]
  · rw [if_neg hnothing, if_neg hnothing]
    refine ofExcept_congr fun total _ => ofExcept_congr fun plans hplans => ofExcept_congr fun remaining _ => ?_
    rw [extractBlocks_new new hplans h]

end Decoders

/-! ## The run -/

section Runs

variable {D W H I : Type} [DecidableEq I] {dec : Decoder D} {env : Environment W H I} {opts : ExtractOptions}
  {passwordSupplied : Bool} {archive : Archive} {wanted : Option (List (List UInt8))} {plans : List EntryReadPlan}
  {fromNtTime : UInt64 → SystemTime} {t : Extraction W H I × Source D}

/-- How a run ends: all selected files are accounted for if it has a report. -/
def Delivered (archive : Archive) (opts : ExtractOptions) (wanted : Option (List (List UInt8)))
    (r : Except Fault ExtractReport) (t : Extraction W H I × Source D) : Prop :=
  Halted archive opts wanted t.1.steps ∧
    ((∃ report, r = .ok report) → AllAccounted archive opts wanted t.1.steps (visitOrder archive))

omit [DecidableEq I] in
theorem delivered_of_error {fault : Fault} (h : Halted archive opts wanted t.1.steps) :
    Delivered archive opts wanted (.error fault) t := by
  refine ⟨h, ?_⟩
  rintro ⟨_, ⟨⟩⟩

theorem ends_extractBlocks (hlayout : archive.WellFormed) (hplans : buildEntryReadPlans archive wanted = .ok plans)
    (h : Running archive opts wanted [] (visitOrder archive) t.1.book) :
    Ends (extractBlocks dec env opts passwordSupplied fromNtTime archive wanted plans) (Delivered archive opts wanted) t := by
  unfold extractBlocks
  rw [blocksOf_plans hplans]
  refine ends_bind (ends_caught (ends_visit hlayout hplans h)) (fun result t₁ h₁ => ends_getExtraction ?_)
    fun _ _ h₁ => delivered_of_error h₁
  have hhalted : Halted archive opts wanted t₁.1.steps := by
    match result with
    | .ok () => exact Visited.halted h₁
    | .error error => exact h₁
  cases hfailure : t₁.1.failure with
  | some error => exact ends_fail (delivered_of_error hhalted)
  | none =>
    match result with
    | .error error => exact ends_fail (delivered_of_error hhalted)
    | .ok () =>
      rcases h₁ with hrunning | hstopped
      · refine Ends.mono (ends_onSink _ t₁) fun r t' ⟨hbook, _⟩ => ?_
        have hsteps : t'.1.steps = t₁.1.steps := congrArg Book.steps hbook
        unfold Delivered
        rw [hsteps]
        exact ⟨hhalted, fun _ => hrunning.accounted⟩
      · have : t₁.1.failure.isSome = true := hstopped.failure
        rw [hfailure] at this
        cases this

/-- A run that has not begun. -/
theorem halted_nil (archive : Archive) (opts : ExtractOptions) (wanted : Option (List (List UInt8))) :
    Halted archive opts wanted [] :=
  ⟨⟨List.nodup_nil, fun _ _ h => absurd h List.not_mem_nil, List.nodup_nil⟩, [], visitOrder archive, rfl,
    fun _ h => absurd h List.not_mem_nil, fun _ _ h => absurd h List.not_mem_nil⟩

theorem running_nil (hlayout : archive.WellFormed) {b : Book} (hfailure : b.failure = none) (hsteps : b.steps = [])
    (hremaining : PendingOf archive wanted archive.files.zipIdx b.remaining) :
    Running archive opts wanted [] (visitOrder archive) b := by
  have hselected : ∀ {entry i}, (entry, i) ∈ archive.files.zipIdx → archive.files[i]? = some entry := by
    intro entry i hmem
    obtain ⟨hi, hget⟩ := List.mem_zipIdx' hmem
    rw [List.getElem?_eq_getElem hi, hget]
  refine ⟨hfailure, rfl, ?_, fun _ h => absurd h List.not_mem_nil, fun i hi => ?_, fun i hi => ?_, ⟨?_, ?_, ?_⟩⟩
  · rw [hsteps]
    exact (halted_nil archive opts wanted).1
  · rw [hsteps] at hi
    exact hi
  · rw [hsteps] at hi
    exact hi
  · rintro i - ⟨entry, hentry, hwanted⟩ block hblock
    have hmem : (entry, i) ∈ archive.files.zipIdx := List.mem_zipIdx_iff_getElem?.2 hentry
    exact hremaining.complete entry i block hmem hwanted hblock
  · intro pending hp
    obtain ⟨hblock, entry, hmem, hwanted⟩ := hremaining.sound pending hp
    refine ⟨mem_visitOrder hlayout (List.mem_zipIdx' hmem).1, hblock, entry, hselected hmem, hwanted⟩
  · refine List.Nodup.sublist hremaining.sublist ?_
    rw [List.zipIdx_map_snd]
    exact List.nodup_range'

/-- The run of an extraction. -/
theorem ends_extract (hlayout : archive.WellFormed) (dest : DestPath) (selection : Option (List EntryPath))
    (hfailure : t.1.failure = none) (hsteps : t.1.steps = []) :
    Ends (extract dec env opts passwordSupplied fromNtTime archive dest selection)
      (Delivered archive opts (selection.map fun paths => paths.map (·.raw))) t := by
  generalize hwanted : selection.map (fun paths => paths.map (·.raw)) = wanted
  have hnone : Halted archive opts wanted t.1.steps := by
    rw [hsteps]
    exact halted_nil archive opts wanted
  unfold extract
  refine ends_ite (fun hnothing => ?_) fun _ => ?_
  · -- nothing is selected
    have hunselected : ∀ i, ¬ archive.Selected wanted i := by
      rintro i ⟨entry, -, hw⟩
      rw [← hwanted, hnothing] at hw
      cases hw
    refine Ends.mono (ends_onSink _ t) fun r t' ⟨hbook, _⟩ => ?_
    have hsteps' : t'.1.steps = t.1.steps := congrArg Book.steps hbook
    unfold Delivered
    rw [hsteps']
    exact ⟨hnone, fun _ i _ hselected => absurd hselected (hunselected i)⟩
  · dsimp only
    rw [hwanted]
    refine ends_ofExcept_bind (fun total _ => ?_) fun _ _ => delivered_of_error hnone
    refine ends_ofExcept_bind (fun plans hplans => ?_) fun _ _ => delivered_of_error hnone
    refine ends_ofExcept_bind (fun remaining hremaining => ?_) fun _ _ => delivered_of_error hnone
    have hpending := buildRemainingSelectedByBlock_spec (buildEntryReadPlans_spec hplans).2 hremaining
    refine ends_update (ends_bind (ends_onSink _ _) (fun _ t₁ ⟨hbook, _⟩ => ?_) fun _ t₁ ⟨hbook, _⟩ => ?_)
    · refine ends_extractBlocks hlayout hplans ?_
      rw [hbook]
      exact running_nil hlayout hfailure hsteps hpending
    · have hsteps' : t₁.1.steps = t.1.steps := congrArg Book.steps hbook
      refine delivered_of_error ?_
      rw [hsteps']
      exact hnone

omit [DecidableEq I] in
/-- Data that are asked for are looked for behind those of the files before them. -/
theorem placeOf_asked {i block : Nat} {entry : ArchiveEntry} (hentry : archive.files[i]? = some entry)
    (hasks : asksForData opts wanted entry = true) (hblock : archive.blockOf i = some block) :
    placeOf archive opts wanted i = some ⟨block, offsetOf archive block i, archive.sizeOf i⟩ := by
  have hmem : block ∈ dataBlocks archive opts wanted := by
    refine List.mem_filterMap.2 ⟨(entry, i), List.mem_zipIdx_iff_getElem?.2 hentry, ?_⟩
    dsimp only
    rw [if_pos hasks, hblock]
  unfold placeOf
  rw [hblock]
  dsimp only
  rw [if_pos hmem]

end Runs

/-! ## Selective streaming -/

section Streaming

variable {D W H I : Type} [DecidableEq I]

/-- Selective streaming: a file is called back at most once before a failure of the run, and then at its place, which is that of
its own data if they are asked for; it is delivered or has failed, at most once; all selected files that a run has come past, and
all of them where it has a report, are accounted for; only blocks with data that are asked for are decoded; and reads yield the
bytes of the block from the place on, within the size of the file. -/
theorem selective_streaming (dec : Decoder D) (env : Environment W H I) (opts : ExtractOptions) (passwordSupplied : Bool)
    (fromNtTime : UInt64 → SystemTime) (archive : Archive) (dest : DestPath) (selection : Option (List EntryPath))
    (t : Extraction W H I × Source D) (hlayout : archive.WellFormed) (hfailure : t.1.failure = none)
    (hsteps : t.1.steps = []) :
    let wanted := selection.map fun paths => paths.map (·.raw)
    let ended := (extract dec env opts passwordSupplied fromNtTime archive dest selection).run t
    let steps := ended.2.1.steps
    Regular archive opts wanted steps ∧
      (∀ i entry block, archive.files[i]? = some entry → asksForData opts wanted entry = true →
        archive.blockOf i = some block →
          placeOf archive opts wanted i = some ⟨block, offsetOf archive block i, archive.sizeOf i⟩) ∧
      (∃ past rest, visitOrder archive = past ++ rest ∧ AllAccounted archive opts wanted steps past ∧
        ∀ i place, .called i place false ∈ steps → i ∈ past ++ rest.take 1) ∧
      ((∃ report, ended.1 = .ok report) → ∀ i < archive.files.length, archive.Selected wanted i →
        Accounted archive opts wanted steps i ∨ LeftBehindLink archive opts wanted i) ∧
      (∀ new, (∀ block ∈ dataBlocks archive opts wanted, new block = dec.new block) →
        (extract { dec with new } env opts passwordSupplied fromNtTime archive dest selection).run t = ended) ∧
      ∀ (session : Session D) (remaining n : Nat) (bytes : List UInt8) (source : Source D),
        (Source.entry session remaining).read dec n = (.ok bytes, source) →
          bytes = slice (dec.data session.block) session.taken bytes.length ∧ bytes.length ≤ remaining ∧
            source.place = some ⟨session.block, session.taken + bytes.length, remaining - bytes.length⟩ := by
  intro wanted ended steps
  have hrun : Delivered archive opts wanted ended.1 ended.2 := ends_extract hlayout dest selection hfailure hsteps
  obtain ⟨⟨hregular, hhalted⟩, hall⟩ := hrun
  refine ⟨hregular, fun i entry block hentry hasks hblock => placeOf_asked hentry hasks hblock, hhalted,
    fun hreport i hi hselected => hall hreport i (mem_visitOrder hlayout hi) hselected, fun new hnew => ?_,
    fun session remaining n bytes source hread => ?_⟩
  · rw [extract_new new hnew]
  · obtain ⟨decoder, hbytes, -, hle, rfl, -⟩ := Source.read_entry hread
    exact ⟨hbytes, hle, rfl⟩

def plainEntry (name : String) (size : UInt64) : ArchiveEntry := ⟨name, false, size ≠ 0, size, 0, none, none, none⟩

/-- Two files in the first block, an empty one, and one in the second block. -/
def sampleArchive : Archive where
  files := [plainEntry "a" 3, plainEntry "b" 2, plainEntry "c" 0, plainEntry "d" 1]
  blocks := [⟨[.other]⟩, ⟨[.other]⟩]
  fileBlockIndex := [some 0, some 0, none, some 1]
  blockFirstFileIndex := [0, 3]

/-- A decoder that holds what remains of the entry it was turned to. -/
def sampleDecoder (archive : Archive) (sound : Nat → Bool) : Decoder Nat where
  data block := if block = 0 then [1, 2, 3, 4, 5] else [6]
  new block := if sound block then .ok 0 else .error (.unsupported "unsupported compression method")
  toEntry i _ := archive.sizeOf i
  read left n := (.ok (min left n), left - min left n)

def freshRun (opts : ExtractOptions) : Extraction Unit Unit Unit × Source Nat :=
  (⟨.start () 0 opts.limits [], [], none, []⟩, .empty)

theorem sampleArchive_wellFormed : sampleArchive.WellFormed where
  assigned i hi := by
    match i, hi with
    | 0, _ => exact ⟨_, rfl, by decide⟩
    | 1, _ => exact ⟨_, rfl, by decide⟩
    | 2, _ => exact ⟨_, rfl, by decide⟩
    | 3, _ => exact ⟨_, rfl, by decide⟩
  contiguous block hblock := by
    match block, hblock with
    | 0, _ => exact ⟨0, rfl, by decide, by decide⟩
    | 1, _ => exact ⟨3, rfl, by decide, by decide⟩
  directories i entry hentry hdirectory := by
    match i, hentry with
    | 0, rfl => cases hdirectory
    | 1, rfl => cases hdirectory
    | 2, rfl => cases hdirectory
    | 3, rfl => cases hdirectory

/-- The second file and the empty one are selected: the first one is drained, and the second block is not set up. -/
theorem selective_streaming_sample :
    let ended := (extract (sampleDecoder sampleArchive (· = 0)) (willing []) unlimited false
      (fun _ => ⟨0, 0, by decide, by decide, by decide⟩) sampleArchive [] (some [.fromUtf8 "b", .fromUtf8 "c"])).run
        (freshRun unlimited)
    ended.2.1.steps = [.called 0 (some ⟨0, 0, 3⟩) false, .called 1 (some ⟨0, 3, 2⟩) false, .delivered 1,
        .called 3 none false, .called 2 none false, .delivered 2] ∧
      Accounted sampleArchive unlimited (some [utf8Bytes "b", utf8Bytes "c"]) ended.2.1.steps 1 := by
  intro ended
  have hreport : ∃ report, ended.1 = .ok report := by
    have hok : ended.1.isOk = true := by decide +kernel
    generalize ended.1 = result at hok
    cases result with
    | ok report => exact ⟨report, rfl⟩
    | error fault => cases hok
  refine ⟨by decide +kernel, ?_⟩
  have hall := (selective_streaming (sampleDecoder sampleArchive (· = 0)) (willing []) unlimited false
    (fun _ => ⟨0, 0, by decide, by decide, by decide⟩) sampleArchive [] (some [.fromUtf8 "b", .fromUtf8 "c"])
    (freshRun unlimited) sampleArchive_wellFormed rfl rfl).2.2.2.1 hreport 1 (by decide)
      ⟨plainEntry "b" 2, rfl, by decide +kernel⟩
  exact hall.resolve_right fun h => Bool.false_ne_true h.1

def tolerant : ExtractOptions := { unlimited with bestEffort := true }

/-- A file with an unsafe name in the first block, and two files in the second one. -/
def unsafeNameArchive : Archive where
  files := [plainEntry "../a" 1, plainEntry "b" 1, plainEntry "c" 1]
  blocks := [⟨[.other]⟩, ⟨[.other]⟩]
  fileBlockIndex := [some 0, some 1, some 1]
  blockFirstFileIndex := [0, 1]

theorem unsafeNameArchive_wellFormed : unsafeNameArchive.WellFormed where
  assigned i hi := by
    match i, hi with
    | 0, _ => exact ⟨_, rfl, by decide⟩
    | 1, _ => exact ⟨_, rfl, by decide⟩
    | 2, _ => exact ⟨_, rfl, by decide⟩
  contiguous block hblock := by
    match block, hblock with
    | 0, _ => exact ⟨0, rfl, by decide, by decide⟩
    | 1, _ => exact ⟨1, rfl, by decide, by decide⟩
  directories i entry hentry hdirectory := by
    match i, hentry with
    | 0, rfl => cases hdirectory
    | 1, rfl => cases hdirectory
    | 2, rfl => cases hdirectory

/-- In best-effort mode an error that is not tolerated ends the run: a selected file of the second block, in which nothing has
failed, is not called back. -/
theorem not_called_behind_error :
    let ended := (extract (sampleDecoder unsafeNameArchive fun _ => true) (willing []) tolerant false
      (fun _ => ⟨0, 0, by decide, by decide, by decide⟩) unsafeNameArchive [] none).run (freshRun tolerant)
    unsafeNameArchive.WellFormed ∧ tolerant.bestEffort = true ∧ unsafeNameArchive.Selected none 2 ∧
      ended.2.1.steps = [.called 0 (some ⟨0, 0, 1⟩) false, .called 1 (some ⟨1, 0, 1⟩) true] ∧
      2 ∉ calledFiles ended.2.1.steps := by
  intro ended
  have hsteps : ended.2.1.steps = [.called 0 (some ⟨0, 0, 1⟩) false, .called 1 (some ⟨1, 0, 1⟩) true] := by decide +kernel
  refine ⟨unsafeNameArchive_wellFormed, rfl, ⟨plainEntry "c" 1, rfl, rfl⟩, hsteps, ?_⟩
  rw [hsteps]
  decide

end Streaming

end Squallz.SevenZ
