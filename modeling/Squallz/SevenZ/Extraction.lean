/-
The extraction of a 7z archive: one pass over its blocks, in which the callback writes the entries that are selected, reads
past those that are not, and in best-effort mode records what a damaged block holds.
-/
import Squallz.Extract.Entries
import Squallz.SevenZ.Reader

namespace Squallz.SevenZ

open Squallz.Api Squallz.Bytes Squallz.System Squallz.Extract

/-! ## The state of a run -/

/-- An entry of a block that is still to come: `RemainingSelectedByBlock`, in the order of the files. -/
structure Pending where
  block : Nat
  fileIndex : Nat
  entry : EntryMeta

/-- Where a callback finds the data of its entry: in a block, behind the bytes that were taken, up to its size. -/
structure Place where
  block : Nat
  taken : Nat
  remaining : Nat
deriving DecidableEq

/-- What the callbacks of a run do: they are called, after a failure without any effect; the data of an entry cannot be read,
which is passed over; and an entry is delivered or recorded as failed. -/
inductive Step
  | called (file : Nat) (place : Option Place) (ignored : Bool)
  | broken (file : Nat)
  | delivered (file : Nat)
  | failed (file : Nat)
deriving DecidableEq

structure Extraction (W H I : Type) where
  sink : Extract.State W H I
  remaining : List Pending
  failure : Option FormatError
  steps : List Step

def Source.place {D : Type} : Source D → Option Place
  | .empty => none
  | .entry session remaining => some ⟨session.block, session.taken, remaining⟩

section

variable {D W H I : Type}

abbrev Extracting (D W H I α : Type) := Reading (Extraction W H I) D α

def sinkPart : Part (Extraction W H I) (Extract.State W H I) where
  get s := s.sink
  set sink s := { s with sink }
  get_set _ _ := rfl
  set_set _ _ _ := rfl
  set_get _ := rfl

def onSink {α : Type} (p : Run W H I α) : Extracting D W H I α := onState (p.within sinkPart)

def getExtraction : Extracting D W H I (Extraction W H I) := .step id fun t => .ret t.1

def modifyExtraction (f : Extraction W H I → Extraction W H I) : Extracting D W H I Unit :=
  .update fun t => (f t.1, t.2)

def Extraction.record (step : Step) (s : Extraction W H I) : Extraction W H I := { s with steps := s.steps ++ [step] }

def record (step : Step) : Extracting D W H I Unit := modifyExtraction (.record step)

/-- What a destructor does when a part of the callback fails. -/
def cleanUp {α : Type} (cleanup : Run W H I Unit) (body : Extracting D W H I α) : Extracting D W H I α := do
  match ← body.attempt with
  | .ok a => pure a
  | .error fault => do
    let _ ← (onSink cleanup).attempt
    .fail fault

variable (dec : Decoder D) (env : Environment W H I) (opts : ExtractOptions) (passwordSupplied : Bool)

def control : Prog (Extraction W H I) Fault Unit := (checkpoint env).within sinkPart

/-! ## Files -/

/-- What `write_file` does with the bytes of a read. -/
def takeBytes (entry : EntryMeta) (staged : DestPath) (handle : H) (entryStart written : UInt64) (bytes : List UInt8) :
    Run W H I UInt64 := do
  let written ← charge fun accountant => accountant.addEntryOutputBytes entry written (.ofNat bytes.length)
  call (env.writeAll handle bytes)
  log (.wrote staged bytes)
  addDone (.ofNat bytes.length)
  let sink ← getSink
  reportProgress entry.path (some (min (saturatingSub sink.done entryStart) entry.size, entry.size))
  pure written

/-- The loop of `write_file`: the bytes that were written, or the error of a read. Where no failed read may be passed over,
the reader has a checkpoint of its own. -/
def copyEntry (tolerant : Bool) (buffer : Nat) (entry : EntryMeta) (staged : DestPath) (handle : H) (entryStart : UInt64) :
    Nat → UInt64 → Extracting D W H I (Except FormatError UInt64)
  | 0, _ => .fail unfinished
  | left + 1, written => do
    onSink (checkpoint env)
    onSink (if tolerant then pure () else checkpoint env)
    match ← readSource dec buffer with
    | .error error => pure (.error (.ofIo error))
    | .ok bytes =>
      if bytes = [] then pure (.ok written)
      else do
        let written ← onSink (takeBytes env entry staged handle entryStart written bytes)
        copyEntry tolerant buffer entry staged handle entryStart left written

/-- How `write_file` goes on behind a failed read, which may be passed over, or behind the last one. -/
def finishEntry (tolerant : Bool) (entry : EntryMeta) (outPath staged : DestPath) (handle : H) (replaceExisting : Bool)
    (copied : Except FormatError UInt64) : Run W H I (Option UInt64) :=
  match copied with
  | .error error =>
    let error := classifyEntryReadError error entry.encrypted passwordSupplied
    if tolerant && bestEffortRecoverable error then do
      recordProblem
      pure none
    else .fail (.raised error)
  | .ok written => do
    checkpoint env
    restoreFile env opts handle entry
    commit env staged outPath replaceExisting .file
    pure (some written)

def stageEntry (tolerant : Bool) (entry : EntryMeta) (outPath staged : DestPath) (handle : H) (replaceExisting : Bool)
    (entryStart : UInt64) : Extracting D W H I (Option UInt64) := do
  let buffer ← .ofExcept (streamBufferSize opts copyChunk)
  let source ← getSource
  let copied ← copyEntry dec env tolerant buffer entry staged handle entryStart source.reads 0
  onSink (finishEntry env opts passwordSupplied tolerant entry outPath staged handle replaceExisting copied)

/-- What is written down when an entry has been published. -/
def recordWritten (entry : EntryMeta) (outPath : DestPath) (resolved : ResolvedOutput) (written : UInt64) :
    Run W H I Unit := do
  modifySink (addMaterializedFile entry outPath)
  modifyReport (.addMaterialized resolved.materialization written)

def prepareEntry (entry : EntryMeta) (outPath : DestPath) : Run W H I (UInt64 × ResolvedOutput × DestPath × H) := do
  let sink ← getSink
  let resolved ← takePendingOutput outPath
  let (staged, handle) ← createPending env outPath (some entry)
  pure (sink.done, resolved, staged, handle)

/-- `write_entry` and `write_entry_best_effort`: whether the entry was written. -/
def writeEntry (tolerant : Bool) (entry : EntryMeta) (outPath : DestPath) : Extracting D W H I Bool := do
  let (entryStart, resolved, staged, handle) ← onSink (prepareEntry env entry outPath)
  let written ← cleanUp (discard env staged)
    (stageEntry dec env opts passwordSupplied tolerant entry outPath staged handle resolved.replaceExisting entryStart)
  match written with
  | none => do
    onSink (discard env staged)
    pure false
  | some written => do
    onSink (recordWritten entry outPath resolved written)
    pure true

/-! ## Failures of a block -/

/-- `record_best_effort_failure`. -/
def recordBestEffortFailure (entry : EntryMeta) : Run W H I Unit := do
  let _ ← admitEntry env entry
  recordProblem

def recordPending : List Pending → Extracting D W H I Unit
  | [] => pure ()
  | pending :: rest => do
    onSink (recordBestEffortFailure env pending.entry)
    record (.failed pending.fileIndex)
    recordPending rest

/-- `record_unprocessed_block_entries`, where the entry has a block. -/
def recordUnprocessedBlockEntries (plan : EntryReadPlan) : Extracting D W H I Unit := do
  record (.broken plan.fileIndex)
  match plan.blockIndex with
  | none => pure ()
  | some block => do
    let s ← getExtraction
    modifyExtraction fun s => { s with remaining := s.remaining.filter fun pending => pending.block ≠ block }
    recordPending env (s.remaining.filter fun pending => pending.block = block)

/-- `skip_entry_stream`. -/
def skipEntryStream (plan : EntryReadPlan) : Extracting D W H I Bool := do
  onSink (checkpoint env)
  if !plan.selectedLaterInBlock then pure plan.blockIndex.isNone
  else do
    match ← caught (mapError (fun error => classifyEntryReadError error plan.encrypted passwordSupplied)
      (drainEntry dec (control env))) with
    | .ok () => pure true
    | .error error =>
      if opts.bestEffort && bestEffortRecoverable error then do
        recordUnprocessedBlockEntries env plan
        pure false
      else .fail (.raised error)

/-! ## The callback -/

section Callback

variable [DecidableEq I]

/-- A link whose target is read from its data. -/
def extractLink (entry : EntryMeta) (plan : EntryReadPlan) : Extracting D W H I Bool := do
  match ← caught (mapError (fun error => classifyEntryReadError error entry.encrypted passwordSupplied)
    (readSymlinkTarget dec (control env))) with
  | .ok target => do
    onSink (writeMetaEntry env opts { entry with entryType := .symlink target })
    record (.delivered plan.fileIndex)
    pure true
  | .error error =>
    if opts.bestEffort && bestEffortRecoverable error then do
      onSink (recordBestEffortFailure env entry)
      record (.failed plan.fileIndex)
      recordUnprocessedBlockEntries env plan
      pure false
    else .fail (.raised error)

def extractFile (entry : EntryMeta) (plan : EntryReadPlan) : Extracting D W H I Bool := do
  match ← onSink (fileTarget env opts entry) with
  | none => do
    record (.delivered plan.fileIndex)
    skipEntryStream dec env opts passwordSupplied plan
  | some outPath => do
    if ← writeEntry dec env opts passwordSupplied opts.bestEffort entry outPath then do
      record (.delivered plan.fileIndex)
      pure true
    else do
      record (.failed plan.fileIndex)
      recordUnprocessedBlockEntries env plan
      pure false

def writeMeta (entry : EntryMeta) (plan : EntryReadPlan) : Extracting D W H I Unit := do
  onSink (writeMetaEntry env opts entry)
  record (.delivered plan.fileIndex)

def extractSelected (entry : EntryMeta) (plan : EntryReadPlan) : Extracting D W H I Bool :=
  match entry.entryType with
  | .symlink _ =>
    if opts.symlinks = .skip then do
      writeMeta env opts entry plan
      skipEntryStream dec env opts passwordSupplied plan
    else extractLink dec env opts passwordSupplied entry plan
  | .file => extractFile dec env opts passwordSupplied entry plan
  | _ => do
    writeMeta env opts entry plan
    pure true

variable (fromNtTime : UInt64 → SystemTime) (archive : Archive) (wanted : Option (List (List UInt8)))
  (plans : List EntryReadPlan)

def dropPending (plan : EntryReadPlan) (remaining : List Pending) : List Pending :=
  remaining.filter fun pending => !(plan.blockIndex = some pending.block && pending.fileIndex = plan.fileIndex)

/-- The callback behind its first check. -/
def extractEntry (i : Nat) : Extracting D W H I Bool :=
  match archive.files[i]?, plans[i]? with
  | some entry, some plan =>
    if isWanted wanted entry then do
      modifyExtraction fun s => { s with remaining := dropPending plan s.remaining }
      keepFailure (fun error s => { s with failure := some error })
        (extractSelected dec env opts passwordSupplied (metaOf fromNtTime entry plan.encrypted) plan)
    else keepFailure (fun error s => { s with failure := some error })
      (skipEntryStream dec env opts passwordSupplied plan)
  | _, _ => do
    modifyExtraction fun s => { s with failure := some missingPlan }
    pure false

def extractCallback (i : Nat) : Extracting D W H I Bool := do
  let s ← getExtraction
  let source ← getSource
  record (.called i source.place s.failure.isSome)
  if s.failure.isSome then pure false
  else extractEntry dec env opts passwordSupplied fromNtTime archive wanted plans i

/-! ## The run -/

/-- The data of these entries are read. -/
def asksForData (entry : ArchiveEntry) : Bool := isWanted wanted entry && !(isSymlink entry && opts.symlinks = .skip)

/-- `build_remaining_selected_by_block`. -/
def buildRemainingSelectedByBlock : List (ArchiveEntry × Nat) → Res (List Pending)
  | [] => .ok []
  | (entry, i) :: rest =>
    if !isWanted wanted entry then buildRemainingSelectedByBlock rest
    else
      match plans[i]? with
      | none => raise missingPlan
      | some plan => do
        let later ← buildRemainingSelectedByBlock rest
        pure (match plan.blockIndex with
          | some block => ⟨block, plan.fileIndex, metaOf fromNtTime entry plan.encrypted⟩ :: later
          | none => later)

/-- The pass over the blocks, and what comes behind it. -/
def extractBlocks : Extracting D W H I ExtractReport := do
  let result ← caught (visit dec archive (extractCallback dec env opts passwordSupplied fromNtTime archive wanted plans)
    (some (blocksOf archive plans (asksForData opts wanted))) true)
  let s ← getExtraction
  match s.failure with
  | some error => .fail (.raised error)
  | none =>
    match result with
    | .error error => .fail (.raised error)
    | .ok () => onSink (finish env opts)

end Callback

variable [DecidableEq I] (fromNtTime : UInt64 → SystemTime) (archive : Archive)

/-- `extract`. -/
def extract (dest : DestPath) (selection : Option (List EntryPath)) : Extracting D W H I ExtractReport :=
  if selection = some [] then onSink (emptyExtractReport dest)
  else do
    let wanted := selection.map fun paths => paths.map (·.raw)
    let total ← .ofExcept ((totalledSizes archive wanted).foldlM addU64 0)
    let plans ← .ofExcept (buildEntryReadPlans archive wanted)
    let remaining ← .ofExcept (buildRemainingSelectedByBlock fromNtTime wanted plans archive.files.zipIdx)
    modifyExtraction fun s => { s with remaining }
    onSink (ExtractSink.new env opts dest (.ofNat total))
    extractBlocks dec env opts passwordSupplied fromNtTime archive wanted plans

end

end Squallz.SevenZ
